import WeakSubscription.Proofs.Execution.HeapTypes
import WeakSubscription.Proofs.Verification.Shape

/-!
# The types of values in verified frames

In a verified frame every value conforms to what the verifier knows about its slot, as long as the fields
that it reads and the calls that it makes give conforming values. Types are compared by name, as verifier
and machine do, and the three bases that every reference can be seen as take any value.
-/

namespace WeakSubscription

open Execution Verification

variable {program : Program} {caller : Caller} {i : Instruction} {frame frame' : Activation}
  {static : Verification.Frame} {stack : Stack} {s s' : Machine}

/-! ### Conforming values -/

/-- The type that a value has at run time. Null has none. -/
def Machine.runtimeType? (m : Machine) : Value → Option Ty
  | .null => none
  | .object r => m.typeOf? r
  | .delegate d => some d.type
  | .methodPointer _ => some .intPtr

/-- The names of the types as which every value can be seen. -/
def universalNames : List String := ["System.Object", "System.Delegate", "System.MulticastDelegate"]

/-- Whether a value conforms to a slot. -/
def Conforms (s : Machine) (v : Value) : Slot → Prop
  | .null => v = .null
  | .value t =>
    v = .null ∨ t.fullName ∈ universalNames ∨
      (s.runtimeType? v).any (fun actual => decide (actual.SameName t)) = true

theorem mem_universalNames {t : Ty} (universal : t.isUniversalBase = true) :
    t.fullName ∈ universalNames := by
  unfold Ty.isUniversalBase at universal
  rw [Bool.or_eq_true, Bool.or_eq_true] at universal
  obtain (object | delegate) | multicast := universal
  · rw [beq_iff_eq.mp object]
    decide
  · cases t with
    | named n =>
      rw [beq_iff_eq.mp delegate]
      decide
    | _ => cases delegate
  · cases t with
    | named n =>
      rw [beq_iff_eq.mp multicast]
      decide
    | _ => cases multicast

theorem conforms_of_runtimeType {v : Value} {t actual : Ty} (typed : s.runtimeType? v = some actual)
    (same : actual.SameName t) : Conforms s v (.value t) := by
  refine .inr (.inr ?_)
  rw [typed, Option.any_some]
  exact decide_eq_true same

theorem Conforms.later {v : Value} {slot : Slot} (conforms : Conforms s v slot)
    (keeps : Machine.KeepsTypes s s') : Conforms s' v slot := by
  cases slot with
  | null => exact conforms
  | value t =>
    obtain null | universal | typed := conforms
    · exact .inl null
    · exact .inr (.inl universal)
    · obtain ⟨actual, found, same⟩ := (Option.any_eq_true _ _).mp typed
      refine conforms_of_runtimeType ?_ (of_decide_eq_true same)
      cases v with
      | null => exact found
      | object r => exact keeps r actual found
      | delegate d => exact found
      | methodPointer token => exact found

/-- Assignment and casts keep conformance. -/
theorem conforms_respected : Respected Conforms where
  assigned := by
    intro s v slot t conforms assignable
    cases slot with
    | null => exact .inl conforms
    | value t' =>
      rw [Slot.assignable, Bool.or_eq_true, Bool.and_eq_true] at assignable
      obtain same | ⟨-, universal⟩ := assignable
      · have same : t'.fullName = t.fullName := of_decide_eq_true same
        obtain null | universal | typed := conforms
        · exact .inl null
        · exact .inr (.inl (same ▸ universal))
        · obtain ⟨actual, found, fits⟩ := (Option.any_eq_true _ _).mp typed
          exact conforms_of_runtimeType found ((of_decide_eq_true fits).trans same)
      · exact .inr (.inl (mem_universalNames universal))
  null := fun _ => rfl
  pointer := fun _ _ => conforms_of_runtimeType rfl rfl
  cast := by
    intro s v t w casts
    have seen : ∀ {v : Value} {actual : Ty}, s.runtimeType? v = some actual →
        (if actual.SameName t ∨ t.isUniversalBase = true then pure v
          else throw (.fault (.invalidCast actual t)) : Except Error Value) = .ok w →
        Conforms s w (.value t) := by
      intro v actual typed tested
      split at tested
      · rename_i allowed
        obtain rfl := Except.ok.inj tested
        obtain same | universal := allowed
        · exact conforms_of_runtimeType typed same
        · exact .inr (.inl (mem_universalNames universal))
      · cases tested
    cases v with
    | null =>
      obtain rfl := Except.ok.inj casts
      exact .inl rfl
    | delegate d => exact seen rfl casts
    | methodPointer token => cases casts
    | object r =>
      cases found : s.object r with
      | error e => simp only [Execution.cast, bind, Except.bind, Functor.map, Except.map, found,
          reduceCtorEq] at casts
      | ok o =>
        simp only [Execution.cast, bind, Except.bind, Functor.map, Except.map, found] at casts
        have typed : s.runtimeType? (.object r) = some o.type := Machine.typeOf?_of_object found
        exact seen typed casts

/-! ### Constructed values -/

theorem type_of_bindDelegate {t : Ty} {target pointer : Value} {d : Delegate}
    (bound : bindDelegate t target pointer = .ok d) : d.type = t := by
  cases target with
  | delegate d' => cases bound
  | methodPointer method => cases bound
  | null | object r =>
    cases pointer with
    | methodPointer method =>
      obtain rfl := Except.ok.inj bound
      rfl
    | null | object _ | delegate _ => cases bound

/-- A constructed value is of the declaring type: a delegate is made with it, and the constructor that is
run on a new object leaves the object its type. -/
theorem conforms_construct (keeps : CallsMove Machine.KeepsTypes caller) {token : Token} {target : CallTarget}
    {args : List Value} {v : Value}
    (built : construct program caller token target args s = .ok v s') :
    Conforms s' v (.value target.declaringType) := by
  unfold construct at built
  split at built
  · obtain ⟨⟨instance_, pointer⟩, s₁, -, later⟩ := Tracked.bind_eq_ok_iff.mp built
    obtain ⟨d, s₂, made, last⟩ := Tracked.bind_eq_ok_iff.mp later
    obtain ⟨bound, rfl⟩ := Tracked.lift_eq_ok_iff.mp made
    obtain ⟨rfl, rfl⟩ := EStateM.Result.ok.inj last
    have typed : s₂.runtimeType? (.delegate d) = some target.declaringType :=
      congrArg some (type_of_bindDelegate bound)
    exact conforms_of_runtimeType typed rfl
  · split at built
    · obtain ⟨r, s₁, allocated, later⟩ := Tracked.bind_eq_ok_iff.mp built
      obtain ⟨result, s₂, called, last⟩ := Tracked.bind_eq_ok_iff.mp later
      obtain ⟨rfl, rfl⟩ := EStateM.Result.ok.inj last
      have fresh : s₁.typeOf? r = some target.declaringType := Machine.typeOf?_of_alloc allocated
      exact conforms_of_runtimeType ((keeps _ _ _).of_ok called _ _ fresh) rfl
    · cases built

/-! ### Values from outside the frame -/

/-- The value on top of the frame behind an instruction conforms to the type. -/
def TopConforms (t : Ty) : EStateM.Result Error Machine Activation → Prop
  | .ok ⟨_, _, v :: _⟩ s => Conforms s v (.value t)
  | .ok ⟨_, _, []⟩ _ => True
  | .error _ _ => True

/-- What the instruction reads from a field conforms to the type of the field, and what a call gives back
conforms to the result type of its target, with nothing given back exactly for void. -/
def Supplied (program : Program) (caller : Caller) (i : Instruction) (frame : Activation)
    (s : Machine) : Prop :=
  match i.opcode with
  | .ldfld | .ldsfld =>
    match Execution.operand i >>= program.module.field with
    | .ok f => TopConforms f.ty (step program caller i frame s)
    | .error _ => True
  | .call | .callvirt =>
    match callSite program i frame with
    | .ok site =>
      match site.perform program caller s with
      | .ok result s' => ResultFits Conforms s' result site.target.signature.result
      | .error _ _ => True
    | .error _ => True
  | _ => True

theorem Supplied.read {token : Token} {f : Field} {v : Value} {below : List Value}
    (supplied : Supplied program caller i frame s) (op : i.opcode = .ldfld ∨ i.opcode = .ldsfld)
    (named : i.token? = some token) (found : program.module.field token = .ok f)
    (stepped : step program caller i frame s = .ok frame' s') (top : frame'.stack = v :: below) :
    Conforms s' v (.value f.ty) := by
  have field : (Execution.operand i >>= program.module.field) = .ok f := by
    rw [operand_of_token named]
    exact found
  have topmost : TopConforms f.ty (step program caller i frame s) := by
    obtain op | op := op <;> simpa only [Supplied, op, field] using supplied
  rw [stepped] at topmost
  obtain ⟨args, locals, values⟩ := frame'
  obtain rfl : values = v :: below := top
  exact topmost

theorem Supplied.called {site : CallSite} {result : Option Value}
    (supplied : Supplied program caller i frame s) (op : i.opcode = .call ∨ i.opcode = .callvirt)
    (found : callSite program i frame = .ok site)
    (performed : site.perform program caller s = .ok result s') :
    ResultFits Conforms s' result site.target.signature.result := by
  obtain op | op := op <;> simpa only [Supplied, op, found, performed] using supplied

theorem delivering_of_supplied (keeps : CallsMove Machine.KeepsTypes caller)
    (supplied : Supplied program caller i frame s) :
    Delivering Conforms program caller i frame s := by
  intro frame' s' stepped
  have types : Machine.KeepsTypes s s' := (Machine.lasting_keepsTypes.step keeps i frame s).of_ok stepped
  refine ⟨fun v slot conforms => conforms.later types, ?_, ?_, ?_⟩
  · intro token f v below op named found top
    exact supplied.read op named found stepped top
  · intro site op found
    obtain ⟨result, performed, pushed⟩ := step_call_ok op found stepped
    exact ⟨result, by rw [pushed], supplied.called op found performed⟩
  · intro site v below op found top
    obtain ⟨created, built, rfl⟩ := step_newobj_ok op found stepped
    obtain ⟨rfl, -⟩ := List.cons.inj top
    exact conforms_construct keeps built

/-! ### Whole bodies -/

theorem Verification.Fits.entry_conforms {row : Method} {args : List Value}
    (built : program.module.frameOf row = .ok static)
    (typed : List.Forall₂ (Conforms s) args (static.args.map .value)) :
    Fits Conforms s (entryFrame row args) static [] := by
  obtain ⟨-, locals, -, -⟩ := Module.frameOf_ok built
  refine ⟨.nil, typed, ?_⟩
  rw [entryFrame, locals, List.forall₂_map_left_iff, List.forall₂_map_right_iff, List.forall₂_same]
  exact fun v _ => .inl rfl

/-- The value that a store into a field takes off the stack conforms to the type of the field. -/
theorem Verification.Fits.stored (fits : Fits Conforms s frame static stack) {stack' : Stack}
    (same : static.module = program.module) (op : i.opcode = .stfld ∨ i.opcode = .stsfld)
    (checked : static.step i stack = .ok stack') {token : Token} {f : Field}
    (named : i.token? = some token) (found : program.module.field token = .ok f) :
    ∃ v below, frame.stack = v :: below ∧ Conforms s v (.value f.ty) := by
  have fitting : ∀ {f' : Field} {rest : Stack}, popInto .storedValue f'.ty stack = .ok rest →
      ∃ v below, frame.stack = v :: below ∧ Conforms s v (.value f'.ty) := by
    intro f' rest popped
    obtain ⟨slot, rfl, assignable⟩ := popInto_ok popped
    obtain ⟨v, values, conforms, -, top⟩ := List.forall₂_cons_right_iff.mp fits.stack
    exact ⟨v, values, top, conforms_respected.assigned conforms assignable⟩
  have this : ∀ {isStatic : Bool} {f' : Field} {owner : Ty},
      static.field i isStatic = .ok (f', owner) → f' = f := by
    intro isStatic f' owner accessed
    obtain ⟨token', named', found', -⟩ := Frame.field_ok accessed
    obtain rfl : token = token' := Option.some.inj (named.symm.trans named')
    rw [same] at found'
    exact Except.ok.inj (found'.symm.trans found)
  unfold Frame.step at checked
  obtain op | op := op
  · simp only [op] at checked
    obtain ⟨⟨f', owner⟩, accessed, popped⟩ := except_bind_eq_ok_iff.mp checked
    obtain ⟨middle, stored, -⟩ := except_bind_eq_ok_iff.mp popped
    obtain rfl := this accessed
    exact fitting stored
  · simp only [op] at checked
    obtain ⟨⟨f', owner⟩, accessed, stored⟩ := except_bind_eq_ok_iff.mp checked
    obtain rfl := this accessed
    exact fitting stored

/-- What a verified frame returns conforms to the result type. -/
theorem Verification.Fits.returned_conforms (fits : Fits Conforms s frame static stack)
    (checked : static.checkReturn stack = .ok ()) {result : Option Value}
    (given : Execution.returned static.result frame = .ok result) :
    ResultFits Conforms s result static.result := by
  unfold Execution.returned at given
  split at given
  · rename_i void
    obtain rfl := Except.ok.inj given
    exact void
  · rename_i value
    obtain ⟨slot, rfl, assignable⟩ := Frame.checkReturn_value checked value
    obtain ⟨v, values, conforms, -, top⟩ := List.forall₂_cons_right_iff.mp fits.stack
    rw [top] at given
    obtain rfl := Except.ok.inj given
    exact ⟨value, conforms_respected.assigned conforms assignable⟩

/-- A verified body that runs on arguments of their types has, in front of each instruction that it comes
to, values on its stack and in its locals that conform to what the verifier knows of them, as long as the
fields that were read and the calls that returned gave conforming values. What is stored into a field
then conforms to the type of the field, and what is returned to the result type. -/
theorem verified_frame_types {method : Token} {summary : Summary} {row : Method} {args : List Value}
    (verified : program.module.verify method = .ok summary)
    (found : program.module.method method = .ok row)
    (built : program.module.frameOf row = .ok static) (s₀ : Machine)
    (typed : List.Forall₂ (Conforms s₀) args (static.args.map .value)) (levels : Nat) :
    (∀ pre i rest, row.body.code = pre ++ i :: rest → ∀ frame s,
      runSteps program (callWithin program levels) pre (entryFrame row args) s₀ = .ok frame s →
      Throughout program (callWithin program levels) (Supplied program (callWithin program levels)) pre
        (entryFrame row args) s₀ →
      ∃ stack, static.steps pre [] = .ok stack ∧ List.Forall₂ (Conforms s) frame.stack stack ∧
        List.Forall₂ (Conforms s) frame.locals (row.body.locals.map fun v => .value v.ty) ∧
        (i.opcode = .stfld ∨ i.opcode = .stsfld → ∀ token f, i.token? = some token →
          program.module.field token = .ok f →
          ∃ v below, frame.stack = v :: below ∧ Conforms s v (.value f.ty)) ∧
        (i.opcode = .ret → ∃ result, returned row.result frame = .ok result ∧
          ResultFits Conforms s result row.result)) ∧
    (Throughout program (callWithin program levels) (Supplied program (callWithin program levels))
        row.body.code (entryFrame row args) s₀ → ∀ result s,
      runBody program (callWithin program levels) method row args s₀ = .ok result s →
      ResultFits Conforms s result row.result) := by
  obtain ⟨row', static', found', built', accepted, -⟩ := Module.verify_ok verified
  obtain rfl : row = row' := Except.ok.inj (found.symm.trans found')
  obtain rfl : static = static' := Except.ok.inj (built.symm.trans built')
  obtain ⟨same, locals, result, -⟩ := Module.frameOf_ok built
  have entry : Fits Conforms s₀ (entryFrame row args) static [] := .entry_conforms built typed
  have keeps := Machine.lasting_keepsTypes.callWithin program levels
  refine ⟨?_, ?_⟩
  · intro pre i rest split frame s ran supplied
    obtain ⟨stack, checked, -, fits, last, goesOn⟩ := entry.reached same conforms_respected
      (split ▸ accepted) (supplied.imp fun _ _ _ => delivering_of_supplied keeps) ran
    refine ⟨stack, checked, fits.stack, locals ▸ fits.locals, ?_, ?_⟩
    · intro op token f named foundField
      have op' : i.opcode ≠ .ret := by
        rintro ret
        rw [ret] at op
        exact op.elim nofun nofun
      obtain ⟨next, stepped⟩ := goesOn op'
      exact fits.stored same op stepped named foundField
    · intro op
      obtain ⟨value, given⟩ := fits.returned (last op).2
      rw [← result]
      exact ⟨value, given, fits.returned_conforms (last op).2 given⟩
  · intro supplied value s ran
    obtain ⟨pre, i, split, noReturn, op⟩ := Frame.code_of_checkCode accepted
    rw [split] at supplied
    rw [runBody_eq split noReturn op] at ran
    obtain ⟨frame, s₁, first, last⟩ := Tracked.bind_eq_ok_iff.mp ran
    obtain ⟨given, rfl⟩ := Tracked.lift_eq_ok_iff.mp last
    obtain ⟨before, -⟩ := supplied.split first
    obtain ⟨stack, -, -, fits, returns, -⟩ := entry.reached same conforms_respected
      (split ▸ accepted) (before.imp fun _ _ _ => delivering_of_supplied keeps) first
    rw [← result] at given ⊢
    exact fits.returned_conforms (returns op).2 given

open Relay in
theorem verified_frame_types_relay :
    relay.module.verify subscribe = .ok ⟨3, 8⟩ ∧
      relay.module.method subscribe = .ok subscribeRow ∧
      List.Forall₂ (Conforms start) args [.value (.named ⟨"App", "Relay"⟩), .value handler] ∧
      Throughout relay (callWithin relay 63) (Supplied relay (callWithin relay 63))
        subscribeRow.body.code (entryFrame subscribeRow args) start ∧
      ∀ result s, runBody relay (callWithin relay 63) subscribe subscribeRow args start = .ok result s →
        ResultFits Conforms s result .void := by
  have verified : relay.module.verify subscribe = .ok ⟨3, 8⟩ := by decide
  have found : relay.module.method subscribe = .ok subscribeRow := by decide
  have typed : List.Forall₂ (Conforms start) args
      [.value (.named ⟨"App", "Relay"⟩), .value handler] :=
    .cons (.inr (.inr (by decide))) (.cons (.inr (.inr (by decide))) .nil)
  have supplied : Throughout relay (callWithin relay 63) (Supplied relay (callWithin relay 63))
      subscribeRow.body.code (entryFrame subscribeRow args) start := by
    have void : Ty.named .delegate ≠ .void := nofun
    have universal : (Ty.named .delegate).fullName ∈ universalNames := by decide
    exact ⟨trivial, trivial, .inl rfl, trivial, ⟨void, .inr (.inl universal)⟩, trivial, trivial, trivial,
      trivial⟩
  obtain ⟨-, run⟩ := verified_frame_types verified found rfl start typed 63
  exact ⟨verified, found, typed, supplied, run supplied⟩

end WeakSubscription
