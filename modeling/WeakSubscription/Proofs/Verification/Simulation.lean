import Mathlib.Data.List.Forall2
import WeakSubscription.Proofs.Execution.Steps
import WeakSubscription.Proofs.Verification.Steps

/-!
# The verifier and the machine in lock step

A relation between values and slots is carried along a run: it holds of every value on the stack, in the
arguments and in the locals, whatever the relation is, as long as it is closed under what the rules do.
The relation that holds of everything gives the shape of frames, and conformance gives their types.
-/

namespace WeakSubscription.Verification

open Execution

/-- What a value may be said to satisfy for a slot, on a machine. -/
abbrev ValueRelation := Machine → Value → Slot → Prop

/-- A relation that the rules of instructions other than reads and calls keep. -/
structure Respected (R : ValueRelation) : Prop where
  assigned : ∀ {s v slot t}, R s v slot → slot.assignable t = true → R s v (.value t)
  null : ∀ s, R s .null .null
  pointer : ∀ s token, R s (.methodPointer token) (.value .intPtr)
  cast : ∀ {s v t w}, Execution.cast s v t = .ok w → R s w (.value t)

/-- What a call may give back for a result type: a value for every type but void. -/
def ResultFits (R : ValueRelation) (s : Machine) : Option Value → Ty → Prop
  | none, t => t = .void
  | some v, t => t ≠ .void ∧ R s v (.value t)

/-- What an executed instruction takes from outside its frame satisfies the relation. -/
structure Delivers (R : ValueRelation) (program : Program) (i : Instruction)
    (before after : Activation) (s' : Machine) : Prop where
  read : ∀ {token f v below}, i.opcode = .ldfld ∨ i.opcode = .ldsfld → i.token? = some token →
    program.module.field token = .ok f → after.stack = v :: below → R s' v (.value f.ty)
  called : ∀ {site}, i.opcode = .call ∨ i.opcode = .callvirt → callSite program i before = .ok site →
    ∃ result, after.stack = result.toList ++ site.below ∧
      ResultFits R s' result site.target.signature.result
  created : ∀ {site v below}, i.opcode = .newobj → constructSite program i before = .ok site →
    after.stack = v :: below → R s' v (.value site.target.declaringType)

/-- A running frame is as the verifier sees it: every value satisfies the relation for its slot. -/
structure Fits (R : ValueRelation) (s : Machine) (frame : Activation) (static : Frame)
    (stack : Stack) : Prop where
  stack : List.Forall₂ (R s) frame.stack stack
  args : List.Forall₂ (R s) frame.args (static.args.map .value)
  locals : List.Forall₂ (R s) frame.locals (static.locals.map fun v => .value v.ty)

variable {R : ValueRelation} {program : Program} {caller : Caller} {i : Instruction}
  {frame frame' : Activation} {static : Frame} {stack stack' : Stack} {s s' : Machine}

theorem forall₂_getElem? {α β : Type} {P : α → β → Prop} {l : List α} {l' : List β}
    (h : List.Forall₂ P l l') {k : Nat} {b : β} (read : l'[k]? = some b) :
    ∃ a, l[k]? = some a ∧ P a b := by
  induction h generalizing k with
  | nil => simp at read
  | cons first _ ih =>
    cases k with
    | zero => exact ⟨_, rfl, by simpa using (Option.some.inj read) ▸ first⟩
    | succ k => exact ih (by simpa using read)

theorem forall₂_set {α β : Type} {P : α → β → Prop} {l : List α} {l' : List β}
    (h : List.Forall₂ P l l') {k : Nat} {a : α} {b : β} (read : l'[k]? = some b) (new : P a b) :
    List.Forall₂ P (l.set k a) l' := by
  induction h generalizing k with
  | nil => simp at read
  | cons first later ih =>
    cases k with
    | zero => exact .cons (by simpa using (Option.some.inj read) ▸ new) later
    | succ k => exact .cons first (ih (by simpa using read))

theorem Fits.later (fits : Fits R s frame static stack)
    (kept : ∀ v slot, R s v slot → R s' v slot) : Fits R s' frame static stack :=
  ⟨fits.stack.imp kept, fits.args.imp kept, fits.locals.imp kept⟩

theorem Fits.push (fits : Fits R s frame static stack) {v : Value} {slot : Slot} (new : R s v slot) :
    Fits R s (frame.push v) static (slot :: stack) :=
  ⟨.cons new fits.stack, fits.args, fits.locals⟩

theorem Fits.withStack (fits : Fits R s frame static stack) {values : List Value}
    (new : List.Forall₂ (R s) values stack') :
    Fits R s { frame with stack := values } static stack' :=
  ⟨new, fits.args, fits.locals⟩

theorem Fits.argument (fits : Fits R s frame static stack) {t : Ty}
    (typed : static.argumentTy i = .ok t) :
    ∃ v, Execution.argument i frame = .ok v ∧ R s v (.value t) := by
  have slot : (static.args.map Slot.value)[(i.argument?.getD 255).toNat]? = some (.value t) := by
    rw [List.getElem?_map, Frame.argumentTy_ok typed, Option.map_some]
  obtain ⟨v, read, holds⟩ := forall₂_getElem? fits.args slot
  exact ⟨v, by simp only [Execution.argument, read], holds⟩

theorem Fits.localSlot (_ : Fits R s frame static stack) {t : Ty}
    (typed : static.localTy i = .ok t) :
    (static.locals.map fun v => Slot.value v.ty)[(i.local?.getD 255).toNat]? = some (.value t) := by
  obtain ⟨v, found, rfl⟩ := Frame.localTy_ok typed
  rw [List.getElem?_map, found, Option.map_some]

theorem Fits.localValue (fits : Fits R s frame static stack) {t : Ty}
    (typed : static.localTy i = .ok t) :
    ∃ v, Execution.localValue i frame = .ok v ∧ R s v (.value t) := by
  obtain ⟨v, read, holds⟩ := forall₂_getElem? fits.locals (fits.localSlot typed)
  exact ⟨v, by simp only [Execution.localValue, read], holds⟩

/-! ### What a frame does for a call -/

theorem operand_of_token {token : Token} (h : i.token? = some token) :
    Execution.operand i = .ok token := by
  simp only [Execution.operand, h]

/-- Where the verifier accepts a call, the frame has its operands: the machine only has to make it. -/
theorem Fits.callSite (fits : Fits R s frame static stack) (same : static.module = program.module)
    (checked : static.call i stack = .ok stack') :
    ∃ site below, Execution.callSite program i frame = .ok site ∧
      List.Forall₂ (R s) site.below below ∧ stack' = Frame.pushResult site.target below := by
  obtain ⟨token, target, slots, below, named, found, rfl, count, rfl⟩ := Frame.call_ok checked
  rw [same] at found
  have related := List.forall₂_drop_append _ _ _ fits.stack
  have height : slots.length ≤ frame.stack.length := by
    rw [fits.stack.length_eq, List.length_append]
    omega
  have enough : target.signature.params.length ≤ frame.stack.length := by
    rw [Frame.popped] at count
    omega
  have popped := popMany_of_le enough
  unfold Execution.callSite
  rw [operand_of_token named]
  generalize (frame.stack.take target.signature.params.length).reverse = args at popped
  cases inst : target.signature.hasThis with
  | false =>
    have exact : slots.length = target.signature.params.length := by
      simpa [Frame.popped, inst] using count
    refine ⟨⟨token, target, none, args, frame.stack.drop target.signature.params.length⟩, below,
      ?_, ?_, rfl⟩
    · simp only [bind, Except.bind, found, popped, inst, Bool.false_eq_true, if_false, pure, Except.pure]
    · rwa [exact] at related
  | true =>
    have exact : slots.length = target.signature.params.length + 1 := by
      simpa [Frame.popped, inst] using count
    cases left : frame.stack.drop target.signature.params.length with
    | nil =>
      have short := congrArg List.length left
      rw [List.length_drop, List.length_nil] at short
      omega
    | cons v lower =>
      have lower_eq : frame.stack.drop slots.length = lower := by
        rw [exact, ← List.drop_drop, left, List.drop_succ_cons, List.drop_zero]
      refine ⟨⟨token, target, some v, args, lower⟩, below, ?_, ?_, rfl⟩
      · simp only [bind, Except.bind, found, popped, inst, if_true, left, Execution.pop, Functor.map,
          Except.map, pure, Except.pure]
      · rwa [lower_eq] at related

theorem Fits.constructSite (fits : Fits R s frame static stack)
    (same : static.module = program.module) (checked : static.construct i stack = .ok stack') :
    ∃ site below, Execution.constructSite program i frame = .ok site ∧
      List.Forall₂ (R s) site.below below ∧ stack' = .value site.target.declaringType :: below := by
  obtain ⟨token, target, slots, below, named, found, rfl, count, rfl⟩ := Frame.construct_ok checked
  rw [same] at found
  have related := List.forall₂_drop_append _ _ _ fits.stack
  have height : slots.length ≤ frame.stack.length := by
    rw [fits.stack.length_eq, List.length_append]
    omega
  have enough : target.signature.params.length ≤ frame.stack.length := by omega
  have popped := popMany_of_le enough
  unfold Execution.constructSite
  rw [operand_of_token named]
  generalize (frame.stack.take target.signature.params.length).reverse = args at popped
  refine ⟨⟨token, target, none, args, frame.stack.drop target.signature.params.length⟩, below,
    ?_, ?_, rfl⟩
  · simp only [bind, Except.bind, found, popped, pure, Except.pure]
  · rwa [count] at related

/-! ### One instruction -/

/-- Where the verifier's rule succeeds and the machine executes the instruction, the frame behind it is
as the verifier sees it. -/
theorem Fits.step (fits : Fits R s frame static stack) (same : static.module = program.module)
    (respected : Respected R) (kept : ∀ v slot, R s v slot → R s' v slot)
    (delivers : Delivers R program i frame frame' s') (goesOn : i.opcode ≠ .ret)
    (checked : static.step i stack = .ok stack')
    (ran : Execution.step program caller i frame s = .ok frame' s') :
    Fits R s' frame' static stack' := by
  unfold Frame.step at checked
  unfold Execution.step at ran
  cases op : i.opcode with
  | ret => exact absurd op goesOn
  | nop =>
    simp only [op] at checked ran
    obtain rfl := except_pure_eq_ok_iff.mp checked
    obtain ⟨rfl, rfl⟩ := EStateM.Result.ok.inj ran
    exact fits
  -- the numbered forms and the short one name their index by the same function in both walks
  | ldarg0 | ldarg1 | ldarg2 | ldarg3 | ldargS =>
    simp only [op] at checked ran
    obtain ⟨t, typed, pushed⟩ := except_bind_eq_ok_iff.mp checked
    obtain rfl := except_pure_eq_ok_iff.mp pushed
    obtain ⟨v, read, holds⟩ := fits.argument typed
    rw [read] at ran
    obtain ⟨rfl, rfl⟩ := EStateM.Result.ok.inj ran
    exact fits.push holds
  | ldloc0 | ldloc1 | ldloc2 | ldloc3 | ldlocS =>
    simp only [op] at checked ran
    obtain ⟨t, typed, pushed⟩ := except_bind_eq_ok_iff.mp checked
    obtain rfl := except_pure_eq_ok_iff.mp pushed
    obtain ⟨v, read, holds⟩ := fits.localValue typed
    rw [read] at ran
    obtain ⟨rfl, rfl⟩ := EStateM.Result.ok.inj ran
    exact fits.push holds
  | stloc0 | stloc1 | stloc2 | stloc3 | stlocS =>
    simp only [op] at checked ran
    obtain ⟨t, typed, stored⟩ := except_bind_eq_ok_iff.mp checked
    obtain ⟨slot, rfl, assignable⟩ := popInto_ok stored
    obtain ⟨v, values, holds, below, top⟩ := List.forall₂_cons_right_iff.mp fits.stack
    obtain ⟨moved, rfl⟩ := Tracked.lift_eq_ok_iff.mp ran
    simp only [moveToLocal, top, Execution.pop, bind, Except.bind] at moved
    split at moved
    · rw [← except_pure_eq_ok_iff.mp moved]
      exact ⟨below, fits.args, forall₂_set fits.locals (fits.localSlot typed)
        (respected.assigned holds assignable)⟩
    · cases moved
  | ldnull =>
    simp only [op] at checked ran
    obtain rfl := except_pure_eq_ok_iff.mp checked
    obtain ⟨rfl, rfl⟩ := EStateM.Result.ok.inj ran
    exact fits.push (respected.null s)
  | dup =>
    simp only [op] at checked ran
    obtain ⟨⟨slot, rest⟩, popped, pushed⟩ := except_bind_eq_ok_iff.mp checked
    obtain rfl := pop_eq_ok_iff.mp popped
    obtain rfl := except_pure_eq_ok_iff.mp pushed
    obtain ⟨v, values, holds, below, top⟩ := List.forall₂_cons_right_iff.mp fits.stack
    rw [top] at ran
    obtain ⟨rfl, rfl⟩ := EStateM.Result.ok.inj ran
    exact fits.withStack (.cons holds (.cons holds below))
  | pop =>
    simp only [op] at checked ran
    obtain ⟨⟨slot, rest⟩, popped, pushed⟩ := except_bind_eq_ok_iff.mp checked
    obtain rfl := pop_eq_ok_iff.mp popped
    obtain rfl := except_pure_eq_ok_iff.mp pushed
    obtain ⟨v, values, holds, below, top⟩ := List.forall₂_cons_right_iff.mp fits.stack
    rw [top] at ran
    obtain ⟨rfl, rfl⟩ := EStateM.Result.ok.inj ran
    exact fits.withStack below
  | call | callvirt =>
    simp only [op] at checked ran
    obtain ⟨site, below, found, related, rfl⟩ := fits.callSite same checked
    obtain ⟨result, pushed, fitting⟩ := delivers.called (by simp [op]) found
    rw [callRule_eq, found, Tracked.lift_ok_bind] at ran
    obtain ⟨returned, s₁, -, last⟩ := Tracked.bind_eq_ok_iff.mp ran
    obtain ⟨rfl, rfl⟩ := EStateM.Result.ok.inj last
    -- `delivers` speaks of the stack behind the call, which is read back to what was given
    rw [show returned.toList ++ site.below = result.toList ++ site.below from pushed]
    refine (fits.later kept).withStack ?_
    cases result with
    | none =>
      have void : site.target.signature.result = .void := fitting
      rw [Frame.pushResult, if_pos void]
      exact related.imp kept
    | some v =>
      rw [Frame.pushResult, if_neg fitting.1]
      exact .cons fitting.2 (related.imp kept)
  | newobj =>
    simp only [op] at checked ran
    obtain ⟨site, below, found, related, rfl⟩ := fits.constructSite same checked
    rw [constructRule_eq, found, Tracked.lift_ok_bind] at ran
    obtain ⟨v, s₁, -, last⟩ := Tracked.bind_eq_ok_iff.mp ran
    obtain ⟨rfl, rfl⟩ := EStateM.Result.ok.inj last
    exact (fits.later kept).withStack (.cons (delivers.created op found rfl) (related.imp kept))
  | castclass =>
    simp only [op] at checked ran
    obtain ⟨token, named, typed⟩ := except_bind_eq_ok_iff.mp checked
    obtain ⟨t, found, popped⟩ := except_bind_eq_ok_iff.mp typed
    obtain ⟨rest, popped, pushed⟩ := except_bind_eq_ok_iff.mp popped
    obtain ⟨slot, rfl⟩ := popReference_ok popped
    obtain rfl := except_pure_eq_ok_iff.mp pushed
    obtain ⟨v, values, holds, below, top⟩ := List.forall₂_cons_right_iff.mp fits.stack
    rw [operand_of_token (operand_eq_ok_iff.mp named), Tracked.lift_ok_bind, ← same,
      resolved_eq_ok_iff.mp found, Tracked.lift_ok_bind, top, pop_cons, Tracked.lift_ok_bind,
      Tracked.get_bind] at ran
    obtain ⟨w, s₁, casts, last⟩ := Tracked.bind_eq_ok_iff.mp ran
    obtain ⟨casts, rfl⟩ := Tracked.lift_eq_ok_iff.mp casts
    obtain ⟨rfl, rfl⟩ := EStateM.Result.ok.inj last
    exact fits.withStack (.cons (respected.cast casts) below)
  | ldfld =>
    simp only [op] at checked ran
    obtain ⟨⟨f, owner⟩, accessed, popped⟩ := except_bind_eq_ok_iff.mp checked
    obtain ⟨token, named, found, kind⟩ := Frame.field_ok accessed
    obtain ⟨rest, popped, pushed⟩ := except_bind_eq_ok_iff.mp popped
    obtain ⟨slot, rfl, -⟩ := popInto_ok popped
    obtain rfl := except_pure_eq_ok_iff.mp pushed
    obtain ⟨v, values, holds, below, top⟩ := List.forall₂_cons_right_iff.mp fits.stack
    rw [operand_of_token named, Tracked.lift_ok_bind, top, pop_cons, Tracked.lift_ok_bind] at ran
    obtain ⟨r, s₁, received, access⟩ := Tracked.bind_eq_ok_iff.mp ran
    obtain ⟨-, rfl⟩ := Tracked.lift_eq_ok_iff.mp received
    rw [Tracked.get_bind] at access
    obtain ⟨w, s₂, read, last⟩ := Tracked.bind_eq_ok_iff.mp access
    obtain ⟨-, rfl⟩ := Tracked.lift_eq_ok_iff.mp read
    obtain ⟨rfl, rfl⟩ := EStateM.Result.ok.inj last
    exact fits.withStack (.cons (delivers.read (.inl op) named (same ▸ found) rfl) below)
  | stfld =>
    simp only [op] at checked ran
    obtain ⟨⟨f, owner⟩, accessed, popped⟩ := except_bind_eq_ok_iff.mp checked
    obtain ⟨token, named, found, kind⟩ := Frame.field_ok accessed
    obtain ⟨middle, stored, owned⟩ := except_bind_eq_ok_iff.mp popped
    obtain ⟨slot, rfl, -⟩ := popInto_ok stored
    obtain ⟨slot', rfl, -⟩ := popInto_ok owned
    obtain ⟨v, values, -, below, top⟩ := List.forall₂_cons_right_iff.mp fits.stack
    obtain ⟨v', values', -, lower, rfl⟩ := List.forall₂_cons_right_iff.mp below
    rw [operand_of_token named, Tracked.lift_ok_bind, top, pop_cons, Tracked.lift_ok_bind, pop_cons,
      Tracked.lift_ok_bind] at ran
    obtain ⟨r, s₁, received, access⟩ := Tracked.bind_eq_ok_iff.mp ran
    obtain ⟨-, rfl⟩ := Tracked.lift_eq_ok_iff.mp received
    obtain ⟨-, s₂, -, last⟩ := Tracked.bind_eq_ok_iff.mp access
    obtain ⟨rfl, rfl⟩ := EStateM.Result.ok.inj last
    exact (fits.later kept).withStack (lower.imp kept)
  | ldsfld =>
    simp only [op] at checked ran
    obtain ⟨⟨f, owner⟩, accessed, pushed⟩ := except_bind_eq_ok_iff.mp checked
    obtain ⟨token, named, found, kind⟩ := Frame.field_ok accessed
    obtain rfl := except_pure_eq_ok_iff.mp pushed
    rw [operand_of_token named, Tracked.lift_ok_bind, Tracked.get_bind] at ran
    obtain ⟨w, s₁, read, last⟩ := Tracked.bind_eq_ok_iff.mp ran
    obtain ⟨-, rfl⟩ := Tracked.lift_eq_ok_iff.mp read
    obtain ⟨rfl, rfl⟩ := EStateM.Result.ok.inj last
    exact fits.push (delivers.read (.inr op) named (same ▸ found) rfl)
  | stsfld =>
    simp only [op] at checked ran
    obtain ⟨⟨f, owner⟩, accessed, stored⟩ := except_bind_eq_ok_iff.mp checked
    obtain ⟨token, named, found, kind⟩ := Frame.field_ok accessed
    obtain ⟨slot, rfl, -⟩ := popInto_ok stored
    obtain ⟨v, values, -, below, top⟩ := List.forall₂_cons_right_iff.mp fits.stack
    rw [operand_of_token named, Tracked.lift_ok_bind, top, pop_cons, Tracked.lift_ok_bind] at ran
    obtain ⟨-, s₁, -, last⟩ := Tracked.bind_eq_ok_iff.mp ran
    obtain ⟨rfl, rfl⟩ := EStateM.Result.ok.inj last
    exact (fits.later kept).withStack (below.imp kept)
  | ldftn =>
    simp only [op] at checked ran
    obtain ⟨token, named, found⟩ := except_bind_eq_ok_iff.mp checked
    obtain ⟨target, -, pushed⟩ := except_bind_eq_ok_iff.mp found
    obtain rfl := except_pure_eq_ok_iff.mp pushed
    rw [operand_of_token (operand_eq_ok_iff.mp named)] at ran
    obtain ⟨rfl, rfl⟩ := EStateM.Result.ok.inj ran
    exact fits.push (respected.pointer s token)

/-! ### Pieces of code -/

/-- The instruction keeps the relation for the values that are there, and what it takes from outside the
frame satisfies it. -/
def Delivering (R : ValueRelation) (program : Program) (caller : Caller) (i : Instruction)
    (frame : Activation) (s : Machine) : Prop :=
  ∀ frame' s', Execution.step program caller i frame s = .ok frame' s' →
    (∀ v slot, R s v slot → R s' v slot) ∧ Delivers R program i frame frame' s'

/-- What one instruction keeps, a run of straight-line code keeps. -/
theorem Fits.run {code : Code} (fits : Fits R s frame static stack)
    (same : static.module = program.module) (respected : Respected R)
    (noReturn : ∀ i ∈ code, i.opcode ≠ .ret) (checked : static.steps code stack = .ok stack')
    (delivering : Throughout program caller (Delivering R program caller) code frame s)
    (ran : runSteps program caller code frame s = .ok frame' s') :
    Fits R s' frame' static stack' := by
  induction code generalizing frame stack s with
  | nil =>
    obtain rfl := except_pure_eq_ok_iff.mp checked
    obtain ⟨rfl, rfl⟩ := EStateM.Result.ok.inj ran
    exact fits
  | cons i rest ih =>
    obtain ⟨middle, first, later⟩ := except_bind_eq_ok_iff.mp checked
    obtain ⟨frame₁, s₁, stepped, onward⟩ := Tracked.bind_eq_ok_iff.mp ran
    obtain ⟨here, remaining⟩ := delivering
    obtain ⟨kept, delivers⟩ := here frame₁ s₁ stepped
    simp only [stepped] at remaining
    have goesOn : i.opcode ≠ .ret := noReturn i List.mem_cons_self
    have after := fits.step same respected kept delivers goesOn first stepped
    exact ih after (fun j member => noReturn j (List.mem_cons_of_mem _ member)) later remaining onward

/-- An accepted body that has come to one of its instructions is as the verifier saw it there. -/
theorem Fits.reached {pre rest : Code} {greatest : Nat} (fits : Fits R s frame static [])
    (same : static.module = program.module) (respected : Respected R)
    (accepted : static.checkCode 0 0 [] (pre ++ i :: rest) = .ok greatest)
    (delivering : Throughout program caller (Delivering R program caller) pre frame s)
    (ran : runSteps program caller pre frame s = .ok frame' s') :
    ∃ stack, static.steps pre [] = .ok stack ∧ stack.length ≤ greatest ∧
      Fits R s' frame' static stack ∧
      (i.opcode = .ret → rest = [] ∧ static.checkReturn stack = .ok ()) ∧
      (i.opcode ≠ .ret → ∃ next, static.step i stack = .ok next) := by
  obtain ⟨stack, checked, bound, noReturn, last, goesOn⟩ :=
    Frame.checkCode_split accepted (Nat.le_refl 0)
  have reached := fits.run same respected noReturn checked delivering ran
  exact ⟨stack, checked, bound, reached, last, fun op => (goesOn op).2⟩

end WeakSubscription.Verification
