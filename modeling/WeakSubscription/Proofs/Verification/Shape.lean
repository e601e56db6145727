import WeakSubscription.Proofs.Verification.Simulation

/-!
# The shape of verified frames

A verified body runs with exactly the stack heights that the verifier computed, as long as what it calls
returns. The frame then fails only over the values it holds: a null or foreign receiver, a collected
object, a cast that is refused. It never runs out of stack, arguments, locals, tokens or instructions.
-/

namespace WeakSubscription

open Execution Verification

variable {program : Program} {caller : Caller} {i : Instruction} {code pre rest : Code}
  {frame frame' : Activation} {static : Verification.Frame} {stack stack' : Stack} {s s' : Machine}
  {e : Error}

/-! ### Calls that return -/

namespace Execution

/-- The call that an instruction makes, if it makes one, returns: a method call with a value exactly
when the target has a result, a construction with the new value. -/
def Returns (program : Program) (caller : Caller) (i : Instruction) (frame : Activation)
    (s : Machine) : Prop :=
  match i.opcode with
  | .call | .callvirt =>
    match callSite program i frame with
    | .ok site =>
      match site.perform program caller s with
      | .ok result _ => result.isSome = true ↔ site.target.signature.result ≠ .void
      | .error _ _ => False
    | .error _ => True
  | .newobj =>
    match constructSite program i frame with
    | .ok site =>
      match site.build program caller s with
      | .ok _ _ => True
      | .error _ _ => False
    | .error _ => True
  | _ => True

/-- Every call that a run of the code executes returns. -/
abbrev CallsReturn (program : Program) (caller : Caller) : Code → Activation → Machine → Prop :=
  Throughout program caller (Returns program caller)

theorem Returns.result {site : CallSite} {result : Option Value}
    (returns : Returns program caller i frame s) (op : i.opcode = .call ∨ i.opcode = .callvirt)
    (found : callSite program i frame = .ok site)
    (performed : site.perform program caller s = .ok result s') :
    result.isSome = true ↔ site.target.signature.result ≠ .void := by
  obtain op | op := op <;> simpa only [Returns, op, found, performed] using returns

theorem Returns.perform_ne_error {site : CallSite} (returns : Returns program caller i frame s)
    (op : i.opcode = .call ∨ i.opcode = .callvirt) (found : callSite program i frame = .ok site) :
    site.perform program caller s ≠ .error e s' := by
  intro failed
  obtain op | op := op <;> simp only [Returns, op, found, failed] at returns

theorem Returns.build_ne_error {site : CallSite} (returns : Returns program caller i frame s)
    (op : i.opcode = .newobj) (found : constructSite program i frame = .ok site) :
    site.build program caller s ≠ .error e s' := by
  intro failed
  simp only [Returns, op, found, failed] at returns

end Execution

/-! ### Faults over values -/

namespace Verification

/-- The errors that an instruction of a verified frame can raise over the values it finds. Reading and
writing static fields raises none. -/
inductive ValueFault : Opcode → Error → Prop where
  | noInstance {o : Opcode} (access : o = .ldfld ∨ o = .stfld) :
    ValueFault o (.fault .nullReference)
  | notAnObject {o : Opcode} {v : Value} (access : o = .ldfld ∨ o = .stfld) :
    ValueFault o (.fault (.typeMismatch .fieldAccess v))
  | collected {o : Opcode} {r : ObjectRef} (use : o = .ldfld ∨ o = .stfld ∨ o = .castclass) :
    ValueFault o (.fault (.invalidHeapReference r))
  | pointerCast {v : Value} : ValueFault .castclass (.fault (.typeMismatch .cast v))
  | refusedCast {source target : Ty} : ValueFault .castclass (.fault (.invalidCast source target))

/-- The call or the construction that an instruction makes fails, after the frame has taken the operands
for it off its stack. -/
def CallFails (program : Program) (caller : Caller) (i : Instruction) (frame : Activation)
    (s : Machine) (e : Error) (s' : Machine) : Prop :=
  (∃ site, (i.opcode = .call ∨ i.opcode = .callvirt) ∧ callSite program i frame = .ok site ∧
    site.perform program caller s = .error e s') ∨
  (∃ site, i.opcode = .newobj ∧ constructSite program i frame = .ok site ∧
    site.build program caller s = .error e s')

theorem not_callFails (returns : Returns program caller i frame s) :
    ¬ CallFails program caller i frame s e s' := by
  rintro (⟨site, op, found, failed⟩ | ⟨site, op, found, failed⟩)
  · exact returns.perform_ne_error op found failed
  · exact returns.build_ne_error op found failed

theorem object_fault {r : ObjectRef} (failed : s.object r = .error e) :
    e = .fault (.invalidHeapReference r) := by
  unfold Machine.object at failed
  split at failed
  · split at failed
    · cases failed
    · exact (Except.error.inj failed).symm
  · exact (Except.error.inj failed).symm

theorem receiver_fault {v : Value} (failed : receiver v = .error e) :
    e = .fault .nullReference ∨ e = .fault (.typeMismatch .fieldAccess v) := by
  cases v with
  | null => exact .inl (Except.error.inj failed).symm
  | object r => cases failed
  | delegate d => exact .inr (Except.error.inj failed).symm
  | methodPointer token => exact .inr (Except.error.inj failed).symm

theorem cast_fault {v : Value} {t : Ty} (failed : Execution.cast s v t = .error e) :
    ValueFault .castclass e := by
  cases v with
  | null => cases failed
  | methodPointer token =>
    obtain rfl := Except.error.inj failed
    exact .pointerCast
  | delegate d =>
    by_cases seen : d.type.SameName t ∨ t.isUniversalBase = true
    · simp only [Execution.cast, bind, Except.bind, pure, Except.pure, if_pos seen, reduceCtorEq]
        at failed
    · simp only [Execution.cast, bind, Except.bind, pure, Except.pure, if_neg seen] at failed
      obtain rfl := Except.error.inj failed
      exact .refusedCast
  | object r =>
    cases found : s.object r with
    | error e' =>
      simp only [Execution.cast, bind, Except.bind, Functor.map, Except.map, found] at failed
      obtain rfl := Except.error.inj failed
      obtain rfl := object_fault found
      exact .collected (.inr (.inr rfl))
    | ok o =>
      by_cases seen : o.type.SameName t ∨ t.isUniversalBase = true
      · simp only [Execution.cast, bind, Except.bind, Functor.map, Except.map, found, pure,
          Except.pure, if_pos seen, reduceCtorEq] at failed
      · simp only [Execution.cast, bind, Except.bind, Functor.map, Except.map, found, pure,
          Except.pure, if_neg seen] at failed
        obtain rfl := Except.error.inj failed
        exact .refusedCast

theorem fieldValue_instance_fault {m : Module} {token : Token} {f : Field} {r : ObjectRef}
    (found : m.field token = .ok f) (kind : f.isStatic = false)
    (failed : s.fieldValue m token (some r) = .error e) : e = .fault (.invalidHeapReference r) := by
  simp only [Machine.fieldValue, bind, Except.bind, found, kind, Bool.false_eq_true, if_false]
    at failed
  split at failed
  · rename_i object
    rw [← Except.error.inj failed]
    exact object_fault object
  · cases failed

theorem fieldValue_static_ne_error {m : Module} {token : Token} {f : Field} {target? : Option ObjectRef}
    (found : m.field token = .ok f) (kind : f.isStatic = true) :
    s.fieldValue m token target? ≠ .error e := by
  intro failed
  simp only [Machine.fieldValue, bind, Except.bind, found, kind, if_true, pure, Except.pure,
    reduceCtorEq] at failed

theorem setField_instance_fault {m : Module} {token : Token} {f : Field} {r : ObjectRef} {v : Value}
    (found : m.field token = .ok f) (kind : f.isStatic = false)
    (failed : Machine.setField m token (some r) v s = .error e s') :
    e = .fault (.invalidHeapReference r) := by
  simp only [Machine.setField, Tracked.get_bind, found, Tracked.lift_ok_bind, kind,
    Bool.false_eq_true, if_false] at failed
  obtain object | ⟨o, s₁, -, put⟩ := Tracked.bind_eq_error_iff.mp failed
  · exact object_fault (Tracked.lift_eq_error_iff.mp object).1
  · cases put

theorem setField_static_ne_error {m : Module} {token : Token} {f : Field}
    {target? : Option ObjectRef} {v : Value} (found : m.field token = .ok f)
    (kind : f.isStatic = true) : Machine.setField m token target? v s ≠ .error e s' := by
  intro failed
  simp only [Machine.setField, Tracked.get_bind, found, Tracked.lift_ok_bind, kind, if_true] at failed
  cases failed

/-- Where the verifier's rule succeeds, the machine's rule fails only over values or in a call. -/
theorem Fits.step_error {R : ValueRelation} (fits : Fits R s frame static stack)
    (same : static.module = program.module) (goesOn : i.opcode ≠ .ret)
    (checked : static.step i stack = .ok stack')
    (failed : Execution.step program caller i frame s = .error e s') :
    ValueFault i.opcode e ∨ CallFails program caller i frame s e s' := by
  unfold Frame.step at checked
  unfold Execution.step at failed
  cases op : i.opcode with
  | ret => exact absurd op goesOn
  | nop =>
    simp only [op] at failed
    cases failed
  | ldnull =>
    simp only [op] at failed
    cases failed
  | ldarg0 | ldarg1 | ldarg2 | ldarg3 | ldargS =>
    simp only [op] at checked failed
    obtain ⟨t, typed, -⟩ := except_bind_eq_ok_iff.mp checked
    obtain ⟨v, read, -⟩ := fits.argument typed
    rw [read] at failed
    cases failed
  | ldloc0 | ldloc1 | ldloc2 | ldloc3 | ldlocS =>
    simp only [op] at checked failed
    obtain ⟨t, typed, -⟩ := except_bind_eq_ok_iff.mp checked
    obtain ⟨v, read, -⟩ := fits.localValue typed
    rw [read] at failed
    cases failed
  | stloc0 | stloc1 | stloc2 | stloc3 | stlocS =>
    simp only [op] at checked failed
    obtain ⟨t, typed, stored⟩ := except_bind_eq_ok_iff.mp checked
    obtain ⟨slot, rfl, -⟩ := popInto_ok stored
    obtain ⟨v, values, -, -, top⟩ := List.forall₂_cons_right_iff.mp fits.stack
    obtain ⟨slot', read, -⟩ := forall₂_getElem? fits.locals (fits.localSlot typed)
    have inside : (i.local?.getD 255).toNat < frame.locals.length := (List.getElem?_eq_some_iff.mp read).1
    obtain ⟨moved, -⟩ := Tracked.lift_eq_error_iff.mp failed
    simp only [moveToLocal, top, Execution.pop, bind, Except.bind, if_pos inside] at moved
    cases moved
  | dup | pop =>
    simp only [op] at checked failed
    obtain ⟨⟨slot, rest⟩, popped, -⟩ := except_bind_eq_ok_iff.mp checked
    obtain rfl := pop_eq_ok_iff.mp popped
    obtain ⟨v, values, -, -, top⟩ := List.forall₂_cons_right_iff.mp fits.stack
    rw [top] at failed
    cases failed
  | call | callvirt =>
    simp only [op] at checked failed
    obtain ⟨site, below, found, -, -⟩ := fits.callSite same checked
    rw [callRule_eq, found, Tracked.lift_ok_bind] at failed
    obtain called | ⟨result, s₁, -, last⟩ := Tracked.bind_eq_error_iff.mp failed
    · exact .inr (.inl ⟨site, by simp [op], found, called⟩)
    · cases last
  | newobj =>
    simp only [op] at checked failed
    obtain ⟨site, below, found, -, -⟩ := fits.constructSite same checked
    rw [constructRule_eq, found, Tracked.lift_ok_bind] at failed
    obtain built | ⟨v, s₁, -, last⟩ := Tracked.bind_eq_error_iff.mp failed
    · exact .inr (.inr ⟨site, op, found, built⟩)
    · cases last
  | castclass =>
    simp only [op] at checked failed
    obtain ⟨token, named, typed⟩ := except_bind_eq_ok_iff.mp checked
    obtain ⟨t, found, popped⟩ := except_bind_eq_ok_iff.mp typed
    obtain ⟨rest, popped, -⟩ := except_bind_eq_ok_iff.mp popped
    obtain ⟨slot, rfl⟩ := popReference_ok popped
    obtain ⟨v, values, -, -, top⟩ := List.forall₂_cons_right_iff.mp fits.stack
    rw [operand_of_token (operand_eq_ok_iff.mp named), Tracked.lift_ok_bind, ← same,
      resolved_eq_ok_iff.mp found, Tracked.lift_ok_bind, top, pop_cons, Tracked.lift_ok_bind,
      Tracked.get_bind] at failed
    obtain refused | ⟨w, s₁, -, last⟩ := Tracked.bind_eq_error_iff.mp failed
    · exact .inl (cast_fault (Tracked.lift_eq_error_iff.mp refused).1)
    · cases last
  | ldfld =>
    simp only [op] at checked failed
    obtain ⟨⟨f, owner⟩, accessed, popped⟩ := except_bind_eq_ok_iff.mp checked
    obtain ⟨token, named, found, kind⟩ := Frame.field_ok accessed
    obtain ⟨rest, popped, -⟩ := except_bind_eq_ok_iff.mp popped
    obtain ⟨slot, rfl, -⟩ := popInto_ok popped
    obtain ⟨v, values, -, -, top⟩ := List.forall₂_cons_right_iff.mp fits.stack
    rw [operand_of_token named, Tracked.lift_ok_bind, top, pop_cons, Tracked.lift_ok_bind] at failed
    obtain refused | ⟨r, s₁, -, access⟩ := Tracked.bind_eq_error_iff.mp failed
    · obtain rfl | rfl := receiver_fault (Tracked.lift_eq_error_iff.mp refused).1
      · exact .inl (.noInstance (.inl rfl))
      · exact .inl (.notAnObject (.inl rfl))
    · rw [Tracked.get_bind] at access
      obtain missing | ⟨w, s₂, -, last⟩ := Tracked.bind_eq_error_iff.mp access
      · obtain rfl := fieldValue_instance_fault (same ▸ found) kind
          (Tracked.lift_eq_error_iff.mp missing).1
        exact .inl (.collected (.inl rfl))
      · cases last
  | stfld =>
    simp only [op] at checked failed
    obtain ⟨⟨f, owner⟩, accessed, popped⟩ := except_bind_eq_ok_iff.mp checked
    obtain ⟨token, named, found, kind⟩ := Frame.field_ok accessed
    obtain ⟨middle, stored, owned⟩ := except_bind_eq_ok_iff.mp popped
    obtain ⟨slot, rfl, -⟩ := popInto_ok stored
    obtain ⟨slot', rfl, -⟩ := popInto_ok owned
    obtain ⟨v, values, -, below, top⟩ := List.forall₂_cons_right_iff.mp fits.stack
    obtain ⟨v', values', -, -, rfl⟩ := List.forall₂_cons_right_iff.mp below
    rw [operand_of_token named, Tracked.lift_ok_bind, top, pop_cons, Tracked.lift_ok_bind, pop_cons,
      Tracked.lift_ok_bind] at failed
    obtain refused | ⟨r, s₁, -, access⟩ := Tracked.bind_eq_error_iff.mp failed
    · obtain rfl | rfl := receiver_fault (Tracked.lift_eq_error_iff.mp refused).1
      · exact .inl (.noInstance (.inr rfl))
      · exact .inl (.notAnObject (.inr rfl))
    · obtain missing | ⟨w, s₂, -, last⟩ := Tracked.bind_eq_error_iff.mp access
      · obtain rfl := setField_instance_fault (same ▸ found) kind missing
        exact .inl (.collected (.inr (.inl rfl)))
      · cases last
  | ldsfld =>
    simp only [op] at checked failed
    obtain ⟨⟨f, owner⟩, accessed, -⟩ := except_bind_eq_ok_iff.mp checked
    obtain ⟨token, named, found, kind⟩ := Frame.field_ok accessed
    rw [operand_of_token named, Tracked.lift_ok_bind, Tracked.get_bind] at failed
    obtain missing | ⟨w, s₁, -, last⟩ := Tracked.bind_eq_error_iff.mp failed
    · exact absurd (Tracked.lift_eq_error_iff.mp missing).1
        (fieldValue_static_ne_error (same ▸ found) kind)
    · cases last
  | stsfld =>
    simp only [op] at checked failed
    obtain ⟨⟨f, owner⟩, accessed, stored⟩ := except_bind_eq_ok_iff.mp checked
    obtain ⟨token, named, found, kind⟩ := Frame.field_ok accessed
    obtain ⟨slot, rfl, -⟩ := popInto_ok stored
    obtain ⟨v, values, -, -, top⟩ := List.forall₂_cons_right_iff.mp fits.stack
    rw [operand_of_token named, Tracked.lift_ok_bind, top, pop_cons, Tracked.lift_ok_bind] at failed
    obtain missing | ⟨w, s₁, -, last⟩ := Tracked.bind_eq_error_iff.mp failed
    · exact absurd missing (setField_static_ne_error (same ▸ found) kind)
    · cases last
  | ldftn =>
    simp only [op] at checked failed
    obtain ⟨token, named, -⟩ := except_bind_eq_ok_iff.mp checked
    rw [operand_of_token (operand_eq_ok_iff.mp named)] at failed
    cases failed

/-! ### Whole bodies -/

/-- The relation that says nothing about values, and so only counts them. -/
def anyValue : ValueRelation := fun _ _ _ => True

theorem anyValue_respected : Respected anyValue :=
  ⟨fun _ _ => trivial, fun _ => trivial, fun _ _ => trivial, fun _ => trivial⟩

theorem anyValue_of_length_eq {values : List Value} {slots : Stack}
    (same : values.length = slots.length) : List.Forall₂ (anyValue s) values slots :=
  List.forall₂_iff_zip.mpr ⟨same, fun _ => trivial⟩

/-- Calls that return give the frame as many values as the verifier pushes. -/
theorem delivering_of_returns (returns : Returns program caller i frame s) :
    Delivering anyValue program caller i frame s := by
  intro frame' s' stepped
  refine ⟨fun _ _ _ => trivial, fun _ _ _ _ => trivial, ?_, fun _ _ _ => trivial⟩
  intro site op found
  obtain ⟨result, performed, pushed⟩ := step_call_ok op found stepped
  have due := returns.result op found performed
  refine ⟨result, by rw [pushed], ?_⟩
  cases result with
  | none =>
    by_contra value
    exact absurd (due.mpr value) (by decide)
  | some v => exact ⟨due.mp rfl, trivial⟩

theorem delivering_of_callsReturn (returns : CallsReturn program caller code frame s) :
    Throughout program caller (Delivering anyValue program caller) code frame s :=
  returns.imp fun _ _ _ => delivering_of_returns

theorem Fits.entry_anyValue {row : Method} {args : List Value}
    (built : program.module.frameOf row = .ok static)
    (enough : args.length = Module.argumentCount row) :
    Fits anyValue s (entryFrame row args) static [] := by
  obtain ⟨-, locals, -, count⟩ := Module.frameOf_ok built
  refine ⟨.nil, anyValue_of_length_eq ?_, anyValue_of_length_eq ?_⟩
  · rw [List.length_map, count]
    exact enough
  · rw [entryFrame, List.length_map, List.length_map, locals]

/-- Where the verifier accepts a return, the frame has the result on its stack, if there is one. -/
theorem Fits.returned {R : ValueRelation} (fits : Fits R s frame static stack)
    (checked : static.checkReturn stack = .ok ()) :
    ∃ result, Execution.returned static.result frame = .ok result := by
  by_cases void : static.result = .void
  · exact ⟨none, if_pos void⟩
  · obtain ⟨slot, rfl, -⟩ := Frame.checkReturn_value checked void
    obtain ⟨v, values, -, -, top⟩ := List.forall₂_cons_right_iff.mp fits.stack
    refine ⟨some v, ?_⟩
    rw [Execution.returned, if_neg void, top]
    rfl

/-- An accepted body is code without a return, and a return. -/
theorem Frame.code_of_checkCode {greatest : Nat}
    (accepted : static.checkCode 0 0 [] code = .ok greatest) :
    ∃ pre i, code = pre ++ [i] ∧ (∀ j ∈ pre, j.opcode ≠ .ret) ∧ i.opcode = .ret := by
  obtain rfl | ⟨pre, i, rfl⟩ := List.eq_nil_or_concat' code
  · cases accepted
  · obtain ⟨_, -, -, noReturn, -, more⟩ := Frame.checkCode_split accepted (Nat.le_refl 0)
    refine ⟨pre, i, rfl, noReturn, Decidable.not_not.mp fun op => ?_⟩
    exact absurd rfl (more op).1

end Verification

/-- A verified body that runs on as many arguments as its method declares has, in front of each
instruction that it comes to, the stack height that the verifier computed there, as long as its calls
return. The instruction then fails only over values or in the call that it makes; a return ends the body
and finds what it returns. A run all of whose calls return fails only over values. -/
theorem verified_frame_shape {method : Token} {summary : Summary} {row : Method} {args : List Value}
    (verified : program.module.verify method = .ok summary)
    (found : program.module.method method = .ok row)
    (enough : args.length = Module.argumentCount row) (s₀ : Machine) :
    ∃ static, program.module.frameOf row = .ok static ∧
      (∀ pre i rest, row.body.code = pre ++ i :: rest → ∀ frame s,
        runSteps program caller pre (entryFrame row args) s₀ = .ok frame s →
        CallsReturn program caller pre (entryFrame row args) s₀ →
        ∃ stack, static.steps pre [] = .ok stack ∧ frame.stack.length = stack.length ∧
          frame.stack.length ≤ summary.maxStack ∧
          (i.opcode = .ret → rest = [] ∧ ∃ result, returned row.result frame = .ok result) ∧
          (i.opcode ≠ .ret → ∀ e s', step program caller i frame s = .error e s' →
            ValueFault i.opcode e ∨ CallFails program caller i frame s e s')) ∧
      (CallsReturn program caller row.body.code (entryFrame row args) s₀ → ∀ e s',
        runBody program caller method row args s₀ = .error e s' →
        ∃ i ∈ row.body.code, ValueFault i.opcode e) := by
  obtain ⟨row', static, found', built, accepted, -⟩ := Module.verify_ok verified
  obtain rfl : row = row' := Except.ok.inj (found.symm.trans found')
  obtain ⟨same, -, result, -⟩ := Module.frameOf_ok built
  have entry : Fits anyValue s₀ (entryFrame row args) static [] := .entry_anyValue built enough
  refine ⟨static, built, ?_, ?_⟩
  · intro pre i rest split frame s ran returns
    obtain ⟨stack, checked, bound, fits, last, goesOn⟩ := entry.reached same anyValue_respected
      (split ▸ accepted) (delivering_of_callsReturn returns) ran
    have height := fits.stack.length_eq
    refine ⟨stack, checked, height, height ▸ bound, ?_, ?_⟩
    · intro op
      obtain ⟨ends, accepted⟩ := last op
      exact ⟨ends, result ▸ fits.returned accepted⟩
    · intro op e s' failed
      obtain ⟨next, stepped⟩ := goesOn op
      exact fits.step_error same op stepped failed
  · intro returns e s' failed
    obtain ⟨pre, i, split, noReturn, op⟩ := Frame.code_of_checkCode accepted
    rw [split] at returns
    rw [runBody_eq split noReturn op] at failed
    obtain stopped | ⟨frame, s, ran, last⟩ := Tracked.bind_eq_error_iff.mp failed
    -- the run stopped before the return, at an instruction all calls before which returned
    · obtain ⟨a, j, b, frame, s, rfl, ran, stopped⟩ := runSteps_error stopped
      rw [List.append_assoc, List.cons_append] at split returns
      obtain ⟨before, here⟩ := returns.split ran
      obtain ⟨stack, -, -, fits, -, goesOn⟩ := entry.reached same anyValue_respected
        (split ▸ accepted) (delivering_of_callsReturn before) ran
      have op : j.opcode ≠ .ret := noReturn j (by simp)
      obtain ⟨next, stepped⟩ := goesOn op
      obtain fault | calling := fits.step_error same op stepped stopped
      · exact ⟨j, by simp [split], fault⟩
      · exact absurd calling (not_callFails here.1)
    -- or the return itself was refused, which an accepted return is not
    · obtain ⟨before, -⟩ := returns.split ran
      obtain ⟨stack, -, -, fits, last', -⟩ := entry.reached same anyValue_respected
        (split ▸ accepted) (delivering_of_callsReturn before) ran
      obtain ⟨value, given⟩ := result ▸ fits.returned (last' op).2
      have refused := (Tracked.lift_eq_error_iff.mp last).1
      rw [given] at refused
      cases refused

/-! ### A method that stores what it was handed on -/

namespace Relay

def owner : Token := .ofRow .typeDef 1

def handlerRef : Token := .ofRow .typeRef 1

def slot : Token := .ofRow .field 1

def subscribe : Token := .ofRow .method 1

def handOn : Token := .ofRow .method 2

def handler : Ty := .named .eventHandler

/-- Stores what another method makes of the old handler and the new one, cast back to the type of the
field. -/
def subscribeRow : Method :=
  { token := subscribe, name := "subscribe", owner, access := .publicAccess, modifiers := .none
    result := .void, params := [⟨none, handler⟩], attributes := []
    body := .ofCode [.loadArg 0, .loadArg 0, .onToken .ldfld slot, .loadArg 1, .onToken .call handOn,
      .onToken .castclass handlerRef, .onToken .stfld slot, .plain .ret] }

def handOnRow : Method :=
  { token := handOn, name := "handOn", owner, access := .publicAccess, modifiers := .static
    result := .named .delegate, params := [⟨none, handler⟩, ⟨none, handler⟩], attributes := []
    body := .ofCode [.loadArg 1, .plain .ret] }

def relay : Program :=
  { module :=
      { name := "Relay"
        types := [⟨owner, ⟨"App", "Relay"⟩, .publicFlag, some .object, [slot], [subscribe, handOn]⟩]
        typeRefs := [⟨handlerRef, .eventHandler, "mscorlib", none⟩]
        fields := [⟨slot, "slot", owner, .privateFlag, handler⟩]
        methods := [subscribeRow, handOnRow]
        memberRefs := [], methodSpecs := [], typeSpecs := [] }
    helperNamespace := "" }

/-- A machine with one object of the type. -/
def start : Machine := { Machine.initial with objects := [⟨.named ⟨"App", "Relay"⟩, true, []⟩] }

/-- The object, and a delegate of the handler type. -/
def args : List Value := [.object ⟨0⟩, .delegate (.bound handler none subscribe)]

end Relay

open Relay in
theorem verified_frame_shape_relay :
    relay.module.verify subscribe = .ok ⟨3, 8⟩ ∧
      relay.module.method subscribe = .ok subscribeRow ∧
      args.length = Module.argumentCount subscribeRow ∧
      CallsReturn relay (callWithin relay 63) subscribeRow.body.code
        (entryFrame subscribeRow args) start ∧
      ∀ e s', runBody relay (callWithin relay 63) subscribe subscribeRow args start = .error e s' →
        ∃ i ∈ subscribeRow.body.code, ValueFault i.opcode e := by
  have verified : relay.module.verify subscribe = .ok ⟨3, 8⟩ := by decide
  have found : relay.module.method subscribe = .ok subscribeRow := by decide
  have enough : args.length = Module.argumentCount subscribeRow := by decide
  have returns : CallsReturn relay (callWithin relay 63) subscribeRow.body.code
      (entryFrame subscribeRow args) start := by
    have called : (some (Value.delegate (.bound handler none subscribe))).isSome = true ↔
        Ty.named .delegate ≠ .void := by decide
    exact ⟨trivial, trivial, trivial, trivial, called, trivial, trivial, trivial, trivial⟩
  obtain ⟨static, -, -, run⟩ := verified_frame_shape verified found enough start
  exact ⟨verified, found, enough, returns, run returns⟩

end WeakSubscription
