import WeakSubscription.Proofs.Execution.Steps
import WeakSubscription.Proofs.Module.Growth

/-!
# What single instructions lead to

Code leads from one frame and machine to another if it has no return in it and runs through. The values
below those that it takes do not matter, so pieces of code are put together without a word about them.
-/

namespace WeakSubscription

open Execution

/-- The code runs through from the first frame and machine to the second. -/
structure Leads (program : Program) (caller : Caller) (code : Code) (frame : Activation) (s : Machine)
    (frame' : Activation) (s' : Machine) : Prop where
  ran : runSteps program caller code frame s = .ok frame' s'
  noReturn : ∀ i ∈ code, i.opcode ≠ .ret

variable {program : Program} {caller : Caller} {a b code : Code} {i : Instruction}
  {frame frame' frame'' : Activation} {s s' s'' : Machine} {args locals stack : List Value} {v w : Value}
  {t : Token}

namespace Leads

theorem append (first : Leads program caller a frame s frame' s')
    (later : Leads program caller b frame' s' frame'' s'') :
    Leads program caller (a ++ b) frame s frame'' s'' := by
  refine ⟨?_, ?_⟩
  · rw [runSteps_append_of_ok b first.ran, later.ran]
  · intro i member
    rcases List.mem_append.mp member with inside | inside
    · exact first.noReturn i inside
    · exact later.noReturn i inside

theorem of_step (goesOn : i.opcode ≠ .ret) (stepped : step program caller i frame s = .ok frame' s') :
    Leads program caller [i] frame s frame' s' := by
  refine ⟨by rw [runSteps_singleton, stepped], ?_⟩
  intro j member
  rw [List.mem_singleton.mp member]
  exact goesOn

theorem cons (first : Leads program caller [i] frame s frame' s')
    (later : Leads program caller b frame' s' frame'' s'') :
    Leads program caller (i :: b) frame s frame'' s'' :=
  first.append later

/-- A body without result does what the code before its return does. -/
theorem runBody {method : Token} {row : Method} (leads : Leads program caller code (entryFrame row args) s
      frame s') (split : row.body.code = code.thenReturn) (void : row.result = .void) :
    runBody program caller method row args s = .ok none s' := by
  rw [runBody_eq split leads.noReturn rfl, Tracked.bind_of_ok leads.ran, returned, if_pos void,
    Tracked.lift_ok]

end Leads

/-! ### Loads and stores of a frame -/

theorem leads_loadArg {n : UInt8} (read : args[n.toNat]? = some v) :
    Leads program caller [.loadArg n] ⟨args, locals, stack⟩ s ⟨args, locals, v :: stack⟩ s := by
  have value : argument (.loadArg n) ⟨args, locals, stack⟩ = .ok v := by
    simp only [argument, Instruction.argument?_loadArg, Option.getD_some, read]
  have rule : step program caller (.loadArg n) ⟨args, locals, stack⟩ = (do
      return Activation.push ⟨args, locals, stack⟩ (← argument (.loadArg n) ⟨args, locals, stack⟩)) := by
    unfold Instruction.loadArg
    split <;> rfl
  refine .of_step ?_ (by rw [rule, value]; rfl)
  unfold Instruction.loadArg
  split <;> exact nofun

theorem leads_loadLocal {n : UInt8} (read : locals[n.toNat]? = some v) :
    Leads program caller [.loadLocal n] ⟨args, locals, stack⟩ s ⟨args, locals, v :: stack⟩ s := by
  have value : localValue (.loadLocal n) ⟨args, locals, stack⟩ = .ok v := by
    simp only [localValue, Instruction.local?_loadLocal, Option.getD_some, read]
  have rule : step program caller (.loadLocal n) ⟨args, locals, stack⟩ = (do
      return Activation.push ⟨args, locals, stack⟩
        (← localValue (.loadLocal n) ⟨args, locals, stack⟩)) := by
    unfold Instruction.loadLocal
    split <;> rfl
  refine .of_step ?_ (by rw [rule, value]; rfl)
  unfold Instruction.loadLocal
  split <;> exact nofun

theorem leads_storeLocal {n : UInt8} (inside : n.toNat < locals.length) :
    Leads program caller [.storeLocal n] ⟨args, locals, v :: stack⟩ s
      ⟨args, locals.set n.toNat v, stack⟩ s := by
  have moved : moveToLocal (.storeLocal n) ⟨args, locals, v :: stack⟩ =
      .ok ⟨args, locals.set n.toNat v, stack⟩ := by
    simp only [moveToLocal, Instruction.local?_storeLocal, Option.getD_some, pop_cons, bind, Except.bind,
      if_pos inside, pure, Except.pure]
  have rule : step program caller (.storeLocal n) ⟨args, locals, v :: stack⟩ =
      liftM (moveToLocal (.storeLocal n) ⟨args, locals, v :: stack⟩) := by
    unfold Instruction.storeLocal
    split <;> rfl
  refine .of_step ?_ (by rw [rule, moved]; rfl)
  unfold Instruction.storeLocal
  split <;> exact nofun

theorem leads_ldnull :
    Leads program caller [.plain .ldnull] ⟨args, locals, stack⟩ s ⟨args, locals, .null :: stack⟩ s :=
  .of_step nofun rfl

theorem leads_ldftn :
    Leads program caller [.onToken .ldftn t] ⟨args, locals, stack⟩ s
      ⟨args, locals, .methodPointer t :: stack⟩ s :=
  .of_step nofun rfl

theorem step_castclass {ty : Ty} (resolved : program.module.resolveType t = .ok ty) :
    step program caller (.onToken .castclass t) ⟨args, locals, v :: stack⟩ = (do
      let w ← liftM (cast (← get) v ty)
      return ⟨args, locals, w :: stack⟩ : Run Activation) := by
  show (do
    let target ← liftM (program.module.resolveType t)
    let v ← liftM (cast (← get) v target)
    return (⟨args, locals, v :: stack⟩ : Activation) : Run Activation) = _
  rw [resolved, Tracked.lift_ok_bind]

theorem leads_castclass {ty : Ty} (resolved : program.module.resolveType t = .ok ty)
    (casts : cast s v ty = .ok w) :
    Leads program caller [.onToken .castclass t] ⟨args, locals, v :: stack⟩ s
      ⟨args, locals, w :: stack⟩ s := by
  refine .of_step nofun ?_
  rw [step_castclass resolved, Tracked.get_bind, casts]
  rfl

/-! ### Fields -/

theorem step_ldsfld :
    step program caller (.onToken .ldsfld t) ⟨args, locals, stack⟩ = (do
      let v ← liftM ((← get).fieldValue program.module t none)
      return ⟨args, locals, v :: stack⟩ : Run Activation) :=
  rfl

theorem step_ldfld {r : ObjectRef} :
    step program caller (.onToken .ldfld t) ⟨args, locals, .object r :: stack⟩ = (do
      let v ← liftM ((← get).fieldValue program.module t (some r))
      return ⟨args, locals, v :: stack⟩ : Run Activation) :=
  rfl

theorem step_stsfld :
    step program caller (.onToken .stsfld t) ⟨args, locals, v :: stack⟩ = (do
      Machine.setField program.module t none v
      return ⟨args, locals, stack⟩ : Run Activation) :=
  rfl

theorem step_stfld {r : ObjectRef} :
    step program caller (.onToken .stfld t) ⟨args, locals, v :: .object r :: stack⟩ = (do
      Machine.setField program.module t (some r) v
      return ⟨args, locals, stack⟩ : Run Activation) :=
  rfl

theorem leads_ldsfld (read : s.fieldValue program.module t none = .ok v) :
    Leads program caller [.onToken .ldsfld t] ⟨args, locals, stack⟩ s ⟨args, locals, v :: stack⟩ s := by
  refine .of_step nofun ?_
  rw [step_ldsfld, Tracked.get_bind, read]
  rfl

theorem leads_ldfld {r : ObjectRef} (read : s.fieldValue program.module t (some r) = .ok v) :
    Leads program caller [.onToken .ldfld t] ⟨args, locals, .object r :: stack⟩ s
      ⟨args, locals, v :: stack⟩ s := by
  refine .of_step nofun ?_
  rw [step_ldfld, Tracked.get_bind, read]
  rfl

theorem leads_stsfld (stored : Machine.setField program.module t none v s = .ok () s') :
    Leads program caller [.onToken .stsfld t] ⟨args, locals, v :: stack⟩ s ⟨args, locals, stack⟩ s' := by
  refine .of_step nofun ?_
  rw [step_stsfld]
  exact Tracked.bind_of_ok stored

theorem leads_stfld {r : ObjectRef}
    (stored : Machine.setField program.module t (some r) v s = .ok () s') :
    Leads program caller [.onToken .stfld t] ⟨args, locals, v :: .object r :: stack⟩ s
      ⟨args, locals, stack⟩ s' := by
  refine .of_step nofun ?_
  rw [step_stfld]
  exact Tracked.bind_of_ok stored

/-! ### Calls of helpers -/

/-- The token calls a helper, at these arguments for the helper's own generic parameters. -/
structure CallsHelper (m : Module) (ns : String) (t : Token) (h : Helper) (methodArgs : List Ty) :
    Prop where
  outside : t.inTable .method = false
  target : m.callTarget t = .ok ⟨h.parent ns, h.member, h.signature.instantiate [] methodArgs⟩
  reference : ∃ token, referenceOf m t = .ok ⟨token, h.parent ns, h.member, h.signature⟩

namespace Helper

theorem typeArgs_parent {h : Helper} (other : h ≠ .actionConstructor) (ns : String) :
    (h.parent ns).typeArgs = [] := by
  cases h with
  | actionConstructor => exact absurd rfl other
  | _ => rfl

theorem find?_isNamedBy (h : Helper) (ns : String) (token : Token) :
    all.find? (·.isNamedBy ns ⟨token, h.parent ns, h.member, h.signature⟩) = some h := by
  cases h <;> simp [all, isNamedBy, MemberRef.names, parent, member, owner, Ty.typeName?,
    TypeName.compilerGenerated, TypeName.action]

theorem member_ne_invoke (h : Helper) : h.member ≠ "Invoke" := by
  cases h <;> decide

end Helper

theorem callsHelper_of_memberRef {m : Module} {ns : String} {h : Helper}
    (other : h ≠ .actionConstructor) (found : m.memberRef t = .ok ⟨t, h.parent ns, h.member, h.signature⟩) :
    CallsHelper m ns t h [] := by
  have row := Module.memberRef_eq_ok_iff.mp found
  have table := Module.inTable_of_lookup row
  refine ⟨?_, ?_, t, ?_⟩
  · rw [Token.inTable, table]
    decide
  · rw [Module.callTarget_of_memberRef found, MemberRef.closedSignature, Helper.typeArgs_parent other]
  · have single : t.inTable .methodSpec = false := by
      rw [Token.inTable, table]
      decide
    rw [referenceOf, if_neg (by rw [single]; decide), found]

theorem callsHelper_of_methodSpec {m : Module} {ns : String} {h : Helper} {method : Token}
    {methodArgs : List Ty} (other : h ≠ .actionConstructor)
    (spec : m.methodSpec t = .ok ⟨t, method, methodArgs⟩)
    (found : m.memberRef method = .ok ⟨method, h.parent ns, h.member, h.signature⟩) :
    CallsHelper m ns t h methodArgs := by
  have row := Module.methodSpec_eq_ok_iff.mp spec
  have table := Module.inTable_of_lookup row
  refine ⟨?_, ?_, method, ?_⟩
  · rw [Token.inTable, table]
    decide
  · rw [Module.callTarget_of_methodSpec spec found, MemberRef.closedSignature, Helper.typeArgs_parent other]
  · have single : t.inTable .methodSpec = true := by
      rw [Token.inTable, table]
      decide
    rw [referenceOf, if_pos single]
    exact except_bind_eq_ok_iff.mpr ⟨_, spec, found⟩

/-- A call of a static helper takes its arguments off the stack and leaves what the helper computes. -/
theorem step_callHelper {h : Helper} {methodArgs : List Ty} {values : List Value}
    (calls : CallsHelper program.module program.helperNamespace t h methodArgs)
    (static : h.signature.hasThis = false) (count : values.length = h.signature.params.length) :
    step program caller (.onToken .call t) ⟨args, locals, values.reverse ++ stack⟩ = (do
      let v ← callHelper h (program.module.displayName t) (h.signature.result.instantiate [] methodArgs) values
      return ⟨args, locals, v :: stack⟩ : Run Activation) := by
  obtain ⟨token, reference⟩ := calls.reference
  have popped : popMany h.signature.params.length (values.reverse ++ stack) = .ok (values, stack) := by
    rw [← count, popMany_of_le (by simp), ← List.length_reverse, List.take_left, List.drop_left,
      List.reverse_reverse]
  show callRule program caller (.onToken .call t) ⟨args, locals, values.reverse ++ stack⟩ = _
  have site : callSite program (.onToken .call t) ⟨args, locals, values.reverse ++ stack⟩ =
      .ok ⟨t, ⟨h.parent program.helperNamespace, h.member, h.signature.instantiate [] methodArgs⟩, none,
        values, stack⟩ := by
    simp only [callSite, operand, Instruction.token?, Instruction.onToken, calls.target, bind, Except.bind,
      Signature.instantiate, List.length_map, popped, static, Bool.false_eq_true, if_false, pure,
      Except.pure]
  have performed : callOutside program caller t
      ⟨h.parent program.helperNamespace, h.member, h.signature.instantiate [] methodArgs⟩ none values =
      some <$> callHelper h (program.module.displayName t) (h.signature.result.instantiate [] methodArgs)
        values := by
    unfold callOutside
    have other : (h.member == "Invoke") = false := beq_false_of_ne h.member_ne_invoke
    simp only [other, reference, Tracked.lift_ok_bind, Helper.find?_isNamedBy]
    rfl
  rw [callRule_eq, site, Tracked.lift_ok_bind]
  simp only [CallSite.perform, calls.outside, Bool.false_eq_true, if_false, performed, map_eq_pure_bind,
    bind_assoc, pure_bind, Option.toList_some, List.singleton_append]

theorem leads_callHelper {h : Helper} {methodArgs : List Ty} {values : List Value}
    (calls : CallsHelper program.module program.helperNamespace t h methodArgs)
    (static : h.signature.hasThis = false) (count : values.length = h.signature.params.length)
    (computed : ∀ name, callHelper h name (h.signature.result.instantiate [] methodArgs) values s =
      .ok v s') :
    Leads program caller [.onToken .call t] ⟨args, locals, values.reverse ++ stack⟩ s
      ⟨args, locals, v :: stack⟩ s' := by
  refine .of_step nofun ?_
  rw [step_callHelper calls static count]
  exact Tracked.bind_of_ok (computed _)

/-! ### Delegates -/

/-- A callback is made by the constructor of its closed type. -/
theorem leads_newobj_callback {closed : Ty} {d : Delegate}
    (found : program.module.memberRef t =
      .ok ⟨t, .inst .action [closed], ".ctor", .ofInstance [.object, .intPtr] .void⟩)
    (bound : bindDelegate (.inst .action [closed]) v w = .ok d) :
    Leads program caller [.onToken .newobj t] ⟨args, locals, w :: v :: stack⟩ s
      ⟨args, locals, .delegate d :: stack⟩ s := by
  have target := Module.callTarget_of_closedConstructor found
  refine .of_step nofun ?_
  show constructRule program caller (.onToken .newobj t) ⟨args, locals, w :: v :: stack⟩ s = _
  have site : constructSite program (.onToken .newobj t) ⟨args, locals, w :: v :: stack⟩ =
      .ok ⟨t, ⟨.inst .action [closed], ".ctor", .ofInstance [.object, .intPtr] .void⟩, none, [v, w],
        stack⟩ := by
    simp only [constructSite, operand, Instruction.token?, Instruction.onToken, target, bind, Except.bind]
    rfl
  rw [constructRule_eq, site, Tracked.lift_ok_bind]
  have built : construct program caller t
      ⟨.inst .action [closed], ".ctor", .ofInstance [.object, .intPtr] .void⟩ [v, w] s =
      .ok (.delegate d) s := by
    unfold construct
    split
    · show (do return Value.delegate (← liftM (bindDelegate _ v w)) : Run Value) s = _
      rw [bound]
      rfl
    · rename_i other
      exact absurd rfl other
  exact Tracked.bind_of_ok built

end WeakSubscription
