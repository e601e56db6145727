import WeakSubscription.Proofs.Verification.Framing
import WeakSubscription.Proofs.Weaving.Fragments

/-!
# Types of fragments

The verifier's rules lead over the code of a fragment from any stack to that stack with one slot of the
fragment's type on top. Each way of putting fragments together is shown to do so in every frame of the method
whose module retains what the code was made for, with the height to which the code rises.
-/

open WeakSubscription.Module

namespace WeakSubscription

open Verification Tracked

variable {m m' m₁ : Module} {refs : HelperRefs} {site : Site} {f g : Fragment} {code a b : Code}
  {frame frame' : Frame} {slot : Slot} {slots slots' stack : Stack} {n k : Nat} {t : Token} {ty p q : Ty}
  {i : Instruction} {row : Method} {fieldRow : Field} {method : Token}

/-! ### Code that leaves slots -/

/-- The code leaves these slots on any stack and takes none from below, rises this high above it, does not
return, and can be encoded. -/
structure Verification.Frame.Leaves (frame : Frame) (code : Code) (slots : Stack) (n : Nat) : Prop where
  steps : frame.steps code [] = .ok slots
  rise : frame.rise code [] = n
  plain : ∀ i ∈ code, i.opcode ≠ .ret ∧ i.IsWellFormed

namespace Verification.Frame.Leaves

theorem on (leaves : frame.Leaves code slots n) (stack : Stack) :
    frame.steps code stack = .ok (slots ++ stack) :=
  (Grows.refl frame).steps leaves.steps stack

theorem noReturn (leaves : frame.Leaves code slots n) : ∀ i ∈ code, i.opcode ≠ .ret :=
  fun i member => (leaves.plain i member).1

theorem length_le (leaves : frame.Leaves code slots n) : slots.length ≤ n := by
  rw [← leaves.rise]
  exact length_le_rise_of_steps leaves.steps

theorem nil (frame : Frame) : frame.Leaves [] [] 0 := ⟨rfl, rfl, nofun⟩

theorem append (first : frame.Leaves a slots n) (later : frame.Leaves b slots' k) :
    frame.Leaves (a ++ b) (slots' ++ slots) (max n (k + slots.length)) := by
  refine ⟨?_, ?_, ?_⟩
  · rw [steps_append_of_ok first.steps, later.on]
  · have raised := (Grows.refl frame).rise later.steps slots
    rw [List.nil_append] at raised
    rw [rise_append first.steps, raised, first.rise, later.rise]
  · intro i member
    rcases List.mem_append.mp member with inside | inside
    · exact first.plain i inside
    · exact later.plain i inside

theorem snoc (first : frame.Leaves a slots n) (stepped : frame.step i slots = .ok slots')
    (goesOn : i.opcode ≠ .ret) (formed : i.IsWellFormed) :
    frame.Leaves (a ++ [i]) slots' (max n slots'.length) := by
  have steps : frame.steps [i] slots = .ok slots' := except_bind_eq_ok_iff.mpr ⟨_, stepped, rfl⟩
  refine ⟨?_, ?_, ?_⟩
  · rw [steps_append_of_ok first.steps, steps]
  · have low := first.length_le
    rw [rise_append first.steps, first.rise]
    simp only [Frame.rise, stepped]
    omega
  · intro j member
    rcases List.mem_append.mp member with inside | inside
    · exact first.plain j inside
    · obtain rfl := List.mem_singleton.mp inside
      exact ⟨goesOn, formed⟩

theorem encode (leaves : frame.Leaves code slots n) : ∃ bytes, Code.encode code = .ok bytes := by
  have formed : ∀ i ∈ code, i.IsWellFormed := fun i member => (leaves.plain i member).2
  clear leaves
  suffices all : ∃ parts, code.mapM Instruction.encode = .ok parts by
    obtain ⟨parts, same⟩ := all
    exact ⟨parts.flatten, except_map_eq_ok_iff.mpr ⟨parts, same, rfl⟩⟩
  induction code with
  | nil => exact ⟨[], rfl⟩
  | cons i rest ih =>
    obtain ⟨parts, same⟩ := ih fun j member => formed j (List.mem_cons_of_mem _ member)
    have first : i.encode = .ok (i.opcode.bytes ++ i.operand.bytes) := if_pos (formed i List.mem_cons_self)
    refine ⟨(i.opcode.bytes ++ i.operand.bytes) :: parts, ?_⟩
    rw [List.mapM_cons, first]
    exact except_bind_eq_ok_iff.mpr ⟨_, rfl, except_bind_eq_ok_iff.mpr ⟨parts, same, rfl⟩⟩

end Verification.Frame.Leaves

/-- The fragment leaves one slot of its type. -/
def Fragment.Pushes (frame : Frame) (f : Fragment) (n : Nat) : Prop := frame.Leaves f.code [.value f.ty] n

/-! ### Slots that fit -/

theorem Slot.assignable_of_sameName (same : ty.SameName p) : (Slot.value ty).assignable p = true := by
  simp [assignable, same]

theorem Slot.assignable_delegate (reference : ty.isReference = true) :
    (Slot.value ty).assignable (.named .delegate) = true := by
  have universal : (Ty.named .delegate).isUniversalBase = true := by decide
  simp [assignable, reference, universal]

namespace Verification

theorem popArguments_one (h : slot.assignable p = true) :
    popArguments [p] (slot :: stack) = .ok stack :=
  except_bind_eq_ok_iff.mpr ⟨_, popInto_cons h _, rfl⟩

theorem popArguments_two {first second : Slot} (h : first.assignable p = true)
    (h' : second.assignable q = true) : popArguments [p, q] (second :: first :: stack) = .ok stack :=
  except_bind_eq_ok_iff.mpr ⟨_, popInto_cons h' _, popArguments_one h⟩

end Verification

/-! ### Single instructions -/

namespace Verification.Frame

theorem step_loadArg {index : UInt8} (read : frame.args[index.toNat]? = some ty) (stack : Stack) :
    frame.step (.loadArg index) stack = .ok (.value ty :: stack) := by
  have named : frame.argumentTy (.loadArg index) = .ok ty := by
    simp only [argumentTy, Instruction.argument?_loadArg, Option.getD_some, read]
  have rule : frame.step (.loadArg index) stack = (do
      return .value (← frame.argumentTy (.loadArg index)) :: stack) := by
    unfold Instruction.loadArg
    split <;> rfl
  rw [rule, named]
  rfl

theorem step_loadLocal {index : UInt8} {v : Variable} (read : frame.locals[index.toNat]? = some v)
    (stack : Stack) : frame.step (.loadLocal index) stack = .ok (.value v.ty :: stack) := by
  have named : frame.localTy (.loadLocal index) = .ok v.ty := by
    simp only [localTy, Instruction.local?_loadLocal, Option.getD_some, read]
  have rule : frame.step (.loadLocal index) stack = (do
      return .value (← frame.localTy (.loadLocal index)) :: stack) := by
    unfold Instruction.loadLocal
    split <;> rfl
  rw [rule, named]
  rfl

theorem step_storeLocal_eq {index : UInt8} {v : Variable} (read : frame.locals[index.toNat]? = some v)
    (stack : Stack) : frame.step (.storeLocal index) stack = popInto .storedValue v.ty stack := by
  have named : frame.localTy (.storeLocal index) = .ok v.ty := by
    simp only [localTy, Instruction.local?_storeLocal, Option.getD_some, read]
  have rule : frame.step (.storeLocal index) stack = (do
      popInto .storedValue (← frame.localTy (.storeLocal index)) stack) := by
    unfold Instruction.storeLocal
    split <;> rfl
  rw [rule, named]
  rfl

theorem step_storeLocal {index : UInt8} {v : Variable} (read : frame.locals[index.toNat]? = some v)
    (fits : slot.assignable v.ty = true) (stack : Stack) :
    frame.step (.storeLocal index) (slot :: stack) = .ok stack := by
  rw [step_storeLocal_eq read]
  exact popInto_cons fits stack

theorem leaves_loadArg {index : UInt8} (read : frame.args[index.toNat]? = some ty) :
    frame.Leaves [.loadArg index] [.value ty] 1 := by
  refine (Leaves.nil frame).snoc (step_loadArg read []) ?_ ?_
  · unfold Instruction.loadArg
    split <;> exact nofun
  · unfold Instruction.loadArg
    split <;> rfl

theorem leaves_loadLocal {index : UInt8} {v : Variable} (read : frame.locals[index.toNat]? = some v) :
    frame.Leaves [.loadLocal index] [.value v.ty] 1 := by
  refine (Leaves.nil frame).snoc (step_loadLocal read []) ?_ ?_
  · unfold Instruction.loadLocal
    split <;> exact nofun
  · unfold Instruction.loadLocal
    split <;> rfl

theorem field_onToken {opcode : Opcode} {isStatic : Bool} {d : TypeDef}
    (found : frame.module.field t = .ok fieldRow) (kind : fieldRow.isStatic = isStatic)
    (owner : frame.module.typeDef fieldRow.owner = .ok d) :
    frame.field (.onToken opcode t) isStatic = .ok (fieldRow, d.ty) := by
  unfold field
  simp [operand, Instruction.token?, Instruction.onToken, found, kind, owner, resolved, bind, Except.bind,
    pure, Except.pure]

theorem step_call {target : CallTarget} (found : frame.module.callTarget t = .ok target)
    (static : target.signature.hasThis = false) (value : target.signature.result ≠ .void)
    (args : popArguments target.signature.params slots = .ok stack) :
    frame.step (.onToken .call t) slots = .ok (.value target.signature.result :: stack) := by
  show frame.call (.onToken .call t) slots = _
  unfold call
  simp [operand, Instruction.token?, Instruction.onToken, found, resolved, bind, Except.bind, args, static,
    value, pure, Except.pure]

theorem step_castclass (found : frame.module.resolveType t = .ok ty) (reference : p.isReference = true) :
    frame.step (.onToken .castclass t) (.value p :: stack) = .ok (.value ty :: stack) := by
  have popped : popReference (.value p :: stack) = .ok stack := if_pos reference
  show (do
    let target ← resolved (frame.module.resolveType t)
    return .value target :: (← popReference (.value p :: stack)) : Check Stack) = _
  rw [found, popped]
  rfl

end Verification.Frame

/-! ### Methods with their owners -/

theorem Module.frameOf_of_owner {d : TypeDef} (owner : m.typeDef row.owner = .ok d) :
    ∃ frame, m.frameOf row = .ok frame := by
  unfold frameOf
  cases row.isStatic with
  | true => exact ⟨_, rfl⟩
  | false =>
    rw [if_neg (by decide), owner]
    exact ⟨_, rfl⟩

/-! ### Frames of the method -/

namespace Verification.Frame

/-- The frame in which a method is checked that had this row in the module, now or once the module has grown. -/
structure Serves (frame : Frame) (m : Module) (row : Method) : Prop where
  kept : Retained m frame.module
  built : ∃ row', row.Grows row' ∧ frame.module.frameOf row' = .ok frame

namespace Serves

/-- A frame serves the module it is built for, and all from which that one grew. -/
theorem of_frameOf {row' : Method} (built : m'.frameOf row' = .ok frame) (kept : Retained m m')
    (grows : row.Grows row') : frame.Serves m row := by
  obtain ⟨rfl, -⟩ := frameOf_ok built
  exact ⟨kept, row', grows, built⟩

theorem args (serves : frame.Serves m row) :
    (row.isStatic = true → frame.args = row.params.map (·.ty)) ∧
      (row.isStatic = false → ∃ d, frame.module.typeDef row.owner = .ok d ∧
        frame.args = d.ty :: row.params.map (·.ty)) := by
  obtain ⟨row', ⟨same, -⟩, built⟩ := serves.built
  generalize row'.body = body at same
  subst same
  unfold frameOf at built
  have kind : ({ row with body } : Method).isStatic = row.isStatic := rfl
  refine ⟨?_, ?_⟩
  · intro static
    rw [kind, static, if_pos rfl] at built
    exact (congrArg Frame.args (Except.ok.inj built)).symm
  · intro instance_
    rw [kind, instance_, if_neg (by decide)] at built
    obtain ⟨this, read, last⟩ := except_bind_eq_ok_iff.mp built
    obtain ⟨d, owner, rfl⟩ := except_map_eq_ok_iff.mp read
    exact ⟨d, owner, (congrArg Frame.args (Except.ok.inj last)).symm⟩

theorem locals (serves : frame.Serves m row) : row.body.locals <+: frame.locals := by
  obtain ⟨row', ⟨-, longer⟩, built⟩ := serves.built
  obtain ⟨-, same, -⟩ := frameOf_ok built
  rwa [same]

theorem local_ (serves : frame.Serves m row) {index : Nat} {v : Variable}
    (read : row.body.locals[index]? = some v) : frame.locals[index]? = some v := by
  obtain ⟨more, longer⟩ := serves.locals
  have inside := (List.getElem?_eq_some_iff.mp read).1
  rw [← longer, List.getElem?_append_left inside, read]

theorem this (serves : frame.Serves m row) (kind : row.isStatic = false) :
    ∃ d, frame.module.typeDef row.owner = .ok d ∧ frame.Leaves [.loadArg 0] [.value d.ty] 1 := by
  obtain ⟨d, owner, args⟩ := serves.args.2 kind
  exact ⟨d, owner, leaves_loadArg (by rw [args]; rfl)⟩

theorem firstParam (serves : frame.Serves m row) {param : Param} (first : row.params.head? = some param) :
    frame.args[row.firstParamIndex.toNat]? = some param.ty := by
  obtain ⟨rest, params⟩ : ∃ rest, row.params = param :: rest := by
    cases params : row.params with
    | nil => simp [params] at first
    | cons p rest =>
      rw [params] at first
      exact ⟨rest, by rw [Option.some.inj first]⟩
  cases static : row.isStatic with
  | true =>
    rw [serves.args.1 static, params, Method.firstParamIndex, static]
    rfl
  | false =>
    obtain ⟨d, -, args⟩ := serves.args.2 static
    rw [args, params, Method.firstParamIndex, static]
    rfl

end Serves

/-- The frame is the one in which its module checks the method. -/
def Checks (frame : Frame) (method : Token) : Prop :=
  ∃ row, frame.module.method method = .ok row ∧ frame.module.frameOf row = .ok frame

theorem Checks.serves (checks : frame.Checks method) (kept : Retained m frame.module)
    (found : m.method method = .ok row) : frame.Serves m row := by
  obtain ⟨row', found', built⟩ := checks
  obtain ⟨row'', found'', grows⟩ := kept.methods found
  obtain rfl := Except.ok.inj (found'.symm.trans found'')
  exact .of_frameOf built kept grows

end Verification.Frame

/-! ### Values of a method -/

namespace Site

theorem firstArgument_pushes {method : Token} (sited : Site.ofMethod m method = .ok site)
    (found : m.method method = .ok row) (serves : frame.Serves m row) (loaded : site.firstArgument = .ok f) :
    f.Pushes frame 1 := by
  obtain rfl := Site.ofMethod_ok sited found
  unfold firstArgument at loaded
  split at loaded
  · rename_i ty first
    obtain rfl := Except.ok.inj loaded
    obtain ⟨param, head, rfl⟩ := Option.map_eq_some_iff.mp first
    exact Frame.leaves_loadArg (serves.firstParam head)
  · cases loaded

theorem loadLocal_pushes {v : Variable} (serves : frame.Serves m row)
    (own : row.body.locals[v.index]? = some v) (loaded : site.loadLocal m₁ v = .ok f) : f.Pushes frame 1 := by
  obtain ⟨i, index, built⟩ := except_bind_eq_ok_iff.mp loaded
  obtain rfl := Except.ok.inj built
  apply Frame.leaves_loadLocal
  rw [localIndex_ok index]
  exact serves.local_ own

theorem storeLocal_leaves {v : Variable} (serves : frame.Serves m row)
    (own : row.body.locals[v.index]? = some v) (value : f.Pushes frame n) (fits : f.ty.SameName v.ty)
    (stored : site.storeLocal m₁ v f = .ok code) : frame.Leaves code [] n := by
  obtain ⟨i, index, built⟩ := except_bind_eq_ok_iff.mp stored
  obtain rfl := Except.ok.inj built
  have read : frame.locals[i.toNat]? = some v := by
    rw [localIndex_ok index]
    exact serves.local_ own
  have stepped := Frame.step_storeLocal read (Slot.assignable_of_sameName fits) []
  have low := value.length_le
  have leaves := value.snoc stepped (by unfold Instruction.storeLocal; split <;> exact nofun)
    (by unfold Instruction.storeLocal; split <;> rfl)
  rwa [List.length_nil, Nat.max_eq_left (Nat.zero_le _)] at leaves

/-- What is known where a method uses a field: its row, and that an instance method uses an instance field
only if the type of the method declares it. -/
structure Reaches (row : Method) (field : Token) (fieldRow : Field) (m : Module) : Prop where
  found : m.field field = .ok fieldRow
  owned : ∃ d, m.typeDef fieldRow.owner = .ok d
  own : fieldRow.isStatic = false → fieldRow.owner = row.owner

variable {field : Token}

theorem requireThis_ok (h : site.requireThis t = .ok ()) : site.isStatic = false := by
  unfold requireThis at h
  split at h
  · cases h
  · rename_i kind
    exact Bool.eq_false_iff.mpr kind

theorem loadField_pushes (serves : frame.Serves m row) (kind : site.isStatic = row.isStatic)
    (reaches : Reaches row field fieldRow m₁) (kept : Retained m₁ frame.module)
    (loaded : site.loadField m₁ field = .ok f) : f.Pushes frame 1 ∧ f.ty = fieldRow.ty := by
  obtain ⟨fieldRow', found', built⟩ := except_bind_eq_ok_iff.mp loaded
  obtain rfl := Except.ok.inj (reaches.found.symm.trans found')
  have found := kept.grows.field reaches.found
  cases static : fieldRow.isStatic with
  | true =>
    simp only [static, if_true] at built
    obtain rfl := Except.ok.inj built
    obtain ⟨d, owner⟩ := reaches.owned
    obtain ⟨d', owner', -⟩ := kept.typeDef owner
    have stepped : frame.step (.onToken .ldsfld field) [] = .ok [.value fieldRow.ty] :=
      except_bind_eq_ok_iff.mpr ⟨_, Frame.field_onToken found static owner', rfl⟩
    exact ⟨(Frame.Leaves.nil frame).snoc stepped nofun rfl, rfl⟩
  | false =>
    simp only [static, Bool.false_eq_true, if_false] at built
    obtain ⟨_, used, last⟩ := except_bind_eq_ok_iff.mp built
    obtain rfl := Except.ok.inj last
    obtain ⟨d, owner, this⟩ := serves.this (kind ▸ requireThis_ok used)
    rw [← reaches.own static] at owner
    have stepped : frame.step (.onToken .ldfld field) [.value d.ty] = .ok [.value fieldRow.ty] := by
      apply except_bind_eq_ok_iff.mpr
      refine ⟨_, Frame.field_onToken found static owner, ?_⟩
      exact except_bind_eq_ok_iff.mpr ⟨_, popInto_cons (Slot.assignable_of_sameName rfl) [], rfl⟩
    exact ⟨this.snoc stepped nofun rfl, rfl⟩

theorem storeField_leaves (serves : frame.Serves m row) (kind : site.isStatic = row.isStatic)
    (reaches : Reaches row field fieldRow m₁) (kept : Retained m₁ frame.module) (value : f.Pushes frame n)
    (fits : f.ty.SameName fieldRow.ty) (stored : site.storeField m₁ field f = .ok code) :
    frame.Leaves code [] (if fieldRow.isStatic then n else n + 1) := by
  obtain ⟨fieldRow', found', built⟩ := except_bind_eq_ok_iff.mp stored
  obtain rfl := Except.ok.inj (reaches.found.symm.trans found')
  have found := kept.grows.field reaches.found
  have fits := Slot.assignable_of_sameName fits
  have low := value.length_le
  cases static : fieldRow.isStatic with
  | true =>
    simp only [static, if_true] at built
    obtain rfl := Except.ok.inj built
    obtain ⟨d, owner⟩ := reaches.owned
    obtain ⟨d', owner', -⟩ := kept.typeDef owner
    have stepped : frame.step (.onToken .stsfld field) [.value f.ty] = .ok [] :=
      except_bind_eq_ok_iff.mpr ⟨_, Frame.field_onToken found static owner', popInto_cons fits []⟩
    have leaves := value.snoc stepped nofun rfl
    rwa [List.length_nil, Nat.max_eq_left (Nat.zero_le _)] at leaves
  | false =>
    simp only [static, Bool.false_eq_true, if_false] at built
    obtain ⟨_, used, last⟩ := except_bind_eq_ok_iff.mp built
    obtain rfl := Except.ok.inj last
    obtain ⟨d, owner, this⟩ := serves.this (kind ▸ requireThis_ok used)
    rw [← reaches.own static] at owner
    have stepped : frame.step (.onToken .stfld field) [.value f.ty, .value d.ty] = .ok [] := by
      apply except_bind_eq_ok_iff.mpr
      refine ⟨_, Frame.field_onToken found static owner, except_bind_eq_ok_iff.mpr ?_⟩
      exact ⟨_, popInto_cons fits _, popInto_cons (Slot.assignable_of_sameName rfl) []⟩
    have leaves := (this.append value).snoc stepped nofun rfl
    have height : max (max 1 (n + 1)) 0 = n + 1 := by omega
    rwa [List.length_nil, List.length_singleton, height] at leaves

theorem newDelegate_pushes {constructor method : Token} {closed : Ty} {callee : CallTarget}
    (serves : frame.Serves m row) (kind : site.isStatic = row.isStatic)
    (closes : m₁.memberRef constructor =
      .ok ⟨constructor, .inst .action [closed], ".ctor", .ofInstance [.object, .intPtr] .void⟩)
    (callable : m₁.callTarget method = .ok callee) (kept : Retained m₁ frame.module)
    (made : site.newDelegate m₁ constructor method = .ok f) :
    f.Pushes frame 2 ∧ f.ty = .inst .action [closed] := by
  have created := callTarget_of_closedConstructor closes
  -- whichever value stands for the instance, the two instructions behind it are the same
  have behind : ∀ {i : Instruction} {slot : Slot}, frame.Leaves [i] [slot] 1 →
      slot.assignable .object = true →
      frame.Leaves [i, .onToken .ldftn method, .onToken .newobj constructor]
        [.value (.inst .action [closed])] 2 := by
    intro i slot target fits
    have pointer : frame.step (.onToken .ldftn method) [slot] = .ok [.value .intPtr, slot] := by
      apply except_bind_eq_ok_iff.mpr
      refine ⟨method, rfl, except_bind_eq_ok_iff.mpr ⟨callee, ?_, rfl⟩⟩
      exact resolved_eq_ok_iff.mpr (kept.callTarget callable)
    have construct : frame.step (.onToken .newobj constructor) [.value .intPtr, slot] =
        .ok [.value (.inst .action [closed])] := by
      apply except_bind_eq_ok_iff.mpr
      have found := resolved_eq_ok_iff.mpr (kept.callTarget created)
      refine ⟨constructor, rfl, except_bind_eq_ok_iff.mpr ⟨_, found, except_bind_eq_ok_iff.mpr ?_⟩⟩
      exact ⟨[], popArguments_two fits (Slot.assignable_of_sameName rfl), rfl⟩
    exact (target.snoc pointer nofun rfl).snoc construct nofun rfl
  obtain ⟨methodRow, -, built⟩ := except_bind_eq_ok_iff.mp made
  cases static : methodRow.isStatic with
  | true =>
    simp only [static, if_true] at built
    obtain ⟨target, pushed, rest⟩ := except_bind_eq_ok_iff.mp built
    obtain rfl := except_pure_eq_ok_iff.mp pushed
    obtain ⟨target, found, last⟩ := except_bind_eq_ok_iff.mp rest
    obtain rfl := Except.ok.inj (created.symm.trans found)
    obtain rfl := Except.ok.inj last
    have null : frame.step (.plain .ldnull) [] = .ok [.null] := rfl
    exact ⟨behind ((Frame.Leaves.nil frame).snoc null nofun rfl) rfl, rfl⟩
  | false =>
    simp only [static, Bool.false_eq_true, if_false] at built
    obtain ⟨target, pushed, rest⟩ := except_bind_eq_ok_iff.mp built
    obtain ⟨_, used, rfl⟩ := except_map_eq_ok_iff.mp pushed
    obtain ⟨target, found, last⟩ := except_bind_eq_ok_iff.mp rest
    obtain rfl := Except.ok.inj (created.symm.trans found)
    obtain rfl := Except.ok.inj last
    obtain ⟨d, -, this⟩ := serves.this (kind ▸ requireThis_ok used)
    exact ⟨behind this (by simp [Slot.assignable, TypeDef.ty, Ty.isReference, Ty.isUniversalBase]), rfl⟩

theorem localIndex_of_lt {v : Variable} (found : m.method site.method = .ok row)
    (inside : v.index < row.body.locals.length) (addressable : v.index < Body.maxLocals) :
    site.localIndex m v = .ok (UInt8.ofNat v.index) :=
  except_bind_eq_ok_iff.mpr ⟨row, found, if_pos ⟨inside, addressable⟩⟩

theorem storeLocal_of_lt {v : Variable} (found : m.method site.method = .ok row)
    (inside : v.index < row.body.locals.length) (addressable : v.index < Body.maxLocals) (f : Fragment) :
    ∃ code, site.storeLocal m v f = .ok code :=
  ⟨_, except_bind_eq_ok_iff.mpr ⟨_, localIndex_of_lt found inside addressable, rfl⟩⟩

theorem loadLocal_of_lt {v : Variable} (found : m.method site.method = .ok row)
    (inside : v.index < row.body.locals.length) (addressable : v.index < Body.maxLocals) :
    ∃ f, site.loadLocal m v = .ok f ∧ f.ty = v.ty :=
  ⟨_, except_bind_eq_ok_iff.mpr ⟨_, localIndex_of_lt found inside addressable, rfl⟩, rfl⟩

theorem requireThis_of_kind (kind : site.isStatic = false) (member : Token) :
    site.requireThis member = .ok () := by
  simp [requireThis, kind]

theorem loadField_of_kind {fieldRow : Field} (found : m.field field = .ok fieldRow)
    (kind : fieldRow.isStatic = true ∨ site.isStatic = false) : ∃ f, site.loadField m field = .ok f := by
  unfold loadField
  rw [found]
  cases static : fieldRow.isStatic with
  | true => exact ⟨⟨[.onToken .ldsfld field], fieldRow.ty⟩, by simp [static, bind, Except.bind, pure, Except.pure]⟩
  | false =>
    rw [static] at kind
    have this := requireThis_of_kind (kind.resolve_left nofun) field
    exact ⟨⟨[.loadArg 0, .onToken .ldfld field], fieldRow.ty⟩,
      by simp [static, this, bind, Except.bind, pure, Except.pure]⟩

/-- A new delegate is on no instance if the method is static, and otherwise on the instance of the site. -/
theorem newDelegate_of_kind {constructor : Token} {methodRow : Method} {target : CallTarget}
    (found : m.method t = .ok methodRow) (kind : methodRow.isStatic = true ∨ site.isStatic = false)
    (created : m.callTarget constructor = .ok target) :
    site.newDelegate m constructor t = .ok ⟨[if methodRow.isStatic then .plain .ldnull else .loadArg 0,
      .onToken .ldftn t, .onToken .newobj constructor], target.declaringType⟩ := by
  unfold newDelegate
  rw [found]
  cases static : methodRow.isStatic with
  | true => simp [static, created, bind, Except.bind, pure, Except.pure]
  | false =>
    rw [static] at kind
    have this := requireThis_of_kind (kind.resolve_left nofun) t
    simp [static, this, created, bind, Except.bind, pure, Except.pure, Functor.map, Except.map]

theorem kind_of_newDelegate {constructor : Token} {methodRow : Method} (found : m.method t = .ok methodRow)
    (made : site.newDelegate m constructor t = .ok f) : methodRow.isStatic = true ∨ site.isStatic = false := by
  obtain ⟨row, found', built⟩ := except_bind_eq_ok_iff.mp made
  obtain rfl := Except.ok.inj (found.symm.trans found')
  cases static : methodRow.isStatic with
  | true => exact .inl rfl
  | false =>
    simp only [static, Bool.false_eq_true, if_false] at built
    obtain ⟨target, pushed, -⟩ := except_bind_eq_ok_iff.mp built
    obtain ⟨_, used, -⟩ := except_map_eq_ok_iff.mp pushed
    exact .inr (requireThis_ok used)

theorem storeField_of_kind {fieldRow : Field} (found : m.field field = .ok fieldRow)
    (kind : fieldRow.isStatic = true ∨ site.isStatic = false) (f : Fragment) :
    ∃ code, site.storeField m field f = .ok code := by
  unfold storeField
  rw [found]
  cases static : fieldRow.isStatic with
  | true => exact ⟨f.code ++ [.onToken .stsfld field], by simp [static, bind, Except.bind, pure, Except.pure]⟩
  | false =>
    rw [static] at kind
    have this := requireThis_of_kind (kind.resolve_left nofun) field
    exact ⟨.loadArg 0 :: f.code ++ [.onToken .stfld field],
      by simp [static, this, bind, Except.bind, pure, Except.pure]⟩

end Site

/-! ### Calls of helpers -/

namespace Fragment

variable {helper : Token} {h : Helper} {methodArgs : List Ty} {ns : String}

theorem calling_pushes_one (value : f.Pushes frame n) (calls : CallsHelper frame.module ns helper h methodArgs)
    (static : h.signature.hasThis = false)
    (param : (h.signature.instantiate [] methodArgs).params = [p])
    (result : (h.signature.instantiate [] methodArgs).result = ty) (notVoid : ty ≠ .void)
    (fits : (Slot.value f.ty).assignable p = true) : (calling helper [f] ty).Pushes frame n := by
  have code : (calling helper [f] ty).code = f.code ++ [.onToken .call helper] := by
    simp only [calling, List.flatMap_cons, List.flatMap_nil, List.append_nil]
  have popped : popArguments (h.signature.instantiate [] methodArgs).params [.value f.ty] = .ok [] := by
    rw [param]
    exact popArguments_one fits
  have stepped := Frame.step_call calls.target static (by rw [result]; exact notVoid) popped
  have goesOn : Opcode.call ≠ .ret := by decide
  have low := value.length_le
  unfold Pushes
  rw [code]
  have leaves := value.snoc stepped goesOn rfl
  rw [List.length_singleton] at low leaves
  rw [result, Nat.max_eq_left low] at leaves
  exact leaves

theorem calling_pushes_two (first : f.Pushes frame n) (second : g.Pushes frame k)
    (calls : CallsHelper frame.module ns helper h methodArgs) (static : h.signature.hasThis = false)
    (param : (h.signature.instantiate [] methodArgs).params = [p, q])
    (result : (h.signature.instantiate [] methodArgs).result = ty) (notVoid : ty ≠ .void)
    (fits : (Slot.value f.ty).assignable p = true) (fits' : (Slot.value g.ty).assignable q = true)
    (t : Ty) : frame.Leaves (calling helper [f, g] t).code [.value ty] (max n (k + 1)) := by
  have code : (calling helper [f, g] t).code = f.code ++ g.code ++ [.onToken .call helper] := by
    simp only [calling, List.flatMap_cons, List.flatMap_nil, List.append_nil, List.append_assoc]
  have popped : popArguments (h.signature.instantiate [] methodArgs).params
      [.value g.ty, .value f.ty] = .ok [] := by
    rw [param]
    exact popArguments_two fits fits'
  have stepped := Frame.step_call calls.target static (by rw [result]; exact notVoid) popped
  have goesOn : Opcode.call ≠ .ret := by decide
  have low := second.length_le
  have leaves := (first.append second).snoc stepped goesOn rfl
  rw [List.length_singleton] at low leaves
  have height : max (max n (k + 1)) 1 = max n (k + 1) := by omega
  rw [code, ← result]
  rwa [List.length_singleton, height] at leaves

theorem convert_pushes (f : Fragment) (target : Ty) (placed : m.Placed) (names : refs.Name m) :
    Gives (fun g m' => g.ty = target ∧ ∀ {frame : Frame} {n : Nat}, Retained m' frame.module →
      f.Pushes frame n → f.ty.isReference = true → target ≠ .void → g.Pushes frame n)
      (f.convert refs target) m := by
  refine gives_bind fun helper m' made => gives_pure ⟨rfl, ?_⟩
  intro frame n kept value reference notVoid
  have grows := (evolves_of_ok (moves_addMethodSpec _ _ m) made).grows
  have spec := kept.grows.methodSpec (addMethodSpec_gives _ _ placed _ _ made)
  have calls := callsHelper_of_methodSpec (h := .changeType) nofun spec
    (names.grow (grows.trans kept.grows) .changeType)
  exact calling_pushes_one value calls rfl rfl rfl notVoid (Slot.assignable_delegate reference)

/-- Delegate arithmetic on references is cast back to the type of its source. -/
theorem arithmetic_pushes (f g : Fragment) (placed : m.Placed) (names : refs.Name m)
    (other : h ≠ .actionConstructor)
    (same : h.signature = .ofStatic [.named .delegate, .named .delegate] (.named .delegate)) :
    Gives (fun k m' => k.ty = f.ty ∧ ∀ {frame : Frame} {n n' : Nat}, Retained m' frame.module →
      f.Pushes frame n → f.ty.isReference = true → g.Pushes frame n' → g.ty.isReference = true →
      k.Pushes frame (max n (n' + 1))) (arithmetic (refs.token h) f g) m := by
  refine gives_bind fun cast m' imported => gives_pure ⟨rfl, ?_⟩
  intro frame n n' kept first reference second reference'
  have grows := (evolves_of_ok (moves_importType _ m) imported).grows
  have resolved := kept.grows.resolveType (importType_gives _ placed _ _ imported)
  have calls := callsHelper_of_memberRef other (names.grow (grows.trans kept.grows) h)
  have params : (h.signature.instantiate [] []).params = [.named .delegate, .named .delegate] := by
    rw [same]
    rfl
  have result : (h.signature.instantiate [] []).result = .named .delegate := by
    rw [same]
    rfl
  have called := calling_pushes_two first second calls (by rw [same]; rfl) params result nofun
    (Slot.assignable_delegate reference) (Slot.assignable_delegate reference') f.ty
  have low := called.length_le
  have leaves := called.snoc (Frame.step_castclass resolved rfl) nofun rfl
  rw [List.length_singleton] at low leaves
  rwa [Nat.max_eq_left low] at leaves

theorem findWeak_pushes (a : Ty) (f g : Fragment) (placed : m.Placed) (names : refs.Name m) :
    Gives (fun k m' => k.ty = Ty.closedHandler a ∧ ∀ {frame : Frame} {n n' : Nat},
      Retained m' frame.module → f.Pushes frame n → (Slot.value f.ty).assignable (.named .delegate) = true →
      g.Pushes frame n' → (Slot.value g.ty).assignable (Ty.closedHandler a) = true →
      k.Pushes frame (max n (n' + 1))) (findWeak refs (Ty.closedHandler a) f g) m := by
  refine gives_bind fun helper m' made => gives_pure ⟨rfl, ?_⟩
  intro frame n n' kept first fits second fits'
  have grows := (evolves_of_ok (moves_instantiateHelper _ _ m) made).grows
  have spec := kept.grows.methodSpec (instantiateHelper_gives _ _ placed _ _ made)
  have calls := callsHelper_of_methodSpec (h := .findWeak) nofun spec
    (names.grow (grows.trans kept.grows) .findWeak)
  exact calling_pushes_two first second calls rfl rfl rfl nofun fits fits' _

theorem makeWeak_pushes (a : Ty) (f g : Fragment) (placed : m.Placed) (names : refs.Name m) :
    Gives (fun k m' => k.ty = Ty.closedHandler a ∧ ∀ {frame : Frame} {n n' : Nat},
      Retained m' frame.module → f.Pushes frame n → (Slot.value f.ty).assignable (Ty.closedHandler a) = true →
      g.Pushes frame n' → (Slot.value g.ty).assignable (.inst .action [Ty.closedHandler a]) = true →
      k.Pushes frame (max n (n' + 1))) (makeWeak refs (Ty.closedHandler a) f g) m := by
  refine gives_bind fun helper m' made => gives_pure ⟨rfl, ?_⟩
  intro frame n n' kept first fits second fits'
  have grows := (evolves_of_ok (moves_instantiateHelper _ _ m) made).grows
  have spec := kept.grows.methodSpec (instantiateHelper_gives _ _ placed _ _ made)
  have calls := callsHelper_of_methodSpec (h := .makeWeak) nofun spec
    (names.grow (grows.trans kept.grows) .makeWeak)
  exact calling_pushes_two first second calls rfl rfl rfl nofun fits fits' _

end Fragment

end WeakSubscription
