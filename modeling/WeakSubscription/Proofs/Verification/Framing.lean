import WeakSubscription.Proofs.Module.Additions
import WeakSubscription.Proofs.Verification.Steps

/-!
# Code on a higher stack and in a later module

A rule looks no further down the stack than the slots that it takes, and it asks the frame only what tokens,
arguments and locals mean. Code that is accepted on one stack is therefore accepted with anything below it,
and also once the module has grown: it leaves the same slots, and it rises as high above what is below.
-/

namespace WeakSubscription.Verification

variable {use : SlotUse} {expected : Ty} {params : List Ty} {slot : Slot} {stack stack' rest : Stack}
  {i : Instruction} {a b code : Code} {frame frame' : Frame}

/-! ### Slots below -/

theorem pop_append (h : pop stack = .ok (slot, rest)) (below : Stack) :
    pop (stack ++ below) = .ok (slot, rest ++ below) := by
  obtain rfl := pop_eq_ok_iff.mp h
  rfl

theorem popInto_cons (h : slot.assignable expected = true) (below : Stack) :
    popInto use expected (slot :: below) = .ok below :=
  if_pos h

theorem popInto_append (h : popInto use expected stack = .ok rest) (below : Stack) :
    popInto use expected (stack ++ below) = .ok (rest ++ below) := by
  obtain ⟨slot, rfl, fits⟩ := popInto_ok h
  exact popInto_cons fits _

theorem popReference_append (h : popReference stack = .ok rest) (below : Stack) :
    popReference (stack ++ below) = .ok (rest ++ below) := by
  obtain ⟨⟨slot, behind⟩, popped, tested⟩ := except_bind_eq_ok_iff.mp h
  apply except_bind_eq_ok_iff.mpr
  refine ⟨_, pop_append popped below, ?_⟩
  cases slot with
  | null => exact except_pure_eq_ok_iff.mpr (by rw [except_pure_eq_ok_iff.mp tested])
  | value t =>
    dsimp only at tested ⊢
    split at tested
    · rename_i reference
      rw [if_pos reference, except_pure_eq_ok_iff.mp tested]
      rfl
    · exact absurd tested reject_ne_ok

theorem popArguments_append (h : popArguments params stack = .ok rest) (below : Stack) :
    popArguments params (stack ++ below) = .ok (rest ++ below) := by
  unfold popArguments at h ⊢
  generalize params.zipIdx.reverse = l at h ⊢
  induction l generalizing stack with
  | nil =>
    obtain rfl := except_pure_eq_ok_iff.mp h
    rfl
  | cons p l ih =>
    rw [List.foldlM_cons] at h ⊢
    obtain ⟨middle, first, later⟩ := except_bind_eq_ok_iff.mp h
    exact except_bind_eq_ok_iff.mpr ⟨_, popInto_append first below, ih later⟩

namespace Frame

/-! ### Frames that say more -/

/-- What the first frame says of tokens, arguments and locals, the second one says too. -/
structure Grows (frame frame' : Frame) : Prop where
  module : Module.Retained frame.module frame'.module
  args : frame'.args = frame.args
  locals : frame.locals <+: frame'.locals
  result : frame'.result = frame.result

theorem Grows.refl (frame : Frame) : frame.Grows frame :=
  ⟨Std.Refl.refl _, rfl, List.prefix_refl _, rfl⟩

namespace Grows

variable {t : Ty} {isStatic : Bool} {f : Field}

theorem argumentTy (grows : frame.Grows frame') (h : frame.argumentTy i = .ok t) :
    frame'.argumentTy i = .ok t := by
  have read := argumentTy_ok h
  unfold Frame.argumentTy
  simp only [grows.args, read]

theorem localTy (grows : frame.Grows frame') (h : frame.localTy i = .ok t) :
    frame'.localTy i = .ok t := by
  obtain ⟨v, read, rfl⟩ := localTy_ok h
  obtain ⟨more, longer⟩ := grows.locals
  have inside := (List.getElem?_eq_some_iff.mp read).1
  have read' : frame'.locals[(i.local?.getD 255).toNat]? = some v := by
    rw [← longer, List.getElem?_append_left inside, read]
  unfold Frame.localTy
  simp only [read']

theorem field (grows : frame.Grows frame') (h : frame.field i isStatic = .ok (f, t)) :
    frame'.field i isStatic = .ok (f, t) := by
  obtain ⟨token, named, h₁⟩ := except_bind_eq_ok_iff.mp h
  obtain ⟨row, found, h₂⟩ := except_bind_eq_ok_iff.mp h₁
  apply except_bind_eq_ok_iff.mpr
  refine ⟨token, named, except_bind_eq_ok_iff.mpr ⟨row, ?_, ?_⟩⟩
  · exact resolved_eq_ok_iff.mpr (grows.module.grows.field (resolved_eq_ok_iff.mp found))
  dsimp only at h₂ ⊢
  split at h₂
  · obtain ⟨_, failed, -⟩ := except_bind_eq_ok_iff.mp h₂
    exact absurd failed reject_ne_ok
  · rename_i kind
    rw [if_neg kind]
    obtain ⟨d, owned, built⟩ := except_bind_eq_ok_iff.mp h₂
    obtain ⟨d', owned', same⟩ := grows.module.typeDef (resolved_eq_ok_iff.mp owned)
    apply except_bind_eq_ok_iff.mpr
    exact ⟨d', resolved_eq_ok_iff.mpr owned', by rw [same, built]⟩

theorem call (grows : frame.Grows frame') (h : frame.call i stack = .ok stack') (below : Stack) :
    frame'.call i (stack ++ below) = .ok (stack' ++ below) := by
  obtain ⟨token, named, h₁⟩ := except_bind_eq_ok_iff.mp h
  obtain ⟨target, found, h₂⟩ := except_bind_eq_ok_iff.mp h₁
  obtain ⟨middle, args, h₃⟩ := except_bind_eq_ok_iff.mp h₂
  have found' := grows.module.callTarget (resolved_eq_ok_iff.mp found)
  have pushed : ∀ {rest : Stack}, (if target.signature.result = .void then pure rest
      else pure (.value target.signature.result :: rest) : Check Stack) = .ok stack' →
      (if target.signature.result = .void then pure (rest ++ below)
      else pure (.value target.signature.result :: (rest ++ below)) : Check Stack) = .ok (stack' ++ below) := by
    intro rest h
    split at h
    · rename_i void
      rw [if_pos void, except_pure_eq_ok_iff.mp h]
      rfl
    · rename_i value
      rw [if_neg value, ← except_pure_eq_ok_iff.mp h]
      rfl
  apply except_bind_eq_ok_iff.mpr
  refine ⟨token, named, except_bind_eq_ok_iff.mpr ⟨target, resolved_eq_ok_iff.mpr found', ?_⟩⟩
  apply except_bind_eq_ok_iff.mpr
  refine ⟨_, popArguments_append args below, ?_⟩
  dsimp only at h₃ ⊢
  cases inst : target.signature.hasThis with
  | false =>
    rw [inst, if_neg (by decide)] at h₃
    obtain ⟨rest, same, last⟩ := except_bind_eq_ok_iff.mp h₃
    obtain rfl := except_pure_eq_ok_iff.mp same
    exact pushed last
  | true =>
    rw [inst, if_pos rfl] at h₃
    obtain ⟨rest, this, last⟩ := except_bind_eq_ok_iff.mp h₃
    rw [if_pos rfl]
    exact except_bind_eq_ok_iff.mpr ⟨_, popInto_append this below, pushed last⟩

theorem construct (grows : frame.Grows frame') (h : frame.construct i stack = .ok stack')
    (below : Stack) : frame'.construct i (stack ++ below) = .ok (stack' ++ below) := by
  obtain ⟨token, named, h₁⟩ := except_bind_eq_ok_iff.mp h
  obtain ⟨target, found, h₂⟩ := except_bind_eq_ok_iff.mp h₁
  obtain ⟨rest, args, last⟩ := except_bind_eq_ok_iff.mp h₂
  have found' := grows.module.callTarget (resolved_eq_ok_iff.mp found)
  apply except_bind_eq_ok_iff.mpr
  refine ⟨token, named, except_bind_eq_ok_iff.mpr ⟨target, resolved_eq_ok_iff.mpr found', ?_⟩⟩
  apply except_bind_eq_ok_iff.mpr
  refine ⟨_, popArguments_append args below, ?_⟩
  split at last
  · rename_i constructor
    rw [if_pos constructor, ← except_pure_eq_ok_iff.mp last]
    rfl
  · exact absurd last reject_ne_ok

/-- An instruction does the same in a frame that says more, whatever is below its slots. -/
theorem step (grows : frame.Grows frame') (h : frame.step i stack = .ok stack') (below : Stack) :
    frame'.step i (stack ++ below) = .ok (stack' ++ below) := by
  unfold Frame.step at h ⊢
  cases op : i.opcode with
  | nop | ret | ldnull =>
    simp only [op] at h ⊢
    rw [← except_pure_eq_ok_iff.mp h]
    rfl
  | ldarg0 | ldarg1 | ldarg2 | ldarg3 | ldargS =>
    simp only [op] at h ⊢
    obtain ⟨t, read, last⟩ := except_bind_eq_ok_iff.mp h
    rw [← except_pure_eq_ok_iff.mp last]
    exact except_bind_eq_ok_iff.mpr ⟨t, grows.argumentTy read, rfl⟩
  | ldloc0 | ldloc1 | ldloc2 | ldloc3 | ldlocS =>
    simp only [op] at h ⊢
    obtain ⟨t, read, last⟩ := except_bind_eq_ok_iff.mp h
    rw [← except_pure_eq_ok_iff.mp last]
    exact except_bind_eq_ok_iff.mpr ⟨t, grows.localTy read, rfl⟩
  | stloc0 | stloc1 | stloc2 | stloc3 | stlocS =>
    simp only [op] at h ⊢
    obtain ⟨t, read, last⟩ := except_bind_eq_ok_iff.mp h
    exact except_bind_eq_ok_iff.mpr ⟨t, grows.localTy read, popInto_append last below⟩
  | dup | pop =>
    simp only [op] at h ⊢
    obtain ⟨⟨slot, rest⟩, popped, last⟩ := except_bind_eq_ok_iff.mp h
    rw [← except_pure_eq_ok_iff.mp last]
    exact except_bind_eq_ok_iff.mpr ⟨_, pop_append popped below, rfl⟩
  | call | callvirt =>
    simp only [op] at h ⊢
    exact grows.call h below
  | newobj =>
    simp only [op] at h ⊢
    exact grows.construct h below
  | castclass =>
    simp only [op] at h ⊢
    obtain ⟨token, named, h₁⟩ := except_bind_eq_ok_iff.mp h
    obtain ⟨t, found, h₂⟩ := except_bind_eq_ok_iff.mp h₁
    obtain ⟨rest, popped, last⟩ := except_bind_eq_ok_iff.mp h₂
    rw [← except_pure_eq_ok_iff.mp last]
    have found' := grows.module.grows.resolveType (resolved_eq_ok_iff.mp found)
    apply except_bind_eq_ok_iff.mpr
    refine ⟨token, named, except_bind_eq_ok_iff.mpr ⟨t, resolved_eq_ok_iff.mpr found', ?_⟩⟩
    exact except_bind_eq_ok_iff.mpr ⟨_, popReference_append popped below, rfl⟩
  | ldfld =>
    simp only [op] at h ⊢
    obtain ⟨⟨f, owner⟩, found, h₁⟩ := except_bind_eq_ok_iff.mp h
    obtain ⟨rest, popped, last⟩ := except_bind_eq_ok_iff.mp h₁
    rw [← except_pure_eq_ok_iff.mp last]
    apply except_bind_eq_ok_iff.mpr
    refine ⟨_, grows.field found, except_bind_eq_ok_iff.mpr ⟨_, popInto_append popped below, rfl⟩⟩
  | stfld =>
    simp only [op] at h ⊢
    obtain ⟨⟨f, owner⟩, found, h₁⟩ := except_bind_eq_ok_iff.mp h
    obtain ⟨rest, stored, popped⟩ := except_bind_eq_ok_iff.mp h₁
    apply except_bind_eq_ok_iff.mpr
    refine ⟨_, grows.field found, except_bind_eq_ok_iff.mpr ⟨_, popInto_append stored below, ?_⟩⟩
    exact popInto_append popped below
  | ldsfld =>
    simp only [op] at h ⊢
    obtain ⟨⟨f, owner⟩, found, last⟩ := except_bind_eq_ok_iff.mp h
    rw [← except_pure_eq_ok_iff.mp last]
    exact except_bind_eq_ok_iff.mpr ⟨_, grows.field found, rfl⟩
  | stsfld =>
    simp only [op] at h ⊢
    obtain ⟨⟨f, owner⟩, found, stored⟩ := except_bind_eq_ok_iff.mp h
    exact except_bind_eq_ok_iff.mpr ⟨_, grows.field found, popInto_append stored below⟩
  | ldftn =>
    simp only [op] at h ⊢
    obtain ⟨token, named, h₁⟩ := except_bind_eq_ok_iff.mp h
    obtain ⟨target, found, last⟩ := except_bind_eq_ok_iff.mp h₁
    rw [← except_pure_eq_ok_iff.mp last]
    have found' := grows.module.callTarget (resolved_eq_ok_iff.mp found)
    apply except_bind_eq_ok_iff.mpr
    exact ⟨token, named, except_bind_eq_ok_iff.mpr ⟨target, resolved_eq_ok_iff.mpr found', rfl⟩⟩

theorem steps (grows : frame.Grows frame') (h : frame.steps code stack = .ok stack') (below : Stack) :
    frame'.steps code (stack ++ below) = .ok (stack' ++ below) := by
  induction code generalizing stack with
  | nil =>
    rw [except_pure_eq_ok_iff.mp h]
    rfl
  | cons i rest ih =>
    obtain ⟨middle, stepped, later⟩ := except_bind_eq_ok_iff.mp h
    exact except_bind_eq_ok_iff.mpr ⟨_, grows.step stepped below, ih later⟩

end Grows

/-! ### Pieces of code -/

theorem steps_append (frame : Frame) (a b : Code) (stack : Stack) :
    frame.steps (a ++ b) stack = frame.steps a stack >>= frame.steps b := by
  induction a generalizing stack with
  | nil => rfl
  | cons i a ih => simp only [List.cons_append, steps, bind_assoc, ih]

theorem steps_append_of_ok (first : frame.steps a stack = .ok stack') :
    frame.steps (a ++ b) stack = frame.steps b stack' := by
  rw [steps_append, first]
  rfl

/-- The greatest height that code comes to, that of the stack in front of it included. -/
def rise (frame : Frame) : Code → Stack → Nat
  | [], stack => stack.length
  | i :: rest, stack =>
    match frame.step i stack with
    | .ok next => max stack.length (rise frame rest next)
    | .error _ => stack.length

theorem length_le_rise (frame : Frame) (code : Code) (stack : Stack) :
    stack.length ≤ frame.rise code stack := by
  cases code with
  | nil => exact Nat.le_refl _
  | cons i rest =>
    rw [rise]
    split
    · exact Nat.le_max_left _ _
    · exact Nat.le_refl _

theorem rise_append (first : frame.steps a stack = .ok stack') :
    frame.rise (a ++ b) stack = max (frame.rise a stack) (frame.rise b stack') := by
  induction a generalizing stack with
  | nil =>
    obtain rfl := except_pure_eq_ok_iff.mp first
    exact (Nat.max_eq_right (length_le_rise _ _ _)).symm
  | cons i a ih =>
    obtain ⟨middle, stepped, later⟩ := except_bind_eq_ok_iff.mp first
    simp only [List.cons_append, rise, stepped, ih later, Nat.max_assoc]

theorem length_le_rise_of_steps (h : frame.steps code stack = .ok stack') :
    stack'.length ≤ frame.rise code stack := by
  have both := rise_append (b := []) h
  rw [List.append_nil] at both
  rw [both]
  exact Nat.le_max_right _ _

/-- Code rises as high above what is below the slots that it takes. -/
theorem Grows.rise (grows : frame.Grows frame') (h : frame.steps code stack = .ok stack') (below : Stack) :
    frame'.rise code (stack ++ below) = frame.rise code stack + below.length := by
  induction code generalizing stack with
  | nil => exact List.length_append
  | cons i rest ih =>
    obtain ⟨middle, stepped, later⟩ := except_bind_eq_ok_iff.mp h
    simp only [Frame.rise, stepped, grows.step stepped below, ih later, List.length_append]
    omega

/-! ### Bodies -/

/-- A body is checked up to a place in it as the code before that place is, and from there on. -/
theorem checkCode_append (noReturn : ∀ i ∈ a, i.opcode ≠ .ret) (first : frame.steps a stack = .ok stack')
    {offset height : Nat} (low : stack.length ≤ height) :
    frame.checkCode offset height stack (a ++ b) =
      frame.checkCode (offset + a.length) (max height (frame.rise a stack)) stack' b := by
  induction a generalizing offset height stack with
  | nil =>
    obtain rfl := except_pure_eq_ok_iff.mp first
    rw [rise, Nat.max_eq_left low]
    rfl
  | cons i a ih =>
    obtain ⟨middle, stepped, later⟩ := except_bind_eq_ok_iff.mp first
    have goesOn : i.opcode ≠ .ret := noReturn i List.mem_cons_self
    have others : ∀ j ∈ a, j.opcode ≠ .ret := fun j member => noReturn j (List.mem_cons_of_mem _ member)
    -- the walk takes the height in front of an instruction and the one behind it, and the second is below the rise
    have heights : max (max height middle.length) (frame.rise a middle) =
        max height (max stack.length (frame.rise a middle)) := by
      have := length_le_rise frame a middle
      omega
    rw [List.cons_append, checkCode, if_neg goesOn]
    simp only [stepped, rise, ih others later (Nat.le_max_right _ _), heights, List.length_cons]
    congr 1
    omega

/-- A body that is accepted is accepted at any place and below any height that was reached before it. -/
theorem checkCode_raised {offset height greatest : Nat}
    (accepted : frame.checkCode offset height stack code = .ok greatest) (offset' more : Nat) :
    frame.checkCode offset' (max height more) stack code = .ok (max greatest more) := by
  induction code generalizing offset offset' height stack with
  | nil => cases accepted
  | cons i rest ih =>
    rw [checkCode] at accepted ⊢
    split at accepted
    · rename_i last
      rw [if_pos last]
      split at accepted
      · cases accepted
      · rename_i returned
        split at accepted
        · rename_i nothing
          rw [if_pos nothing, Except.ok.inj accepted]
        · cases accepted
    · rename_i goesOn
      rw [if_neg goesOn]
      split at accepted
      · cases accepted
      · rename_i next stepped
        -- the height reached so far is in the induction, so that it can take in the next stack
        have later := ih accepted (offset' + 1)
        rw [Nat.max_right_comm] at later
        exact later

theorem Grows.checkCode (grows : frame.Grows frame') {offset height greatest : Nat}
    (accepted : frame.checkCode offset height stack code = .ok greatest) :
    frame'.checkCode offset height stack code = .ok greatest := by
  induction code generalizing offset height stack with
  | nil => cases accepted
  | cons i rest ih =>
    rw [Frame.checkCode] at accepted ⊢
    split at accepted
    · rename_i last
      have same : frame'.checkReturn stack = frame.checkReturn stack := by
        unfold Frame.checkReturn
        rw [grows.result]
      rw [if_pos last, same]
      exact accepted
    · rename_i goesOn
      rw [if_neg goesOn]
      split at accepted
      · cases accepted
      · rename_i next stepped
        have onward := grows.step stepped []
        rw [List.append_nil, List.append_nil] at onward
        rw [onward]
        exact ih accepted

end Frame

/-- A method whose body grew is checked in a frame that says more. -/
theorem frameOf_grows {m m' : Module} {row row' : Method} (kept : Module.Retained m m')
    (grows : row.Grows row') (built : m.frameOf row = .ok frame) :
    ∃ frame', m'.frameOf row' = .ok frame' ∧ frame.Grows frame' := by
  obtain ⟨same, longer⟩ := grows
  generalize row'.body = body at same longer
  subst same
  unfold Module.frameOf at built
  have kind : ({ row with body } : Method).isStatic = row.isStatic := rfl
  cases static : row.isStatic with
  | true =>
    rw [static, if_pos rfl] at built
    obtain rfl := except_pure_eq_ok_iff.mp built
    refine ⟨⟨m', row.params.map (·.ty), body.locals, row.result⟩, ?_, kept, rfl, longer, rfl⟩
    unfold Module.frameOf
    rw [kind, static]
    rfl
  | false =>
    rw [static, if_neg (by decide)] at built
    obtain ⟨this, read, last⟩ := except_bind_eq_ok_iff.mp built
    obtain ⟨d, owner, rfl⟩ := except_map_eq_ok_iff.mp read
    obtain rfl := except_pure_eq_ok_iff.mp last
    obtain ⟨d', owner', same⟩ := kept.typeDef owner
    refine ⟨⟨m', [d'.ty] ++ row.params.map (·.ty), body.locals, row.result⟩, ?_, kept, by rw [same], longer,
      rfl⟩
    unfold Module.frameOf
    rw [kind, static, if_neg (by decide), owner']
    rfl

end WeakSubscription.Verification
