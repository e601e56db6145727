import WeakSubscription.Tracked
import WeakSubscription.Verification.Method

/-!
# What the verifier's rules do

Each rule is read backwards: what a stack looked like for the rule to succeed, and what it left.
`checkCode_split` takes an accepted body apart at any instruction, so that what holds at one place of a
body can be shown from what one rule does.
-/

namespace WeakSubscription

namespace Verification

variable {use : SlotUse} {expected : Ty} {params : List Ty} {stack stack' rest : Stack}
  {i : Instruction} {frame : Frame}

theorem reject_ne_ok {α : Type} {cause : Unverifiable} {a : α} : reject cause ≠ .ok a :=
  fun h => (nomatch h)

theorem resolved_eq_ok_iff {α : Type} {x : Except Error α} {a : α} :
    resolved x = .ok a ↔ x = .ok a := by
  cases x <;> simp [resolved]

theorem pop_eq_ok_iff {slot : Slot} : pop stack = .ok (slot, rest) ↔ stack = slot :: rest := by
  cases stack <;> simp [pop, reject]

theorem operand_eq_ok_iff {t : Token} : operand i = .ok t ↔ i.token? = some t := by
  unfold operand
  cases i.token? <;> simp [reject]

theorem popInto_ok (h : popInto use expected stack = .ok rest) :
    ∃ slot, stack = slot :: rest ∧ slot.assignable expected = true := by
  obtain ⟨⟨slot, below⟩, popped, tested⟩ := except_bind_eq_ok_iff.mp h
  obtain rfl := pop_eq_ok_iff.mp popped
  dsimp only at tested
  split at tested
  · rename_i fits
    exact ⟨slot, by rw [except_pure_eq_ok_iff.mp tested], fits⟩
  · exact absurd tested reject_ne_ok

theorem popReference_ok (h : popReference stack = .ok rest) : ∃ slot, stack = slot :: rest := by
  obtain ⟨⟨slot, below⟩, popped, tested⟩ := except_bind_eq_ok_iff.mp h
  obtain rfl := pop_eq_ok_iff.mp popped
  cases slot with
  | null => exact ⟨.null, by rw [except_pure_eq_ok_iff.mp tested]⟩
  | value t =>
    dsimp only at tested
    split at tested
    · exact ⟨.value t, by rw [except_pure_eq_ok_iff.mp tested]⟩
    · exact absurd tested reject_ne_ok

theorem popArguments_ok (h : popArguments params stack = .ok rest) :
    ∃ slots, stack = slots ++ rest ∧ slots.length = params.length := by
  have folded : ∀ (l : List (Ty × Nat)) (stack : Stack),
      l.foldlM (fun stack (p : Ty × Nat) => popInto (.argument p.2) p.1 stack) stack = .ok rest →
      ∃ slots, stack = slots ++ rest ∧ slots.length = l.length := by
    intro l
    induction l with
    | nil =>
      intro stack h
      exact ⟨[], except_pure_eq_ok_iff.mp h, rfl⟩
    | cons p l ih =>
      intro stack h
      rw [List.foldlM_cons] at h
      obtain ⟨below, first, later⟩ := except_bind_eq_ok_iff.mp h
      obtain ⟨slot, rfl, -⟩ := popInto_ok first
      obtain ⟨slots, rfl, count⟩ := ih below later
      exact ⟨slot :: slots, rfl, by simp [count]⟩
  obtain ⟨slots, split, count⟩ := folded _ _ h
  exact ⟨slots, split, by simpa using count⟩

namespace Frame

theorem argumentTy_ok {t : Ty} (h : frame.argumentTy i = .ok t) :
    frame.args[(i.argument?.getD 255).toNat]? = some t := by
  unfold argumentTy at h
  dsimp only at h
  split at h
  · rename_i found
    rw [found, Except.ok.inj h]
  · exact absurd h reject_ne_ok

theorem localTy_ok {t : Ty} (h : frame.localTy i = .ok t) :
    ∃ v, frame.locals[(i.local?.getD 255).toNat]? = some v ∧ v.ty = t := by
  unfold localTy at h
  dsimp only at h
  split at h
  · rename_i v found
    exact ⟨v, found, Except.ok.inj h⟩
  · exact absurd h reject_ne_ok

/-- How many slots a call of the target pops: its arguments, and the instance if it has one. -/
def popped (target : CallTarget) : Nat :=
  target.signature.params.length + if target.signature.hasThis then 1 else 0

/-- What a call leaves of a stack whose lower part is below its arguments. -/
def pushResult (target : CallTarget) (below : Stack) : Stack :=
  if target.signature.result = .void then below else .value target.signature.result :: below

theorem call_ok (h : frame.call i stack = .ok stack') :
    ∃ token target slots below, i.token? = some token ∧ frame.module.callTarget token = .ok target ∧
      stack = slots ++ below ∧ slots.length = popped target ∧ stack' = pushResult target below := by
  obtain ⟨token, named, h₁⟩ := except_bind_eq_ok_iff.mp h
  obtain ⟨target, found, h₂⟩ := except_bind_eq_ok_iff.mp h₁
  obtain ⟨middle, args, h₃⟩ := except_bind_eq_ok_iff.mp h₂
  obtain ⟨slots, rfl, count⟩ := popArguments_ok args
  have pushed : ∀ {below : Stack}, (if target.signature.result = .void then pure below
      else pure (.value target.signature.result :: below) : Check Stack) = .ok stack' →
      stack' = pushResult target below := by
    intro below h
    unfold pushResult
    split at h
    · rename_i void
      rw [if_pos void, except_pure_eq_ok_iff.mp h]
    · rename_i value
      rw [if_neg value, except_pure_eq_ok_iff.mp h]
  refine ⟨token, target, ?_⟩
  dsimp only at h₃
  cases inst : target.signature.hasThis with
  | false =>
    rw [inst, if_neg (by decide)] at h₃
    obtain ⟨below, same, last⟩ := except_bind_eq_ok_iff.mp h₃
    obtain rfl := except_pure_eq_ok_iff.mp same
    exact ⟨slots, middle, operand_eq_ok_iff.mp named, resolved_eq_ok_iff.mp found, rfl,
      by simp [popped, inst, count], pushed last⟩
  | true =>
    rw [inst, if_pos rfl] at h₃
    obtain ⟨below, this, last⟩ := except_bind_eq_ok_iff.mp h₃
    obtain ⟨slot, rfl, -⟩ := popInto_ok this
    exact ⟨slots ++ [slot], below, operand_eq_ok_iff.mp named, resolved_eq_ok_iff.mp found, by simp,
      by simp [popped, inst, count], pushed last⟩

theorem construct_ok (h : frame.construct i stack = .ok stack') :
    ∃ token target slots below, i.token? = some token ∧ frame.module.callTarget token = .ok target ∧
      stack = slots ++ below ∧ slots.length = target.signature.params.length ∧
      stack' = .value target.declaringType :: below := by
  obtain ⟨token, named, h₁⟩ := except_bind_eq_ok_iff.mp h
  obtain ⟨target, found, h₂⟩ := except_bind_eq_ok_iff.mp h₁
  obtain ⟨below, args, h₃⟩ := except_bind_eq_ok_iff.mp h₂
  obtain ⟨slots, rfl, count⟩ := popArguments_ok args
  split at h₃
  · exact ⟨token, target, slots, below, operand_eq_ok_iff.mp named, resolved_eq_ok_iff.mp found, rfl,
      count, (except_pure_eq_ok_iff.mp h₃).symm⟩
  · exact absurd h₃ reject_ne_ok

theorem field_ok {isStatic : Bool} {f : Field} {owner : Ty}
    (h : frame.field i isStatic = .ok (f, owner)) :
    ∃ token, i.token? = some token ∧ frame.module.field token = .ok f ∧ f.isStatic = isStatic := by
  obtain ⟨token, named, h₁⟩ := except_bind_eq_ok_iff.mp h
  obtain ⟨row, found, h₂⟩ := except_bind_eq_ok_iff.mp h₁
  dsimp only at h₂
  split at h₂
  · obtain ⟨_, failed, -⟩ := except_bind_eq_ok_iff.mp h₂
    exact absurd failed reject_ne_ok
  · rename_i kind
    obtain ⟨d, -, h₃⟩ := except_bind_eq_ok_iff.mp h₂
    obtain ⟨rfl, -⟩ := Prod.mk.inj (except_pure_eq_ok_iff.mp h₃)
    exact ⟨token, operand_eq_ok_iff.mp named, resolved_eq_ok_iff.mp found, Decidable.not_not.mp kind⟩

/-- An accepted return of a value has a fitting slot, and nothing else, on the stack. -/
theorem checkReturn_value (h : frame.checkReturn stack = .ok ()) (value : frame.result ≠ .void) :
    ∃ slot, stack = [slot] ∧ slot.assignable frame.result = true := by
  unfold checkReturn at h
  rw [if_neg value] at h
  obtain ⟨rest, popped, nothing⟩ := except_bind_eq_ok_iff.mp h
  obtain ⟨slot, rfl, fits⟩ := popInto_ok popped
  dsimp only at nothing
  split at nothing
  · rename_i empty
    exact ⟨slot, by rw [List.isEmpty_iff.mp empty], fits⟩
  · exact absurd nothing reject_ne_ok

/-! ### Pieces of code -/

/-- The stack behind code that has no return in it. -/
def steps (frame : Frame) : Code → Stack → Check Stack
  | [], stack => return stack
  | i :: rest, stack => do steps frame rest (← frame.step i stack)

theorem height_le_checkCode {offset height : Nat} {code : Code} {greatest : Nat}
    (accepted : frame.checkCode offset height stack code = .ok greatest) : height ≤ greatest := by
  induction code generalizing offset height stack with
  | nil => cases accepted
  | cons i rest ih =>
    rw [checkCode] at accepted
    split at accepted
    · split at accepted
      · cases accepted
      · split at accepted
        · exact Nat.le_of_eq (Except.ok.inj accepted)
        · cases accepted
    · split at accepted
      · cases accepted
      · exact Nat.le_trans (Nat.le_max_left _ _) (ih accepted)

/-- What an accepted body says at one of its instructions: the code before it was checked to a stack of
at most the greatest height, and the instruction is the return behind which nothing is left, or another
one whose rule succeeds and behind which something is left. -/
theorem checkCode_split {offset height : Nat} {pre rest : Code} {greatest : Nat}
    (accepted : frame.checkCode offset height stack (pre ++ i :: rest) = .ok greatest)
    (low : stack.length ≤ height) :
    ∃ at_i, frame.steps pre stack = .ok at_i ∧ at_i.length ≤ greatest ∧ (∀ j ∈ pre, j.opcode ≠ .ret) ∧
      (i.opcode = .ret → rest = [] ∧ frame.checkReturn at_i = .ok ()) ∧
      (i.opcode ≠ .ret → rest ≠ [] ∧ ∃ next, frame.step i at_i = .ok next) := by
  induction pre generalizing offset height stack with
  | nil =>
    refine ⟨stack, rfl, ?_, by simp, ?_, ?_⟩
    · exact Nat.le_trans low (height_le_checkCode accepted)
    · intro last
      rw [List.nil_append, checkCode, if_pos last] at accepted
      split at accepted
      · cases accepted
      · rename_i returned
        split at accepted
        · rename_i nothing
          exact ⟨List.isEmpty_iff.mp nothing, returned⟩
        · cases accepted
    · intro goesOn
      rw [List.nil_append, checkCode, if_neg goesOn] at accepted
      split at accepted
      · cases accepted
      · rename_i next stepped
        refine ⟨?_, next, stepped⟩
        rintro rfl
        cases accepted
  | cons j pre ih =>
    rw [List.cons_append, checkCode] at accepted
    split at accepted
    · split at accepted
      · cases accepted
      · split at accepted
        · rename_i nothing
          simp at nothing
        · cases accepted
    · rename_i goesOn
      split at accepted
      · cases accepted
      · rename_i next stepped
        obtain ⟨at_i, checked, bound, noReturn, here⟩ := ih accepted (Nat.le_max_right _ _)
        refine ⟨at_i, ?_, bound, ?_, here⟩
        · rw [steps, except_bind_eq_ok_iff]
          exact ⟨next, stepped, checked⟩
        · simpa using ⟨goesOn, noReturn⟩

end Frame

end Verification

namespace Module

open Verification

/-- The arguments of a method: the declared parameters, and the instance unless it is static. -/
def argumentCount (row : Method) : Nat := row.params.length + if row.isStatic then 0 else 1

theorem frameOf_ok {m : Module} {row : Method} {frame : Frame} (h : m.frameOf row = .ok frame) :
    frame.module = m ∧ frame.locals = row.body.locals ∧ frame.result = row.result ∧
      frame.args.length = argumentCount row := by
  unfold frameOf at h
  cases static : row.isStatic with
  | true =>
    rw [static, if_pos rfl] at h
    obtain ⟨this, read, built⟩ := except_bind_eq_ok_iff.mp h
    obtain rfl := except_pure_eq_ok_iff.mp read
    obtain rfl := except_pure_eq_ok_iff.mp built
    exact ⟨rfl, rfl, rfl, by simp [argumentCount, static]⟩
  | false =>
    rw [static, if_neg (by decide)] at h
    obtain ⟨this, read, built⟩ := except_bind_eq_ok_iff.mp h
    obtain ⟨d, -, rfl⟩ := except_map_eq_ok_iff.mp read
    obtain rfl := except_pure_eq_ok_iff.mp built
    exact ⟨rfl, rfl, rfl, by simp [argumentCount, static]⟩

/-- What a successful verification went through. -/
theorem verify_ok {m : Module} {method : Token} {summary : Summary}
    (h : m.verify method = .ok summary) :
    ∃ row frame, m.method method = .ok row ∧ m.frameOf row = .ok frame ∧
      frame.checkCode 0 0 [] row.body.code = .ok summary.maxStack ∧
      summary.instructions = row.body.code.length := by
  obtain ⟨row, found, h₁⟩ := except_bind_eq_ok_iff.mp h
  obtain ⟨frame, built, h₂⟩ := except_bind_eq_ok_iff.mp h₁
  refine ⟨row, frame, found, built, ?_⟩
  split at h₂
  · rename_i greatest accepted
    obtain rfl := except_pure_eq_ok_iff.mp h₂
    exact ⟨accepted, rfl⟩
  · cases h₂
  · cases h₂

end Module

end WeakSubscription
