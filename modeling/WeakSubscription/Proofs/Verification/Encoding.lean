import WeakSubscription.Proofs.Code.Decoding
import WeakSubscription.Proofs.Verification.Steps
import Mathlib.Data.List.Find

/-!
# Verified code and its bytes

Verifier and encoder look at different sides of an operand. The encoder compares its kind with what the
opcode takes. The verifier looks up what the operand names: so there is a token wherever one is taken, and
a missing index is read as the last one that there could be, which few methods have a slot for. An operand
that no rule reads is none of the verifier's business, and the encoder is the first to refuse it.
-/

namespace WeakSubscription

variable {i : Instruction} {c : Code}

/-! ### What the encoder says of code -/

/-- An opcode that takes an operand takes a token, or is one of the three that take an index. -/
theorem Opcode.takes_cases {o : Opcode} (takes : o.operandKind ≠ .none) :
    o.operandKind = .token ∨ o = .ldargS ∨ o = .ldlocS ∨ o = .stlocS := by
  cases o <;> simp_all [operandKind]

namespace Instruction

/-- Whether there is an operand on an opcode that takes none. -/
def HasIdleOperand (i : Instruction) : Prop := i.opcode.operandKind = .none ∧ i.operand ≠ .none

instance : DecidablePred HasIdleOperand := fun i =>
  inferInstanceAs (Decidable (i.opcode.operandKind = .none ∧ i.operand ≠ .none))

theorem encode_eq (i : Instruction) :
    i.encode = if i.IsWellFormed then .ok i.written
      else .error (.malformed (.operandMismatch i.operand i.opcode)) := by
  unfold encode written
  split <;> rfl

theorem isWellFormed_of_token (takes : i.opcode.operandKind = .token) {t : Token}
    (given : i.token? = some t) : i.IsWellFormed := by
  obtain ⟨o, x⟩ := i
  cases x <;> simp_all [token?, IsWellFormed, Operand.kind]

theorem isWellFormed_of_index (takes : i.opcode.operandKind = .index) {n : UInt8}
    (given : i.index? = some n) : i.IsWellFormed := by
  obtain ⟨o, x⟩ := i
  cases x <;> simp_all [index?, IsWellFormed, Operand.kind]

theorem not_isWellFormed_of_idle (idle : i.HasIdleOperand) : ¬ i.IsWellFormed := by
  obtain ⟨o, x⟩ := i
  obtain ⟨takesNone, some⟩ := idle
  cases x <;> simp_all [IsWellFormed, Operand.kind]

/-- An instruction is well formed if its opcode takes no operand and it has none. -/
theorem isWellFormed_of_not_idle (takes : i.opcode.operandKind = .none) (free : ¬ i.HasIdleOperand) :
    i.IsWellFormed := by
  have bare : i.operand = .none := Decidable.byContradiction fun some => free ⟨takes, some⟩
  rw [IsWellFormed, bare, takes, Operand.kind]

end Instruction

namespace Code

/-- Code encodes to what its instructions are written as, or fails with the first one whose operand is of
another kind than its opcode takes. -/
theorem encode_eq (c : Code) :
    c.encode = match c.find? (fun i => ¬ i.IsWellFormed) with
      | none => .ok (c.flatMap Instruction.written)
      | some i => .error (.malformed (.operandMismatch i.operand i.opcode)) := by
  induction c with
  | nil => rfl
  | cons i c ih =>
    rw [encode_cons, Instruction.encode_eq, List.find?_cons]
    by_cases wellFormed : i.IsWellFormed
    · simp only [wellFormed, if_true, not_true_eq_false, decide_false, Except.bind, ih]
      cases c.find? (fun i => ¬ i.IsWellFormed) <;> rfl
    · simp only [wellFormed, if_false, not_false_eq_true, decide_true, Except.bind]

/-- Where every operand that is taken is there, what is left to refuse is an idle operand. -/
theorem encode_eq_of_operands (given : ∀ i ∈ c, i.opcode.operandKind ≠ .none → i.IsWellFormed) :
    c.encode = match c.find? Instruction.HasIdleOperand with
      | none => .ok (c.flatMap Instruction.written)
      | some i => .error (.malformed (.operandMismatch i.operand i.opcode)) := by
  have same : c.find? (fun i => ¬ i.IsWellFormed) = c.find? Instruction.HasIdleOperand := by
    refine List.find?_congr fun i member => decide_eq_decide.mpr ⟨fun refused => ?_, ?_⟩
    · have takesNone : i.opcode.operandKind = .none :=
        Decidable.byContradiction fun taken => refused (given i member taken)
      exact Decidable.byContradiction fun free =>
        refused (Instruction.isWellFormed_of_not_idle takesNone free)
    · exact Instruction.not_isWellFormed_of_idle
  rw [encode_eq, same]

end Code

/-! ### What the verifier's rules read of an operand -/

namespace Verification.Frame

variable {frame : Frame} {stack stack' : Stack}

/-- A rule of an opcode that takes a token succeeds only with one. -/
theorem step_reads_token (takes : i.opcode.operandKind = .token)
    (checked : frame.step i stack = .ok stack') : i.IsWellFormed := by
  suffices given : ∃ t, i.token? = some t by
    obtain ⟨t, given⟩ := given
    exact Instruction.isWellFormed_of_token takes given
  unfold step at checked
  cases op : i.opcode <;> simp only [op, Opcode.operandKind, reduceCtorEq] at takes checked
  case call | callvirt =>
    obtain ⟨t, -, -, -, given, -⟩ := call_ok checked
    exact ⟨t, given⟩
  case newobj =>
    obtain ⟨t, -, -, -, given, -⟩ := construct_ok checked
    exact ⟨t, given⟩
  case castclass | ldftn =>
    obtain ⟨t, given, -⟩ := except_bind_eq_ok_iff.mp checked
    exact ⟨t, operand_eq_ok_iff.mp given⟩
  case ldfld | stfld | ldsfld | stsfld =>
    obtain ⟨⟨f, owner⟩, looked, -⟩ := except_bind_eq_ok_iff.mp checked
    obtain ⟨t, given, -⟩ := field_ok looked
    exact ⟨t, given⟩

/-- A load of an argument without its index reads the last argument that an index can name. -/
theorem step_reads_argument (op : i.opcode = .ldargS) (few : frame.args.length < 256)
    (checked : frame.step i stack = .ok stack') : i.IsWellFormed := by
  unfold step at checked
  simp only [op] at checked
  obtain ⟨t, typed, -⟩ := except_bind_eq_ok_iff.mp checked
  have here := argumentTy_ok typed
  have named : i.argument? = i.index? := by simp only [Instruction.argument?, op]
  cases given : i.index? with
  | some n => exact Instruction.isWellFormed_of_index (by rw [op]; rfl) given
  | none =>
    rw [named, given] at here
    obtain ⟨inside, -⟩ := List.getElem?_eq_some_iff.mp here
    exact absurd few (Nat.not_lt.mpr inside)

/-- So it is with locals. -/
theorem step_reads_local (op : i.opcode = .ldlocS ∨ i.opcode = .stlocS)
    (few : frame.locals.length < 256) (checked : frame.step i stack = .ok stack') :
    i.IsWellFormed := by
  have named : i.local? = i.index? := by
    obtain op | op := op <;> simp only [Instruction.local?, op]
  have takes : i.opcode.operandKind = .index := by
    obtain op | op := op <;> rw [op] <;> rfl
  have typed : ∃ t, frame.localTy i = .ok t := by
    unfold step at checked
    obtain op | op := op <;> simp only [op] at checked
    all_goals
      obtain ⟨t, typed, -⟩ := except_bind_eq_ok_iff.mp checked
      exact ⟨t, typed⟩
  obtain ⟨t, typed⟩ := typed
  obtain ⟨v, here, -⟩ := localTy_ok typed
  cases given : i.index? with
  | some n => exact Instruction.isWellFormed_of_index takes given
  | none =>
    rw [named, given] at here
    obtain ⟨inside, -⟩ := List.getElem?_eq_some_iff.mp here
    exact absurd few (Nat.not_lt.mpr inside)

/-- In accepted code the rule of every instruction but the last succeeds from some stack. -/
theorem step_of_checkCode {greatest : Nat} (accepted : frame.checkCode 0 0 [] c = .ok greatest)
    (member : i ∈ c) (goesOn : i.opcode ≠ .ret) :
    ∃ stack stack', frame.step i stack = .ok stack' := by
  obtain ⟨pre, rest, rfl⟩ := List.append_of_mem member
  obtain ⟨stack, -, -, -, -, steps⟩ := checkCode_split accepted (Nat.le_refl 0)
  obtain ⟨-, stack', checked⟩ := steps goesOn
  exact ⟨stack, stack', checked⟩

end Verification.Frame

/-! ### Verified bodies -/

namespace Module

open Verification

variable {m : Module} {t : Token} {row : Method} {summary : Summary}

/-- What verification went through at each instruction that takes an operand. -/
theorem verified_step (found : m.method t = .ok row) (accepted : m.verify t = .ok summary) :
    ∃ frame, m.frameOf row = .ok frame ∧ ∀ i ∈ row.body.code, i.opcode.operandKind ≠ .none →
      ∃ stack stack', frame.step i stack = .ok stack' := by
  obtain ⟨row', frame, found', built, checked, -⟩ := verify_ok accepted
  obtain rfl := Except.ok.inj (found'.symm.trans found)
  refine ⟨frame, built, fun i member takes => Frame.step_of_checkCode checked member fun last => ?_⟩
  rw [last] at takes
  exact takes rfl

/-- Every token that a verified body needs is there, and so is every index, unless the method has the slot
that a missing one is taken to name. Then the body encodes, up to its first idle operand. -/
theorem verified_code_encodes (found : m.method t = .ok row) (accepted : m.verify t = .ok summary) :
    (∀ i ∈ row.body.code, i.opcode.operandKind = .token → i.IsWellFormed) ∧
    (argumentCount row < 256 → ∀ i ∈ row.body.code, i.opcode = .ldargS → i.IsWellFormed) ∧
    (row.body.locals.length < 256 →
      ∀ i ∈ row.body.code, i.opcode = .ldlocS ∨ i.opcode = .stlocS → i.IsWellFormed) ∧
    (argumentCount row < 256 → row.body.locals.length < 256 →
      row.body.code.encode = match row.body.code.find? Instruction.HasIdleOperand with
        | none => .ok (row.body.code.flatMap Instruction.written)
        | some i => .error (.malformed (.operandMismatch i.operand i.opcode))) := by
  obtain ⟨frame, built, stepped⟩ := verified_step found accepted
  obtain ⟨-, locals, -, args⟩ := frameOf_ok built
  have tokens : ∀ i ∈ row.body.code, i.opcode.operandKind = .token → i.IsWellFormed := by
    intro i member takes
    obtain ⟨stack, stack', step⟩ := stepped i member (by rw [takes]; decide)
    exact Frame.step_reads_token takes step
  have arguments : argumentCount row < 256 →
      ∀ i ∈ row.body.code, i.opcode = .ldargS → i.IsWellFormed := by
    intro few i member op
    obtain ⟨stack, stack', step⟩ := stepped i member (by rw [op]; decide)
    exact Frame.step_reads_argument op (args ▸ few) step
  have slots : row.body.locals.length < 256 →
      ∀ i ∈ row.body.code, i.opcode = .ldlocS ∨ i.opcode = .stlocS → i.IsWellFormed := by
    intro few i member op
    obtain ⟨stack, stack', step⟩ := stepped i member (by obtain op | op := op <;> rw [op] <;> decide)
    exact Frame.step_reads_local op (locals ▸ few) step
  refine ⟨tokens, arguments, slots, fun fewArgs fewLocals => ?_⟩
  refine Code.encode_eq_of_operands fun i member takes => ?_
  obtain token | argument | slot := Opcode.takes_cases takes
  · exact tokens i member token
  · exact arguments fewArgs i member argument
  · exact slots fewLocals i member slot

end Module

/-! ### A verified body that encodes and one that does not -/

namespace Caster

def owner : Token := .ofRow .typeDef 1

def last : Token := .ofRow .method 1

def idle : Token := .ofRow .method 2

/-- Gives the last of five arguments, as another type. -/
def lastRow : Method :=
  { token := last, name := "Last", owner, access := .publicAccess, modifiers := .static
    result := .named ⟨"App", "Caster"⟩, params := List.replicate 5 ⟨none, .object⟩, attributes := []
    body := .ofCode [.loadArg 4, .onToken .castclass owner, .plain .ret] }

/-- Does nothing, and says so with an operand. -/
def idleRow : Method :=
  { token := idle, name := "Idle", owner, access := .publicAccess, modifiers := .static, result := .void
    params := [], attributes := [], body := .ofCode [⟨.nop, .index 5⟩, .plain .ret] }

def caster : Module :=
  { name := "Caster"
    types := [⟨owner, ⟨"App", "Caster"⟩, .publicFlag, some .object, [], [last, idle]⟩]
    typeRefs := [], fields := [], methods := [lastRow, idleRow], memberRefs := [], methodSpecs := []
    typeSpecs := [] }

end Caster

open Caster in
theorem verified_code_encodes_cast :
    caster.method last = .ok lastRow ∧ caster.verify last = .ok ⟨1, 3⟩ ∧ Module.argumentCount lastRow < 256 ∧
      lastRow.body.locals.length < 256 ∧
      lastRow.body.code.encode = .ok [0x0E, 4, 0x74, 0x01, 0x00, 0x00, 0x02, 0x2A] := by
  have found : caster.method last = .ok lastRow := rfl
  have accepted : caster.verify last = .ok ⟨1, 3⟩ := rfl
  obtain ⟨-, -, -, encodes⟩ := Module.verified_code_encodes found accepted
  exact ⟨found, accepted, by decide, by decide, encodes (by decide) (by decide)⟩

open Caster in
/-- The verifier passes over the operand of `nop`, which the encoder refuses. -/
theorem idle_operand_verified :
    caster.method idle = .ok idleRow ∧ caster.verify idle = .ok ⟨0, 2⟩ ∧
      idleRow.body.code.encode = .error (.malformed (.operandMismatch (.index 5) .nop)) :=
  ⟨rfl, rfl, rfl⟩

end WeakSubscription
