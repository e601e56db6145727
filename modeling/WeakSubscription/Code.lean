import WeakSubscription.Error

/-!
Lists of instructions: their listing, counts over them, and their bytes. Encoding writes the opcode
of an instruction before it looks at the operand, so a refused operand leaves the opcode written.
-/

namespace WeakSubscription

namespace Instruction

/-- Whether the operand is of the kind that the opcode takes. -/
def IsWellFormed (i : Instruction) : Prop := i.operand.kind = i.opcode.operandKind

instance : DecidablePred IsWellFormed := fun i =>
  inferInstanceAs (Decidable (i.operand.kind = i.opcode.operandKind))

def encode (i : Instruction) : Except Error (List UInt8) :=
  if i.IsWellFormed then .ok (i.opcode.bytes ++ i.operand.bytes)
  else .error (.malformed (.operandMismatch i.operand i.opcode))

/-- What is written for the instruction, whether its operand is accepted or not. -/
def written (i : Instruction) : List UInt8 :=
  i.opcode.bytes ++ if i.IsWellFormed then i.operand.bytes else []

end Instruction

abbrev Code := List Instruction

namespace Code

def thenReturn (c : Code) : Code := c ++ [.plain .ret]

/-- The bytes of the code. It fails with the first instruction that cannot be encoded. -/
def encode (c : Code) : Except Error (List UInt8) := (·.flatten) <$> c.mapM Instruction.encode

/-- One line per instruction, each with its offset in front and a line end behind. -/
def listing (c : Code) : String :=
  String.join (c.zipIdx.map fun (i, offset) => s!"IL_{Text.decimal 4 offset}: {i.text}\n")

def countOpcode (c : Code) (o : Opcode) : Nat := c.countP (·.opcode == o)

def countCalls (c : Code) (targets : List Token) : Nat :=
  c.countP fun i => i.opcode == .call && i.token?.any targets.contains

end Code

end WeakSubscription
