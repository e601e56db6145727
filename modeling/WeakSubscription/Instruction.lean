import WeakSubscription.Opcode
import WeakSubscription.Token

/-!
Instructions: an opcode with an operand. Nothing forces the operand to be of the kind that the
opcode takes; encoding and verification find that out.
-/

namespace WeakSubscription

inductive Operand where
  | none
  | index (i : UInt8)
  | token (t : Token)
  deriving DecidableEq

namespace Operand

def kind : Operand → OperandKind
  | none => .none
  | index _ => .index
  | token _ => .token

def bytes : Operand → List UInt8
  | none => []
  | index i => [i]
  | token t => t.bytes

def spelled : Operand → String
  | none => "None"
  | index i => s!"Index({i.toNat})"
  | token t => s!"Token({t.spelled})"

end Operand

structure Instruction where
  opcode : Opcode
  operand : Operand
  deriving DecidableEq

namespace Instruction

def plain (o : Opcode) : Instruction := ⟨o, .none⟩

def onToken (o : Opcode) (t : Token) : Instruction := ⟨o, .token t⟩

/-- Loads an argument, by the numbered form where there is one. -/
def loadArg (i : UInt8) : Instruction :=
  match i with
  | 0 => plain .ldarg0
  | 1 => plain .ldarg1
  | 2 => plain .ldarg2
  | 3 => plain .ldarg3
  | _ => ⟨.ldargS, .index i⟩

/-- Loads a local variable, by the numbered form where there is one. -/
def loadLocal (i : UInt8) : Instruction :=
  match i with
  | 0 => plain .ldloc0
  | 1 => plain .ldloc1
  | 2 => plain .ldloc2
  | 3 => plain .ldloc3
  | _ => ⟨.ldlocS, .index i⟩

/-- Stores into a local variable, by the numbered form where there is one. -/
def storeLocal (i : UInt8) : Instruction :=
  match i with
  | 0 => plain .stloc0
  | 1 => plain .stloc1
  | 2 => plain .stloc2
  | 3 => plain .stloc3
  | _ => ⟨.stlocS, .index i⟩

def index? (i : Instruction) : Option UInt8 :=
  match i.operand with
  | .index n => some n
  | .none | .token _ => none

def token? (i : Instruction) : Option Token :=
  match i.operand with
  | .token t => some t
  | .none | .index _ => none

/-- The argument that the instruction loads. The numbered forms ignore their operand. -/
def argument? (i : Instruction) : Option UInt8 :=
  match i.opcode with
  | .ldarg0 => some 0
  | .ldarg1 => some 1
  | .ldarg2 => some 2
  | .ldarg3 => some 3
  | .ldargS => i.index?
  | _ => none

/-- The local variable that the instruction loads or stores. -/
def local? (i : Instruction) : Option UInt8 :=
  match i.opcode with
  | .ldloc0 | .stloc0 => some 0
  | .ldloc1 | .stloc1 => some 1
  | .ldloc2 | .stloc2 => some 2
  | .ldloc3 | .stloc3 => some 3
  | .ldlocS | .stlocS => i.index?
  | _ => none

def text (i : Instruction) : String :=
  match i.operand with
  | .none => i.opcode.mnemonic
  | .index n => s!"{i.opcode.mnemonic} {n.toNat}"
  | .token t => s!"{i.opcode.mnemonic} {t.text}"

/-! ### What the numbered forms name -/

@[simp] theorem argument?_loadArg (i : UInt8) : (loadArg i).argument? = some i := by
  unfold loadArg
  split <;> rfl

@[simp] theorem local?_loadLocal (i : UInt8) : (loadLocal i).local? = some i := by
  unfold loadLocal
  split <;> rfl

@[simp] theorem local?_storeLocal (i : UInt8) : (storeLocal i).local? = some i := by
  unfold storeLocal
  split <;> rfl

example : (loadArg 1).text = "ldarg.1" := by decide

example : (loadArg 7).text = "ldarg.s 7" := by decide

end Instruction

end WeakSubscription
