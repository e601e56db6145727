/-!
The opcodes of the straight-line subset of the common intermediate language that event accessors
are built of: their mnemonics, their encodings, the operand each takes and what it does to the
evaluation stack.
-/

namespace WeakSubscription

/-- An opcode. `ldargS`, `ldlocS` and `stlocS` carry the index that the numbered forms imply. -/
inductive Opcode where
  | nop
  | ldarg0 | ldarg1 | ldarg2 | ldarg3
  | ldloc0 | ldloc1 | ldloc2 | ldloc3
  | stloc0 | stloc1 | stloc2 | stloc3
  | ldargS | ldlocS | stlocS
  | ldnull
  | dup
  | pop
  | call
  | ret
  | callvirt
  | newobj
  | castclass
  | ldfld
  | stfld
  | ldsfld
  | stsfld
  | ldftn
  deriving DecidableEq

inductive OperandKind where
  | none
  | index
  | token
  deriving DecidableEq

def OperandKind.text : OperandKind → String
  | none => "None"
  | index => "UInt8"
  | token => "Token"

inductive Flow where
  | sequential
  | call
  | leave
  deriving DecidableEq

namespace Opcode

def all : List Opcode :=
  [nop, ldarg0, ldarg1, ldarg2, ldarg3, ldloc0, ldloc1, ldloc2, ldloc3, stloc0, stloc1, stloc2,
    stloc3, ldargS, ldlocS, stlocS, ldnull, dup, pop, call, ret, callvirt, newobj, castclass,
    ldfld, stfld, ldsfld, stsfld, ldftn]

def mnemonic : Opcode → String
  | nop => "nop"
  | ldarg0 => "ldarg.0"
  | ldarg1 => "ldarg.1"
  | ldarg2 => "ldarg.2"
  | ldarg3 => "ldarg.3"
  | ldloc0 => "ldloc.0"
  | ldloc1 => "ldloc.1"
  | ldloc2 => "ldloc.2"
  | ldloc3 => "ldloc.3"
  | stloc0 => "stloc.0"
  | stloc1 => "stloc.1"
  | stloc2 => "stloc.2"
  | stloc3 => "stloc.3"
  | ldargS => "ldarg.s"
  | ldlocS => "ldloc.s"
  | stlocS => "stloc.s"
  | ldnull => "ldnull"
  | dup => "dup"
  | pop => "pop"
  | call => "call"
  | ret => "ret"
  | callvirt => "callvirt"
  | newobj => "newobj"
  | castclass => "castclass"
  | ldfld => "ldfld"
  | stfld => "stfld"
  | ldsfld => "ldsfld"
  | stsfld => "stsfld"
  | ldftn => "ldftn"

def ofMnemonic? (s : String) : Option Opcode := all.find? (·.mnemonic == s)

/-- The first byte of a two-byte opcode. -/
def leadByte : UInt8 := 0xFE

/-- The lead byte, zero for a one-byte opcode, and the opcode's own byte. -/
def encoding : Opcode → UInt8 × UInt8
  | nop => (0, 0x00)
  | ldarg0 => (0, 0x02)
  | ldarg1 => (0, 0x03)
  | ldarg2 => (0, 0x04)
  | ldarg3 => (0, 0x05)
  | ldloc0 => (0, 0x06)
  | ldloc1 => (0, 0x07)
  | ldloc2 => (0, 0x08)
  | ldloc3 => (0, 0x09)
  | stloc0 => (0, 0x0A)
  | stloc1 => (0, 0x0B)
  | stloc2 => (0, 0x0C)
  | stloc3 => (0, 0x0D)
  | ldargS => (0, 0x0E)
  | ldlocS => (0, 0x11)
  | stlocS => (0, 0x13)
  | ldnull => (0, 0x14)
  | dup => (0, 0x25)
  | pop => (0, 0x26)
  | call => (0, 0x28)
  | ret => (0, 0x2A)
  | callvirt => (0, 0x6F)
  | newobj => (0, 0x73)
  | castclass => (0, 0x74)
  | ldfld => (0, 0x7B)
  | stfld => (0, 0x7D)
  | ldsfld => (0, 0x7E)
  | stsfld => (0, 0x80)
  | ldftn => (leadByte, 0x06)

def bytes (o : Opcode) : List UInt8 :=
  if o.encoding.1 = 0 then [o.encoding.2] else [o.encoding.1, o.encoding.2]

def operandKind : Opcode → OperandKind
  | ldargS | ldlocS | stlocS => .index
  | call | callvirt | newobj | castclass | ldfld | stfld | ldsfld | stsfld | ldftn => .token
  | nop | ldarg0 | ldarg1 | ldarg2 | ldarg3 | ldloc0 | ldloc1 | ldloc2 | ldloc3 | stloc0 | stloc1
  | stloc2 | stloc3 | ldnull | dup | pop | ret => .none

def flow : Opcode → Flow
  | ret => .leave
  | call | callvirt | newobj => .call
  | nop | ldarg0 | ldarg1 | ldarg2 | ldarg3 | ldloc0 | ldloc1 | ldloc2 | ldloc3 | stloc0 | stloc1
  | stloc2 | stloc3 | ldargS | ldlocS | stlocS | ldnull | dup | pop | castclass | ldfld | stfld
  | ldsfld | stsfld | ldftn => .sequential

/-- How many slots the opcode pops and then pushes, where that does not depend on its operand or on
the method. -/
def stackEffect? : Opcode → Option (Nat × Nat)
  | nop => some (0, 0)
  | ldarg0 | ldarg1 | ldarg2 | ldarg3 | ldargS | ldloc0 | ldloc1 | ldloc2 | ldloc3 | ldlocS
  | ldnull | ldsfld | ldftn => some (0, 1)
  | stloc0 | stloc1 | stloc2 | stloc3 | stlocS | pop | stsfld => some (1, 0)
  | dup => some (1, 2)
  | castclass | ldfld => some (1, 1)
  | stfld => some (2, 0)
  | call | callvirt | newobj | ret => none

theorem mem_all (o : Opcode) : o ∈ all := by cases o <;> decide

end Opcode

end WeakSubscription
