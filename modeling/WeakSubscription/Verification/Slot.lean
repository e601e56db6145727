import WeakSubscription.Opcode
import WeakSubscription.Ty.Basic

/-!
Static types of evaluation stack slots, and the reasons for which a body is rejected.
-/

namespace WeakSubscription

/-- What is known of a stack slot: it holds null, or a value of a type. -/
inductive Slot where
  | null
  | value (type : Ty)
  deriving DecidableEq

namespace Slot

def describe : Slot → String
  | null => "null"
  | value t => t.fullName

/-- Whether a slot may be used where a value of type `expected` is wanted. Null fits every reference
type; a type fits one of the same name, and a reference type also the universal bases. -/
def assignable (expected : Ty) : Slot → Bool
  | null => expected.isReference
  | value t => decide (t.SameName expected) || (t.isReference && expected.isUniversalBase)

end Slot

inductive SlotUse where
  | argument (index : Nat)
  | this
  | fieldOwner
  | storedValue
  | returnValue
  deriving DecidableEq

def SlotUse.text : SlotUse → String
  | argument i => s!"argument {i}"
  | this => "this"
  | fieldOwner => "field owner"
  | storedValue => "stored value"
  | returnValue => "return value"

/-- Why a body is rejected at an instruction. -/
inductive Unverifiable where
  | stackUnderflow
  | notAssignable (use : SlotUse) (found : Slot) (expected : Ty)
  | notReference (found : Ty)
  | noArgument (index : UInt8)
  | noLocal (index : UInt8)
  | missingToken (opcode : Opcode)
  | notConstructor (name : String)
  | wrongFieldKind (opcode : Opcode) (isStatic : Bool) (field : String)
  | leftOnStack (count : Nat)
  | unreachable
  | fallsOffEnd
  deriving DecidableEq

def Unverifiable.text : Unverifiable → String
  | stackUnderflow => "stack underflow"
  | notAssignable use found expected =>
    s!"{use.text} of type {found.describe} is not assignable to {expected.fullName}"
  | notReference found =>
    s!"castclass operand must be an object reference, found {found.fullName}"
  | noArgument i => s!"no argument {i.toNat}"
  | noLocal i => s!"no local {i.toNat}"
  | missingToken o => s!"{o.mnemonic} requires a token operand"
  | notConstructor name => s!"newobj target {name} is not a constructor"
  | wrongFieldKind o true field => s!"{o.mnemonic} used on static field {field}"
  | wrongFieldKind o false field => s!"{o.mnemonic} used on instance field {field}"
  | leftOnStack n => s!"{n} value(s) left on the stack at ret"
  | unreachable => "unreachable instructions after ret"
  | fallsOffEnd => "control falls off the end of the body"

end WeakSubscription
