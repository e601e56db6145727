import WeakSubscription.Delegate.Basic
import WeakSubscription.Instruction
import WeakSubscription.Verification.Slot

/-!
Everything that can go wrong, by cause. The wording of each cause is in the `text` functions and
nowhere else.
-/

namespace WeakSubscription

/-- A request that makes no sense for the module or the code it is made of. -/
inductive Malformed where
  | operandMismatch (found : Operand) (opcode : Opcode)
  | tableFull (table : Table)
  | referencesDefinition (name : TypeName) (moduleName : String)
  | alreadyReferenced (name : TypeName) (scope : String)
  | notNewestMethod (method : Token)
  | wrongArity (method : Token) (arity given : Nat)
  | noParameters (method : Token)
  | instanceFromStatic (method member : Token)
  | alreadyDeclares (owner : TypeName) (name : String)
  | anonymousAction
  | missingTokenOperand
  deriving DecidableEq

def Malformed.text : Malformed → String
  | operandMismatch found o =>
    s!"Operand {found.spelled} does not match '{o.mnemonic}' (expects {o.operandKind.text})"
  | tableFull t => s!"Table 0x{Text.hex 2 t.id.toNat} is full"
  | referencesDefinition name moduleName =>
    s!"{name.full} is defined in {moduleName}, it can not be referenced"
  | alreadyReferenced name scope => s!"{name.full} is already referenced from {scope}"
  | notNewestMethod m => s!"Method {m.text} is not the newest method, it can not be rolled back"
  | wrongArity m arity given =>
    s!"Method {m.text} expects {arity} type arguments, got {given}"
  | noParameters m => s!"Method {m.text} has no parameters"
  | instanceFromStatic m member =>
    s!"Static method {m.text} can not access instance member {member.text}"
  | alreadyDeclares owner name => s!"{owner.full} already declares {name}"
  | anonymousAction => "Action constructor has no declaring type"
  | missingTokenOperand => "Instruction without token operand"

/-- Why a type is not the type of an event that can be woven. -/
inductive UnsupportedDelegate where
  | notADelegate (type : Ty)
  | withoutInvoke (type : Ty)
  | wrongParameterCount (type : Ty) (count : Nat)
  | notClosedHandler (type : Ty)
  deriving DecidableEq

def UnsupportedDelegate.text : UnsupportedDelegate → String
  | notADelegate t => t.fullName
  | withoutInvoke t => s!"{t.fullName} has no Invoke method"
  | wrongParameterCount t n =>
    s!"{t.fullName}.Invoke takes {n} parameters, expected (sender, args)"
  | notClosedHandler t => s!"{t.fullName} is not a closed generic event handler"

/-- The operations of a running program that refuse values of the wrong kind. -/
inductive ValueUse where
  | combine
  | remove
  | changeType
  | makeWeak
  | findWeak
  | fieldAccess
  | cast
  | delegateConstruction
  | raise
  deriving DecidableEq

def ValueUse.text : ValueUse → String
  | combine => "Delegate.Combine"
  | remove => "Delegate.Remove"
  | changeType => "DelegateConvert.ChangeType"
  | makeWeak => "MakeWeak"
  | findWeak => "FindWeak"
  | fieldAccess => "field access"
  | cast => "castclass"
  | delegateConstruction => "delegate construction"
  | raise => "raise"

inductive Fault where
  | stackUnderflow
  | argumentOutOfBounds (index count : Nat)
  | localOutOfBounds (index count : Nat)
  | nullReference
  | invalidCast (source target : Ty)
  | delegateTypeMismatch (left right : Ty)
  | typeMismatch (use : ValueUse) (found : Value)
  | invalidHeapReference (ref : ObjectRef)
  | unsupportedCall (name : String)
  | callDepthExceeded (limit : Nat)
  | missingReturn (name : String)
  | heapObjectLimitExceeded (limit : UInt32)
  deriving DecidableEq

def Fault.text : Fault → String
  | stackUnderflow => "Evaluation stack underflow"
  | argumentOutOfBounds i n => s!"Argument {i} out of bounds ({n} arguments)"
  | localOutOfBounds i n => s!"Local {i} out of bounds ({n} locals)"
  | nullReference => "Null reference"
  | invalidCast source target => s!"Invalid cast from {source.fullName} to {target.fullName}"
  | delegateTypeMismatch left right =>
    s!"Delegates must be of the same type ({left.fullName} and {right.fullName})"
  | typeMismatch use found => s!"{use.text} can not operate on {found.describe}"
  | invalidHeapReference r => s!"Invalid heap reference {r.id}"
  | unsupportedCall name => s!"Unsupported call to {name}"
  | callDepthExceeded limit => s!"Call depth limit of {limit} exceeded"
  | missingReturn name => s!"Control fell off the end of {name}"
  | heapObjectLimitExceeded limit => s!"Heap object limit of {limit} exceeded"

inductive Error where
  | malformed (cause : Malformed)
  | outOfBounds
  | typeNotFound (token : Token)
  | memberNotFound (token : Token)
  /-- The module does not hold the helper that a token should name. -/
  | unresolvedReference (owner : TypeName) (member : String) (token : Token) (moduleName : String)
  | unsupportedDelegate (cause : UnsupportedDelegate)
  /-- The body of the method is rejected at the instruction with this offset. -/
  | unverifiable (method : String) (offset : Nat) (cause : Unverifiable)
  | fault (cause : Fault)
  deriving DecidableEq

def Error.text : Error → String
  | malformed cause => cause.text
  | outOfBounds => "Out of Bound access would have occurred!"
  | typeNotFound t => s!"Failed to find type in module - {t.text}"
  | memberNotFound t => s!"Failed to find member in module - {t.text}"
  | unresolvedReference owner member token moduleName =>
    s!"Unresolved runtime reference - {owner.ns}.{owner.name}::{member} " ++
      s!"({token.text}) in {moduleName}"
  | unsupportedDelegate cause => s!"Unsupported event delegate type - {cause.text}"
  | unverifiable method offset cause =>
    s!"Unverifiable body in '{method}' at instruction {offset}: {cause.text}"
  | fault cause => cause.text

end WeakSubscription
