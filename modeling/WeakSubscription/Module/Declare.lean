import WeakSubscription.Module.Edit

/-!
Declarations as a compiler makes them: classes, delegate types with their constructor and `Invoke`,
fields, and methods with their usual flags.
-/

namespace WeakSubscription

structure MethodDecl where
  name : String
  access : MethodAccess := .privateAccess
  modifiers : MethodModifiers := .none
  result : Ty := .void
  params : List Param := []
  attributes : List Token := []
  code : Code := []

namespace MethodDecl

/-- The declaration with more modifiers. -/
def modified (d : MethodDecl) (more : MethodModifiers) : MethodDecl :=
  { d with modifiers := d.modifiers ||| more }

def publicly (d : MethodDecl) : MethodDecl := { d with access := .publicAccess }

def privately (d : MethodDecl) : MethodDecl := { d with access := .privateAccess }

def staticIf (d : MethodDecl) (isStatic : Bool) : MethodDecl :=
  if isStatic then d.modified .static else d

def virtually (d : MethodDecl) : MethodDecl := d.modified (.virtual ||| .hideBySig)

def hidingBySig (d : MethodDecl) : MethodDecl := d.modified .hideBySig

/-- Marks the name of the method as one with a meaning, such as an accessor's. -/
def speciallyNamed (d : MethodDecl) : MethodDecl := d.modified (.specialName ||| .hideBySig)

def returning (d : MethodDecl) (ty : Ty) : MethodDecl := { d with result := ty }

def param (d : MethodDecl) (name : Option String) (ty : Ty) : MethodDecl :=
  { d with params := d.params ++ [⟨name, ty⟩] }

def withAttribute (d : MethodDecl) (constructor : Token) : MethodDecl :=
  { d with attributes := d.attributes ++ [constructor] }

def withCode (d : MethodDecl) (code : Code) : MethodDecl := { d with code }

/-- The row of the declared method in the type `owner`, before it has a token. -/
def row (d : MethodDecl) (owner : Token) : Method :=
  { token := .ofParts 0 0
    name := d.name
    owner
    access := d.access
    modifiers := d.modifiers
    result := d.result
    params := d.params
    attributes := d.attributes
    body := .ofCode d.code }

def declare (d : MethodDecl) (owner : Token) : Edit Token := Module.addMethod (d.row owner)

end MethodDecl

namespace Module

def declareClass (name : TypeName) (base : Ty) (isSealed : Bool) : Edit Token :=
  addType name (if isSealed then .publicFlag ||| .sealed else .publicFlag) (some base)

/-- Declares a delegate type that hands a sender and arguments of type `args` to its handlers. -/
def declareDelegate (name : TypeName) (args : Ty) : Edit Token := do
  let type ← declareClass name (.named .multicastDelegate) true
  let constructor : MethodDecl := { name := ".ctor" }
  let _ ← (((constructor.publicly.speciallyNamed).param (some "object") .object).param
    (some "method") .intPtr).declare type
  let invoke : MethodDecl := { name := "Invoke" }
  let _ ← (((invoke.publicly.virtually).param (some "sender") .object).param
    (some "e") args).declare type
  return type

/-- References a delegate type of another module with handlers of that shape. -/
def referenceDelegate (name : TypeName) (args : Ty) (scope : String) : Edit Token :=
  addTypeRef name scope (some (.ofInstance [.object, args] .void))

def declareField (owner : Token) (name : String) (ty : Ty) (isStatic : Bool) : Edit Token :=
  addField owner name (if isStatic then .privateFlag ||| .static else .privateFlag) ty

end Module

end WeakSubscription
