import WeakSubscription.Attributes
import WeakSubscription.Code
import WeakSubscription.Signature

/-!
Rows of the metadata tables. Every row carries its own token, members name the type that declares
them, and a type lists its members.
-/

namespace WeakSubscription

structure TypeDef where
  token : Token
  name : TypeName
  flags : TypeFlags
  base : Option Ty
  fields : List Token
  methods : List Token
  deriving DecidableEq

namespace TypeDef

def ty (d : TypeDef) : Ty := .named d.name

/-- Whether the definition is a delegate, which its base type tells. -/
def isDelegate (d : TypeDef) : Bool := d.base.any (·.isNamed .multicastDelegate)

end TypeDef

/-- A type of another module. A delegate type carries the signature of its `Invoke` method. -/
structure TypeRef where
  token : Token
  name : TypeName
  scope : String
  invoke : Option Signature
  deriving DecidableEq

namespace TypeRef

def ty (r : TypeRef) : Ty := .named r.name

/-- Whether the referenced type is a delegate. -/
def isDelegate (r : TypeRef) : Bool := r.invoke.isSome

end TypeRef

structure Field where
  token : Token
  name : String
  owner : Token
  flags : FieldFlags
  ty : Ty
  deriving DecidableEq

/-- Whether the field belongs to its type and not to the instances. -/
def Field.isStatic (f : Field) : Bool := f.flags.has .static

structure Param where
  name : Option String
  ty : Ty
  deriving DecidableEq

/-- A local variable of a body: its place among the locals, and its type. -/
structure Variable where
  index : Nat
  ty : Ty
  deriving DecidableEq

structure Body where
  code : Code
  locals : List Variable
  /-- Whether locals start out null. -/
  initLocals : Bool
  deriving DecidableEq

namespace Body

def ofCode (code : Code) : Body := ⟨code, [], true⟩

/-- The greatest number of locals of a body; an index operand can name no more. -/
def maxLocals : Nat := 256

def addLocal (b : Body) (ty : Ty) : Except Error (Body × Variable) :=
  if b.locals.length < maxLocals then
    let v : Variable := ⟨b.locals.length, ty⟩
    .ok ({ b with locals := b.locals ++ [v] }, v)
  else .error .outOfBounds

/-- The body with code put in front of the instruction at `index`, or at the end. -/
def insert (b : Body) (code : Code) (index : Nat) : Except Error Body :=
  if index ≤ b.code.length then
    .ok { b with code := b.code.take index ++ code ++ b.code.drop index }
  else .error .outOfBounds

def isEmpty (b : Body) : Bool := b.code.isEmpty

end Body

structure Method where
  token : Token
  name : String
  owner : Token
  access : MethodAccess
  modifiers : MethodModifiers
  result : Ty
  params : List Param
  /-- The constructors of the attributes on the method. -/
  attributes : List Token
  body : Body
  deriving DecidableEq

namespace Method

def isStatic (m : Method) : Bool := m.modifiers.has .static

def isPrivate (m : Method) : Bool := m.access == .privateAccess

/-- The index of the first declared parameter; the instance comes before it. -/
def firstParamIndex (m : Method) : UInt8 := if m.isStatic then 0 else 1

def hasAttribute (m : Method) (constructor : Token) : Bool := m.attributes.contains constructor

def signature (m : Method) : Signature :=
  ⟨!m.isStatic, 0, m.params.map (·.ty), m.result⟩

end Method

/-- A method outside the module, by the type that declares it, its name and its signature. -/
structure MemberRef where
  token : Token
  parent : Ty
  name : String
  signature : Signature
  deriving DecidableEq

namespace MemberRef

def isConstructor (r : MemberRef) : Bool := r.name == ".ctor"

/-- Whether the reference names this member of the type, whatever the type arguments. -/
def names (r : MemberRef) (owner : TypeName) (member : String) : Bool :=
  r.name == member && r.parent.typeName? == some owner

/-- The signature with the parent's type arguments and the method's own arguments filled in. -/
def closedSignature (r : MemberRef) (methodArgs : List Ty) : Signature :=
  r.signature.instantiate r.parent.typeArgs methodArgs

end MemberRef

structure MethodSpec where
  token : Token
  method : Token
  args : List Ty
  deriving DecidableEq

structure CallTarget where
  declaringType : Ty
  name : String
  signature : Signature
  deriving DecidableEq

end WeakSubscription
