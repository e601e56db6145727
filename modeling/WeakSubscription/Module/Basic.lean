import WeakSubscription.Module.Rows

/-!
A module: seven tables of rows, and what its tokens mean. Tables only grow at the end, so the row
number in a token is the place of the row.
-/

namespace WeakSubscription

/-- The metadata of one module. -/
structure Module where
  name : String
  types : List TypeDef
  typeRefs : List TypeRef
  fields : List Field
  methods : List Method
  memberRefs : List MemberRef
  methodSpecs : List MethodSpec
  typeSpecs : List Ty
  deriving DecidableEq

namespace Module

def empty (name : String) : Module := ⟨name, [], [], [], [], [], [], []⟩

/-! ### Rows by token -/

/-- The row of a table that a token names, provided the token is one of that table. -/
def lookup {α : Type} (table : Table) (rows : List α) (token : Token) : Option α :=
  (token.indexIn? table).bind (rows[·]?)

def typeDef (m : Module) (t : Token) : Except Error TypeDef :=
  (lookup .typeDef m.types t).elim (.error (.typeNotFound t)) .ok

def typeRef (m : Module) (t : Token) : Except Error TypeRef :=
  (lookup .typeRef m.typeRefs t).elim (.error (.typeNotFound t)) .ok

def typeSpec (m : Module) (t : Token) : Except Error Ty :=
  (lookup .typeSpec m.typeSpecs t).elim (.error (.typeNotFound t)) .ok

def field (m : Module) (t : Token) : Except Error Field :=
  (lookup .field m.fields t).elim (.error (.memberNotFound t)) .ok

def method (m : Module) (t : Token) : Except Error Method :=
  (lookup .method m.methods t).elim (.error (.memberNotFound t)) .ok

def memberRef (m : Module) (t : Token) : Except Error MemberRef :=
  (lookup .memberRef m.memberRefs t).elim (.error (.memberNotFound t)) .ok

def methodSpec (m : Module) (t : Token) : Except Error MethodSpec :=
  (lookup .methodSpec m.methodSpecs t).elim (.error (.memberNotFound t)) .ok

def contains (m : Module) (t : Token) : Bool :=
  match t.table? with
  | some .typeDef => (m.typeDef t).isOk
  | some .typeRef => (m.typeRef t).isOk
  | some .typeSpec => (m.typeSpec t).isOk
  | some .field => (m.field t).isOk
  | some .method => (m.method t).isOk
  | some .memberRef => (m.memberRef t).isOk
  | some .methodSpec => (m.methodSpec t).isOk
  | none => false

/-! ### Rows by name -/

def findType? (m : Module) (fullName : String) : Option TypeDef :=
  m.types.find? (·.name.full == fullName)

def findTypeRef? (m : Module) (fullName : String) : Option TypeRef :=
  m.typeRefs.find? (·.name.full == fullName)

/-- The first method of that name among the methods that a type lists. -/
def findMethod? (m : Module) (owner : Token) (name : String) : Option Method := do
  let type ← (m.typeDef owner).toOption
  (type.methods.filterMap fun t => (m.method t).toOption).find? (·.name == name)

/-- The method itself and its instantiations, in the order of their rows. -/
def instantiationsOf (m : Module) (method : Token) : List Token :=
  method :: (m.methodSpecs.filter (·.method == method)).map (·.token)

/-! ### What tokens mean -/

def resolveType (m : Module) (t : Token) : Except Error Ty :=
  match t.table? with
  | some .typeDef => (·.ty) <$> m.typeDef t
  | some .typeRef => (·.ty) <$> m.typeRef t
  | some .typeSpec => m.typeSpec t
  | some .field | some .method | some .memberRef | some .methodSpec | none =>
    .error (.typeNotFound t)

/-- What a call of the token calls, with the signature closed over all type arguments. -/
def callTarget (m : Module) (t : Token) : Except Error CallTarget :=
  match t.table? with
  | some .method => do
    let method ← m.method t
    let owner ← m.typeDef method.owner
    return ⟨owner.ty, method.name, method.signature⟩
  | some .memberRef => do
    let ref ← m.memberRef t
    return ⟨ref.parent, ref.name, ref.closedSignature []⟩
  | some .methodSpec => do
    let spec ← m.methodSpec t
    let ref ← m.memberRef spec.method
    return ⟨ref.parent, ref.name, ref.closedSignature spec.args⟩
  | some .typeDef | some .typeRef | some .typeSpec | some .field | none =>
    .error (.memberNotFound t)

/-- The name of a callable token in messages, or the token itself if it calls nothing. -/
def displayName (m : Module) (t : Token) : String :=
  match m.callTarget t with
  | .ok target => s!"{target.declaringType.fullName}::{target.name}"
  | .error _ => t.text

end Module

end WeakSubscription
