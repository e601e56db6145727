import WeakSubscription.Module.Basic
import WeakSubscription.Tracked

/-!
Growth of a module. New rows go to the end of their table. References, instantiations and imported
types are interned: asking for one that is there gives its token and changes nothing. Only the
newest method can be taken back.
-/

namespace WeakSubscription

abbrev Edit := Tracked Module

namespace Module

/-- The token of the row that a table of this length would get next. -/
def nextToken (table : Table) (length : Nat) : Except Error Token :=
  if length + 1 < 0x1000000 then .ok (.ofRow table (length + 1))
  else .error (.malformed (.tableFull table))

/-- The place of a type definition that is to own a new member. -/
def ownerIndex (m : Module) (owner : Token) : Except Error Nat :=
  match owner.indexIn? .typeDef with
  | some i => if i < m.types.length then .ok i else .error (.typeNotFound owner)
  | none => .error (.typeNotFound owner)

/-! ### Types -/

def addType (name : TypeName) (flags : TypeFlags) (base : Option Ty) : Edit Token := do
  let m ← get
  let token ← nextToken .typeDef m.types.length
  Tracked.put { m with types := m.types ++ [⟨token, name, flags, base, [], []⟩] }
  return token

/-- References a type of another module. A name that is defined here cannot be referenced, and one
that is referenced already must be asked for with the same scope and `Invoke` signature. -/
def addTypeRef (name : TypeName) (scope : String) (invoke : Option Signature) : Edit Token := do
  let m ← get
  if m.types.any (·.name == name) then
    throw (.malformed (.referencesDefinition name m.name))
  match m.typeRefs.find? (·.name == name) with
  | some existing =>
    if existing.scope = scope ∧ existing.invoke = invoke then return existing.token
    else throw (.malformed (.alreadyReferenced name existing.scope))
  | none =>
    let token ← nextToken .typeRef m.typeRefs.length
    Tracked.put { m with typeRefs := m.typeRefs ++ [⟨token, name, scope, invoke⟩] }
    return token

/-- The token for a type: its definition or reference if it is a name that has one, else a row of
its own. -/
def importType (ty : Ty) : Edit Token := do
  let m ← get
  let row? : Option Token := match ty with
    | .named name =>
      ((m.types.find? (·.name == name)).map (·.token)).or
        ((m.typeRefs.find? (·.name == name)).map (·.token))
    | .void | .object | .intPtr | .inst _ _ | .typeParam _ | .methodParam _ => none
  match row? with
  | some token => return token
  | none =>
    match m.typeSpecs.idxOf? ty with
    | some i => return .ofRow .typeSpec (i + 1)
    | none =>
      let token ← nextToken .typeSpec m.typeSpecs.length
      Tracked.put { m with typeSpecs := m.typeSpecs ++ [ty] }
      return token

/-! ### Members -/

def addField (owner : Token) (name : String) (flags : FieldFlags) (ty : Ty) : Edit Token := do
  let m ← get
  let token ← nextToken .field m.fields.length
  let i ← m.ownerIndex owner
  Tracked.put { m with
    fields := m.fields ++ [⟨token, name, owner, flags, ty⟩]
    types := m.types.modify i fun d => { d with fields := d.fields ++ [token] } }
  return token

/-- Adds a method to the type definition that it names as its owner. The token in the given row is
replaced by the one that the method gets. -/
def addMethod (row : Method) : Edit Token := do
  let m ← get
  let token ← nextToken .method m.methods.length
  let i ← m.ownerIndex row.owner
  Tracked.put { m with
    methods := m.methods ++ [{ row with token }]
    types := m.types.modify i fun d => { d with methods := d.methods ++ [token] } }
  return token

/-- Takes back the newest method. Its token is then free for the next method. -/
def rollbackMethod (token : Token) : Edit Method := do
  let m ← get
  let row ← m.method token
  if token.index? ≠ some (m.methods.length - 1) then
    throw (.malformed (.notNewestMethod token))
  let unlist (d : TypeDef) : TypeDef := { d with methods := d.methods.filter (· ≠ token) }
  Tracked.put { m with
    methods := m.methods.dropLast
    types := match row.owner.index? with
      | some i => m.types.modify i unlist
      | none => m.types }
  return row

def editBody {α : Type} (token : Token) (edit : Body → Except Error (Body × α)) : Edit α := do
  let m ← get
  match token.indexIn? .method with
  | none => throw (.memberNotFound token)
  | some i =>
    let row ← m.method token
    let (body, a) ← edit row.body
    Tracked.put { m with methods := m.methods.set i { row with body } }
    return a

def addLocal (method : Token) (ty : Ty) : Edit Variable :=
  editBody method (·.addLocal ty)

/-- Puts code in front of the instruction at `index` of a method's body, or at its end. -/
def insertCode (method : Token) (code : Code) (index : Nat) : Edit Unit :=
  editBody method fun b => (·, ()) <$> b.insert code index

/-! ### References -/

def addMemberRef (parent : Ty) (name : String) (signature : Signature) : Edit Token := do
  let m ← get
  let same (r : MemberRef) : Bool :=
    r.parent == parent && r.name == name && r.signature == signature
  match m.memberRefs.find? same with
  | some existing => return existing.token
  | none =>
    let token ← nextToken .memberRef m.memberRefs.length
    Tracked.put { m with memberRefs := m.memberRefs ++ [⟨token, parent, name, signature⟩] }
    return token

/-- Instantiates a referenced generic method. There must be an argument for each of its generic
parameters. -/
def addMethodSpec (method : Token) (args : List Ty) : Edit Token := do
  let m ← get
  let ref ← m.memberRef method
  if ref.signature.arity ≠ args.length then
    throw (.malformed (.wrongArity method ref.signature.arity args.length))
  match m.methodSpecs.find? (fun s => s.method == method && s.args == args) with
  | some existing => return existing.token
  | none =>
    let token ← nextToken .methodSpec m.methodSpecs.length
    Tracked.put { m with methodSpecs := m.methodSpecs ++ [⟨token, method, args⟩] }
    return token

end Module

end WeakSubscription
