import WeakSubscription.Weaving.HelperRefs

/-!
Typed pieces of code. A fragment leaves exactly one value on the evaluation stack and records its
static type; fragments are put together in evaluation order. Storing a fragment gives code that
leaves the stack as it was.
-/

namespace WeakSubscription

/-- Code that computes one value, and the type of the value. -/
structure Fragment where
  code : Code
  ty : Ty
  deriving DecidableEq

structure Site where
  method : Token
  isStatic : Bool
  /-- The index and the type of the first declared parameter. -/
  firstParamIndex : UInt8
  firstParam : Option Ty
  deriving DecidableEq

namespace Site

/-- The site that a method of the module is. -/
def ofMethod (m : Module) (method : Token) : Except Error Site := do
  let row ← m.method method
  return ⟨method, row.isStatic, row.firstParamIndex, row.params.head?.map (·.ty)⟩

/-- Fails if the site has no instance on which `member` could be used. -/
def requireThis (site : Site) (member : Token) : Except Error Unit :=
  if site.isStatic then .error (.malformed (.instanceFromStatic site.method member)) else .ok ()

def localIndex (site : Site) (m : Module) (v : Variable) : Except Error UInt8 := do
  let row ← m.method site.method
  if v.index < row.body.locals.length ∧ v.index < Body.maxLocals then return UInt8.ofNat v.index
  else throw .outOfBounds

/-! ### Values -/

def firstArgument (site : Site) : Except Error Fragment :=
  match site.firstParam with
  | some ty => .ok ⟨[.loadArg site.firstParamIndex], ty⟩
  | none => .error (.malformed (.noParameters site.method))

/-- The value of a field, of the instance unless the field is static. -/
def loadField (site : Site) (m : Module) (field : Token) : Except Error Fragment := do
  let row ← m.field field
  if row.isStatic then return ⟨[.onToken .ldsfld field], row.ty⟩
  site.requireThis field
  return ⟨[.loadArg 0, .onToken .ldfld field], row.ty⟩

def loadLocal (site : Site) (m : Module) (v : Variable) : Except Error Fragment := do
  return ⟨[.loadLocal (← site.localIndex m v)], v.ty⟩

/-- A new delegate on a method of the instance, or on a static method. -/
def newDelegate (site : Site) (m : Module) (constructor method : Token) :
    Except Error Fragment := do
  let row ← m.method method
  let target ←
    if row.isStatic then pure (Instruction.plain .ldnull)
    else (fun _ => Instruction.loadArg 0) <$> site.requireThis method
  let created ← m.callTarget constructor
  return ⟨[target, .onToken .ldftn method, .onToken .newobj constructor], created.declaringType⟩

/-! ### Stores -/

def storeLocal (site : Site) (m : Module) (v : Variable) (value : Fragment) :
    Except Error Code := do
  return value.code ++ [.storeLocal (← site.localIndex m v)]

/-- Stores a value into a field, of the instance unless the field is static. -/
def storeField (site : Site) (m : Module) (field : Token) (value : Fragment) :
    Except Error Code := do
  let row ← m.field field
  if row.isStatic then return value.code ++ [.onToken .stsfld field]
  site.requireThis field
  return .loadArg 0 :: value.code ++ [.onToken .stfld field]

end Site

namespace Fragment

/-- The call of a helper on values that are computed one after the other. -/
def calling (helper : Token) (operands : List Fragment) (ty : Ty) : Fragment :=
  ⟨operands.flatMap (·.code) ++ [.onToken .call helper], ty⟩

/-- The token of a generic helper for handlers of the closed type. -/
def instantiateHelper (helper : Token) (closed : Ty) : Edit Token :=
  match closed.typeArgs with
  | [args] => Module.addMethodSpec helper [args]
  | _ => throw (.unsupportedDelegate (.notClosedHandler closed))

def convert (refs : HelperRefs) (value : Fragment) (target : Ty) : Edit Fragment := do
  let helper ← Module.addMethodSpec refs.changeType [target]
  return calling helper [value] target

/-- The result of delegate arithmetic, cast back to the type of the source. -/
def arithmetic (helper : Token) (source handler : Fragment) : Edit Fragment := do
  let cast ← Module.importType source.ty
  let result := calling helper [source, handler] source.ty
  return { result with code := result.code ++ [.onToken .castclass cast] }

def remove (refs : HelperRefs) (source handler : Fragment) : Edit Fragment :=
  arithmetic refs.remove source handler

def combine (refs : HelperRefs) (source handler : Fragment) : Edit Fragment :=
  arithmetic refs.combine source handler

/-- The weak wrapper of the handler in the source. -/
def findWeak (refs : HelperRefs) (closed : Ty) (source handler : Fragment) : Edit Fragment := do
  let helper ← instantiateHelper refs.findWeak closed
  return calling helper [source, handler] closed

/-- The handler in a weak wrapper that calls `unsubscribe` once its target is gone. -/
def makeWeak (refs : HelperRefs) (closed : Ty) (handler unsubscribe : Fragment) :
    Edit Fragment := do
  let helper ← instantiateHelper refs.makeWeak closed
  return calling helper [handler, unsubscribe] closed

end Fragment

end WeakSubscription
