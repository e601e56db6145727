import WeakSubscription.Module.Declare
import WeakSubscription.Verification.Method
import WeakSubscription.Weaving.Fragment
import WeakSubscription.Weaving.Settings

/-!
Weaving of one event, known by its backing field. From the field's delegate type comes the type of
the event arguments, and from that the closed generic handler type on which the weak event helpers
work. A field of that very type needs no conversion; any other delegate is converted before each
helper call and back behind it.
-/

namespace WeakSubscription

namespace Module

/-- The type of the event arguments that handlers of a delegate type take: the argument of the
generic handler type, the plain arguments of the plain handler type, and for a delegate type that
the module defines or references the second parameter of its `Invoke`. -/
def eventArgs (m : Module) (handler : Ty) : Except Error Ty :=
  let second (params : List Ty) : Except Error Ty := match params with
    | [_, args] => .ok args
    | _ => .error (.unsupportedDelegate (.wrongParameterCount handler params.length))
  match handler with
  | .inst base [args] =>
    if base = .genericEventHandler then .ok args
    else .error (.unsupportedDelegate (.notADelegate handler))
  | .named name =>
    if name = .eventHandler then .ok (.named .eventArgs)
    else
      match (m.findType? name.full).filter (·.isDelegate) with
      | some type =>
        match m.findMethod? type.token "Invoke" with
        | some invoke => second (invoke.params.map (·.ty))
        | none => .error (.unsupportedDelegate (.withoutInvoke handler))
      | none =>
        match (m.findTypeRef? name.full).bind (·.invoke) with
        | some invoke => second invoke.params
        | none => .error (.unsupportedDelegate (.notADelegate handler))
  | .void | .object | .intPtr | .inst _ _ | .typeParam _ | .methodParam _ =>
    .error (.unsupportedDelegate (.notADelegate handler))

end Module

structure Event where
  refs : HelperRefs
  settings : Settings
  field : Token
  name : String
  owner : Token
  handler : Ty
  isStatic : Bool
  /-- The generic handler type over the event's arguments. -/
  closed : Ty
  /-- Whether the field is of that type already. -/
  isGeneric : Bool
  deriving DecidableEq

namespace Event

def ofField (m : Module) (field : Token) (refs : HelperRefs) (settings : Settings) :
    Except Error Event := do
  let row ← m.field field
  refs.requireResolved m
  let closed := Ty.closedHandler (← m.eventArgs row.ty)
  return {
    refs, settings, field, closed
    name := row.name
    owner := row.owner
    handler := row.ty
    isStatic := row.isStatic
    isGeneric := decide (closed.SameName row.ty) }

/-- A value converted to the type, unless the event needs no conversions. -/
def converted (event : Event) (value : Fragment) (target : Ty) : Edit Fragment :=
  if event.isGeneric then pure value else value.convert event.refs target

def addVariable (event : Event) (method : Token) : Edit Variable :=
  Module.addLocal method event.handler

/-! ### The unsubscribing method -/

/-- The declaration of the method that removes lost handlers, without its code. -/
def unsubscribeDecl (event : Event) : MethodDecl :=
  let decl : MethodDecl := { name := unsubscribeName event.name }
  (((decl.hidingBySig).staticIf event.isStatic).param none event.closed).withAttribute
    event.refs.compilerGenerated

/-- The code of the unsubscribing method: the field without the handler that comes in. -/
def unsubscribeCode (event : Event) (method : Token) : Edit Code := do
  let site ← Site.ofMethod (← get) method
  let handler ← event.converted (← site.firstArgument) event.handler
  let source ← site.loadField (← get) event.field
  let remaining ← event.converted (← source.remove event.refs handler) event.handler
  return (← site.storeField (← get) event.field remaining).thenReturn

/-- Gives the unsubscribing method its body, verified if the settings ask for it. -/
def implementUnsubscribe (event : Event) (method : Token) : Edit Unit := do
  let code ← event.unsubscribeCode method
  Module.insertCode method code 0
  if event.settings.verify then
    let _ ← (← get).verify method

/-- Adds the unsubscribing method to the type of the event. A method that does not get its body is
taken back. -/
def addUnsubscribe (event : Event) : Edit Token := do
  let m ← get
  let name := unsubscribeName event.name
  if (m.findMethod? event.owner name).isSome then
    let owner ← m.typeDef event.owner
    throw (.malformed (.alreadyDeclares owner.name name))
  let method ← event.unsubscribeDecl.declare event.owner
  tryCatch (event.implementUnsubscribe method) fun e => do
    let _ ← Module.rollbackMethod method
    throw e
  return method

/-! ### Code for the accessors -/

/-- Stores the wrapper of the accessor's argument, as the field holds it, into a variable. -/
def findWeakCode (event : Event) (method : Token) (v : Variable) : Edit Code := do
  let site ← Site.ofMethod (← get) method
  let handler ← event.converted (← site.firstArgument) event.closed
  let source ← site.loadField (← get) event.field
  let found ← Fragment.findWeak event.refs event.closed source handler
  let found ← event.converted found event.handler
  site.storeLocal (← get) v found

/-- Stores the accessor's argument, wrapped with `unsubscribe` as its callback, into a variable. -/
def makeWeakCode (event : Event) (method unsubscribe : Token) (v : Variable) : Edit Code := do
  let constructor ← event.refs.closeActionConstructor event.closed
  let site ← Site.ofMethod (← get) method
  let callback ← site.newDelegate (← get) constructor unsubscribe
  let handler ← event.converted (← site.firstArgument) event.closed
  let weak ← Fragment.makeWeak event.refs event.closed handler callback
  let weak ← event.converted weak event.handler
  site.storeLocal (← get) v weak

end Event

end WeakSubscription
