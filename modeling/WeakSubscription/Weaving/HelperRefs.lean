import WeakSubscription.Module.Edit
import WeakSubscription.Weaving.Helper

/-!
References to the helpers in one module. They are made once, before any event of the module is
woven, and shared by all events.
-/

namespace WeakSubscription

/-- The tokens of the helpers in one module, and the namespace of the weak event helpers. -/
structure HelperRefs where
  helperNamespace : String
  makeWeak : Token
  findWeak : Token
  changeType : Token
  remove : Token
  combine : Token
  compilerGenerated : Token
  actionConstructor : Token
  deriving DecidableEq

namespace HelperRefs

def token (refs : HelperRefs) : Helper → Token
  | .makeWeak => refs.makeWeak
  | .findWeak => refs.findWeak
  | .changeType => refs.changeType
  | .remove => refs.remove
  | .combine => refs.combine
  | .compilerGenerated => refs.compilerGenerated
  | .actionConstructor => refs.actionConstructor

def add (ns : String) (h : Helper) : Edit Token :=
  Module.addMemberRef (h.parent ns) h.member h.signature

/-- References all helpers, with the weak event helpers in namespace `ns`. -/
def addAll (ns : String) : Edit HelperRefs := do
  let makeWeak ← add ns .makeWeak
  let findWeak ← add ns .findWeak
  let changeType ← add ns .changeType
  let remove ← add ns .remove
  let combine ← add ns .combine
  let compilerGenerated ← add ns .compilerGenerated
  let actionConstructor ← add ns .actionConstructor
  return { helperNamespace := ns, makeWeak, findWeak, changeType, remove, combine,
           compilerGenerated, actionConstructor }

/-- Whether the token of a helper names it in the module. -/
def resolvesIn (refs : HelperRefs) (m : Module) (h : Helper) : Bool :=
  match m.memberRef (refs.token h) with
  | .ok ref => h.isNamedBy refs.helperNamespace ref
  | .error _ => false

/-- Fails with the first helper whose token does not name it in the module. -/
def requireResolved (refs : HelperRefs) (m : Module) : Except Error Unit :=
  match Helper.all.find? (!refs.resolvesIn m ·) with
  | none => .ok ()
  | some h =>
    .error (.unresolvedReference (h.owner refs.helperNamespace) h.member (refs.token h) m.name)

/-- References the constructor of callbacks that take a handler of the closed type. -/
def closeActionConstructor (refs : HelperRefs) (closed : Ty) : Edit Token := do
  let ref ← (← get).memberRef refs.actionConstructor
  match ref.parent.typeName? with
  | some base => Module.addMemberRef (.inst base [closed]) ref.name ref.signature
  | none => throw (.malformed .anonymousAction)

end HelperRefs

end WeakSubscription
