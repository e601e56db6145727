import WeakSubscription.Module.Rows

/-!
The helpers that woven code calls: the weak event helpers, delegate arithmetic, and two constructors
that generated methods and callbacks need.
-/

namespace WeakSubscription

/-- The generic handler type over event arguments of a type. -/
def Ty.closedHandler (args : Ty) : Ty := .inst .genericEventHandler [args]

inductive Helper where
  | makeWeak
  | findWeak
  | changeType
  | remove
  | combine
  | compilerGenerated
  | actionConstructor
  deriving DecidableEq

namespace Helper

def all : List Helper :=
  [makeWeak, findWeak, changeType, remove, combine, compilerGenerated, actionConstructor]

/-- The name of the type that declares the helper, with the weak event helpers in namespace `ns`. -/
def owner (ns : String) : Helper → TypeName
  | makeWeak | findWeak => .weakExtensions ns
  | changeType => .delegateConvert ns
  | remove | combine => .delegate
  | compilerGenerated => .compilerGenerated
  | actionConstructor => .action

def member : Helper → String
  | makeWeak => "MakeWeak"
  | findWeak => "FindWeak"
  | changeType => "ChangeType"
  | remove => "Remove"
  | combine => "Combine"
  | compilerGenerated | actionConstructor => ".ctor"

/-- The type that declares the helper. That of the callback is referenced open. -/
def parent (ns : String) : Helper → Ty
  | actionConstructor => .inst .action [.typeParam 0]
  | h@makeWeak | h@findWeak | h@changeType | h@remove | h@combine | h@compilerGenerated =>
    .named (h.owner ns)

/-- The signature of the helper. The weak event helpers are generic: the two for handlers in the
event arguments, the conversion in the type to convert to. -/
def signature : Helper → Signature
  | makeWeak =>
    let handler := Ty.closedHandler (.methodParam 0)
    ⟨false, 1, [handler, .inst .action [handler]], handler⟩
  | findWeak =>
    let handler := Ty.closedHandler (.methodParam 0)
    ⟨false, 1, [.named .delegate, handler], handler⟩
  | changeType => ⟨false, 1, [.named .delegate], .methodParam 0⟩
  | remove | combine => .ofStatic [.named .delegate, .named .delegate] (.named .delegate)
  | compilerGenerated => .ofInstance [] .void
  | actionConstructor => .ofInstance [.object, .intPtr] .void

/-- Whether a member reference goes by the name of the helper. The signature is not looked at. -/
def isNamedBy (h : Helper) (ns : String) (ref : MemberRef) : Bool := ref.names (h.owner ns) h.member

end Helper

end WeakSubscription
