/-!
Type names, and the names of the types that events and their handlers are made of.
-/

namespace WeakSubscription

/-- A type name with its namespace. The namespace may be empty. -/
structure TypeName where
  ns : String
  name : String
  deriving DecidableEq

namespace TypeName

/-- The name with its namespace in front, or alone if the namespace is empty. -/
def full (n : TypeName) : String := if n.ns = "" then n.name else n.ns ++ "." ++ n.name

/-! ### Delegates and events -/

/-- The base of all delegates. -/
def delegate : TypeName := ⟨"System", "Delegate"⟩

/-- The base that a delegate type extends. -/
def multicastDelegate : TypeName := ⟨"System", "MulticastDelegate"⟩

/-- The handler type of events without arguments of their own. -/
def eventHandler : TypeName := ⟨"System", "EventHandler"⟩

/-- The generic handler type, to be applied to the type of the event arguments. -/
def genericEventHandler : TypeName := ⟨"System", "EventHandler`1"⟩

/-- The arguments of events without arguments of their own. -/
def eventArgs : TypeName := ⟨"System", "EventArgs"⟩

/-- The generic delegate type of the callback that an unsubscribing wrapper is given. -/
def action : TypeName := ⟨"System", "Action`1"⟩

/-- The attribute on methods that no one wrote by hand. -/
def compilerGenerated : TypeName :=
  ⟨"System.Runtime.CompilerServices", "CompilerGeneratedAttribute"⟩

/-! ### The weak event helpers, in a namespace of choice -/

/-- The type that holds the helpers for weak handlers. -/
def weakExtensions (ns : String) : TypeName := ⟨ns, "WeakEventHandlerExtensions"⟩

/-- The type that holds the conversion between delegate types. -/
def delegateConvert (ns : String) : TypeName := ⟨ns, "DelegateConvert"⟩

end TypeName

end WeakSubscription
