/-!
Settings of the weaver and of the machine that runs woven code.
-/

namespace WeakSubscription

structure Settings where
  /-- Whether the body of a generated method is verified before it is kept. -/
  verify : Bool := true
  /-- The namespace of the weak event helpers. -/
  helperNamespace : String := "WeakEvents.Runtime"
  deriving DecidableEq

/-- The name of the method that unsubscribes lost handlers of an event. -/
def unsubscribeName (event : String) : String := "<" ++ event ++ ">_Weak_Unsubscribe"

end WeakSubscription
