import WeakSubscription.Ty.Basic

/-!
Instantiation of generic types. Both kinds of parameters are replaced in one pass, so parameters
that occur inside the arguments are carried over and never replaced themselves.
-/

namespace WeakSubscription.Ty

mutual

/-- The type with its parameters replaced by arguments. A parameter without an argument stays. -/
def instantiate (typeArgs methodArgs : List Ty) : Ty → Ty
  | .void => .void
  | .object => .object
  | .intPtr => .intPtr
  | .named n => .named n
  | .inst base args => .inst base (instantiateAll typeArgs methodArgs args)
  | .typeParam i => typeArgs.getD i (.typeParam i)
  | .methodParam i => methodArgs.getD i (.methodParam i)

def instantiateAll (typeArgs methodArgs : List Ty) : List Ty → List Ty
  | [] => []
  | t :: ts => instantiate typeArgs methodArgs t :: instantiateAll typeArgs methodArgs ts

end

@[simp] theorem instantiateAll_eq_map (ts ms l : List Ty) :
    instantiateAll ts ms l = l.map (instantiate ts ms) := by
  induction l with
  | nil => rfl
  | cons t l ih => simp [instantiateAll, ih]

mutual

def isOpen : Ty → Bool
  | .void | .object | .intPtr | .named _ => false
  | .inst _ args => anyOpen args
  | .typeParam _ | .methodParam _ => true

def anyOpen : List Ty → Bool
  | [] => false
  | t :: ts => isOpen t || anyOpen ts

end

@[simp] theorem anyOpen_eq_any (ts : List Ty) : anyOpen ts = ts.any isOpen := by
  induction ts with
  | nil => rfl
  | cons t ts ih => simp [anyOpen, ih]

end WeakSubscription.Ty
