import WeakSubscription.Ty.Instantiate

/-!
Signatures of methods, with their own generic parameters counted and not named.
-/

namespace WeakSubscription

structure Signature where
  /-- Whether the method is called on an instance, which is then its first argument. -/
  hasThis : Bool
  /-- The number of generic parameters of the method itself. -/
  arity : Nat
  params : List Ty
  result : Ty
  deriving DecidableEq

namespace Signature

def ofStatic (params : List Ty) (result : Ty) : Signature := ⟨false, 0, params, result⟩

def ofInstance (params : List Ty) (result : Ty) : Signature := ⟨true, 0, params, result⟩

/-- The signature with parameters replaced by arguments. The count of generic parameters stays. -/
def instantiate (typeArgs methodArgs : List Ty) (s : Signature) : Signature :=
  { s with
    params := s.params.map (Ty.instantiate typeArgs methodArgs)
    result := s.result.instantiate typeArgs methodArgs }

end Signature

end WeakSubscription
