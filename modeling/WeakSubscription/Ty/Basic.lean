import WeakSubscription.TypeName

/-!
Types as signatures, stack slots and operands name them, and the text of a type. Two types count as
the same type wherever their full names agree; structural equality is finer, since `System.Object`
can be written as a named type as well as with its own constructor.
-/

namespace WeakSubscription

/-- A type. Parameters stand for the type arguments of the declaring type or of the method. -/
inductive Ty where
  | void
  | object
  | intPtr
  | named (name : TypeName)
  | inst (base : TypeName) (args : List Ty)
  | typeParam (index : Nat)
  | methodParam (index : Nat)

namespace Ty

/-! ### Equality -/

mutual

/-- Equality of types is decided by recursion on both; lists of arguments go through `decEqAll`. -/
protected def decEq : (a b : Ty) → Decidable (a = b)
  | .void, .void => isTrue rfl
  | .object, .object => isTrue rfl
  | .intPtr, .intPtr => isTrue rfl
  | .named m, .named n => decidable_of_iff (m = n) (by simp)
  | .inst b as, .inst c bs =>
    if h : b = c then
      match Ty.decEqAll as bs with
      | isTrue hs => isTrue (by rw [h, hs])
      | isFalse hs => isFalse (by simp [hs])
    else isFalse (by simp [h])
  | .typeParam i, .typeParam j => decidable_of_iff (i = j) (by simp)
  | .methodParam i, .methodParam j => decidable_of_iff (i = j) (by simp)
  | .void, .object | .void, .intPtr | .void, .named _ | .void, .inst _ _ | .void, .typeParam _
  | .void, .methodParam _ | .object, .void | .object, .intPtr | .object, .named _
  | .object, .inst _ _ | .object, .typeParam _ | .object, .methodParam _ | .intPtr, .void
  | .intPtr, .object | .intPtr, .named _ | .intPtr, .inst _ _ | .intPtr, .typeParam _
  | .intPtr, .methodParam _ | .named _, .void | .named _, .object | .named _, .intPtr
  | .named _, .inst _ _ | .named _, .typeParam _ | .named _, .methodParam _ | .inst _ _, .void
  | .inst _ _, .object | .inst _ _, .intPtr | .inst _ _, .named _ | .inst _ _, .typeParam _
  | .inst _ _, .methodParam _ | .typeParam _, .void | .typeParam _, .object
  | .typeParam _, .intPtr | .typeParam _, .named _ | .typeParam _, .inst _ _
  | .typeParam _, .methodParam _ | .methodParam _, .void | .methodParam _, .object
  | .methodParam _, .intPtr | .methodParam _, .named _ | .methodParam _, .inst _ _
  | .methodParam _, .typeParam _ => isFalse (by simp)

protected def decEqAll : (as bs : List Ty) → Decidable (as = bs)
  | [], [] => isTrue rfl
  | [], _ :: _ => isFalse (by simp)
  | _ :: _, [] => isFalse (by simp)
  | a :: as, b :: bs =>
    match Ty.decEq a b, Ty.decEqAll as bs with
    | isTrue h, isTrue hs => isTrue (by rw [h, hs])
    | isFalse h, _ => isFalse (by simp [h])
    | _, isFalse hs => isFalse (by simp [hs])

end

instance : DecidableEq Ty := Ty.decEq

/-! ### Text -/

mutual

/-- The text of a type: arguments in angle brackets, `!n` for a parameter of the declaring type and
`!!n` for one of the method. -/
def fullName : Ty → String
  | .void => "System.Void"
  | .object => "System.Object"
  | .intPtr => "System.IntPtr"
  | .named n => n.full
  | .inst base args => base.full ++ "<" ++ ",".intercalate (fullNames args) ++ ">"
  | .typeParam i => s!"!{i}"
  | .methodParam i => s!"!!{i}"

def fullNames : List Ty → List String
  | [] => []
  | t :: ts => fullName t :: fullNames ts

end

@[simp] theorem fullNames_eq_map (ts : List Ty) : fullNames ts = ts.map fullName := by
  induction ts with
  | nil => rfl
  | cons t ts ih => simp [fullNames, ih]

theorem fullName_inst (base : TypeName) (args : List Ty) :
    (inst base args).fullName = base.full ++ "<" ++ ",".intercalate (args.map fullName) ++ ">" := by
  rw [fullName, fullNames_eq_map]

/-- Whether two types have the same full name, which is how verifier and machine compare types. -/
def SameName (a b : Ty) : Prop := a.fullName = b.fullName

instance (a b : Ty) : Decidable (SameName a b) :=
  inferInstanceAs (Decidable (a.fullName = b.fullName))

/-! ### Queries -/

/-- Whether values of the type are references: objects, named types and generic types are. -/
def isReference : Ty → Bool
  | .object | .named _ | .inst _ _ => true
  | .void | .intPtr | .typeParam _ | .methodParam _ => false

def typeName? : Ty → Option TypeName
  | .named n | .inst n _ => some n
  | .void | .object | .intPtr | .typeParam _ | .methodParam _ => none

def typeArgs : Ty → List Ty
  | .inst _ args => args
  | .void | .object | .intPtr | .named _ | .typeParam _ | .methodParam _ => []

def isNamed (name : TypeName) : Ty → Bool
  | .named n => n == name
  | .void | .object | .intPtr | .inst _ _ | .typeParam _ | .methodParam _ => false

/-- Whether the type is an instance of the generic type of that name, with any arguments. -/
def isInstanceOf (name : TypeName) : Ty → Bool
  | .inst base _ => base == name
  | .void | .object | .intPtr | .named _ | .typeParam _ | .methodParam _ => false

/-- Whether every reference can be seen as a value of the type: objects, and the two bases of all
delegates. -/
def isUniversalBase (t : Ty) : Bool :=
  t == .object || t.isNamed .delegate || t.isNamed .multicastDelegate

example : (inst .action [.object, .methodParam 0]).fullName =
    "System.Action`1<System.Object,!!0>" := by decide

end Ty

end WeakSubscription
