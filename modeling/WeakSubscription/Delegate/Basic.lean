import WeakSubscription.Token
import WeakSubscription.Ty.Basic

/-!
Values of a running program. A delegate is a type and an invocation list; an entry of the list is
either a plain method bound to a target, or a weak wrapper around one, which knows what to call once
its target is gone. Wrappers have numbers, and a wrapper is the same entry wherever its number is,
also after the delegate that holds it was given another type. References and wrapper numbers have 32
bits.
-/

namespace WeakSubscription

/-- A reference to an object, by the number of its place in the heap. -/
structure ObjectRef where
  id : UInt32
  deriving DecidableEq

/-- A method with the object it is bound to, if any. -/
structure Invocation where
  target : Option ObjectRef
  method : Token
  deriving DecidableEq

/-- An entry of an invocation list. -/
inductive Entry where
  | strong (call : Invocation)
  /-- A weak wrapper: its number, the wrapped call, the type and entries of the callback for when
  the target is gone, and the type of the delegate handed to that callback. -/
  | weak (id : UInt32) (call : Invocation) (callbackType : Ty) (callback : List Entry)
      (handlerType : Ty)

/-- A delegate: its type and the calls it makes, in order. -/
structure Delegate where
  type : Ty
  entries : List Entry

inductive Value where
  | null
  | object (ref : ObjectRef)
  | delegate (d : Delegate)
  | methodPointer (method : Token)

/-! ### Equality -/

mutual

/-- Equality of entries, with wrappers compared in all their parts. -/
protected def Entry.decEq : (a b : Entry) → Decidable (a = b)
  | .strong c, .strong d => decidable_of_iff (c = d) (by simp)
  | .weak i c t es u, .weak j d t' fs u' =>
    if h : i = j ∧ c = d ∧ t = t' ∧ u = u' then
      match Entry.decEqAll es fs with
      | isTrue hs => isTrue (by simp [h, hs])
      | isFalse hs => isFalse (by simp [hs])
    else isFalse (by simp only [Entry.weak.injEq]; grind)
  | .strong _, .weak _ _ _ _ _ => isFalse (by simp)
  | .weak _ _ _ _ _, .strong _ => isFalse (by simp)

protected def Entry.decEqAll : (as bs : List Entry) → Decidable (as = bs)
  | [], [] => isTrue rfl
  | [], _ :: _ => isFalse (by simp)
  | _ :: _, [] => isFalse (by simp)
  | a :: as, b :: bs =>
    match Entry.decEq a b, Entry.decEqAll as bs with
    | isTrue h, isTrue hs => isTrue (by rw [h, hs])
    | isFalse h, _ => isFalse (by simp [h])
    | _, isFalse hs => isFalse (by simp [hs])

end

instance : DecidableEq Entry := Entry.decEq

deriving instance DecidableEq for Delegate

deriving instance DecidableEq for Value

namespace ObjectRef

/-- A reference as messages show it. -/
def text (r : ObjectRef) : String := s!"obj#{r.id}"

/-- The place in the heap that a reference is to. -/
def slot (r : ObjectRef) : Nat := r.id.toNat

/-- The reference to a place in the heap. Only the places below `UInt32.size` have one. -/
def ofSlot (place : Nat) : ObjectRef := ⟨.ofNat place⟩

theorem slot_ofSlot {place : Nat} (small : place < UInt32.size) : (ofSlot place).slot = place :=
  UInt32.toNat_ofNat_of_lt' small

@[simp] theorem ofSlot_slot (r : ObjectRef) : ofSlot r.slot = r :=
  congrArg mk UInt32.ofNat_toNat

theorem eq_of_slot_eq {r r' : ObjectRef} (same : r.slot = r'.slot) : r = r' := by
  rw [← ofSlot_slot r, same, ofSlot_slot]

end ObjectRef

namespace Entry

/-- Whether two entries count as the same when lists are searched: plain entries by what they call,
wrappers by their number. -/
def sameAs : Entry → Entry → Bool
  | strong c, strong d => c == d
  | weak i _ _ _ _, weak j _ _ _ _ => i == j
  | strong _, weak _ _ _ _ _ => false
  | weak _ _ _ _ _, strong _ => false

def weakId? : Entry → Option UInt32
  | strong _ => none
  | weak i _ _ _ _ => some i

def strongCall? : Entry → Option Invocation
  | strong c => some c
  | weak _ _ _ _ _ => none

def wrappedCall? : Entry → Option Invocation
  | strong _ => none
  | weak _ c _ _ _ => some c

end Entry

namespace Delegate

def bound (type : Ty) (target : Option ObjectRef) (method : Token) : Delegate :=
  ⟨type, [.strong ⟨target, method⟩]⟩

def weakIds (d : Delegate) : List UInt32 := d.entries.filterMap Entry.weakId?

end Delegate

namespace Value

def describe : Value → String
  | null => "null"
  | object r => r.text
  | delegate d => d.type.fullName
  | methodPointer m => s!"fnptr {m.text}"

def delegate? : Value → Option Delegate
  | delegate d => some d
  | null | object _ | methodPointer _ => none

theorem eq_of_delegate? {v : Value} {d : Delegate} (read : v.delegate? = some d) : v = delegate d := by
  cases v with
  | delegate d' => rw [Option.some.inj read]
  | null | object _ | methodPointer _ => cases read

def object? : Value → Option ObjectRef
  | object r => some r
  | null | delegate _ | methodPointer _ => none

/-- The delegate with these entries, or null if there are none. -/
def ofEntries (type : Ty) : List Entry → Value
  | [] => null
  | e :: es => delegate ⟨type, e :: es⟩

end Value

end WeakSubscription
