import WeakSubscription.Error

/-!
Arithmetic of multicast delegates. Combining appends invocation lists, and null is the neutral
operand. Removing takes out the last place where the other list occurs as a run of consecutive
entries; a delegate that would be left without entries becomes null.
-/

namespace WeakSubscription

/-- The delegate that an operand is; null counts as none, and anything else is refused. -/
def Value.asOperand (use : ValueUse) : Value → Except Error (Option Delegate)
  | .null => .ok none
  | .delegate d => .ok (some d)
  | v@(.object _) | v@(.methodPointer _) => .error (.fault (.typeMismatch use v))

namespace Delegate

def requireSameType (a b : Delegate) : Except Error Unit :=
  if a.type.SameName b.type then .ok ()
  else .error (.fault (.delegateTypeMismatch a.type b.type))

/-- Whether the entries of `v` are the same, one by one, as the first entries of `l`. -/
def startsWith : (v l : List Entry) → Bool
  | [], _ => true
  | _ :: _, [] => false
  | a :: v, b :: l => b.sameAs a && startsWith v l

/-- The last place at which the entries of `v` occur in `l`. -/
def lastOccurrence? (v : List Entry) : (l : List Entry) → Option Nat
  | [] => if v.isEmpty then some 0 else none
  | e :: l =>
    match lastOccurrence? v l with
    | some i => some (i + 1)
    | none => if startsWith v (e :: l) then some 0 else none

/-- The entries of `l` without the last occurrence of `v`. -/
def withoutLast (v l : List Entry) : Option (List Entry) :=
  (lastOccurrence? v l).map fun i => l.take i ++ l.drop (i + v.length)

def combine (left right : Value) : Except Error Value := do
  let left ← left.asOperand .combine
  let right ← right.asOperand .combine
  match left, right with
  | none, none => return .null
  | some d, none | none, some d => return .delegate d
  | some a, some b =>
    requireSameType a b
    return .delegate ⟨a.type, a.entries ++ b.entries⟩

/-- The source without the last occurrence of the value's invocation list. The value is not looked
at if the source is null. -/
def remove (source value : Value) : Except Error Value := do
  let some a ← source.asOperand .remove | return .null
  let some b ← value.asOperand .remove | return .delegate a
  requireSameType a b
  match withoutLast b.entries a.entries with
  | some entries => return .ofEntries a.type entries
  | none => return .delegate a

/-- The same invocation list in a delegate of another type. -/
def changeType (value : Value) (type : Ty) : Except Error Value := do
  let some d ← value.asOperand .changeType | return .null
  return .delegate ⟨type, d.entries⟩

end Delegate

end WeakSubscription
