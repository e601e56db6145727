import WeakSubscription.Delegate.Arithmetic

/-!
Weak wrappers. Making a handler weak puts each of its plain entries into a wrapper with a number of
its own; finding looks for the wrapper of what a handler calls. The numbers are counted in 32 bits, and
the count starts again from zero behind the last of them.
-/

namespace WeakSubscription.Delegate

/-- Wraps the plain entries of a list with numbers that follow `last`; wrappers stay as they are.
Also gives the last number used. -/
def wrapEntries (unsubscribe : Delegate) (handlerType : Ty) :
    (last : UInt32) → List Entry → List Entry × UInt32
  | last, [] => ([], last)
  | last, .strong c :: es =>
    let (wrapped, last') := wrapEntries unsubscribe handlerType (last + 1) es
    (.weak (last + 1) c unsubscribe.type unsubscribe.entries handlerType :: wrapped, last')
  | last, e@(.weak _ _ _ _ _) :: es =>
    let (wrapped, last') := wrapEntries unsubscribe handlerType last es
    (e :: wrapped, last')

/-- The count goes on by so many where it does not wrap. -/
theorem toNat_add_ofNat {last : UInt32} {n : Nat} (room : last.toNat + n < UInt32.size) :
    (last + .ofNat n).toNat = last.toNat + n := by
  rw [UInt32.toNat_add, UInt32.toNat_ofNat_of_lt' (by omega)]
  exact Nat.mod_eq_of_lt room

/-- The handler with its entries wrapped, as a delegate of `handlerType`, and the last wrapper
number used. Neither the handler nor the callback may be null. -/
def makeWeak (handler unsubscribe : Value) (handlerType : Ty) (last : UInt32) :
    Except Error (Value × UInt32) := do
  let some handler ← handler.asOperand .makeWeak | throw (.fault .nullReference)
  let some unsubscribe ← unsubscribe.asOperand .makeWeak | throw (.fault .nullReference)
  let (entries, last) := wrapEntries unsubscribe handlerType last handler.entries
  return (.delegate ⟨handlerType, entries⟩, last)

/-- The last wrapper in `source` around what the first plain entry of `handler` calls, as a delegate
of `handlerType`; null if there is none. -/
def findWeak (source handler : Value) (handlerType : Ty) : Except Error Value := do
  let source ← source.asOperand .findWeak
  let handler ← handler.asOperand .findWeak
  let found? : Option Entry := do
    let source ← source
    let handler ← handler
    let wanted ← handler.entries.findSome? Entry.strongCall?
    source.entries.reverse.find? fun e => e.wrappedCall? == some wanted
  return found?.elim .null fun e => .delegate ⟨handlerType, [e]⟩

end WeakSubscription.Delegate
