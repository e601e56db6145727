import WeakSubscription.Proofs.Weaving.Suitable

/-!
# Emitted calls of the weak helpers

The helpers for weak handlers are generic in the event arguments, and calls of them are emitted for a handler type
from which the arguments are taken. What is looked at is whether the type has one argument, not of what it is an
instance. The type recorded for the value is the handler type as it was given, while the call gives the generic
handler type over the argument.
-/

open WeakSubscription.Module

namespace WeakSubscription

open Tracked

variable {P : Op → Prop} {m m' : Module} {refs : HelperRefs} {h : Helper} {closed arg : Ty} {f g k : Fragment}
  {emit : Edit Fragment}

/-- The edit emits a call of one of the two helpers for weak handlers, on these values and for this handler type. -/
inductive EmitsWeak (refs : HelperRefs) (closed : Ty) (f g : Fragment) : Helper → Edit Fragment → Prop
  | findWeak : EmitsWeak refs closed f g .findWeak (Fragment.findWeak refs closed f g)
  | makeWeak : EmitsWeak refs closed f g .makeWeak (Fragment.makeWeak refs closed f g)

namespace EmitsWeak

theorem eq (emits : EmitsWeak refs closed f g h emit) : emit = (do
    let helper ← Fragment.instantiateHelper (refs.token h) closed
    return Fragment.calling helper [f, g] closed) := by
  cases emits <;> rfl

theorem other (emits : EmitsWeak refs closed f g h emit) : h ≠ .actionConstructor := by
  cases emits <;> decide

theorem arity (emits : EmitsWeak refs closed f g h emit) : h.signature.arity = 1 := by
  cases emits <;> rfl

theorem result (emits : EmitsWeak refs closed f g h emit) (arg : Ty) :
    (h.signature.instantiate [] [arg]).result = .closedHandler arg := by
  cases emits <;> rfl

/-- A type without exactly one argument is refused, and nothing is changed. -/
theorem refused (emits : EmitsWeak refs closed f g h emit) (without : ∀ arg, closed.typeArgs ≠ [arg]) :
    emit m = .error (.unsupportedDelegate (.notClosedHandler closed)) m := by
  have refuses : Fragment.instantiateHelper (refs.token h) closed =
      throw (.unsupportedDelegate (.notClosedHandler closed)) := by
    unfold Fragment.instantiateHelper
    split
    · rename_i arg single
      exact absurd single (without arg)
    · rfl
  rw [emits.eq, refuses]
  rfl

/-- A type with one argument is taken, and the call has the generic handler type over the argument as its result. -/
theorem taken (emits : EmitsWeak refs closed f g h emit) (placed : m.Placed) (names : refs.Name m)
    (single : closed.typeArgs = [arg]) :
    Yields (fun k m' => ∃ t, k = ⟨f.code ++ g.code ++ [.onToken .call t], closed⟩ ∧
        m'.callTarget t = .ok ⟨h.parent refs.helperNamespace, h.member, h.signature.instantiate [] [arg]⟩)
      OutOfRows emit m := by
  have helper : Fragment.instantiateHelper (refs.token h) closed = addMethodSpec (refs.token h) [arg] := by
    unfold Fragment.instantiateHelper
    rw [single]
  rw [emits.eq, helper]
  have count : h.signature.arity = [arg].length := emits.arity
  have fails : Fails OutOfRows (addMethodSpec (refs.token h) [arg]) m :=
    fun e m' failed => (addMethodSpec_fails (names h) count e m' failed).outOfRows
  refine yields_bind fails fun t m' made => yields_pure ⟨t, ?_, ?_⟩
  · simp only [Fragment.calling, List.flatMap_cons, List.flatMap_nil, List.append_nil, List.append_assoc]
  · have calls : refs.Calls m' h [arg] t := .instantiation (addMethodSpec_gives _ _ placed _ _ made)
    exact calls.target (names.grow (evolves_of_ok (moves_addMethodSpec _ _ m) made).grows) emits.other

end EmitsWeak

/-- A type with one argument is a closed handler type if it is an instance of the generic handler type. -/
theorem Ty.eq_closedHandler_iff (single : closed.typeArgs = [arg]) :
    closed = .closedHandler arg ↔ closed.isInstanceOf .genericEventHandler = true := by
  cases closed with
  | inst base args =>
    obtain rfl : args = [arg] := single
    simp [Ty.closedHandler, Ty.isInstanceOf]
  | void | object | intPtr | named _ | typeParam _ | methodParam _ => cases single

/-- Calls of the helpers for weak handlers are emitted for every type with exactly one argument, as long as there
is a row for the instantiation, and refused for all others. The value goes by the type that was given, and the
call by the generic handler type over the argument, so the two are the same exactly for closed handler types. -/
theorem weak_calls_emitted (imported : Imported P refs m) (emits : EmitsWeak refs closed f g h emit) :
    ((∀ arg, closed.typeArgs ≠ [arg]) → emit m = .error (.unsupportedDelegate (.notClosedHandler closed)) m) ∧
      ∀ arg, closed.typeArgs = [arg] →
        (∃ k m' t target, emit m = .ok k m' ∧ k = ⟨f.code ++ g.code ++ [.onToken .call t], closed⟩ ∧
          m'.callTarget t = .ok target ∧ target.name = h.member ∧ target.signature.result = .closedHandler arg ∧
          (k.ty = target.signature.result ↔ closed.isInstanceOf .genericEventHandler = true)) ∨
        ∃ e m', emit m = .error e m' ∧ OutOfRows e m' := by
  obtain ⟨placed, names, -⟩ := imported.facts
  refine ⟨emits.refused, fun arg single => ?_⟩
  rcases (emits.taken placed names single).cases with ⟨k, m', ran, t, rfl, target⟩ | failed
  · refine .inl ⟨_, m', t, _, ran, rfl, target, rfl, emits.result arg, ?_⟩
    rw [emits.result arg]
    exact Ty.eq_closedHandler_iff single
  · exact .inr failed

namespace Ticker

/-- The call that finds a wrapper in the ticker's field has the type that is recorded for its value. -/
theorem ticker_weak_calls :
    Imported Op.KeepsOwners helpers withClosed ∧
      EmitsWeak helpers closedArgument.ty source closedArgument .findWeak
        (Fragment.findWeak helpers closedArgument.ty source closedArgument) ∧
      closedArgument.ty.typeArgs = [.named .eventArgs] ∧
      ∃ k m' t target, Fragment.findWeak helpers closedArgument.ty source closedArgument withClosed = .ok k m' ∧
        k = ⟨source.code ++ closedArgument.code ++ [.onToken .call t], closedArgument.ty⟩ ∧
        m'.callTarget t = .ok target ∧ target.name = Helper.findWeak.member ∧ k.ty = target.signature.result := by
  have converted : argument.convert helpers closedArgument.ty declared = .ok closedArgument withClosed :=
    eq_ok_of_value? (by decide +kernel)
  have on : Along Op.Adds declared withClosed := (Fragment.moves_convert _ _ _).of_ok converted
  have emits : EmitsWeak helpers closedArgument.ty source closedArgument .findWeak _ := .findWeak
  have ran : Fragment.findWeak helpers closedArgument.ty source closedArgument withClosed = .ok found withFound :=
    eq_ok_of_value? (by decide +kernel)
  obtain ⟨-, taken⟩ := weak_calls_emitted (declared_imported.grown on) emits
  refine ⟨declared_imported.grown on, emits, rfl, ?_⟩
  rcases taken _ rfl with ⟨k, m', t, target, made, shape, calls, name, -, same⟩ | ⟨e, m', failed, -⟩
  · exact ⟨k, m', t, target, made, shape, calls, name, same.mpr rfl⟩
  · cases ran.symm.trans failed

/-- A generic type that no handler is of. -/
def listOfArgs : Ty := .inst ⟨"System.Collections.Generic", "List`1"⟩ [.named .eventArgs]

def withListCall : Module := endState (Fragment.findWeak helpers listOfArgs source argument declared)

/-- A call is emitted for it. The value goes by that type, while the call gives a handler. -/
theorem ticker_list_taken :
    Imported Op.KeepsOwners helpers declared ∧ listOfArgs.isInstanceOf .genericEventHandler = false ∧
      ∃ k target, Fragment.findWeak helpers listOfArgs source argument declared = .ok k withListCall ∧
        k = ⟨source.code ++ argument.code ++ [.onToken .call (.ofRow .methodSpec 1)], listOfArgs⟩ ∧
        withListCall.callTarget (.ofRow .methodSpec 1) = .ok target ∧
        target.signature.result = .closedHandler (.named .eventArgs) ∧ k.ty ≠ target.signature.result := by
  have ran : Fragment.findWeak helpers listOfArgs source argument declared =
      .ok ⟨source.code ++ argument.code ++ [.onToken .call (.ofRow .methodSpec 1)], listOfArgs⟩ withListCall :=
    eq_ok_of_value? (by decide +kernel)
  have calls : withListCall.callTarget (.ofRow .methodSpec 1) =
      .ok ⟨.named (.weakExtensions "WeakEvents.Runtime"), "FindWeak",
        Helper.findWeak.signature.instantiate [] [.named .eventArgs]⟩ := eq_ok_of_toOption (by decide +kernel)
  exact ⟨declared_imported, by decide, _, _, ran, rfl, calls, by decide, by decide⟩

end Ticker

end WeakSubscription
