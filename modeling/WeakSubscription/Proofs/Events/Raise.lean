import WeakSubscription.Proofs.Events.Follows

/-!
# Calls from outside

What operations on a machine do when no method is running: a method without code is entered and left, and a
raised event runs the entries of its field.
-/

namespace WeakSubscription

open Execution Tracked

variable {program : Program} {m : Module} {es : List WovenEvent} {event : Event} {s s' : Machine}
  {p : Option ObjectRef} {method : Token} {row : Method} {args : List Value} {call : Invocation}
  {xs : List Entry} {caller : Caller}

/-- An instance method is called on the publisher, a static one without. -/
theorem invoke_eq (found : program.module.method method = .ok row) (kind : row.isStatic = p.isNone)
    (args : List Value) :
    Machine.invoke program method p args =
      Execution.call program method (p.toList.map .object ++ args) := by
  unfold Machine.invoke
  rw [found, lift_ok_bind, kind]
  cases p with
  | none => rfl
  | some r => rfl

/-- The call of a method without code only leaves its entry in the trace. -/
theorem callBound_idle (hosts : Hosts program m es) (idle : m.Idle call.method) (outside : s.depth = 0)
    (args : List Value) :
    callBound (Execution.call program) call args s =
      .ok () { s with trace := s.trace ++ [m.traceOf call args] } := by
  obtain ⟨row, found, empty⟩ := idle
  have entry : m.traceOf call args =
      ⟨call.method, entryInstance row.isStatic (call.target.toList.map .object ++ args)⟩ := by
    unfold Module.traceOf
    rw [found]
  let values := call.target.toList.map Value.object ++ args
  obtain ⟨r, ran⟩ : ∃ r, callWithin program 64 call.method values s =
      .ok r (entered call.method (entryInstance row.isStatic values) s) :=
    callWithin_of_isEmpty (hosts.idle found empty) empty
  rw [entry]
  refine discard_of_ok (a := r) ?_
  rw [call_eq_of_depth outside]
  exact ran

/-- Raising an event runs the entries that its field carries. -/
theorem raise_eq (reads : event.Reads program.module s p xs) (sender arg : Value) :
    Machine.raise program event.field p sender arg s =
      runEntries (Execution.call program) xs [sender, arg] s := by
  obtain ⟨v, value, carries⟩ := reads
  unfold Machine.raise
  obtain ⟨rfl, rfl⟩ | ⟨t, rfl, -, -⟩ := carries.cases
  · rw [get_bind, value, lift_ok_bind, runEntries]
  · rw [get_bind, value, lift_ok_bind]
    rfl

end WeakSubscription
