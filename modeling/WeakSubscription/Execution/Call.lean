import WeakSubscription.Execution.Step
import WeakSubscription.Weaving.Settings

/-!
Method calls and the operations on a machine from outside. Calls nest to a limited depth, and the
levels that are left to a call bound the recursion. The callbacks of lost wrappers do not count as
levels of their own; they end because a wrapper holds its callback inside itself.
-/

namespace WeakSubscription

/-- The number of method frames that may be open at the same time. -/
def maxCallDepth : Nat := 64

namespace Program

def ofModule (m : Module) (settings : Settings) : Program := ⟨m, settings.helperNamespace⟩

end Program

namespace Execution

/-- Runs a computation in one more open frame, which is closed again however it ends. -/
def framed {α : Type} (x : Run α) : Run α := fun m =>
  match x { m with depth := m.depth + 1 } with
  | .ok a m => .ok a { m with depth := m.depth - 1 }
  | .error e m => .error e { m with depth := m.depth - 1 }

/-- Records that a method is entered. The instance is the first argument, if it is an object and the
method is not static. -/
def enter (method : Token) (isStatic : Bool) (args : List Value) : Run Unit :=
  let this := if isStatic then none else args.head?.bind Value.object?
  modify fun m => { m with trace := m.trace ++ [⟨method, this⟩] }

/-- Calls a method with so many levels of calls left. -/
def callWithin (program : Program) : (levels : Nat) → Caller
  | 0, _, _ => Run.fault (.callDepthExceeded maxCallDepth)
  | levels + 1, method, args => do
    let row ← program.module.method method
    enter method row.isStatic args
    framed (runBody program (callWithin program levels) method row args)

/-- Calls a method, with the levels that the open frames leave. -/
def call (program : Program) : Caller := fun method args => do
  callWithin program (maxCallDepth - (← get).depth) method args

end Execution

namespace Machine

open Execution

/-- Calls a method on an instance, which a static method is not given. -/
def invoke (program : Program) (method : Token) (this : Option ObjectRef) (args : List Value) :
    Run (Option Value) := do
  let row ← program.module.method method
  if row.isStatic then call program method args
  else
    match this with
    | some r => call program method (.object r :: args)
    | none => Run.fault .nullReference

def invokeDelegate (program : Program) (d : Delegate) (args : List Value) : Run Unit :=
  runEntries (call program) d.entries args

/-- Raises the event behind a field: its delegate is called with sender and arguments, and nothing
happens if there is none. -/
def raise (program : Program) (field : Token) (target? : Option ObjectRef)
    (sender args : Value) : Run Unit := do
  match ← (← get).fieldValue program.module field target? with
  | .null => return
  | .delegate d => invokeDelegate program d [sender, args]
  | v@(.object _) | v@(.methodPointer _) => Run.fault (.typeMismatch .raise v)

end Machine

end WeakSubscription
