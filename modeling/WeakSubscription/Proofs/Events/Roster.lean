import WeakSubscription.Proofs.Delegate.Carried
import WeakSubscription.Proofs.Execution.Calls
import WeakSubscription.Proofs.Weaving.Woven

/-!
# The list model of events

A roster knows which objects are alive, which calls are subscribed to every event of every publisher, in
order, and which methods were entered. Subscribing puts calls at the end of a list. Raising enters the
method of every call whose target is alive; for the other calls it enters the unsubscribing method of the
event, and they leave the list. How unsubscribing shortens a list is left open here.
-/

namespace WeakSubscription

open Execution

/-- What is done to a machine from outside. Handlers are delegates of plain entries. -/
inductive Action where
  | alloc (type : Ty)
  | collect (r : ObjectRef)
  | add (w : WovenEvent) (p : Option ObjectRef) (type : Ty) (calls : List Invocation)
  | remove (w : WovenEvent) (p : Option ObjectRef) (type : Ty) (calls : List Invocation)
  | raise (w : WovenEvent) (p : Option ObjectRef) (sender args : Value)

def handler (type : Ty) (calls : List Invocation) : Value := .delegate ⟨type, calls.map .strong⟩

/-! ### Runs of the machine -/

def Action.run (program : Program) : Action → Run Unit
  | alloc type => discard (Machine.alloc type)
  | collect r => Machine.collect r
  | add w p type calls => discard (Machine.invoke program w.add p [handler type calls])
  | remove w p type calls => discard (Machine.invoke program w.remove p [handler type calls])
  | raise w p sender args => Machine.raise program w.event.field p sender args

def runActions (program : Program) : List Action → Run Unit
  | [] => pure ()
  | action :: rest => do
    action.run program
    runActions program rest

/-! ### Rosters -/

structure Roster where
  /-- For every object that was allocated, whether it was not collected. -/
  alive : List Bool
  handlers : Token → Option ObjectRef → List Invocation
  trace : List TraceEntry

def isLive (alive : List Bool) (r : ObjectRef) : Bool := alive.getD r.slot false

/-- What the call of an entry leaves in the trace. -/
def Module.traceOf (m : Module) (call : Invocation) (args : List Value) : TraceEntry :=
  let isStatic := match m.method call.method with
    | .ok row => row.isStatic
    | .error _ => false
  ⟨call.method, entryInstance isStatic (call.target.toList.map .object ++ args)⟩

def dropFirst (calls l : List Invocation) : List Invocation :=
  match calls with
  | [] => l
  | c :: _ => eraseLast c l

def dropRun (calls l : List Invocation) : List Invocation :=
  (Delegate.withoutRun (calls.map .strong) (l.map .strong)).filterMap Entry.strongCall?

namespace Roster

def initial : Roster := ⟨[], fun _ _ => [], []⟩

def assign (roster : Roster) (field : Token) (p : Option ObjectRef) (calls : List Invocation) : Roster :=
  { roster with handlers := fun f q => if f = field ∧ q = p then calls else roster.handlers f q }

def record (roster : Roster) (entries : List TraceEntry) : Roster :=
  { roster with trace := roster.trace ++ entries }

/-- Whether the call has no target or one that is alive. -/
def reaches (roster : Roster) (call : Invocation) : Bool := call.target.all (isLive roster.alive)

/-- What raising an event leaves in the trace for one of its calls. -/
def raised (roster : Roster) (m : Module) (w : WovenEvent) (p : Option ObjectRef) (args : List Value)
    (call : Invocation) : TraceEntry :=
  if roster.reaches call then m.traceOf call args else ⟨w.unsubscribe, p⟩

theorem assign_handlers (roster : Roster) (field : Token) (p : Option ObjectRef) :
    roster.assign field p (roster.handlers field p) = roster := by
  unfold assign
  congr
  funext f q
  split
  · rename_i here
    rw [here.1, here.2]
  · rfl

/-- Only the last assignment of a field counts. -/
theorem assign_record_assign (roster : Roster) (field : Token) (p : Option ObjectRef)
    (first later : List Invocation) (entries entries' : List TraceEntry) :
    (((roster.assign field p first).record entries).assign field p later).record entries' =
      (roster.assign field p later).record (entries ++ entries') := by
  unfold assign record
  simp only [List.append_assoc, mk.injEq, true_and, and_true]
  funext f q
  split <;> rfl

theorem record_record (roster : Roster) (entries entries' : List TraceEntry) :
    (roster.record entries).record entries' = roster.record (entries ++ entries') := by
  unfold record
  rw [List.append_assoc]

end Roster

/-- The roster behind an action, for a way of unsubscribing. -/
def Action.step (m : Module) (drop : List Invocation → List Invocation → List Invocation) :
    Action → Roster → Roster
  | alloc _, roster => { roster with alive := roster.alive ++ [true] }
  | collect r, roster => { roster with alive := roster.alive.set r.slot false }
  | add w p _ calls, roster =>
    (roster.assign w.event.field p (roster.handlers w.event.field p ++ calls)).record [⟨w.add, p⟩]
  | remove w p _ calls, roster =>
    (roster.assign w.event.field p (drop calls (roster.handlers w.event.field p))).record
      [⟨w.remove, p⟩]
  | raise w p sender args, roster =>
    let calls := roster.handlers w.event.field p
    (roster.assign w.event.field p (calls.filter roster.reaches)).record
      (calls.map (roster.raised m w p [sender, args]))

/-- The roster behind a list of actions. -/
def Roster.after (m : Module) (drop : List Invocation → List Invocation → List Invocation)
    (roster : Roster) (actions : List Action) : Roster :=
  actions.foldl (fun roster action => action.step m drop roster) roster

/-! ### Actions that make sense -/

/-- The method has no code in the module. -/
def Module.Idle (m : Module) (t : Token) : Prop :=
  ∃ row, m.method t = .ok row ∧ row.body.isEmpty = true

instance (m : Module) (t : Token) : Decidable (m.Idle t) :=
  decidable_of_iff ((m.method t).toOption.any (·.body.isEmpty) = true) (by
    unfold Module.Idle
    cases m.method t <;> simp [Except.toOption])

/-- The event is one of those woven, and the publisher a live object, or none for a static event. -/
def WovenEvent.Addressed (w : WovenEvent) (es : List WovenEvent) (p : Option ObjectRef)
    (alive : List Bool) : Prop :=
  w ∈ es ∧ w.event.isStatic = p.isNone ∧ p.all (isLive alive) = true

instance (w : WovenEvent) (es : List WovenEvent) (p : Option ObjectRef) (alive : List Bool) :
    Decidable (w.Addressed es p alive) :=
  inferInstanceAs (Decidable (_ ∧ _ ∧ _))

/-- Objects are made while there are references left for them, live objects are collected, and events of live
publishers are used, with handlers of the type of their field on methods without code. -/
def Action.Allowed (m : Module) (es : List WovenEvent) (alive : List Bool) : Action → Prop
  | alloc _ => alive.length < UInt32.size
  | collect r => isLive alive r = true
  | add w p type calls | remove w p type calls =>
    w.Addressed es p alive ∧ type.SameName w.event.handler ∧ calls ≠ [] ∧
      ∀ call ∈ calls, m.Idle call.method
  | raise w p _ _ => w.Addressed es p alive

instance (m : Module) (es : List WovenEvent) (alive : List Bool) :
    (action : Action) → Decidable (action.Allowed m es alive)
  | .alloc _ => inferInstanceAs (Decidable (alive.length < UInt32.size))
  | .collect r => inferInstanceAs (Decidable (isLive alive r = true))
  | .add w p type calls | .remove w p type calls =>
    inferInstanceAs (Decidable (w.Addressed es p alive ∧ type.SameName w.event.handler ∧ calls ≠ [] ∧
      ∀ call ∈ calls, m.Idle call.method))
  | .raise w p _ _ => inferInstanceAs (Decidable (w.Addressed es p alive))

/-- The objects behind an action. -/
def Action.aliveAfter : Action → List Bool → List Bool
  | alloc _, alive => alive ++ [true]
  | collect r, alive => alive.set r.slot false
  | add _ _ _ _, alive | remove _ _ _ _, alive | raise _ _ _ _, alive => alive

/-- Every action is allowed by the objects that there are when it is taken. -/
def Allows (allowed : List Bool → Action → Prop) : List Action → List Bool → Prop
  | [], _ => True
  | action :: rest, alive => allowed alive action ∧ Allows allowed rest (action.aliveAfter alive)

instance Allows.decide (allowed : List Bool → Action → Prop)
    [∀ alive action, Decidable (allowed alive action)] :
    (actions : List Action) → (alive : List Bool) → Decidable (Allows allowed actions alive)
  | [], _ => inferInstanceAs (Decidable True)
  | action :: rest, alive =>
    have := Allows.decide allowed rest (action.aliveAfter alive)
    inferInstanceAs (Decidable (allowed alive action ∧ Allows allowed rest (action.aliveAfter alive)))

theorem Allows.imp {allowed allowed' : List Bool → Action → Prop} {actions : List Action}
    {alive : List Bool} (all : Allows allowed actions alive)
    (h : ∀ alive action, allowed alive action → allowed' alive action) :
    Allows allowed' actions alive := by
  induction actions generalizing alive with
  | nil => trivial
  | cons action rest ih => exact ⟨h alive action all.1, ih all.2⟩

/-- The number of calls that an action subscribes. -/
def Action.subscribed : Action → Nat
  | add _ _ _ calls => calls.length
  | alloc _ | collect _ | remove _ _ _ _ | raise _ _ _ _ => 0

/-- The number of calls that are subscribed in all. A woven event makes a wrapper for each. -/
def subscriptions : List Action → Nat
  | [] => 0
  | action :: rest => action.subscribed + subscriptions rest

theorem Action.alive_step (m : Module) (drop : List Invocation → List Invocation → List Invocation)
    (action : Action) (roster : Roster) :
    (action.step m drop roster).alive = action.aliveAfter roster.alive := by
  cases action <;> rfl

end WeakSubscription
