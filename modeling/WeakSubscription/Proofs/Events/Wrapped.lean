import WeakSubscription.Proofs.Events.Raise
import WeakSubscription.Proofs.Weaving.History

/-!
# Woven events follow the list model

In a module with woven events the fields carry wrappers, with numbers that tell them apart as long as the machine
has numbers left. Every allowed action succeeds and keeps machine and roster together, and so does every list of
them.
-/

open WeakSubscription.Module

namespace WeakSubscription

open Execution Delegate Tracked

variable {program : Program} {m : Module} {es : List WovenEvent} {roster : Roster} {s : Machine}
  {w : WovenEvent} {p : Option ObjectRef} {type : Ty} {calls : List Invocation} {v : Value}

/-- The entries are wrappers around the calls, with different numbers that were given out already. -/
def wrapped : Layout where
  Holds w p n xs calls := ∃ l : List (Invocation × UInt32),
    xs = l.map (w.event.wrapper w.unsubscribe p) ∧ l.map (·.1) = calls ∧ (l.map (·.2)).Nodup ∧
      ∀ x ∈ l, x.2 ≤ n
  nil := fun w p n => ⟨[], rfl, rfl, List.nodup_nil, nofun⟩
  mono := by
    rintro w p n n' xs calls later ⟨l, entries, same, distinct, bound⟩
    exact ⟨l, entries, same, distinct, fun x member => UInt32.le_trans (bound x member) later⟩

/-! ### Lists -/

theorem dropFirst_sublist (calls l : List Invocation) : (dropFirst calls l).Sublist l := by
  cases calls with
  | nil => exact List.Sublist.refl l
  | cons c rest =>
    have reversed : (l.reverse.erase c).Sublist l.reverse := List.erase_sublist
    simpa [dropFirst, eraseLast] using reversed.reverse

/-- New numbers behind those given out keep wrappers apart, as long as there are enough of them. -/
theorem nodup_append_numbered {l : List (Invocation × UInt32)} {n : UInt32} {calls : List Invocation}
    (distinct : (l.map (·.2)).Nodup) (bound : ∀ x ∈ l, x.2 ≤ n)
    (room : n.toNat + calls.length < UInt32.size) :
    ((l ++ numbered n calls).map (·.2)).Nodup ∧
      ∀ x ∈ l ++ numbered n calls, x.2 ≤ n + .ofNat calls.length := by
  refine ⟨?_, ?_⟩
  · rw [List.map_append, List.nodup_append]
    refine ⟨distinct, numbered_nodup room, ?_⟩
    intro i old j new same
    obtain ⟨x, member, rfl⟩ := List.mem_map.mp old
    obtain ⟨y, member', rfl⟩ := List.mem_map.mp new
    have low := UInt32.le_iff_toNat_le.mp (bound x member)
    have high := (numbered_bounds room member').1
    rw [same] at low
    omega
  · intro x member
    rw [UInt32.le_iff_toNat_le, toNat_add_ofNat room]
    rcases List.mem_append.mp member with old | new
    · have low := UInt32.le_iff_toNat_le.mp (bound x old)
      omega
    · exact (numbered_bounds room new).2

/-! ### Subscribing and unsubscribing -/

/-- The program runs these events and the methods without code of the module, and finds the helpers under
the names that they were imported with. -/
structure Runs (program : Program) (m : Module) (es : List WovenEvent) : Prop where
  hosts : Hosts program m es
  installed : ∀ w ∈ es, w.Installed program.module
  helperNamespace : ∀ w ∈ es, program.helperNamespace = w.event.refs.helperNamespace

theorem Keeps.refl (t : Token) (m : Module) : Keeps t m m := .of_eq rfl rfl

/-- Calling a method of an event on a publisher does what its rule says. -/
theorem Event.Implements.invoked {event : Event} {t : Token} {rule : Rule} {h : Value}
    {zs : List Entry} {n : UInt32} (implements : event.Implements program.module t rule)
    (ns : program.helperNamespace = event.refs.helperNamespace) (kind : event.isStatic = p.isNone)
    (holds : s.Holds p) (outside : s.depth = 0)
    (applies : rule program { entered t p s with depth := s.depth + 1 } p h zs n) :
    ∃ u, Carries event.handler zs u ∧
      (discard (Machine.invoke program t p [h]) : Run Unit) s =
        .ok () (({ entered t p s with lastWeakId := n } : Machine).withField event.field p u) := by
  obtain ⟨u, carries, ran⟩ :=
    implements.called (.refl _) (Keeps.refl t _) ns kind holds applies 63
  obtain ⟨row, found, static, -⟩ := implements
  refine ⟨u, carries, discard_of_ok (a := none) ?_⟩
  rw [invoke_eq found (static.trans kind), call_eq_of_depth outside]
  exact ran

theorem add_follows (runs : Runs program m es)
    (follows : Follows wrapped program m es roster s) (member : w ∈ es)
    (kind : w.event.isStatic = p.isNone) (holds : s.Holds p) (same : type.SameName w.event.handler)
    (nonempty : calls ≠ []) (idle : ∀ call ∈ calls, m.Idle call.method)
    (room : s.lastWeakId.toNat + calls.length < UInt32.size)
    (drop : List Invocation → List Invocation → List Invocation) :
    ∃ s', (Action.add w p type calls).run program s = .ok () s' ∧
      Follows wrapped program m es ((Action.add w p type calls).step m drop roster) s' ∧
      s'.lastWeakId = s.lastWeakId + .ofNat calls.length := by
  obtain ⟨xs, reads, l, rfl, listed, distinct, bound⟩ := follows.fields w member p kind holds
  have carries : Carries w.event.handler (calls.map .strong) (handler type calls) :=
    ⟨same, rfl, by simpa using nonempty⟩
  obtain ⟨u, carried, ran⟩ := (runs.installed w member).adds.invoked (runs.helperNamespace w member) kind
    holds follows.depth ⟨_, _, reads, ⟨calls, nonempty, carries, rfl, rfl⟩, rfl⟩
  refine ⟨_, ran, ?_, Machine.lastWeakId_withField⟩
  obtain ⟨distinct', bound'⟩ := nodup_append_numbered distinct bound room
  have later : s.lastWeakId ≤ s.lastWeakId + .ofNat calls.length := by
    rw [UInt32.le_iff_toNat_le, toNat_add_ofNat room]
    exact Nat.le_add_right _ _
  refine follows.assigned runs.hosts member kind holds carried ?_ later ?_ _
  · refine ⟨l ++ numbered s.lastWeakId calls, (List.map_append ..).symm, ?_, distinct', bound'⟩
    rw [List.map_append, listed, numbered_calls]
  · intro call inside
    rcases List.mem_append.mp inside with old | new
    · exact follows.idle _ _ call old
    · exact idle call new

theorem remove_follows (runs : Runs program m es)
    (follows : Follows wrapped program m es roster s) (member : w ∈ es)
    (kind : w.event.isStatic = p.isNone) (holds : s.Holds p) (same : type.SameName w.event.handler)
    (nonempty : calls ≠ []) :
    ∃ s', (Action.remove w p type calls).run program s = .ok () s' ∧
      Follows wrapped program m es ((Action.remove w p type calls).step m dropFirst roster) s' ∧
      s'.lastWeakId = s.lastWeakId := by
  obtain ⟨xs, reads, l, rfl, listed, distinct, bound⟩ := follows.fields w member p kind holds
  have carries : Carries w.event.handler (calls.map .strong) (handler type calls) :=
    ⟨same, rfl, by simpa using nonempty⟩
  obtain ⟨c, rest, rfl⟩ := List.exists_cons_of_ne_nil nonempty
  obtain ⟨u, carried, ran⟩ := (runs.installed w member).removes.invoked (runs.helperNamespace w member)
    kind holds follows.depth ⟨_, _, reads, ⟨l, c, rest, reads, carries, rfl, rfl⟩, rfl⟩
  refine ⟨_, ran, ?_, Machine.lastWeakId_withField⟩
  let wrap := w.event.wrapper w.unsubscribe p
  have stands : wrapped.Holds w p s.lastWeakId
      (withoutRun ((l.reverse.find? (·.1 == c)).map wrap).toList (l.map wrap))
      (dropFirst (c :: rest) (roster.handlers w.event.field p)) := by
    obtain ⟨l', without, listed', shorter⟩ : ∃ l' : List (Invocation × UInt32),
        withoutRun ((l.reverse.find? (·.1 == c)).map wrap).toList (l.map wrap) = l'.map wrap ∧
          l'.map (·.1) = eraseLast c (l.map (·.1)) ∧ l'.Sublist l :=
      withoutRun_found distinct c
    refine ⟨l', without, ?_, distinct.sublist (shorter.map _), fun x inside => bound x (shorter.subset inside)⟩
    rw [listed', listed]
    rfl
  refine follows.assigned runs.hosts member kind holds carried stands UInt32.le_rfl ?_ _
  intro call inside
  exact follows.idle _ _ call ((dropFirst_sublist _ _).subset inside)

/-! ### Raising -/

/-- What holds while an event is raised: the wrappers that were kept and those that are still to run are in
the field, what was entered so far is in the trace, and no number was given out. -/
structure Raising (program : Program) (m : Module) (es : List WovenEvent) (roster : Roster) (w : WovenEvent)
    (p : Option ObjectRef) (last : UInt32) (kept todo : List (Invocation × UInt32)) (done : List TraceEntry)
    (s : Machine) : Prop where
  follows : Follows wrapped program m es
    ((roster.assign w.event.field p ((kept ++ todo).map (·.1))).record done) s
  holds : s.Holds p
  reads : w.event.Reads program.module s p ((kept ++ todo).map (w.event.wrapper w.unsubscribe p))
  distinct : ((kept ++ todo).map (·.2)).Nodup
  bound : ∀ x ∈ kept ++ todo, x.2 ≤ last
  numbers : s.lastWeakId = last

variable {last : UInt32} {kept todo : List (Invocation × UInt32)} {x : Invocation × UInt32} {done : List TraceEntry}

theorem Raising.idle (raising : Raising program m es roster w p last kept todo done s) {call : Invocation}
    (inside : call ∈ (kept ++ todo).map (·.1)) : m.Idle call.method := by
  refine raising.follows.idle w.event.field p call ?_
  show call ∈ if _ then _ else _
  rwa [if_pos ⟨rfl, rfl⟩]

/-- A wrapper whose target is there is kept. -/
theorem Raising.live (runs : Runs program m es)
    (raising : Raising program m es roster w p last kept (x :: todo) done s)
    (live : roster.reaches x.1 = true) (sender arg : Value) :
    ∃ s', runEntry (call program) (w.event.wrapper w.unsubscribe p x) [sender, arg] s = .ok () s' ∧
      Raising program m es roster w p last (kept ++ [x]) todo
        (done ++ [roster.raised m w p [sender, arg] x.1]) s' := by
  have follows := raising.follows
  have living : x.1.target.all s.isAlive = true := by rw [isLive_eq follows.alive]; exact live
  have idle : m.Idle x.1.method := raising.idle (List.mem_map_of_mem (by simp))
  have called := callBound_idle runs.hosts idle follows.depth [sender, arg]
  refine ⟨_, (runEntry_live living).trans called, ?_⟩
  have moved : kept ++ [x] ++ todo = kept ++ x :: todo := by simp
  have entry : roster.raised m w p [sender, arg] x.1 =
      m.traceOf x.1 [sender, arg] := if_pos live
  refine ⟨?_, raising.holds, ?_, ?_, ?_, raising.numbers⟩
  · rw [moved, entry, ← Roster.record_record]
    exact follows.recorded _
  · rw [moved]
    exact raising.reads
  · rw [moved]
    exact raising.distinct
  · rw [moved]
    exact raising.bound

/-- A wrapper whose target is gone is taken out of the field by its callback. -/
theorem Raising.lost (runs : Runs program m es) (member : w ∈ es) (kind : w.event.isStatic = p.isNone)
    (raising : Raising program m es roster w p last kept (x :: todo) done s)
    (lost : roster.reaches x.1 = false) (sender arg : Value) :
    ∃ s', runEntry (call program) (w.event.wrapper w.unsubscribe p x) [sender, arg] s = .ok () s' ∧
      Raising program m es roster w p last kept todo
        (done ++ [roster.raised m w p [sender, arg] x.1]) s' := by
  have follows := raising.follows
  have gone : x.1.target.all s.isAlive = false := by rw [isLive_eq follows.alive]; exact lost
  let wrap := w.event.wrapper w.unsubscribe p
  let h : Value := .delegate ⟨w.event.closed, [wrap x]⟩
  have single : Carries w.event.closed [wrap x] h := .delegate _ (List.cons_ne_nil _ _)
  -- the callback is given `x` alone, and no other wrapper has its number
  have without : withoutRun [wrap x] ((kept ++ x :: todo).map wrap) = (kept ++ todo).map wrap :=
    withoutRun_wrapper raising.distinct
  obtain ⟨u, carries, ran⟩ := (runs.installed w member).unsubscribes.called (.refl _) (Keeps.refl _ _)
    (runs.helperNamespace w member) kind raising.holds
    ⟨_, _, raising.reads, ⟨single, rfl⟩, rfl⟩ 63
  have entry : roster.raised m w p [sender, arg] x.1 = ⟨w.unsubscribe, p⟩ :=
    if_neg (by rw [lost]; decide)
  let s' : Machine := ({ entered w.unsubscribe p s with lastWeakId := s.lastWeakId } : Machine).withField
    w.event.field p u
  have called : callBound (call program) ⟨p, w.unsubscribe⟩ [h] s = .ok () s' := by
    refine discard_of_ok (a := none) ?_
    rw [call_eq_of_depth follows.depth]
    exact ran
  refine ⟨s', ?_, ?_⟩
  · refine (runEntry_lost gone).trans ?_
    show runEntries (call program) [.strong ⟨p, w.unsubscribe⟩] [h] s = .ok () s'
    rw [runEntries_cons_of_ok (by rw [runEntry]; exact called), runEntries]
    rfl
  have shorter : (kept ++ todo).Sublist (kept ++ x :: todo) :=
    List.Sublist.append (List.Sublist.refl kept) (List.sublist_cons_self x todo)
  have bound : ∀ y ∈ kept ++ todo, y.2 ≤ last := fun y inside => raising.bound y (shorter.subset inside)
  have stands : wrapped.Holds w p s.lastWeakId ((kept ++ todo).map wrap) ((kept ++ todo).map (·.1)) :=
    ⟨kept ++ todo, rfl, rfl, raising.distinct.sublist (shorter.map _), by rwa [raising.numbers]⟩
  have carried : Carries w.event.handler ((kept ++ todo).map wrap) u := without ▸ carries
  refine ⟨?_, ?_, ?_, raising.distinct.sublist (shorter.map _), bound, ?_⟩
  · rw [entry, ← Roster.assign_record_assign]
    refine follows.assigned runs.hosts member kind raising.holds carried stands UInt32.le_rfl ?_ _
    exact fun call inside => raising.idle ((shorter.map _).subset inside)
  · show Machine.Holds _ p
    unfold Machine.Holds
    rw [Machine.isAlive_withField]
    exact raising.holds
  · obtain ⟨row, found, static⟩ := runs.hosts.fields w member
    exact ⟨u, Machine.fieldValue_withField_self found (static.trans kind) raising.holds, carried⟩
  · rw [Machine.lastWeakId_withField]
    exact raising.numbers

/-- The wrappers of a raised event run one after the other. -/
theorem Raising.runs (runs : Runs program m es) (member : w ∈ es) (kind : w.event.isStatic = p.isNone)
    (raising : Raising program m es roster w p last kept todo done s) (sender arg : Value) :
    ∃ s', runEntries (call program) (todo.map (w.event.wrapper w.unsubscribe p)) [sender, arg] s =
        .ok () s' ∧
      Raising program m es roster w p last (kept ++ todo.filter fun x => roster.reaches x.1) []
        (done ++ todo.map fun x => roster.raised m w p [sender, arg] x.1) s' := by
  induction todo generalizing kept done s with
  | nil =>
    refine ⟨s, rfl, ?_⟩
    simpa using raising
  | cons x todo ih =>
    cases reached : roster.reaches x.1 with
    | true =>
      obtain ⟨s₁, ran, raising₁⟩ := raising.live runs reached sender arg
      obtain ⟨s', later, raising'⟩ := ih raising₁
      refine ⟨s', ?_, ?_⟩
      · rw [List.map_cons, runEntries_cons_of_ok ran, later]
      · simpa [List.filter_cons, reached] using raising'
    | false =>
      obtain ⟨s₁, ran, raising₁⟩ := raising.lost runs member kind reached sender arg
      obtain ⟨s', later, raising'⟩ := ih raising₁
      refine ⟨s', ?_, ?_⟩
      · rw [List.map_cons, runEntries_cons_of_ok ran, later]
      · simpa [List.filter_cons, reached] using raising'

theorem raise_follows (runs : Runs program m es)
    (follows : Follows wrapped program m es roster s) (member : w ∈ es)
    (kind : w.event.isStatic = p.isNone) (holds : s.Holds p)
    (sender arg : Value) (drop : List Invocation → List Invocation → List Invocation) :
    ∃ s', (Action.raise w p sender arg).run program s = .ok () s' ∧
      Follows wrapped program m es ((Action.raise w p sender arg).step m drop roster) s' ∧
      s'.lastWeakId = s.lastWeakId := by
  obtain ⟨xs, reads, l, rfl, listed, distinct, bound⟩ := follows.fields w member p kind holds
  -- nothing has run yet: the list that the invariant assigns is the one the roster has
  have start : Raising program m es roster w p s.lastWeakId [] l [] s := by
    refine ⟨?_, holds, reads, distinct, bound, rfl⟩
    have same : (roster.assign w.event.field p (l.map (·.1))).record [] = roster := by
      rw [listed, Roster.assign_handlers]
      unfold Roster.record
      rw [List.append_nil]
    rw [List.nil_append, same]
    exact follows
  obtain ⟨s', ran, raised⟩ := start.runs runs member kind sender arg
  refine ⟨s', (raise_eq reads sender arg).trans ran, ?_, raised.numbers⟩
  have kept : (l.filter fun x => roster.reaches x.1).map (·.1) =
      (roster.handlers w.event.field p).filter roster.reaches := by
    rw [← listed, List.filter_map]
    rfl
  have traced : l.map (fun x => roster.raised m w p [sender, arg] x.1) =
      (roster.handlers w.event.field p).map (roster.raised m w p [sender, arg]) := by
    rw [← listed, List.map_map]
    rfl
  have follows' := raised.follows
  rw [List.nil_append, List.append_nil, List.nil_append, kept, traced] at follows'
  exact follows'

/-! ### Runs -/

/-- The machine follows the roster with wrappers, and has a number left for every call that is
still to be subscribed. -/
structure FollowsWrapped (program : Program) (m : Module) (es : List WovenEvent) (rest : List Action)
    (roster : Roster) (s : Machine) : Prop where
  follows : Follows wrapped program m es roster s
  room : s.lastWeakId.toNat + subscriptions rest < UInt32.size

theorem FollowsWrapped.step {action : Action} {rest : List Action} {roster' : Roster} {s' : Machine}
    (kept : FollowsWrapped program m es (action :: rest) roster s)
    (follows : Follows wrapped program m es roster' s')
    (count : s'.lastWeakId = s.lastWeakId + .ofNat action.subscribed) :
    FollowsWrapped program m es rest roster' s' := by
  have room := kept.room
  rw [subscriptions] at room
  -- the count does not wrap, since there is room even for what is still to come
  refine ⟨follows, ?_⟩
  rw [count, toNat_add_ofNat (by omega)]
  omega

/-- Every allowed action succeeds, and keeps machine and roster together. -/
theorem step_follows (runs : Runs program m es) {action : Action} {rest : List Action}
    (kept : FollowsWrapped program m es (action :: rest) roster s)
    (allowed : action.Allowed m es roster.alive) :
    ∃ s', action.run program s = .ok () s' ∧
      FollowsWrapped program m es rest (action.step m dropFirst roster) s' := by
  have follows := kept.follows
  cases action with
  | alloc type =>
    obtain ⟨s', ran, follows', same⟩ := follows.alloc runs.hosts allowed type
    exact ⟨s', ran, kept.step follows' (same.trans (UInt32.add_zero _).symm)⟩
  | collect r =>
    obtain ⟨s', ran, follows', same⟩ := follows.collect runs.hosts allowed
    exact ⟨s', ran, kept.step follows' (same.trans (UInt32.add_zero _).symm)⟩
  | add w p type calls =>
    obtain ⟨⟨member, kind, live⟩, same, nonempty, idle⟩ := allowed
    have room := kept.room
    rw [subscriptions, ← Nat.add_assoc] at room
    obtain ⟨s', ran, follows', count⟩ := add_follows runs follows member kind (follows.holds_iff.mpr live) same
      nonempty idle (Nat.lt_of_le_of_lt (Nat.le_add_right _ _) room) _
    exact ⟨s', ran, kept.step follows' count⟩
  | remove w p type calls =>
    obtain ⟨⟨member, kind, live⟩, same, nonempty, -⟩ := allowed
    obtain ⟨s', ran, follows', same⟩ :=
      remove_follows runs follows member kind (follows.holds_iff.mpr live) same nonempty
    exact ⟨s', ran, kept.step follows' (same.trans (UInt32.add_zero _).symm)⟩
  | raise w p sender args =>
    obtain ⟨member, kind, live⟩ := allowed
    obtain ⟨s', ran, follows', same⟩ :=
      raise_follows runs follows member kind (follows.holds_iff.mpr live) sender args _
    exact ⟨s', ran, kept.step follows' (same.trans (UInt32.add_zero _).symm)⟩

theorem FollowsWrapped.initial (hosts : Hosts program m es) {actions : List Action}
    (fewer : subscriptions actions < UInt32.size) :
    FollowsWrapped program m es actions .initial .initial :=
  ⟨.initial hosts, by rwa [show Machine.initial.lastWeakId.toNat = 0 from rfl, Nat.zero_add]⟩

variable {refs : HelperRefs}

/-- A module with woven events runs them in every program that knows the namespace of the helpers. -/
theorem Woven.runs (woven : Woven refs m es) : Runs ⟨m, refs.helperNamespace⟩ m es := by
  have facts := woven.facts
  refine ⟨⟨?_, facts.distinct, fun found _ => found⟩, fun w member => (facts.installed w member).1, ?_⟩
  · intro w member
    obtain ⟨row, found, -, static, -⟩ := (facts.installed w member).1.backed.field
    exact ⟨row, found, static⟩
  · intro w member
    rw [(facts.installed w member).2]

/-- Woven events behave as lists. In a module into which any number of events were woven, every list of allowed
actions succeeds, as long as fewer calls are subscribed in all than there are numbers for wrappers. The methods
entered are those that the list model enters, in that order, and the field of every event carries, for every live
publisher, wrappers around just the calls that are still on the list, in order and with different numbers. -/
theorem woven_events_follow_lists (woven : Woven refs m es) (actions : List Action)
    (allowed : Allows (Action.Allowed m es) actions []) (fewer : subscriptions actions < UInt32.size) :
    ∃ s, runActions ⟨m, refs.helperNamespace⟩ actions .initial = .ok () s ∧
      s.trace = (Roster.initial.after m dropFirst actions).trace ∧
      s.objects.map (·.alive) = (Roster.initial.after m dropFirst actions).alive ∧
      ∀ w ∈ es, ∀ p, w.event.isStatic = p.isNone → s.Holds p →
        ∃ v, ∃ l : List (Invocation × UInt32), s.fieldValue m w.event.field p = .ok v ∧
          Carries w.event.handler (l.map (w.event.wrapper w.unsubscribe p)) v ∧
          l.map (·.1) = (Roster.initial.after m dropFirst actions).handlers w.event.field p ∧
          (l.map (·.2)).Nodup := by
  have runs := woven.runs
  obtain ⟨s, ran, follows, -⟩ :=
    runActions_keeps (FollowsWrapped _ m es) (step_follows runs) (.initial runs.hosts fewer) allowed
  refine ⟨s, ran, follows.trace, follows.alive, ?_⟩
  intro w member p kind holds
  obtain ⟨xs, ⟨v, value, carries⟩, l, rfl, listed, distinct, -⟩ := follows.fields w member p kind holds
  exact ⟨v, l, value, carries, listed, distinct⟩

/-! ### A ticker -/

namespace Ticker

/-! A class with one event, woven, and a subscriber class whose handler has no code. -/

def publisher : Token := .ofRow .typeDef 1

def subscriber : Token := .ofRow .typeDef 2

def ticked : Token := .ofRow .field 1

def onTicked : Token := .ofRow .method 3

def accessor (name : String) : MethodDecl where
  name := name
  access := .publicAccess
  params := [⟨some "value", .named .eventHandler⟩]
  code := [.plain .ret]

def onTickedDecl : MethodDecl where
  name := "OnTicked"
  params := [⟨some "sender", .object⟩, ⟨some "e", .named .eventArgs⟩]

def helpers : HelperRefs where
  helperNamespace := "WeakEvents.Runtime"
  makeWeak := .ofRow .memberRef 1
  findWeak := .ofRow .memberRef 2
  changeType := .ofRow .memberRef 3
  remove := .ofRow .memberRef 4
  combine := .ofRow .memberRef 5
  compilerGenerated := .ofRow .memberRef 6
  actionConstructor := .ofRow .memberRef 7

def imported : Module := endState (HelperRefs.addAll "WeakEvents.Runtime" (.empty "Ticker"))

def ops : List Op :=
  [.addType ⟨"Sample", "Ticker"⟩ .publicFlag (some .object),
   .addField publisher "Ticked" .privateFlag (.named .eventHandler),
   .addMethod ((accessor "add_Ticked").row publisher),
   .addMethod ((accessor "remove_Ticked").row publisher),
   .addType ⟨"Sample", "Listener"⟩ .publicFlag (some .object),
   .addMethod (onTickedDecl.row subscriber)]

def declared : Module := ops.foldl (fun m op => op.apply m) imported

def event : WovenEvent where
  event := {
    refs := helpers, settings := {}, field := ticked, name := "Ticked", owner := publisher
    handler := .named .eventHandler
    isStatic := false
    closed := .closedHandler (.named .eventArgs)
    isGeneric := false }
  add := .ofRow .method 1
  remove := .ofRow .method 2
  unsubscribe := .ofRow .method 4

def woven : Module := endState (event.event.weave event.add event.remove declared)

theorem declared_woven : Woven helpers declared [] := by
  have added : HelperRefs.addAll "WeakEvents.Runtime" (.empty "Ticker") = .ok helpers imported :=
    eq_ok_of_value? (by decide +kernel)
  exact (Woven.imported (.empty "Ticker") added).operated ops

theorem made : Event.ofField declared ticked helpers {} = .ok event.event := by
  have same : (Event.ofField declared ticked helpers {}).toOption = some event.event := by decide +kernel
  cases built : Event.ofField declared ticked helpers {} with
  | ok e =>
    rw [built] at same
    exact congrArg _ (Option.some.inj same)
  | error e =>
    rw [built] at same
    cases same

theorem accessors : event.event.Accessor declared event.add ∧ event.event.Accessor declared event.remove := by
  have found : ∀ {t : Token} {row : Method}, (declared.method t).toOption = some row →
      declared.method t = .ok row := by
    intro t row same
    cases read : declared.method t with
    | ok row' =>
      rw [read] at same
      exact congrArg _ (Option.some.inj same)
    | error e =>
      rw [read] at same
      cases same
  refine ⟨⟨{ (accessor "add_Ticked").row publisher with token := event.add }, found (by decide +kernel), ?_⟩,
    ⟨{ (accessor "remove_Ticked").row publisher with token := event.remove }, found (by decide +kernel), ?_⟩⟩
  · exact ⟨rfl, by decide, rfl, rfl, rfl⟩
  · exact ⟨rfl, by decide, rfl, rfl, rfl⟩

theorem weaves : event.event.weave event.add event.remove declared = .ok event.unsubscribe woven :=
  eq_ok_of_value? (by decide +kernel)

theorem woven_ticker : Woven helpers woven [event] :=
  .woven declared_woven made accessors.1 accessors.2 (by decide) weaves

/-- A call of the handler on an object. -/
def hears (id : UInt32) : Invocation := ⟨some ⟨id⟩, onTicked⟩

/-- Two listeners subscribe, one of them twice; that one unsubscribes once, the other is collected. -/
def session : List Action :=
  [.alloc (.named ⟨"Sample", "Ticker"⟩), .alloc (.named ⟨"Sample", "Listener"⟩),
   .alloc (.named ⟨"Sample", "Listener"⟩),
   .add event (some ⟨0⟩) (.named .eventHandler) [hears 1],
   .add event (some ⟨0⟩) (.named .eventHandler) [hears 2],
   .add event (some ⟨0⟩) (.named .eventHandler) [hears 1],
   .remove event (some ⟨0⟩) (.named .eventHandler) [hears 1],
   .collect ⟨2⟩,
   .raise event (some ⟨0⟩) (.object ⟨0⟩) .null]

theorem ticker_follows_lists :
    Woven helpers woven [event] ∧ Allows (Action.Allowed woven [event]) session [] ∧
      subscriptions session < UInt32.size ∧
      ∃ s, runActions ⟨woven, helpers.helperNamespace⟩ session .initial = .ok () s ∧
        s.trace = [⟨event.add, some ⟨0⟩⟩, ⟨event.add, some ⟨0⟩⟩, ⟨event.add, some ⟨0⟩⟩,
          ⟨event.remove, some ⟨0⟩⟩, ⟨onTicked, some ⟨1⟩⟩, ⟨event.unsubscribe, some ⟨0⟩⟩] := by
  have allowed : Allows (Action.Allowed woven [event]) session [] := by decide +kernel
  have fewer : subscriptions session < UInt32.size := by decide
  obtain ⟨s, ran, trace, -⟩ := woven_events_follow_lists woven_ticker session allowed fewer
  refine ⟨woven_ticker, allowed, fewer, s, ran, ?_⟩
  rw [trace]
  decide +kernel

end Ticker

end WeakSubscription
