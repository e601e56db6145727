import WeakSubscription.Proofs.Events.Wrapped
import WeakSubscription.Proofs.Weaving.Plain

/-!
# Woven events and their plain twins

An event that is not woven keeps the entries of its handlers as they are. While nothing is collected, the
woven event enters the same methods, except that it takes only one call off the list when a handler of
several calls is removed, the first one of the handler, where the plain event takes the whole run.
-/

open WeakSubscription.Module

namespace WeakSubscription

open Execution Delegate Tracked

variable {program : Program} {m m' : Module} {es : List WovenEvent} {roster : Roster} {s : Machine}
  {w : WovenEvent} {p : Option ObjectRef} {type : Ty} {calls l : List Invocation} {alive : List Bool}
  {action : Action} {refs : HelperRefs}

/-- The entries are the calls themselves. -/
def strong : Layout where
  Holds _ _ _ xs calls := xs = calls.map .strong
  nil := fun _ _ _ => rfl
  mono := fun _ same => same

/-! ### Runs of plain entries -/

theorem withoutRun_subset (run l : List Entry) : withoutRun run l ⊆ l := by
  intro e member
  unfold withoutRun at member
  split at member
  · exact member
  · unfold withoutLast at member
    cases place : lastOccurrence? run l with
    | none => simpa [place] using member
    | some i =>
      rw [place] at member
      rcases List.mem_append.mp member with front | back
      · exact List.mem_of_mem_take front
      · exact List.mem_of_mem_drop back

theorem map_filterMap_strongCall? {xs : List Entry} (plain : ∀ e ∈ xs, ∃ c, e = .strong c) :
    (xs.filterMap Entry.strongCall?).map .strong = xs := by
  induction xs with
  | nil => rfl
  | cons e xs ih =>
    obtain ⟨c, rfl⟩ := plain e List.mem_cons_self
    have tail := ih fun x member => plain x (List.mem_cons_of_mem _ member)
    rw [List.filterMap_cons_some (show Entry.strongCall? (.strong c) = some c from rfl), List.map_cons, tail]

theorem map_dropRun (calls l : List Invocation) :
    (dropRun calls l).map .strong = withoutRun (calls.map .strong) (l.map .strong) := by
  refine map_filterMap_strongCall? fun e member => ?_
  obtain ⟨c, -, rfl⟩ := List.mem_map.mp (withoutRun_subset _ _ member)
  exact ⟨c, rfl⟩

theorem dropRun_subset (calls l : List Invocation) : dropRun calls l ⊆ l := by
  intro c member
  have inside : Entry.strong c ∈ (dropRun calls l).map .strong := List.mem_map_of_mem member
  rw [map_dropRun] at inside
  obtain ⟨d, within, same⟩ := List.mem_map.mp (withoutRun_subset _ _ inside)
  obtain rfl := Entry.strong.inj same
  exact within

theorem dropRun_singleton (c : Invocation) (l : List Invocation) : dropRun [c] l = eraseLast c l := by
  have same : (dropRun [c] l).map Entry.strong = (eraseLast c l).map Entry.strong :=
    (map_dropRun [c] l).trans (withoutRun_strong c l)
  exact List.map_injective_iff.mpr (fun _ _ => Entry.strong.inj) same

/-! ### Actions while nothing is collected -/

/-- Nothing is collected, and the targets of handlers are objects that there are. -/
def Action.Lasting (alive : List Bool) : Action → Prop
  | collect _ => False
  | add _ _ _ calls => ∀ call ∈ calls, call.target.all (isLive alive) = true
  | alloc _ | remove _ _ _ _ | raise _ _ _ _ => True

instance (alive : List Bool) : (action : Action) → Decidable (action.Lasting alive)
  | .collect _ => inferInstanceAs (Decidable False)
  | .add _ _ _ calls =>
    inferInstanceAs (Decidable (∀ call ∈ calls, call.target.all (isLive alive) = true))
  | .alloc _ | .remove _ _ _ _ | .raise _ _ _ _ => inferInstanceAs (Decidable True)

def Roster.Lasting (roster : Roster) : Prop :=
  ∀ f p, ∀ call ∈ roster.handlers f p, roster.reaches call = true

theorem isLive_append {r : ObjectRef} (more : List Bool) (live : isLive alive r = true) :
    isLive (alive ++ more) r = true := by
  unfold isLive at live ⊢
  rw [List.getD_eq_getElem?_getD] at live ⊢
  by_cases inside : r.slot < alive.length
  · rwa [List.getElem?_append_left inside]
  · rw [List.getElem?_eq_none (by omega)] at live
    cases live

theorem Roster.Lasting.assign (lasting : roster.Lasting) (field : Token)
    (reached : ∀ call ∈ calls, roster.reaches call = true) (entries : List TraceEntry) :
    ((roster.assign field p calls).record entries).Lasting := by
  intro f q call inside
  replace inside : call ∈ if f = field ∧ q = p then calls else roster.handlers f q := inside
  by_cases here : f = field ∧ q = p
  · rw [if_pos here] at inside
    exact reached call inside
  · rw [if_neg here] at inside
    exact lasting f q call inside

theorem Roster.Lasting.step (lasting : roster.Lasting) (stays : action.Lasting roster.alive)
    {drop : List Invocation → List Invocation → List Invocation}
    (shortens : ∀ calls l, drop calls l ⊆ l) : (action.step m drop roster).Lasting := by
  cases action with
  | alloc type =>
    intro f q call inside
    have before := lasting f q call inside
    unfold Roster.reaches at before ⊢
    cases target : call.target with
    | none => rfl
    | some r =>
      rw [target] at before
      exact isLive_append [true] before
  | collect r => exact stays.elim
  | add w p type calls =>
    refine lasting.assign _ (fun call inside => ?_) _
    rcases List.mem_append.mp inside with old | new
    · exact lasting _ _ call old
    · exact stays call new
  | remove w p type calls =>
    exact lasting.assign _ (fun call inside => lasting _ _ call (shortens _ _ inside)) _
  | raise w p sender args =>
    exact lasting.assign _ (fun call inside => lasting _ _ call (List.mem_of_mem_filter inside)) _

/-! ### Plain events -/

/-- The program runs the events with plain accessors. -/
structure RunsPlain (program : Program) (m : Module) (es : List WovenEvent) : Prop where
  hosts : Hosts program m es
  adds : ∀ w ∈ es, w.event.Implements program.module w.add
    (w.event.appending (taking w.event.handler))
  removes : ∀ w ∈ es, w.event.Implements program.module w.remove
    (w.event.dropping (taking w.event.handler))
  helperNamespace : ∀ w ∈ es, program.helperNamespace = w.event.refs.helperNamespace

/-- Plain entries of a raised event run one after the other. -/
theorem runEntries_strong (hosts : Hosts program m es)
    (follows : Follows strong program m es roster s) (args : List Value)
    (idle : ∀ call ∈ calls, m.Idle call.method) :
    ∃ s', runEntries (call program) (calls.map .strong) args s = .ok () s' ∧
      Follows strong program m es (roster.record (calls.map fun c => m.traceOf c args)) s' := by
  induction calls generalizing roster s with
  | nil =>
    refine ⟨s, rfl, ?_⟩
    simpa [Roster.record] using follows
  | cons c rest ih =>
    have called := callBound_idle hosts (idle c List.mem_cons_self) follows.depth args
    obtain ⟨s', later, follows'⟩ :=
      ih (follows.recorded [m.traceOf c args]) fun d member => idle d (List.mem_cons_of_mem _ member)
    refine ⟨s', ?_, ?_⟩
    · rw [List.map_cons, runEntries_cons_of_ok (by rw [runEntry]; exact called), later]
    · rwa [Roster.record_record] at follows'

/-- The machine follows the roster with the calls themselves, and all of them are reached. -/
structure FollowsPlain (program : Program) (m : Module) (es : List WovenEvent) (roster : Roster)
    (s : Machine) : Prop where
  follows : Follows strong program m es roster s
  lasting : roster.Lasting

theorem plain_step_follows (runs : RunsPlain program m es) (kept : FollowsPlain program m es roster s)
    (allowed : action.Allowed m es roster.alive ∧ action.Lasting roster.alive) :
    ∃ s', action.run program s = .ok () s' ∧
      FollowsPlain program m es (action.step m dropRun roster) s' := by
  obtain ⟨follows, lasting⟩ := kept
  obtain ⟨allowed, stays⟩ := allowed
  have lasting' := lasting.step (m := m) stays dropRun_subset
  cases action with
  | alloc type =>
    obtain ⟨s', ran, follows', -⟩ := follows.alloc runs.hosts allowed type
    exact ⟨s', ran, follows', lasting'⟩
  | collect r => exact stays.elim
  | add w p type calls =>
    obtain ⟨⟨member, kind, live⟩, same, nonempty, idle⟩ := allowed
    have holds := follows.holds_iff.mpr live
    obtain ⟨xs, reads, rfl⟩ := follows.fields w member p kind holds
    have carries : Carries w.event.handler (calls.map .strong) (handler type calls) :=
      ⟨same, rfl, by simpa using nonempty⟩
    obtain ⟨u, carried, ran⟩ := (runs.adds w member).invoked (runs.helperNamespace w member) kind holds
      follows.depth ⟨_, _, reads, ⟨carries, rfl⟩, rfl⟩
    refine ⟨_, ran, ?_, lasting'⟩
    refine follows.assigned runs.hosts member kind holds carried (List.map_append ..).symm UInt32.le_rfl
      (fun call inside => ?_) _
    rcases List.mem_append.mp inside with old | new
    · exact follows.idle _ _ call old
    · exact idle call new
  | remove w p type calls =>
    obtain ⟨⟨member, kind, live⟩, same, nonempty, -⟩ := allowed
    have holds := follows.holds_iff.mpr live
    obtain ⟨xs, reads, rfl⟩ := follows.fields w member p kind holds
    have carries : Carries w.event.handler (calls.map .strong) (handler type calls) :=
      ⟨same, rfl, by simpa using nonempty⟩
    obtain ⟨u, carried, ran⟩ := (runs.removes w member).invoked (runs.helperNamespace w member) kind holds
      follows.depth ⟨_, _, reads, ⟨carries, rfl⟩, rfl⟩
    refine ⟨_, ran, ?_, lasting'⟩
    exact follows.assigned runs.hosts member kind holds carried (map_dropRun _ _).symm UInt32.le_rfl
      (fun call inside => follows.idle _ _ call (dropRun_subset _ _ inside)) _
  | raise w p sender args =>
    obtain ⟨member, kind, live⟩ := allowed
    have holds := follows.holds_iff.mpr live
    obtain ⟨xs, reads, rfl⟩ := follows.fields w member p kind holds
    obtain ⟨s', ran, follows'⟩ := runEntries_strong runs.hosts follows [sender, args]
      (follows.idle w.event.field p)
    refine ⟨s', (raise_eq reads sender args).trans ran, ?_, lasting'⟩
    have all : (roster.handlers w.event.field p).filter roster.reaches = roster.handlers w.event.field p :=
      List.filter_eq_self.mpr (lasting _ _)
    have traced : (roster.handlers w.event.field p).map (roster.raised m w p [sender, args]) =
        (roster.handlers w.event.field p).map fun c => m.traceOf c [sender, args] :=
      List.map_congr_left fun c inside => if_pos (lasting _ _ c inside)
    show Follows strong program m es ((roster.assign _ p (List.filter _ _)).record (List.map _ _)) s'
    rw [all, traced, Roster.assign_handlers]
    exact follows'

/-! ### Twins -/

/-- One module out of which two were made, by weaving an event and by giving it plain accessors. -/
structure Twins (refs : HelperRefs) (m : Module) (w : WovenEvent) (woven plain : Module) : Prop where
  before : ∃ es, Woven refs m es
  made : ∃ settings, Event.ofField m w.event.field refs settings = .ok w.event
  adds : w.event.Accessor m w.add
  removes : w.event.Accessor m w.remove
  apart : w.add ≠ w.remove
  weaves : w.event.weave w.add w.remove m = .ok w.unsubscribe woven
  writes : w.event.plain w.add w.remove m = .ok () plain

/-- An action on the event, while nothing is collected. -/
def Action.AllowedTwin (m : Module) (w : WovenEvent) (alive : List Bool) (action : Action) : Prop :=
  action.Allowed m [w] alive ∧ action.Lasting alive

instance (m : Module) (w : WovenEvent) (alive : List Bool) (action : Action) :
    Decidable (action.AllowedTwin m w alive) :=
  inferInstanceAs (Decidable (_ ∧ _))

/-- A method without code is no accessor. -/
theorem Event.Accessor.ne_idle {event : Event} {t method : Token} (accessor : event.Accessor m method)
    {row : Method} (found : m.method t = .ok row) (empty : row.body.isEmpty = true) : t ≠ method := by
  rintro rfl
  obtain ⟨row', found', -, -, -, -, code⟩ := accessor
  obtain rfl := Except.ok.inj (found.symm.trans found')
  unfold Body.isEmpty at empty
  rw [code] at empty
  cases empty

variable {m₁ m₂ : Module} {actions : List Action}

theorem Twins.woven_run (twins : Twins refs m w m₁ m₂)
    (allowed : Allows (Action.AllowedTwin m w) actions []) (fewer : subscriptions actions < UInt32.size) :
    ∃ s, runActions ⟨m₁, refs.helperNamespace⟩ actions .initial = .ok () s ∧
      s.trace = (Roster.initial.after m dropFirst actions).trace := by
  obtain ⟨es, before⟩ := twins.before
  obtain ⟨settings, made⟩ := twins.made
  have facts := before.facts
  obtain ⟨backed, -, -⟩ := Event.ofField_ok made facts.names
  have runs := (Woven.woven before made twins.adds twins.removes twins.apart twins.weaves).runs
  obtain ⟨fresh, -, evolves, -⟩ :=
    weave_gives facts.placed backed twins.adds twins.removes twins.apart _ _ twins.weaves
  -- handlers are methods of the module before weaving, which touches none that is without code
  have hosts : Hosts ⟨m₁, refs.helperNamespace⟩ m (w :: es) := by
    refine ⟨runs.hosts.fields, runs.hosts.distinct, ?_⟩
    intro t row found empty
    refine (evolves.keeps fun touched => ?_).row found
    simp only [List.mem_cons, List.not_mem_nil, or_false] at touched
    rcases touched with same | same | same
    · exact twins.adds.ne_idle found empty same
    · exact twins.removes.ne_idle found empty same
    · exact fresh row (same ▸ found)
  have runs' : Runs ⟨m₁, refs.helperNamespace⟩ m (w :: es) :=
    ⟨hosts, runs.installed, runs.helperNamespace⟩
  have allowed' : Allows (Action.Allowed m (w :: es)) actions [] := by
    refine allowed.imp fun alive action first => ?_
    have member : ∀ {w' : WovenEvent}, w' ∈ [w] → w' ∈ w :: es := by
      intro w' single
      rw [List.mem_singleton.mp single]
      exact List.mem_cons_self
    cases action with
    | alloc _ | collect _ => exact first.1
    | add _ _ _ _ | remove _ _ _ _ => exact ⟨⟨member first.1.1.1, first.1.1.2⟩, first.1.2⟩
    | raise _ _ _ _ => exact ⟨member first.1.1, first.1.2⟩
  obtain ⟨s, ran, follows, -⟩ :=
    runActions_keeps (FollowsWrapped _ m _) (step_follows runs') (.initial hosts fewer) allowed'
  exact ⟨s, ran, follows.trace⟩

theorem Twins.plain_run (twins : Twins refs m w m₁ m₂)
    (allowed : Allows (Action.AllowedTwin m w) actions []) :
    ∃ s, runActions ⟨m₂, refs.helperNamespace⟩ actions .initial = .ok () s ∧
      s.trace = (Roster.initial.after m dropRun actions).trace := by
  obtain ⟨es, before⟩ := twins.before
  obtain ⟨settings, made⟩ := twins.made
  have facts := before.facts
  obtain ⟨backed, -, sameRefs⟩ := Event.ofField_ok made facts.names
  obtain ⟨evolves, backed', adds, removes⟩ :=
    plain_gives facts.placed backed twins.adds twins.removes twins.apart _ _ twins.writes
  have hosts : Hosts ⟨m₂, refs.helperNamespace⟩ m [w] := by
    refine ⟨?_, List.nodup_singleton _, ?_⟩
    · intro w' member
      obtain rfl := List.mem_singleton.mp member
      obtain ⟨row, found, -, static, -⟩ := backed'.field
      exact ⟨row, found, static⟩
    · intro t row found empty
      refine (evolves.keeps fun touched => ?_).row found
      simp only [List.mem_cons, List.not_mem_nil, or_false] at touched
      rcases touched with same | same
      · exact twins.adds.ne_idle found empty same
      · exact twins.removes.ne_idle found empty same
  have runs : RunsPlain ⟨m₂, refs.helperNamespace⟩ m [w] := by
    refine ⟨hosts, ?_, ?_, ?_⟩
    · intro w' member
      obtain rfl := List.mem_singleton.mp member
      exact adds
    · intro w' member
      obtain rfl := List.mem_singleton.mp member
      exact removes
    · intro w' member
      obtain rfl := List.mem_singleton.mp member
      rw [sameRefs]
  have start : FollowsPlain ⟨m₂, refs.helperNamespace⟩ m [w] .initial .initial :=
    ⟨.initial hosts, fun _ _ _ inside => by cases inside⟩
  obtain ⟨s, ran, follows, -⟩ :=
    runActions_keeps (fun _ => FollowsPlain _ m [w]) (plain_step_follows runs) start allowed
  exact ⟨s, ran, follows.trace⟩

/-! ### Narrowed removals -/

/-- The action with at most one call left of a handler that is removed. -/
def Action.narrowed : Action → Action
  | remove w p type calls => remove w p type (calls.take 1)
  | alloc type => alloc type
  | collect r => collect r
  | add w p type calls => add w p type calls
  | raise w p sender args => raise w p sender args

theorem dropRun_take (calls l : List Invocation) : dropRun (calls.take 1) l = dropFirst calls l := by
  cases calls with
  | nil =>
    -- an empty run is nowhere in the list of entries, so it is read through them
    have same : (dropRun [] l).map Entry.strong = l.map Entry.strong := map_dropRun [] l
    exact List.map_injective_iff.mpr (fun _ _ => Entry.strong.inj) same
  | cons c rest => exact dropRun_singleton c l

theorem step_narrowed (action : Action) (roster : Roster) :
    action.narrowed.step m dropRun roster = action.step m dropFirst roster := by
  cases action with
  | remove w p type calls =>
    show (roster.assign _ _ (dropRun _ _)).record _ = (roster.assign _ _ (dropFirst _ _)).record _
    rw [dropRun_take]
  | alloc _ | collect _ | add _ _ _ _ | raise _ _ _ _ => rfl

theorem after_narrowed (actions : List Action) (roster : Roster) :
    roster.after m dropRun (actions.map Action.narrowed) = roster.after m dropFirst actions := by
  induction actions generalizing roster with
  | nil => rfl
  | cons action rest ih =>
    show Roster.after m dropRun (action.narrowed.step m dropRun roster) (rest.map Action.narrowed) = _
    rw [step_narrowed, ih]
    rfl

theorem Allows.narrowed (allowed : Allows (Action.AllowedTwin m w) actions alive) :
    Allows (Action.AllowedTwin m w) (actions.map Action.narrowed) alive := by
  induction actions generalizing alive with
  | nil => trivial
  | cons action rest ih =>
    obtain ⟨⟨first, lasting⟩, later⟩ := allowed
    have same : action.narrowed.aliveAfter alive = action.aliveAfter alive := by
      cases action <;> rfl
    refine ⟨?_, by rw [same]; exact ih later⟩
    cases action with
    | remove w' p type calls =>
      obtain ⟨addressed, named, nonempty, idle⟩ := first
      refine ⟨⟨addressed, named, ?_, fun call inside => idle call (List.mem_of_mem_take inside)⟩, trivial⟩
      simpa using nonempty
    | alloc _ | collect _ | add _ _ _ _ | raise _ _ _ _ => exact ⟨first, lasting⟩

/-- While nothing is collected, a woven event means what its plain twin means once every removed handler is
narrowed to its first call. All actions succeed in both modules, with handlers of any number of calls, as long as
fewer calls are subscribed in all than there are numbers for wrappers. Both enter the same methods on the same
instances in the same order if the twin is given the narrowed handlers, so in particular if every removed handler has
just one call. -/
theorem woven_event_matches_twin (twins : Twins refs m w m₁ m₂)
    (allowed : Allows (Action.AllowedTwin m w) actions []) (fewer : subscriptions actions < UInt32.size) :
    ∃ s s' s'', runActions ⟨m₁, refs.helperNamespace⟩ actions .initial = .ok () s ∧
      runActions ⟨m₂, refs.helperNamespace⟩ actions .initial = .ok () s' ∧
      runActions ⟨m₂, refs.helperNamespace⟩ (actions.map Action.narrowed) .initial = .ok () s'' ∧
      s.trace = s''.trace ∧
      ((∀ action ∈ actions, action.narrowed = action) → s.trace = s'.trace) := by
  obtain ⟨s, ran, trace⟩ := twins.woven_run allowed fewer
  obtain ⟨s', ran', -⟩ := twins.plain_run allowed
  obtain ⟨s'', ran'', trace''⟩ := twins.plain_run allowed.narrowed
  have same : s.trace = s''.trace := by rw [trace, trace'', after_narrowed]
  refine ⟨s, s', s'', ran, ran', ran'', same, fun narrow => ?_⟩
  have unchanged : actions.map Action.narrowed = actions :=
    (List.map_congr_left narrow).trans (List.map_id' actions)
  rw [unchanged] at ran''
  obtain ⟨-, rfl⟩ := EStateM.Result.ok.inj (ran'.symm.trans ran'')
  exact same

/-! ### Twins of the ticker -/

namespace Ticker

def written : Module := endState (event.event.plain event.add event.remove declared)

theorem twins : Twins helpers declared event woven written where
  before := ⟨[], declared_woven⟩
  made := ⟨{}, made⟩
  adds := accessors.1
  removes := accessors.2
  apart := by decide
  weaves := weaves
  writes := eq_ok_of_value? (by decide +kernel)

/-- Three objects are made, one that publishes and two that listen. -/
def cast : List Action :=
  [.alloc (.named ⟨"Sample", "Ticker"⟩), .alloc (.named ⟨"Sample", "Listener"⟩),
   .alloc (.named ⟨"Sample", "Listener"⟩)]

def subscribes (ids : List UInt32) : Action :=
  .add event (some ⟨0⟩) (.named .eventHandler) (ids.map hears)

def unsubscribes (ids : List UInt32) : Action :=
  .remove event (some ⟨0⟩) (.named .eventHandler) (ids.map hears)

def ticks : Action := .raise event (some ⟨0⟩) (.object ⟨0⟩) .null

/-- A handler of two calls that is removed as a whole stays with its second call in the woven event, and goes
with both in the plain one. -/
theorem ticker_twins_differ :
    Twins helpers declared event woven written ∧
      Allows (Action.AllowedTwin declared event) (cast ++ [subscribes [1, 2], unsubscribes [1, 2], ticks]) [] ∧
      ∃ s s', runActions ⟨woven, helpers.helperNamespace⟩
          (cast ++ [subscribes [1, 2], unsubscribes [1, 2], ticks]) .initial = .ok () s ∧
        runActions ⟨written, helpers.helperNamespace⟩
          (cast ++ [subscribes [1, 2], unsubscribes [1, 2], ticks]) .initial = .ok () s' ∧
        s.trace = [⟨event.add, some ⟨0⟩⟩, ⟨event.remove, some ⟨0⟩⟩, ⟨onTicked, some ⟨2⟩⟩] ∧
        s'.trace = [⟨event.add, some ⟨0⟩⟩, ⟨event.remove, some ⟨0⟩⟩] := by
  have allowed : Allows (Action.AllowedTwin declared event)
      (cast ++ [subscribes [1, 2], unsubscribes [1, 2], ticks]) [] := by decide +kernel
  obtain ⟨s, ran, trace⟩ := twins.woven_run allowed (by decide)
  obtain ⟨s', ran', trace'⟩ := twins.plain_run allowed
  refine ⟨twins, allowed, s, s', ran, ran', ?_, ?_⟩
  · rw [trace]
    decide +kernel
  · rw [trace']
    decide +kernel

theorem ticker_matches_twin :
    Twins helpers declared event woven written ∧
      Allows (Action.AllowedTwin declared event) (cast ++ [subscribes [1, 2, 1], unsubscribes [1], ticks]) [] ∧
      subscriptions (cast ++ [subscribes [1, 2, 1], unsubscribes [1], ticks]) < UInt32.size ∧
      ∃ s s', runActions ⟨woven, helpers.helperNamespace⟩
          (cast ++ [subscribes [1, 2, 1], unsubscribes [1], ticks]) .initial = .ok () s ∧
        runActions ⟨written, helpers.helperNamespace⟩
          (cast ++ [subscribes [1, 2, 1], unsubscribes [1], ticks]) .initial = .ok () s' ∧
        s.trace = s'.trace := by
  have allowed : Allows (Action.AllowedTwin declared event)
      (cast ++ [subscribes [1, 2, 1], unsubscribes [1], ticks]) [] := by decide +kernel
  have fewer : subscriptions (cast ++ [subscribes [1, 2, 1], unsubscribes [1], ticks]) < UInt32.size := by decide
  obtain ⟨s, s', -, ran, ran', -, -, same⟩ := woven_event_matches_twin twins allowed fewer
  refine ⟨twins, allowed, fewer, s, s', ran, ran', same ?_⟩
  intro action member
  simp only [cast, subscribes, unsubscribes, ticks, List.cons_append, List.nil_append, List.mem_cons,
    List.not_mem_nil, or_false] at member
  rcases member with rfl | rfl | rfl | rfl | rfl | rfl <;> rfl

end Ticker

end WeakSubscription
