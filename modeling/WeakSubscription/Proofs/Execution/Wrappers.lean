import WeakSubscription.Proofs.Events.Wrapped
import WeakSubscription.Proofs.Execution.Recording

/-!
# What a wrapper's number tells

Outside a machine nobody makes wrappers: those that come in were shown before, as a result or in a field. As long as
the count of the wrappers that were made fits into a number, a wrapper is then known by its number in all values that
are ever shown, and lists that are searched by numbers are searched by wrappers.
-/

namespace WeakSubscription

open Tracked Machine Execution Stepwise

variable {program : Program} {m : Machine} {seen : List Value} {ledger : List Entry} {made n : Nat}

/-! ### Requests -/

/-- A request that has no further step has written the wrappers of its steps on the ledger, and shows no others. -/
theorem Machine.Request.recorded {request : Request} (accounted : m.Accounted ledger)
    (incoming : ValuesRecorded ledger request.incoming)
    (ended : next program (after program n (request.started program m)) = none) :
    ∃ more, more.length = wrappers program n (request.started program m) ∧
      Accounted (ledger ++ more) (endState (request.run program m)) ∧
      ValuesRecorded (ledger ++ more) (shown (request.run program m)) := by
  have started : (request.started program m).RecordedIn ledger := recorded_started request accounted incoming
  obtain ⟨more, count, recorded⟩ := recorded_after started n
  refine ⟨more, count, ?_⟩
  rw [settle_of_ended ended] at recorded
  obtain ⟨accounted', given, -⟩ := recorded
  cases ran : request.run program m with
  | ok result m' =>
    rw [ran] at accounted' given
    exact ⟨accounted', fun v member => (List.mem_append.mp member).elim (given v) accounted'.values⟩
  | error e m' =>
    rw [ran] at accounted'
    exact ⟨accounted', fun v => accounted'.values⟩

/-- A machine behind some requests, with the number of the wrappers that were made and with all values that were shown
on the way. Values come in with entries in all of their invocation lists, and with no wrappers but those that were
shown before. -/
inductive Machine.Ran (program : Program) : Nat → Machine → List Value → Prop
  | start : Ran program 0 .initial []
  | asked {made : Nat} {m : Machine} {seen : List Value} (before : Ran program made m seen) (request : Request)
      (proper : ∀ v ∈ request.incoming, v.HasEntries)
      (known : ∀ v ∈ request.incoming, ∀ e, v.Holds e → e.weakId?.isSome = true → ∃ w ∈ seen, w.Holds e)
      (n : Nat) (ended : next program (after program n (request.started program m)) = none) :
      Ran program (made + wrappers program n (request.started program m)) (endState (request.run program m))
        (shown (request.run program m) ++ seen)

theorem Machine.Ran.accounted (ran : Ran program made m seen) :
    ∃ ledger, ledger.length = made ∧ m.Accounted ledger ∧ ValuesRecorded ledger seen := by
  induction ran with
  | start => exact ⟨[], rfl, accounted_initial, nofun⟩
  | asked _ request proper known n ended ih =>
    obtain ⟨ledger, rfl, accounted, recorded⟩ := ih
    -- a wrapper that comes in was shown before, and stands on the ledger since then
    have incoming : ValuesRecorded ledger request.incoming := by
      refine fun v member => .of_holds (proper v member) fun e held => ?_
      cases e with
      | strong call => trivial
      | weak id call callbackType callback handlerType =>
        obtain ⟨w, shown, holds⟩ := known v member _ held rfl
        exact (recorded w shown).holds holds
    obtain ⟨more, count, accounted', given⟩ := Request.recorded accounted incoming ended
    refine ⟨ledger ++ more, by rw [List.length_append, count], accounted', fun v member => ?_⟩
    exact (List.mem_append.mp member).elim (given v) fun old => recorded.grow more v old

/-! ### Numbers -/

/-- Every invocation list in the values has entries, and every wrapper in them has a number that the machine has
given out, to this wrapper alone. -/
structure NumbersTell (m : Machine) (values : List Value) : Prop where
  entries : ∀ v ∈ values, v.HasEntries
  given : ∀ v ∈ values, ∀ e, v.Holds e → ∀ id, e.weakId? = some id → 1 ≤ id ∧ id ≤ m.lastWeakId
  alone : ∀ v ∈ values, ∀ w ∈ values, ∀ e f, v.Holds e → w.Holds f → ∀ id, e.weakId? = some id →
    f.weakId? = some id → e = f
  same : ∀ v ∈ values, ∀ w ∈ values, ∀ e f, v.Holds e → w.Holds f → (e.sameAs f = true ↔ e = f)

namespace Entry.RecordedIn

variable {e f : Entry} {id : UInt32}

/-- The number of a recorded wrapper tells its place, if there are no more places than numbers. -/
theorem stands (recorded : e.RecordedIn ledger) (number : e.weakId? = some id) (fewer : ledger.length < UInt32.size) :
    ∃ i, id.toNat = i + 1 ∧ i < ledger.length ∧ ledger[i]? = some e := by
  cases e with
  | strong call => cases number
  | weak id' call callbackType callback handlerType =>
    obtain rfl := Option.some.inj number
    obtain ⟨-, i, rfl, stands⟩ := recorded
    have inside := (List.getElem?_eq_some_iff.mp stands).1
    exact ⟨i, UInt32.toNat_ofNat_of_lt' (Nat.lt_of_le_of_lt inside fewer), inside, stands⟩

theorem eq_of_weakId? (first : e.RecordedIn ledger) (later : f.RecordedIn ledger)
    (fewer : ledger.length < UInt32.size) (number : e.weakId? = some id) (number' : f.weakId? = some id) : e = f := by
  obtain ⟨i, place, -, stands⟩ := first.stands number fewer
  obtain ⟨j, place', -, stands'⟩ := later.stands number' fewer
  obtain rfl : i = j := Nat.succ.inj (place.symm.trans place')
  exact Option.some.inj (stands.symm.trans stands')

theorem sameAs_iff (first : e.RecordedIn ledger) (later : f.RecordedIn ledger)
    (fewer : ledger.length < UInt32.size) : e.sameAs f = true ↔ e = f := by
  cases e with
  | strong call =>
    cases f with
    | strong call' => simp [Entry.sameAs]
    | weak _ _ _ _ _ => exact ⟨nofun, nofun⟩
  | weak id call callbackType callback handlerType =>
    cases f with
    | strong call' => exact ⟨nofun, nofun⟩
    | weak id' _ _ _ _ =>
      constructor
      · intro same
        obtain rfl : id = id' := beq_iff_eq.mp same
        exact first.eq_of_weakId? later fewer rfl rfl
      · intro same
        rw [← same]
        exact beq_self_eq_true id

end Entry.RecordedIn

/-- Behind any requests, failed ones among them, wrappers are known by their numbers in all values that were shown
and in all fields, as long as fewer wrappers were made than there are numbers. Every request can be the next one. -/
theorem requests_keep_numbers (ran : Ran program made m seen) (fewer : made < UInt32.size) :
    m.lastWeakId.toNat = made ∧ NumbersTell m (m.values ++ seen) ∧
      ∀ request : Request, ∃ n, next program (after program n (request.started program m)) = none := by
  obtain ⟨ledger, rfl, accounted, recorded⟩ := ran.accounted
  have count : m.lastWeakId.toNat = ledger.length := by
    rw [accounted.count, UInt32.toNat_ofNat_of_lt' fewer]
  have all : ∀ v ∈ m.values ++ seen, v.RecordedIn ledger := by
    intro v member
    exact (List.mem_append.mp member).elim accounted.values (recorded v)
  refine ⟨count, ⟨fun v member => (all v member).hasEntries, ?_, ?_, ?_⟩, fun request => ?_⟩
  · intro v member e held id number
    obtain ⟨i, place, inside, -⟩ := ((all v member).holds held).stands number fewer
    rw [UInt32.le_iff_toNat_le, UInt32.le_iff_toNat_le, place, count]
    exact ⟨Nat.le_add_left 1 i, inside⟩
  · intro v member w member' e f held held' id number number'
    exact ((all v member).holds held).eq_of_weakId? ((all w member').holds held') fewer number number'
  · intro v member w member' e f held held'
    exact ((all v member).holds held).sameAs_iff ((all w member').holds held') fewer
  · obtain ⟨n, ends⟩ := started_reaches program request m
    exact ⟨n, by rw [ends, next_settle]⟩

/-! ### A ticker that loses a listener -/

namespace Ticker

def running : Program := ⟨woven, helpers.helperNamespace⟩

/-- A request, with the values shown so far. -/
def asks (request : Request) (state : Machine × List Value) : Machine × List Value :=
  (endState (request.run running state.1), shown (request.run running state.1) ++ state.2)

def subscription : Request :=
  .invoke event.add (some ⟨0⟩) [.delegate (.bound (.named .eventHandler) (some ⟨1⟩) onTicked)]

/-- A listener subscribes twice and is collected. -/
def abandoned : Machine × List Value :=
  asks (.collect ⟨1⟩) (asks subscription (asks subscription
    (asks (.alloc (.named ⟨"Sample", "Listener"⟩)) (asks (.alloc (.named ⟨"Sample", "Ticker"⟩)) (.initial, [])))))

/-- The delegate with both wrappers, as the field of the event shows it. -/
def held : Delegate :=
  ((abandoned.1.fieldValue woven ticked (some ⟨0⟩)).toOption.bind Value.delegate?).getD ⟨.void, []⟩

/-- The delegate is called from outside, so that both wrappers unsubscribe. -/
def swept : Machine × List Value := asks (.invokeDelegate held [.null, .null]) abandoned

section

variable {state : Machine × List Value} {made k : Nat}

theorem ran_asks (before : Machine.Ran running made state.1 state.2) (request : Request)
    (proper : ∀ v ∈ request.incoming, v.HasEntries)
    (known : ∀ v ∈ request.incoming, ∀ e, v.Holds e → e.weakId?.isSome = true → ∃ w ∈ state.2, w.Holds e) (n : Nat)
    (ended : (next running (after running n (request.started running state.1))).isNone = true)
    (wraps : wrappers running n (request.started running state.1) = k) :
    Machine.Ran running (made + k) (asks request state).1 (asks request state).2 :=
  wraps ▸ before.asked request proper known n (Option.isNone_iff_eq_none.mp ended)

theorem ran_subscription (before : Machine.Ran running made state.1 state.2)
    (ended : (next running (after running 17 (subscription.started running state.1))).isNone = true)
    (wraps : wrappers running 17 (subscription.started running state.1) = 1) :
    Machine.Ran running (made + 1) (asks subscription state).1 (asks subscription state).2 := by
  refine ran_asks before subscription (fun v member => ?_) (fun v member e holds wrapper => ?_) 17 ended wraps
  · obtain rfl := List.mem_singleton.mp member
    refine ⟨nofun, fun id call callbackType callback handlerType inside => ?_⟩
    cases inside with
    | here member => cases List.mem_singleton.mp member
    | callback member _ => cases List.mem_singleton.mp member
  · obtain rfl := List.mem_singleton.mp member
    cases holds with
    | here member =>
      obtain rfl := List.mem_singleton.mp member
      cases wrapper
    | callback member _ => cases List.mem_singleton.mp member

end

theorem abandoned_ran : Machine.Ran running 2 abandoned.1 abandoned.2 := by
  have fresh : Machine.Ran running 0 (Machine.initial, ([] : List Value)).1 (Machine.initial, []).2 := .start
  have publisher := ran_asks fresh (.alloc (.named ⟨"Sample", "Ticker"⟩)) nofun nofun 0 (by decide +kernel) rfl
  have listener := ran_asks publisher (.alloc (.named ⟨"Sample", "Listener"⟩)) nofun nofun 0 (by decide +kernel) rfl
  have once := ran_subscription listener (by decide +kernel) (by decide +kernel)
  have twice := ran_subscription once (by decide +kernel) (by decide +kernel)
  exact ran_asks twice (.collect ⟨1⟩) nofun nofun 0 (by decide +kernel) rfl

theorem ticker_keeps_numbers :
    Machine.Ran running 2 swept.1 swept.2 ∧ .delegate held ∈ abandoned.2 ∧ held.weakIds = [1, 2] ∧
      NumbersTell swept.1 (swept.1.values ++ swept.2) ∧ swept.1.lastWeakId.toNat = 2 := by
  have seen : .delegate held ∈ abandoned.2 := by decide +kernel
  have proper : (Value.delegate held).HasEntries :=
    (requests_keep_numbers abandoned_ran (by decide)).2.1.entries _ (List.mem_append_right _ seen)
  have ran : Machine.Ran running 2 swept.1 swept.2 := by
    have idle : ∀ v ∈ [Value.null, .null], v = .null := by simp
    refine ran_asks (k := 0) abandoned_ran (.invokeDelegate held [.null, .null]) (fun v member => ?_)
      (fun v member e holds _ => ?_) 33 (by decide +kernel) (by decide +kernel)
    · rcases List.mem_cons.mp member with rfl | argument
      · exact proper
      · rw [idle v argument]
        trivial
    · rcases List.mem_cons.mp member with rfl | argument
      · exact ⟨_, seen, holds⟩
      · rw [idle v argument] at holds
        exact holds.elim
  obtain ⟨count, tell, -⟩ := requests_keep_numbers ran (by decide)
  exact ⟨ran, seen, by decide +kernel, tell, count⟩

end Ticker

end WeakSubscription
