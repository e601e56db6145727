import Mathlib.Data.List.Nodup
import WeakSubscription.Proofs.Events.Roster
import WeakSubscription.Proofs.Execution.Fields

/-!
# Machines that follow a roster

A machine follows a roster if it has the same objects and the same trace, and the field of every event
carries, for every live publisher, an invocation list that stands for the calls of the roster. Allocation,
collection and assignments to single fields keep this up, whatever the invocation lists look like.
-/

namespace WeakSubscription

open Execution Machine

/-- How invocation lists stand for the calls of an event and a publisher, with wrappers numbered up to a
last number. -/
structure Layout where
  Holds : WovenEvent → Option ObjectRef → UInt32 → List Entry → List Invocation → Prop
  nil : ∀ w p n, Holds w p n [] []
  mono : ∀ {w p n n' xs calls}, n ≤ n' → Holds w p n xs calls → Holds w p n' xs calls

/-- The program has the fields of the events, each its own, and the methods without code of the module. -/
structure Hosts (program : Program) (m : Module) (es : List WovenEvent) : Prop where
  fields : ∀ w ∈ es, ∃ row, program.module.field w.event.field = .ok row ∧
    row.isStatic = w.event.isStatic
  distinct : (es.map (·.event.field)).Nodup
  idle : ∀ {t : Token} {row : Method}, m.method t = .ok row → row.body.isEmpty = true →
    program.module.method t = .ok row

structure Follows (layout : Layout) (program : Program) (m : Module) (es : List WovenEvent)
    (roster : Roster) (s : Machine) : Prop where
  depth : s.depth = 0
  trace : s.trace = roster.trace
  alive : s.objects.map (·.alive) = roster.alive
  fields : ∀ w ∈ es, ∀ p, w.event.isStatic = p.isNone → s.Holds p →
    ∃ xs, w.event.Reads program.module s p xs ∧
      layout.Holds w p s.lastWeakId xs (roster.handlers w.event.field p)
  fresh : ∀ f r, roster.alive.length ≤ r.slot → roster.handlers f (some r) = []
  idle : ∀ f p, ∀ call ∈ roster.handlers f p, m.Idle call.method

variable {layout : Layout} {program : Program} {m : Module} {es : List WovenEvent} {roster : Roster}
  {s s' : Machine} {w w' : WovenEvent} {p q : Option ObjectRef} {r : ObjectRef} {xs ys : List Entry}
  {calls : List Invocation} {v : Value} {n : UInt32}

/-! ### Live objects -/

theorem isLive_eq (alive : s.objects.map (·.alive) = roster.alive) : s.isAlive = isLive roster.alive := by
  funext r
  unfold Machine.isAlive isLive
  rw [← alive, List.getD_eq_getElem?_getD, List.getElem?_map]
  cases s.objects[r.slot]? <;> rfl

theorem Follows.holds_iff (follows : Follows layout program m es roster s) :
    s.Holds p ↔ p.all (isLive roster.alive) = true := by
  unfold Machine.Holds
  rw [isLive_eq follows.alive]

theorem lt_of_isAlive (alive : s.isAlive r = true) : r.slot < s.objects.length := by
  obtain ⟨o, read, -⟩ := isAlive_iff.mp alive
  exact (List.getElem?_eq_some_iff.mp read).1

theorem Follows.initial (hosts : Hosts program m es) : Follows layout program m es .initial .initial where
  depth := rfl
  trace := rfl
  alive := rfl
  fields := by
    intro w member p kind holds
    obtain ⟨row, found, static⟩ := hosts.fields w member
    cases p with
    | none =>
      refine ⟨[], ⟨.null, ?_, .null _⟩, layout.nil w none 0⟩
      exact fieldValue_static found (static.trans kind)
    | some r =>
      have inside := lt_of_isAlive (s := .initial) (r := r) holds
      exact absurd inside (Nat.not_lt_zero _)
  fresh := fun _ _ _ => rfl
  idle := by
    intro f p call member
    cases member

/-! ### Objects -/

theorem Reads.of_eq {m : Module} {event : Event} (reads : event.Reads m s p xs)
    (same : s'.fieldValue m event.field p = s.fieldValue m event.field p) : event.Reads m s' p xs := by
  obtain ⟨v, value, carries⟩ := reads
  exact ⟨v, same.trans value, carries⟩

theorem Follows.withObject (hosts : Hosts program m es) (follows : Follows layout program m es roster s)
    (t : Ty) :
    Follows layout program m es { roster with alive := roster.alive ++ [true] } (s.withObject t) where
  depth := follows.depth
  trace := follows.trace
  alive := by
    rw [Machine.withObject, List.map_append, follows.alive]
    rfl
  fields := by
    intro w member p kind holds
    obtain ⟨row, found, static⟩ := hosts.fields w member
    by_cases before : s.Holds p
    · obtain ⟨xs, reads, stands⟩ := follows.fields w member p kind before
      exact ⟨xs, Reads.of_eq reads (fieldValue_alloc found (static.trans kind) before), stands⟩
    · -- a publisher that was not there before is the new object, and nothing was subscribed to it
      cases p with
      | none => exact absurd rfl before
      | some r =>
        have inside := lt_of_isAlive holds
        have size : roster.alive.length = s.objects.length := by rw [← follows.alive, List.length_map]
        have new : r.slot = s.objects.length := by
          by_contra other
          have old : r.slot < s.objects.length := by
            simp only [Machine.withObject, List.length_append, List.length_singleton] at inside
            omega
          refine before ?_
          obtain ⟨o, read, living⟩ := isAlive_iff.mp (show Machine.isAlive _ r = true from holds)
          rw [Machine.withObject, List.getElem?_append_left old] at read
          exact isAlive_iff.mpr ⟨o, read, living⟩
        have none : roster.handlers w.event.field (some r) = [] := follows.fresh _ _ (by omega)
        refine ⟨[], ⟨.null, fieldValue_new found (static.trans kind) new, .null _⟩, ?_⟩
        show layout.Holds _ _ _ [] (roster.handlers _ _)
        rw [none]
        exact layout.nil w _ _
  fresh := by
    intro f r beyond
    refine follows.fresh f r ?_
    simp only [List.length_append, List.length_singleton] at beyond
    omega
  idle := follows.idle

/-- As long as there is a reference left, an object is made. -/
theorem Follows.alloc (hosts : Hosts program m es) (follows : Follows layout program m es roster s)
    (room : roster.alive.length < UInt32.size) (t : Ty) :
    ∃ s', (discard (Machine.alloc t) : Run Unit) s = .ok () s' ∧
      Follows layout program m es { roster with alive := roster.alive ++ [true] } s' ∧
      s'.lastWeakId = s.lastWeakId := by
  rw [← follows.alive, List.length_map] at room
  exact ⟨_, Tracked.discard_of_ok (alloc_of_room room t), follows.withObject hosts t, rfl⟩

theorem Follows.collect (hosts : Hosts program m es) (follows : Follows layout program m es roster s)
    (live : isLive roster.alive r = true) :
    ∃ s', Machine.collect r s = .ok () s' ∧
      Follows layout program m es { roster with alive := roster.alive.set r.slot false } s' ∧
      s'.lastWeakId = s.lastWeakId := by
  rw [← isLive_eq follows.alive] at live
  obtain ⟨o, object⟩ := object_of_isAlive live
  refine ⟨_, collect_eq object, ⟨follows.depth, follows.trace, ?_, ?_, ?_, follows.idle⟩, rfl⟩
  · rw [List.map_set, follows.alive]
  · intro w member p kind holds
    obtain ⟨row, found, static⟩ := hosts.fields w member
    have inside := lt_of_isAlive live
    -- the collected object is no live publisher any more, and the others keep their fields
    have apart : p ≠ some r := by
      rintro rfl
      obtain ⟨o', read, living⟩ := isAlive_iff.mp (show Machine.isAlive _ r = true from holds)
      rw [List.getElem?_set_self inside] at read
      obtain rfl := Option.some.inj read
      cases living
    have before : s.Holds p := by
      cases p with
      | none => rfl
      | some q =>
        obtain ⟨o', read, living⟩ := isAlive_iff.mp (show Machine.isAlive _ q = true from holds)
        have other : r.slot ≠ q.slot := fun same => apart (congrArg some (ObjectRef.eq_of_slot_eq same.symm))
        rw [List.getElem?_set_ne other] at read
        exact isAlive_iff.mpr ⟨o', read, living⟩
    obtain ⟨xs, reads, stands⟩ := follows.fields w member p kind before
    exact ⟨xs, Reads.of_eq reads (fieldValue_collect found (static.trans kind) apart), stands⟩
  · intro f r' beyond
    rw [List.length_set] at beyond
    exact follows.fresh f r' beyond

/-! ### Assignments -/

theorem Hosts.eq_of_field (hosts : Hosts program m es) (member : w ∈ es) (member' : w' ∈ es)
    (same : w.event.field = w'.event.field) : w = w' :=
  List.inj_on_of_nodup_map hosts.distinct member member' same

/-- The field of one event and publisher is assigned, and methods are entered. -/
theorem Follows.assigned (hosts : Hosts program m es) (follows : Follows layout program m es roster s)
    (member : w ∈ es) (kind : w.event.isStatic = p.isNone) (holds : s.Holds p)
    (carries : Carries w.event.handler xs v) (stands : layout.Holds w p n xs calls)
    (later : s.lastWeakId ≤ n) (idle : ∀ call ∈ calls, m.Idle call.method)
    (entries : List TraceEntry) :
    Follows layout program m es ((roster.assign w.event.field p calls).record entries)
      (({ s with trace := s.trace ++ entries, lastWeakId := n } : Machine).withField w.event.field p v)
    where
  depth := by rw [depth_withField]; exact follows.depth
  trace := by rw [trace_withField, follows.trace]; rfl
  alive := by rw [alive_withField]; exact follows.alive
  fields := by
    intro w' member' q kind' holds'
    obtain ⟨row, found, static⟩ := hosts.fields w' member'
    rw [lastWeakId_withField]
    -- elsewhere nothing is assigned, but more numbers may have been given out
    by_cases here : w'.event.field = w.event.field ∧ q = p
    · obtain ⟨sameField, rfl⟩ := here
      obtain rfl := hosts.eq_of_field member' member sameField
      refine ⟨xs, ⟨v, fieldValue_withField_self found (static.trans kind') holds, carries⟩, ?_⟩
      simpa [Roster.record, Roster.assign] using stands
    · have before : s.Holds q := by
        unfold Machine.Holds at holds' ⊢
        rwa [isAlive_withField] at holds'
      obtain ⟨ys, reads, stands'⟩ := follows.fields w' member' q kind' before
      refine ⟨ys, Reads.of_eq reads ?_, ?_⟩
      · have apart : w'.event.field ≠ w.event.field ∨ q ≠ p := by
          by_contra both
          exact here (by simpa [not_or] using both)
        exact fieldValue_withField_of_ne found (static.trans kind') apart
      · have unassigned : ((roster.assign w.event.field p calls).record entries).handlers
            w'.event.field q = roster.handlers w'.event.field q := if_neg here
        rw [unassigned]
        exact layout.mono later stands'
  fresh := by
    intro f r beyond
    have unassigned : ¬(f = w.event.field ∧ some r = p) := by
      rintro ⟨-, rfl⟩
      have inside := lt_of_isAlive (s := s) (r := r) holds
      have size : roster.alive.length = s.objects.length := by rw [← follows.alive, List.length_map]
      have beyond : roster.alive.length ≤ r.slot := beyond
      omega
    exact (if_neg unassigned).trans (follows.fresh f r beyond)
  idle := by
    intro f q call inside
    replace inside : call ∈ if f = w.event.field ∧ q = p then calls else roster.handlers f q := inside
    by_cases here : f = w.event.field ∧ q = p
    · rw [if_pos here] at inside
      exact idle call inside
    · rw [if_neg here] at inside
      exact follows.idle f q call inside

theorem Follows.recorded (follows : Follows layout program m es roster s) (entries : List TraceEntry) :
    Follows layout program m es (roster.record entries) { s with trace := s.trace ++ entries } where
  depth := follows.depth
  trace := congrArg (· ++ entries) follows.trace
  alive := follows.alive
  fields := follows.fields
  fresh := follows.fresh
  idle := follows.idle

/-! ### Runs -/

/-- If every allowed action succeeds and keeps an invariant of roster, machine and what is still to come, so does
every allowed list of actions. -/
theorem runActions_keeps {allowed : List Bool → Action → Prop} (inv : List Action → Roster → Machine → Prop)
    {drop : List Invocation → List Invocation → List Invocation}
    (step : ∀ {action : Action} {rest : List Action} {roster : Roster} {s : Machine},
      inv (action :: rest) roster s → allowed roster.alive action →
      ∃ s', action.run program s = .ok () s' ∧ inv rest (action.step m drop roster) s')
    {actions : List Action} (start : inv actions roster s) (allows : Allows allowed actions roster.alive) :
    ∃ s', runActions program actions s = .ok () s' ∧ inv [] (roster.after m drop actions) s' := by
  induction actions generalizing roster s with
  | nil => exact ⟨s, rfl, start⟩
  | cons action rest ih =>
    obtain ⟨first, later⟩ := allows
    obtain ⟨s₁, ran, kept⟩ := step start first
    rw [← action.alive_step m drop] at later
    obtain ⟨s', onward, kept'⟩ := ih kept later
    refine ⟨s', ?_, kept'⟩
    rw [runActions, Tracked.bind_of_ok ran, onward]

end WeakSubscription
