import WeakSubscription.Proofs.Module.Lockstep
import WeakSubscription.Proofs.Weaving.Conversions
import WeakSubscription.Proofs.Weaving.Interchange

/-!
# Importing the helpers more than once

An import adds a row for each helper that no row references yet, and succeeds exactly if the table has room for these.
Its tokens differ from each other and name the helpers in all that becomes of the module. Importing again with the same
namespace gives the same tokens and adds nothing. With another namespace only the helpers that are declared in it get
other tokens.
-/

open WeakSubscription.Module

namespace WeakSubscription

open Tracked

variable {m m' m₁ : Module} {refs refs' : HelperRefs} {ns ns' : String} {h : Helper} {hs : List Helper} {e : Error}

/-! ### Rows of helpers -/

/-- Three helpers are declared in the namespace of the weak event helpers. -/
theorem Helper.parent_eq_iff (other : ns' ≠ ns) (h : Helper) :
    h.parent ns' = h.parent ns ↔ ¬ (h = .makeWeak ∨ h = .findWeak ∨ h = .changeType) := by
  cases h <;> simp [parent, owner, TypeName.weakExtensions, TypeName.delegateConvert, other]

/-- The helpers among these that no row of the module references. -/
def Module.unreferenced (m : Module) (ns : String) (hs : List Helper) : List Helper :=
  hs.filter fun h => h.key ns ∉ m.memberRefs.map MemberRef.key

/-- The second module has, behind the rows of the first one, a row for each of these helpers that was not referenced. -/
def Module.Acquires (ns : String) (hs : List Helper) (m m' : Module) : Prop :=
  m'.memberRefs.map MemberRef.key = m.memberRefs.map MemberRef.key ++ (m.unreferenced ns hs).map (Helper.key ns)

/-- The table has no room for the helpers among these that are not referenced. -/
def Module.Crowded (ns : String) (hs : List Helper) (m : Module) (e : Error) : Prop :=
  e = .malformed (.tableFull .memberRef) ∧ 0x1000000 ≤ m.memberRefs.length + (m.unreferenced ns hs).length

namespace Module

theorem unreferenced_cons (m : Module) (ns : String) (h : Helper) (hs : List Helper) :
    m.unreferenced ns (h :: hs) = m.unreferenced ns [h] ++ m.unreferenced ns hs :=
  List.filter_append [h] hs

theorem Acquires.length (acquires : Acquires ns hs m m') :
    m'.memberRefs.length = m.memberRefs.length + (m.unreferenced ns hs).length := by
  simpa using congrArg List.length acquires

/-- A reference to one helper is none to another. -/
theorem Acquires.unreferenced (acquires : Acquires ns [h] m m') (other : h ∉ hs) :
    m'.unreferenced ns hs = m.unreferenced ns hs := by
  refine List.filter_congr fun k member => ?_
  have apart : k.key ns ∉ (m.unreferenced ns [h]).map (Helper.key ns) := by
    intro added
    obtain ⟨k', inside, same⟩ := List.mem_map.mp added
    obtain rfl := List.mem_singleton.mp (List.mem_filter.mp inside).1
    obtain rfl := Helper.key_injective ns same
    exact other member
  simp only [show m'.memberRefs.map _ = _ from acquires, List.mem_append, or_iff_left apart]

theorem Acquires.cons (first : Acquires ns [h] m m') (other : h ∉ hs) (later : Acquires ns hs m' m₁) :
    Acquires ns (h :: hs) m m₁ := by
  rw [Acquires, later, first, first.unreferenced other, unreferenced_cons m ns h hs, List.map_append,
    List.append_assoc]

theorem Crowded.here (crowded : m.Crowded ns [h] e) : m.Crowded ns (h :: hs) e := by
  obtain ⟨rfl, full⟩ := crowded
  refine ⟨rfl, ?_⟩
  rw [unreferenced_cons, List.length_append]
  omega

theorem Crowded.later (first : Acquires ns [h] m m') (other : h ∉ hs) (crowded : m'.Crowded ns hs e) :
    m.Crowded ns (h :: hs) e := by
  obtain ⟨rfl, full⟩ := crowded
  rw [first.length, first.unreferenced other] at full
  refine ⟨rfl, ?_⟩
  rw [unreferenced_cons, List.length_append]
  omega

end Module

namespace HelperRefs

/-! ### One import -/

theorem add_yields (ns : String) (h : Helper) (m : Module) :
    Yields (fun _ m' => Acquires ns [h] m m') (fun e _ => m.Crowded ns [h] e) (add ns h) m := by
  apply yields_get_bind
  dsimp only
  split
  · rename_i row found
    have asked := List.find?_some found
    have same : row.key = h.key ns := by simpa [MemberRef.key, Helper.key, and_assoc] using asked
    have there : h.key ns ∈ m.memberRefs.map MemberRef.key :=
      List.mem_map.mpr ⟨row, List.mem_of_find?_eq_some found, same⟩
    have nothing : m.unreferenced ns [h] = [] := List.filter_cons_of_neg (by simpa using there)
    exact yields_pure (by rw [Acquires, nothing, List.map_nil, List.append_nil])
  · rename_i missing
    have new : h.key ns ∉ m.memberRefs.map MemberRef.key := by
      intro there
      obtain ⟨row, member, same⟩ := List.mem_map.mp there
      have asked : row.parent = h.parent ns ∧ row.name = h.member ∧ row.signature = h.signature := by
        simpa [MemberRef.key, Helper.key] using same
      simpa [asked] using List.find?_eq_none.mp missing row member
    have wanted : m.unreferenced ns [h] = [h] := List.filter_cons_of_pos (by simpa using new)
    refine yields_asked_bind (fun e refused => ?_) fun t next => ?_
    · obtain ⟨rfl, full⟩ := nextToken_error refused
      exact ⟨rfl, by rwa [wanted]⟩
    · refine yields_of_ok rfl ?_
      rw [Acquires, wanted, List.map_append]
      rfl

/-- A list of helpers is referenced as a whole, by induction on the list: what is added for one of them is none of the
others. -/
theorem addEach_yields (ns : String) (nodup : hs.Nodup) (m : Module) :
    Yields (fun _ m' => Acquires ns hs m m') (fun e _ => m.Crowded ns hs e)
      (hs.forM fun h => discard (add ns h)) m := by
  induction hs generalizing m with
  | nil => exact yields_pure (by simp [Acquires, unreferenced])
  | cons h rest ih =>
    obtain ⟨other, nodup⟩ := List.nodup_cons.mp nodup
    have one : Yields (fun _ m' => Acquires ns [h] m m') (fun e _ => m.Crowded ns [h] e) (discard (add ns h)) m :=
      yields_map (add_yields ns h m)
    refine yields_bind (fun e m' failed => (one.2 e m' failed).here) fun _ m' ran => ?_
    have first : Acquires ns [h] m m' := one.1 _ m' ran
    exact (ih nodup m').imp (fun _ _ later => first.cons other later) fun _ _ crowded => crowded.later first other

theorem discard_addAll (ns : String) : discard (addAll ns) = Helper.all.forM fun h => discard (add ns h) := by
  simp only [addAll, Helper.all, discard, Functor.discard, map_const, Function.comp_apply, map_eq_pure_bind, bind_assoc,
    pure_bind, List.forM_eq_forM, List.forM_cons, List.forM_nil, Function.const_apply]

theorem addAll_yields (ns : String) (m : Module) :
    Yields (fun _ m' => Acquires ns Helper.all m m') (fun e _ => m.Crowded ns Helper.all e) (addAll ns) m := by
  have each := addEach_yields ns (show Helper.all.Nodup by decide) m
  rw [← discard_addAll] at each
  cases ran : addAll ns m with
  | ok refs m' => exact yields_of_ok ran (each.1 () m' (discard_of_ok ran))
  | error e m' => exact yields_of_error ran (each.2 e m' (discard_of_error ran))

theorem addAll_succeeds_iff (placed : m.Placed) (ns : String) :
    (∃ refs m', addAll ns m = .ok refs m') ↔
      m.memberRefs.length + (m.unreferenced ns Helper.all).length < 0x1000000 := by
  constructor
  · rintro ⟨refs, m', ran⟩
    have acquires : Acquires ns Helper.all m m' := (addAll_yields ns m).1 refs m' ran
    have placed' : m'.Placed := (addAll_gives placed refs m' ran).1.placed placed
    rw [← acquires.length]
    exact placed'.memberRefs.fits
  · intro room
    rcases (addAll_yields ns m).cases with ⟨refs, m', ran, -⟩ | ⟨e, m', -, -, full⟩
    · exact ⟨refs, m', ran⟩
    · omega

theorem helperNamespace_of_addAll (ran : addAll ns m = .ok refs m') : refs.helperNamespace = ns := by
  have given : Gives (fun refs _ => refs.helperNamespace = ns) (addAll ns) m := by
    refine gives_bind fun _ _ _ => gives_bind fun _ _ _ => gives_bind fun _ _ _ => gives_bind fun _ _ _ => ?_
    exact gives_bind fun _ _ _ => gives_bind fun _ _ _ => gives_bind fun _ _ _ => gives_pure rfl
  exact given refs m' ran

theorem reachable_of_addAll (reached : Reachable m) (ran : addAll ns m = .ok refs m') : Reachable m' := by
  have imports : Along Op.Refers m m' := (moves_addAll ns m).of_ok ran
  exact reached.along imports

/-! ### Two imports -/

theorem Name.nodup (names : refs.Name m) : (Helper.all.map refs.token).Nodup :=
  (show Helper.all.Nodup by decide).map fun _ _ same => names.token_injective same

/-- Two references to a helper are one exactly if they name the same declaring type. -/
theorem Name.token_eq_iff (distinct : m.Distinct) (names : refs.Name m) (names' : refs'.Name m) (h : Helper) :
    refs'.token h = refs.token h ↔ h.parent refs'.helperNamespace = h.parent refs.helperNamespace := by
  constructor
  · intro same
    have row := names' h
    rw [same, names h] at row
    exact (MemberRef.mk.inj (Except.ok.inj row)).2.1.symm
  · intro same
    have asked := add_of_name distinct names' h
    rw [add, same] at asked
    exact (EStateM.Result.ok.inj ((add_of_name distinct names h).symm.trans asked)).1.symm

end HelperRefs

/-- An import of the helpers into a module that operations made succeeds unless the table of references would get too
long. Its seven tokens differ. After any further operations, also ones that take methods back, the check accepts it,
the same import gives it again and changes nothing, and an import with another namespace differs in the tokens of the
three helpers that are declared there. -/
theorem import_lasts (reached : Reachable m) (ns : String) :
    ((∃ refs m', HelperRefs.addAll ns m = .ok refs m') ↔
      m.memberRefs.length + (m.unreferenced ns Helper.all).length < 0x1000000) ∧
    (∀ e m', HelperRefs.addAll ns m = .error e m' → e = .malformed (.tableFull .memberRef)) ∧
    ∀ refs m', HelperRefs.addAll ns m = .ok refs m' →
      refs.helperNamespace = ns ∧ (Helper.all.map refs.token).Nodup ∧
      ∀ m₁, Along (fun _ => True) m' m₁ →
        refs.requireResolved m₁ = .ok () ∧ HelperRefs.addAll ns m₁ = .ok refs m₁ ∧
        ∀ ns' refs' m₂, ns' ≠ ns → HelperRefs.addAll ns' m₁ = .ok refs' m₂ →
          ∀ h, refs'.token h ≠ refs.token h ↔ h = .makeWeak ∨ h = .findWeak ∨ h = .changeType := by
  have placed := reached.placed
  refine ⟨HelperRefs.addAll_succeeds_iff placed ns,
    fun e m' failed => ((HelperRefs.addAll_yields ns m).2 e m' failed).1, fun refs m' ran => ?_⟩
  obtain ⟨-, names⟩ := HelperRefs.addAll_gives placed refs m' ran
  obtain rfl := HelperRefs.helperNamespace_of_addAll ran
  refine ⟨rfl, names.nodup, fun m₁ along => ?_⟩
  have reached₁ : Reachable m₁ := (HelperRefs.reachable_of_addAll reached ran).along along
  have names₁ : refs.Name m₁ := names.grow along.grows
  refine ⟨HelperRefs.requireResolved_of_name names₁,
    (HelperRefs.addAll_eq_ok_iff reached₁.placed reached₁.distinct).mpr names₁, fun ns' refs' m₂ other ran' h => ?_⟩
  obtain ⟨evolves, names'⟩ := HelperRefs.addAll_gives reached₁.placed refs' m₂ ran'
  obtain rfl := HelperRefs.helperNamespace_of_addAll ran'
  -- both importers name the helpers in the last module, in which equal references are one row
  have distinct := (HelperRefs.reachable_of_addAll reached₁ ran').distinct
  rw [Ne, (names₁.grow evolves.grows).token_eq_iff distinct names', Helper.parent_eq_iff other, not_not]

namespace Ticker

/-- The declarations of the ticker, less the listener's method, which was the newest one. -/
def shortened : Module := (Op.rollbackMethod onTicked).apply declared

def otherHelpers : HelperRefs := { helpers with
  helperNamespace := "Other.Runtime"
  makeWeak := .ofRow .memberRef 8
  findWeak := .ofRow .memberRef 9
  changeType := .ofRow .memberRef 10 }

/-- The helpers are imported first, and again, in two namespaces, behind all declarations. -/
theorem ticker_import_lasts :
    Reachable (.empty "Ticker") ∧ HelperRefs.addAll "WeakEvents.Runtime" (.empty "Ticker") = .ok helpers imported ∧
      Along (fun _ => True) imported shortened ∧ shortened.methods.length < declared.methods.length ∧
      helpers.requireResolved shortened = .ok () ∧
      HelperRefs.addAll "WeakEvents.Runtime" shortened = .ok helpers shortened ∧
      HelperRefs.addAll "Other.Runtime" shortened =
        .ok otherHelpers (endState (HelperRefs.addAll "Other.Runtime" shortened)) ∧
      ∀ h, otherHelpers.token h ≠ helpers.token h ↔ h = .makeWeak ∨ h = .findWeak ∨ h = .changeType := by
  have reached : Reachable (.empty "Ticker") := .empty _
  have added : HelperRefs.addAll "WeakEvents.Runtime" (.empty "Ticker") = .ok helpers imported :=
    eq_ok_of_value? (by decide +kernel)
  have added' : HelperRefs.addAll "Other.Runtime" shortened =
      .ok otherHelpers (endState (HelperRefs.addAll "Other.Runtime" shortened)) :=
    eq_ok_of_value? (by decide +kernel)
  have along : Along (fun _ => True) imported shortened :=
    .step (.operated (fun _ _ => trivial) imported) (.rollbackMethod onTicked) trivial
  obtain ⟨-, -, lasting⟩ := import_lasts reached "WeakEvents.Runtime"
  obtain ⟨-, -, later⟩ := lasting helpers imported added
  obtain ⟨resolved, again, differs⟩ := later shortened along
  exact ⟨reached, added, along, by decide +kernel, resolved, again, added', differs _ _ _ (by decide) added'⟩

end Ticker

end WeakSubscription
