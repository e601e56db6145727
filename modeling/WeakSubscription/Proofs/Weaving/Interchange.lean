import WeakSubscription.Proofs.Weaving.Repeatable
import WeakSubscription.Proofs.Weaving.Verified

/-!
# Importers of other modules

The tokens of an importer are row numbers, and in another module they may hit rows by accident. The check
of an importer compares names, of the member and of the type that declares it. Code that is woven with the
importer needs more: that importing the helpers into the module gives just these tokens. The difference
between the two is in the type arguments of the declaring types and in the signatures.
-/

open WeakSubscription.Module

namespace WeakSubscription

open Tracked Verification

variable {m m' m₁ : Module} {refs : HelperRefs} {t : Token} {event : Event} {row : Method}

/-! ### References that are asked for -/

/-- Among rows of different keys, a row is found by its key. -/
theorem find?_of_nodup {α κ : Type} {rows : List α} {row : α} {key : α → κ} {p : α → Bool}
    (nodup : (rows.map key).Nodup) (member : row ∈ rows) (kind : ∀ r, p r = true ↔ key r = key row) :
    rows.find? p = some row := by
  cases found : rows.find? p with
  | none => exact absurd ((kind row).mpr rfl) (List.find?_eq_none.mp found row member)
  | some r =>
    have same := (kind r).mp (List.find?_some found)
    rw [List.inj_on_of_nodup_map nodup (List.mem_of_find?_eq_some found) member same]

theorem Module.Distinct.find_memberRef {ref : MemberRef} (distinct : m.Distinct) (member : ref ∈ m.memberRefs) :
    m.memberRefs.find? (fun r => r.parent == ref.parent && r.name == ref.name && r.signature == ref.signature) =
      some ref := by
  refine find?_of_nodup distinct.memberRefs member fun r => ?_
  simp only [Bool.and_eq_true, beq_iff_eq, Prod.mk.injEq, and_assoc]

/-! ### The check -/

theorem Helper.mem_all (h : Helper) : h ∈ Helper.all := by cases h <;> decide

namespace HelperRefs

theorem resolvesIn_iff {h : Helper} :
    refs.resolvesIn m h = true ↔ ∃ ref, m.memberRef (refs.token h) = .ok ref ∧ ref.name = h.member ∧
      ref.parent.typeName? = some (h.owner refs.helperNamespace) := by
  unfold resolvesIn
  cases m.memberRef (refs.token h) <;> simp [Helper.isNamedBy, MemberRef.names]

theorem requireResolved_eq_ok_iff :
    refs.requireResolved m = .ok () ↔ ∀ h, refs.resolvesIn m h = true := by
  have missing : Helper.all.find? (!refs.resolvesIn m ·) = none ↔ ∀ h, refs.resolvesIn m h = true := by
    simp [List.find?_eq_none, Helper.mem_all]
  rw [← missing]
  unfold requireResolved
  cases Helper.all.find? (!refs.resolvesIn m ·) <;> simp

/-! ### Importing again -/

theorem add_of_name (distinct : m.Distinct) (names : refs.Name m) (h : Helper) :
    add refs.helperNamespace h m = .ok (refs.token h) m := by
  obtain ⟨i, -, read⟩ := lookup_eq_some_iff.mp (memberRef_eq_ok_iff.mp (names h))
  exact addMemberRef_of_row (distinct.find_memberRef (List.mem_of_getElem? read))

/-- Importing the helpers into a module gives an importer and changes nothing exactly if the importer names
the helpers there already. -/
theorem addAll_eq_ok_iff (placed : m.Placed) (distinct : m.Distinct) :
    addAll refs.helperNamespace m = .ok refs m ↔ refs.Name m := by
  constructor
  · intro ran
    exact (addAll_gives placed refs m ran).2
  · intro names
    unfold addAll
    iterate 7 rw [bind_of_ok (add_of_name distinct names _)]
    rfl

/-- Past the check, what an importer may still be wrong about is types and signatures. -/
theorem name_iff_of_resolved (placed : m.Placed) (resolved : refs.requireResolved m = .ok ()) :
    refs.Name m ↔ ∀ h ref, m.memberRef (refs.token h) = .ok ref →
      ref.parent = h.parent refs.helperNamespace ∧ ref.signature = h.signature := by
  constructor
  · intro names h ref found
    obtain rfl := Except.ok.inj ((names h).symm.trans found)
    exact ⟨rfl, rfl⟩
  · intro same h
    obtain ⟨ref, found, name, -⟩ := resolvesIn_iff.mp (requireResolved_eq_ok_iff.mp resolved h)
    obtain ⟨parent, signature⟩ := same h ref found
    have token : ref.token = refs.token h :=
      placed.memberRefs.token_of_lookup (memberRef_eq_ok_iff.mp found)
    rw [found, ← token, ← name, ← parent, ← signature]

end HelperRefs

/-! ### Importers -/

theorem Imported.reachable {P : Op → Prop} (imported : Imported P refs m) : Reachable m := by
  induction imported with
  | added built added =>
    have on : Along Op.Adds _ _ := (HelperRefs.moves_addAll _ _).of_ok added
    exact built.reachable.along on
  | edited op _ _ ih => exact .edited op ih

/-! ### Weaving with an importer -/

/-- Behind the method that unsubscribes, and for as long as it is left alone, code for the event goes into
accessors. -/
theorem Event.weaves_of_addUnsubscribe (placed : m.Placed) (typed : event.Typed m)
    (ran : event.addUnsubscribe m = .ok t m') (found : m'.method t = .ok row) (is : event.IsUnsubscribing row)
    (along : Along (¬ ·.Touches t) m' m₁) : event.Weaves t m₁ := by
  have adds := addUnsubscribe_gives placed typed.backed t m' ran
  have ev : Evolves (· ≠ t) m' m₁ := along.evolves fun _ spares u touched same => spares (same ▸ touched)
  have typed₁ := typed.grow (adds.evolves.grows.trans ev.grows)
  have keeps : Keeps t m' m₁ := ev.keeps fun other => other rfl
  obtain ⟨d, owner⟩ := typed₁.owner
  have binds : event.Binds m₁ t := ⟨row, d, keeps.row found, is.isStatic, is.owner ▸ owner⟩
  exact Event.weaves (ev.placed (adds.evolves.placed placed)) typed₁ binds

/-- Nothing about the helpers keeps the event from being woven: its unsubscribing method is added with a body
that verifies, unless the name is taken, and code for the event can be put into its accessors from then on,
unless a table is full. -/
def Event.Weavable (event : Event) (m : Module) : Prop :=
  (m.findMethod? event.owner (unsubscribeName event.name)).isSome = false →
    (∃ t m' summary, event.addUnsubscribe m = .ok t m' ∧ m'.verify t = .ok summary ∧
      ∀ m₁, Along (¬ ·.Touches t) m' m₁ → event.Weaves t m₁) ∨
    ∃ e m', event.addUnsubscribe m = .error e m' ∧ OutOfRows e m'

theorem Event.weavable (placed : m.Placed) (typed : event.Typed m) : event.Weavable m := by
  intro free
  rcases (addUnsubscribe_yields placed typed free).cases with ⟨t, m', ran, row, found, is, verified, -⟩ | failed
  · exact .inl ⟨t, m', _, ran, verified, fun m₁ along =>
      Event.weaves_of_addUnsubscribe placed typed ran found is along⟩
  · exact .inr failed

/-- The check of an importer accepts it for the names. It is the importer that the module itself would give
exactly if the types and the signatures behind the names are right too, and then every event that can be made
with it can be woven. -/
theorem importer_check (reached : Reachable m) (refs : HelperRefs) :
    (refs.requireResolved m = .ok () ↔ ∀ h, ∃ ref, m.memberRef (refs.token h) = .ok ref ∧
      ref.name = h.member ∧ ref.parent.typeName? = some (h.owner refs.helperNamespace)) ∧
    (refs.requireResolved m = .ok () →
      (HelperRefs.addAll refs.helperNamespace m = .ok refs m ↔
        ∀ h ref, m.memberRef (refs.token h) = .ok ref →
          ref.parent = h.parent refs.helperNamespace ∧ ref.signature = h.signature)) ∧
    (HelperRefs.addAll refs.helperNamespace m = .ok refs m → refs.requireResolved m = .ok () ∧
      ∀ field event settings, Event.ofField m field refs settings = .ok event → event.Weavable m) := by
  have placed := reached.placed
  have imports : HelperRefs.addAll refs.helperNamespace m = .ok refs m ↔ refs.Name m :=
    HelperRefs.addAll_eq_ok_iff placed reached.distinct
  refine ⟨?_, fun resolved => imports.trans (HelperRefs.name_iff_of_resolved placed resolved), fun ran => ?_⟩
  · simp only [HelperRefs.requireResolved_eq_ok_iff, HelperRefs.resolvesIn_iff]
  · have names := imports.mp ran
    refine ⟨HelperRefs.requireResolved_of_name names, fun field event settings made => ?_⟩
    exact Event.weavable placed (Event.typed_of_ofField names reached.fieldsOwned made)

namespace Ticker

/-- The ticker's importer is the one that its module gives again, and its event can be woven. -/
theorem ticker_importer_check :
    Reachable declared ∧ HelperRefs.addAll helpers.helperNamespace declared = .ok helpers declared ∧
      helpers.requireResolved declared = .ok () ∧
      Event.ofField declared ticked helpers {} = .ok Ticker.event.event ∧ Ticker.event.event.Weavable declared := by
  have reached : Reachable declared := declared_imported.reachable
  have ran : HelperRefs.addAll helpers.helperNamespace declared = .ok helpers declared :=
    eq_ok_of_parts (by decide +kernel)
  obtain ⟨-, -, fits⟩ := importer_check reached helpers
  obtain ⟨resolved, weavable⟩ := fits ran
  exact ⟨reached, ran, resolved, made, weavable ticked _ {} made⟩

/-! Another module, with a class and a field of the same names, and with member references of the helpers'
names. The one for the removal of handlers takes a single delegate. -/

def foreignSignature (h : Helper) : Signature :=
  if h = .remove then .ofStatic [.named .delegate] (.named .delegate) else h.signature

def foreignOps : List Op :=
  [.addType ⟨"Sample", "Ticker"⟩ .publicFlag (some .object),
   .addField publisher "Ticked" .privateFlag (.named .eventHandler)] ++
  Helper.all.map fun h => .addMemberRef (h.parent helpers.helperNamespace) h.member (foreignSignature h)

def foreign : Module := foreignOps.foldl (fun m op => op.apply m) (.empty "Other")

/-- The importer of one module passes the check of the other, and an event of the other is made with it. Its
unsubscribing method is then refused by the verifier. -/
theorem foreign_importer_accepted :
    HelperRefs.addAll "WeakEvents.Runtime" (.empty "Ticker") = .ok helpers imported ∧ Reachable foreign ∧
      helpers.requireResolved foreign = .ok () ∧
      (∃ ref, foreign.memberRef helpers.remove = .ok ref ∧ ref.signature ≠ Helper.remove.signature) ∧
      Event.ofField foreign ticked helpers {} = .ok Ticker.event.event ∧
      ∃ m', Ticker.event.event.addUnsubscribe foreign =
        .error (.unverifiable "Sample.Ticker::<Ticked>_Weak_Unsubscribe" 8
          (.notAssignable .fieldOwner (.value (.named .eventHandler)) (.named ⟨"Sample", "Ticker"⟩))) m' := by
  have built : Along (fun _ => True) (.empty "Other") foreign := .operated (by simp) _
  refine ⟨eq_ok_of_value? (by decide +kernel), built.reachable, eq_ok_of_toOption (by decide +kernel), ?_,
    eq_ok_of_toOption (by decide +kernel), _, eq_error_of_error? (by decide +kernel)⟩
  exact ⟨⟨helpers.remove, .named .delegate, "Remove", foreignSignature .remove⟩,
    eq_ok_of_toOption (by decide +kernel), by decide⟩

end Ticker

end WeakSubscription
