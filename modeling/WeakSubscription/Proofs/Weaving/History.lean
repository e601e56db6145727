import WeakSubscription.Proofs.Module.History
import WeakSubscription.Proofs.Weaving.Woven

/-!
# Modules with woven events

The helpers are imported into a module, and then events are woven into it one after the other, with any
other edits before, between and behind as long as they leave the methods of woven events alone. Every event
that was woven stays installed, and no two of them are behind the same field.
-/

open WeakSubscription.Module

namespace WeakSubscription

open Tracked

variable {m m' : Module} {refs : HelperRefs} {ns : String} {es : List WovenEvent} {w : WovenEvent}

/-! ### Imported helpers -/

theorem HelperRefs.moves_add (ns : String) (h : Helper) (m : Module) :
    Moves (Evolves fun _ => False) (add ns h) m :=
  moves_addMemberRef _ _ _ m

theorem HelperRefs.addAll_gives (placed : m.Placed) :
    Gives (fun refs m' => Evolves (fun _ => False) m m' ∧ refs.Name m') (addAll ns) m := by
  refine gives_bind fun makeWeak m₁ made₁ => gives_bind fun findWeak m₂ made₂ => ?_
  refine gives_bind fun changeType m₃ made₃ => gives_bind fun remove m₄ made₄ => ?_
  refine gives_bind fun combine m₅ made₅ => gives_bind fun generated m₆ made₆ => ?_
  refine gives_bind fun action m₇ made₇ => gives_pure ?_
  have ev₁ := evolves_of_ok (moves_add _ _ _) made₁
  have ev₂ := evolves_of_ok (moves_add _ _ _) made₂
  have ev₃ := evolves_of_ok (moves_add _ _ _) made₃
  have ev₄ := evolves_of_ok (moves_add _ _ _) made₄
  have ev₅ := evolves_of_ok (moves_add _ _ _) made₅
  have ev₆ := evolves_of_ok (moves_add _ _ _) made₆
  have ev₇ := evolves_of_ok (moves_add _ _ _) made₇
  have from₆ := ev₇
  have from₅ := trans_of _ ev₆ from₆
  have from₄ := trans_of _ ev₅ from₅
  have from₃ := trans_of _ ev₄ from₄
  have from₂ := trans_of _ ev₃ from₃
  have from₁ := trans_of _ ev₂ from₂
  have placed₁ := ev₁.placed placed
  have placed₂ := ev₂.placed placed₁
  have placed₃ := ev₃.placed placed₂
  have placed₄ := ev₄.placed placed₃
  have placed₅ := ev₅.placed placed₄
  have placed₆ := ev₆.placed placed₅
  refine ⟨trans_of _ ev₁ from₁, ?_⟩
  intro h
  cases h with
  | makeWeak => exact from₁.grows.memberRef (addMemberRef_gives _ _ _ placed _ _ made₁)
  | findWeak => exact from₂.grows.memberRef (addMemberRef_gives _ _ _ placed₁ _ _ made₂)
  | changeType => exact from₃.grows.memberRef (addMemberRef_gives _ _ _ placed₂ _ _ made₃)
  | remove => exact from₄.grows.memberRef (addMemberRef_gives _ _ _ placed₃ _ _ made₄)
  | combine => exact from₅.grows.memberRef (addMemberRef_gives _ _ _ placed₄ _ _ made₅)
  | compilerGenerated => exact from₆.grows.memberRef (addMemberRef_gives _ _ _ placed₅ _ _ made₆)
  | actionConstructor => exact addMemberRef_gives _ _ _ placed₆ _ _ made₇

/-! ### Histories -/

/-- A module into which these events were woven, the last one first, with these references to the helpers. -/
inductive Woven (refs : HelperRefs) : Module → List WovenEvent → Prop
  | imported {m m' : Module} {ns : String} (reached : Reachable m)
      (added : HelperRefs.addAll ns m = .ok refs m') : Woven refs m' []
  | edited {m : Module} {es : List WovenEvent} (op : Op)
      (spares : ∀ w ∈ es, ∀ t ∈ w.methods, ¬ op.Touches t) (woven : Woven refs m es) :
      Woven refs (op.apply m) es
  | woven {m m' : Module} {es : List WovenEvent} {event : Event} {field add remove t : Token}
      {settings : Settings} (before : Woven refs m es)
      (made : Event.ofField m field refs settings = .ok event) (adds : event.Accessor m add)
      (removes : event.Accessor m remove) (apart : add ≠ remove)
      (ran : event.weave add remove m = .ok t m') : Woven refs m' (⟨event, add, remove, t⟩ :: es)

theorem Woven.operated (imported : Woven refs m []) (ops : List Op) :
    Woven refs (ops.foldl (fun m op => op.apply m) m) [] := by
  induction ops generalizing m with
  | nil => exact imported
  | cons op rest ih => exact ih (.edited op nofun imported)

/-- What holds of a module with woven events. -/
structure Woven.Facts (refs : HelperRefs) (m : Module) (es : List WovenEvent) : Prop where
  placed : m.Placed
  names : refs.Name m
  installed : ∀ w ∈ es, w.Installed m ∧ w.event.refs = refs
  distinct : (es.map (·.event.field)).Nodup

theorem Woven.facts (woven : Woven refs m es) : Woven.Facts refs m es := by
  induction woven with
  | imported reached added =>
    obtain ⟨evolves, names⟩ := HelperRefs.addAll_gives reached.placed _ _ added
    exact ⟨evolves.placed reached.placed, names, nofun, List.nodup_nil⟩
  | @edited m es op spares _ ih =>
    have evolves := op.moves m
    refine ⟨evolves.placed ih.placed, ih.names.grow evolves.grows, ?_, ih.distinct⟩
    intro w member
    obtain ⟨installed, same⟩ := ih.installed w member
    exact ⟨installed.grow evolves.grows fun t inside => evolves.keeps (spares w member t inside), same⟩
  | @woven m m' es event field add remove t settings _ made adds removes apart ran ih =>
    obtain ⟨backed, rfl, sameRefs⟩ := Event.ofField_ok made ih.names
    obtain ⟨fresh, free, evolves, installed⟩ := weave_gives ih.placed backed adds removes apart _ _ ran
    refine ⟨evolves.placed ih.placed, ih.names.grow evolves.grows, ?_, ?_⟩
    · intro w member
      rcases List.mem_cons.mp member with rfl | earlier
      · exact ⟨installed, sameRefs⟩
      obtain ⟨before, same⟩ := ih.installed w earlier
      refine ⟨before.grow evolves.grows fun t' inside => evolves.keeps fun touched => ?_, same⟩
      -- an accessor only returned before it was woven, and the unsubscribing method was not there
      obtain ⟨row, found, busy⟩ := before.busy inside
      have idle : ∀ {method : Token}, event.Accessor m method → t' ≠ method := by
        rintro method ⟨row', found', -, -, -, -, code⟩ rfl
        obtain rfl := Except.ok.inj (found.symm.trans found')
        exact busy code
      simp only [List.mem_cons, List.not_mem_nil, or_false] at touched
      rcases touched with same | same | same
      · exact idle adds same
      · exact idle removes same
      · exact fresh row (same ▸ found)
    · rw [List.map_cons, List.nodup_cons]
      refine ⟨fun member => ?_, ih.distinct⟩
      obtain ⟨w, inside, sameField⟩ := List.mem_map.mp member
      obtain ⟨before, -⟩ := ih.installed w inside
      obtain ⟨row, found, -, -, owner, name⟩ := before.backed.field
      obtain ⟨row', found', -, -, owner', name'⟩ := backed.field
      rw [sameField] at found
      obtain rfl : row = row' := Except.ok.inj (found.symm.trans found')
      obtain ⟨declared, foundMethod, named⟩ := before.declared
      have taken := findMethod?_isSome before.listed foundMethod
      rw [named, ← name, name', ← owner, owner', free] at taken
      cases taken

end WeakSubscription
