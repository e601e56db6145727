import WeakSubscription.Proofs.Weaving.Woven

/-!
# Events without weaving

The accessors of an event as a compiler writes them: they combine the field with the argument, or remove the
argument from it.
-/

open WeakSubscription.Module

namespace WeakSubscription

open Execution Delegate Tracked

variable {event : Event} {m m' : Module} {add remove method : Token}
  {apply : HelperRefs → Fragment → Fragment → Edit Fragment}
  {result : List Entry → List Entry → List Entry}

/-- Puts the store of what the operation makes of the field and the argument in front of the return. -/
def Event.plainAccessor (event : Event) (apply : HelperRefs → Fragment → Fragment → Edit Fragment)
    (method : Token) : Edit Unit := do
  let store ← event.assignCode apply method fun site _ => site.firstArgument
  Module.insertCode method store 0

def Event.plain (event : Event) (add remove : Token) : Edit Unit := do
  event.plainAccessor Fragment.combine add
  event.plainAccessor Fragment.remove remove

theorem moves_plainAccessor (applies : Fragment.Applies apply result) (event : Event) (method : Token)
    (m : Module) : Moves (Evolves (· = method)) (event.plainAccessor apply method) m := by
  have quiet : Moves (Evolves (· = method)) (event.assignCode apply method fun site _ =>
      site.firstArgument) m :=
    Evolves.imp (moves_assignCode applies event method _ m) fun _ => False.elim
  exact moves_bind quiet fun store m₁ _ => moves_insertCode _ _ _ m₁

theorem plainAccessor_gives (applies : Fragment.Applies apply result) (placed : m.Placed)
    (backed : event.Backed m) (accessor : event.Accessor m method) :
    Gives (fun _ m' => event.Implements m' method (event.updating result (taking event.handler)))
      (event.plainAccessor apply method) m := by
  obtain ⟨row, found, -, static, -, void, code⟩ := accessor
  refine gives_bind fun store m₁ storeMade => ?_
  have ev₁ := evolves_of_ok (moves_assignCode applies _ _ _ m) storeMade
  have found₁ := (ev₁.keeps id).row found
  obtain ⟨nonempty, stores⟩ := assignCode_gives applies _ placed backed found _ _ storeMade
  intro _ m₂ inserted
  have ev₂ : Evolves (· = method) m₁ m₂ := (moves_insertCode _ _ _ m₁).of_ok inserted
  have found₂ := insertCode_gives _ found₁ _ _ inserted
  have split : store ++ row.body.code = store.thenReturn := by rw [code]; rfl
  refine Event.implements_of_leads found₂ static void split nonempty ?_
  intro c s p h zs n upon kind eventKind holds args _ rule
  obtain ⟨xs, ys, reads, ⟨carries, rfl⟩, rfl⟩ := rule
  obtain ⟨u, carried, leads⟩ := stores (upon.earlier ev₂.grows) kind eventKind holds args reads carries
    fun loaded serves => Site.firstArgument_computes loaded serves
  exact ⟨u, c.locals, carried, leads []⟩

theorem plain_gives (placed : m.Placed) (backed : event.Backed m) (adds : event.Accessor m add)
    (removes : event.Accessor m remove) (apart : add ≠ remove) :
    Gives (fun _ m' => Evolves (· ∈ [add, remove]) m m' ∧ event.Backed m' ∧
        event.Implements m' add (event.appending (taking event.handler)) ∧
        event.Implements m' remove (event.dropping (taking event.handler)))
      (event.plain add remove) m := by
  refine gives_bind fun _ m₁ addMade => ?_
  have ev₁ : Evolves (· = add) m m₁ :=
    (moves_plainAccessor Fragment.combine_applies event add m).of_ok addMade
  have implementsAdd := plainAccessor_gives Fragment.combine_applies placed backed adds _ _ addMade
  have removes₁ := removes.keep (ev₁.keeps apart.symm)
  intro _ m₂ removeMade
  have ev₂ : Evolves (· = remove) m₁ m₂ :=
    (moves_plainAccessor Fragment.remove_applies event remove m₁).of_ok removeMade
  have implementsRemove := plainAccessor_gives Fragment.remove_applies (ev₁.placed placed)
    (backed.grow ev₁.grows) removes₁ _ _ removeMade
  refine ⟨?_, (backed.grow ev₁.grows).grow ev₂.grows, implementsAdd.grow ev₂.grows (ev₂.keeps apart),
    implementsRemove⟩
  have touches₁ : Evolves (· ∈ [add, remove]) m m₁ := ev₁.imp fun t h => by simp [h]
  have touches₂ : Evolves (· ∈ [add, remove]) m₁ m₂ := ev₂.imp fun t h => by simp [h]
  exact trans_of _ touches₁ touches₂

end WeakSubscription
