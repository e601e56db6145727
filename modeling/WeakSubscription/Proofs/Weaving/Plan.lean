import WeakSubscription.Proofs.Module.Extension
import WeakSubscription.Proofs.Module.Headings
import WeakSubscription.Proofs.Weaving.Verified

/-!
# Plans

A plan says which field's event is to be woven, and into which accessors. Carrying it out adds the unsubscribing
method, and for each accessor a variable and the code that leaves a delegate in it. A plan that is carried out went
through nine steps, each of them an operation or the making of code, and leaves everything else as it was.
-/

open WeakSubscription.Module

namespace WeakSubscription

open Tracked

variable {m m' : Module} {t : Token} {refs : HelperRefs} {row : Method}

/-- An event by its field, with the accessors that are its own. -/
structure Plan where
  field : Token
  settings : Settings
  add : Token
  remove : Token
  deriving DecidableEq

/-- What weaving an event gives: the unsubscribing method, and for each accessor a variable and the code that leaves a
delegate in it. -/
structure Pieces where
  event : Event
  unsubscribe : Token
  added : Variable
  make : Code
  removed : Variable
  find : Code
  deriving DecidableEq

namespace Plan

def accessors (plan : Plan) : List Token := [plan.add, plan.remove]

def weave (plan : Plan) (refs : HelperRefs) : Edit Pieces := do
  let event ← Event.ofField (← get) plan.field refs plan.settings
  let unsubscribe ← event.addUnsubscribe
  let added ← event.addVariable plan.add
  let make ← event.makeWeakCode plan.add unsubscribe added
  let removed ← event.addVariable plan.remove
  let find ← event.findWeakCode plan.remove removed
  return { event, unsubscribe, added, make, removed, find }

/-- Carries out two plans, one after the other. -/
def weaveBoth (first second : Plan) (refs : HelperRefs) : Edit (Pieces × Pieces) := do
  let pieces ← first.weave refs
  let pieces' ← second.weave refs
  return (pieces, pieces')

end Plan

/-! ### Steps -/

/-- The steps that a plan went through in a module. -/
inductive Plan.Ran (plan : Plan) (refs : HelperRefs) (m : Module) : Pieces → Module → Prop
  | intro {event : Event} {t : Token} {v w : Variable} {body make find : Code} {m₁ m₂ m₃ m₄ m₅ m₆ m₇ : Module}
      (made : Event.ofField m plan.field refs plan.settings = .ok event)
      (free : (m.findMethod? event.owner (unsubscribeName event.name)).isSome = false)
      (declared : addMethod (event.unsubscribeDecl.row event.owner) m = .ok t m₁)
      (coded : event.unsubscribeCode t m₁ = .ok body m₂)
      (inserted : insertCode t body 0 m₂ = .ok () m₃)
      (added : addLocal plan.add event.handler m₃ = .ok v m₄)
      (wrapping : event.makeWeakCode plan.add t v m₄ = .ok make m₅)
      (removed : addLocal plan.remove event.handler m₅ = .ok w m₆)
      (finding : event.findWeakCode plan.remove w m₆ = .ok find m₇) : Ran plan refs m ⟨event, t, v, make, w, find⟩ m₇

/-- A method that is added successfully has its body, since without one it would have been taken back. -/
theorem addUnsubscribe_steps (event : Event) (m : Module) :
    Gives (fun t m' => (m.findMethod? event.owner (unsubscribeName event.name)).isSome = false ∧
        ∃ body m₁ m₂, addMethod (event.unsubscribeDecl.row event.owner) m = .ok t m₁ ∧
          event.unsubscribeCode t m₁ = .ok body m₂ ∧ insertCode t body 0 m₂ = .ok () m')
      event.addUnsubscribe m := by
  apply gives_get_bind
  dsimp only
  split
  · exact gives_lift_bind fun _ _ => gives_throw_bind _ _
  rename_i absent
  refine gives_bind fun t m₁ declared => gives_bind fun _ m₃ behind => gives_pure ⟨by simpa using absent, ?_⟩
  have implemented : event.implementUnsubscribe t m₁ = .ok () m₃ := by
    have handled := gives_tryCatch (P := fun a m' => event.implementUnsubscribe t m₁ = .ok a m')
      (fun _ _ ran => ran) (f := fun e => do
        let _ ← rollbackMethod t
        throw e) fun e s' => gives_bind fun _ _ _ => gives_throw e
    exact handled _ _ behind
  obtain ⟨body, m₂, coded, rest⟩ := bind_eq_ok_iff.mp implemented
  obtain ⟨_, m₃', inserted, checked⟩ := bind_eq_ok_iff.mp rest
  have same : m₃ = m₃' := by
    split at checked
    · rw [get_bind] at checked
      obtain ⟨_, m₄, read, last⟩ := bind_eq_ok_iff.mp checked
      obtain ⟨-, rfl⟩ := lift_eq_ok_iff.mp read
      exact (EStateM.Result.ok.inj last).2.symm
    · exact (EStateM.Result.ok.inj checked).2.symm
  exact ⟨body, m₁, m₂, declared, coded, same ▸ inserted⟩

theorem Plan.ran_of_ok {plan : Plan} {pieces : Pieces} (ok : plan.weave refs m = .ok pieces m') :
    plan.Ran refs m pieces m' := by
  rw [Plan.weave, get_bind] at ok
  obtain ⟨event, m₀, read, h₁⟩ := bind_eq_ok_iff.mp ok
  obtain ⟨made, rfl⟩ := lift_eq_ok_iff.mp read
  obtain ⟨t, m₃, adding, h₂⟩ := bind_eq_ok_iff.mp h₁
  obtain ⟨free, body, m₁, m₂, declared, coded, inserted⟩ := addUnsubscribe_steps event _ t m₃ adding
  obtain ⟨v, m₄, added, h₃⟩ := bind_eq_ok_iff.mp h₂
  obtain ⟨make, m₅, wrapping, h₄⟩ := bind_eq_ok_iff.mp h₃
  obtain ⟨w, m₆, removed, h₅⟩ := bind_eq_ok_iff.mp h₄
  obtain ⟨find, m₇, finding, last⟩ := bind_eq_ok_iff.mp h₅
  obtain ⟨rfl, rfl⟩ := EStateM.Result.ok.inj last
  exact .intro made free declared coded inserted added wrapping removed finding

namespace Plan.Ran

variable {plan : Plan} {pieces : Pieces}

/-- The steps are all that there is to it, since the body of the new method verifies. -/
theorem ok (ran : plan.Ran refs m pieces m') (placed : m.Placed) (names : refs.Name m) (owned : m.FieldsOwned) :
    plan.weave refs m = .ok pieces m' := by
  obtain ⟨made, free, declared, coded, inserted, added, wrapping, removed, finding⟩ := ran
  rename_i event t v w body make find m₁ m₂ m₃ m₄ m₅ m₆
  have evolves := evolves_of_ok (moves_addMethod _ _) declared
  have typed := Event.typed_of_ofField names owned made
  obtain ⟨found, -⟩ := addMethod_gives _ m _ _ declared
  obtain ⟨m₃', inserted', implemented, -⟩ := implementUnsubscribe_of_made (evolves.placed placed)
    (typed.grow evolves.grows) found (.ofDecl event t) (unsubscribeDecl_row event event.owner).2.2.2.2 coded
  obtain ⟨-, rfl⟩ := EStateM.Result.ok.inj (inserted.symm.trans inserted')
  have adds : event.addUnsubscribe m = .ok t m₃ := by
    unfold Event.addUnsubscribe
    rw [get_bind]
    dsimp only
    rw [free]
    exact bind_eq_ok_iff.mpr ⟨t, m₁, declared, bind_eq_ok_iff.mpr ⟨(), m₃, tryCatch_of_ok implemented, rfl⟩⟩
  rw [weave, get_bind]
  refine bind_eq_ok_iff.mpr ⟨event, m, lift_eq_ok_iff.mpr ⟨made, rfl⟩, bind_eq_ok_iff.mpr ⟨t, m₃, adds, ?_⟩⟩
  refine bind_eq_ok_iff.mpr ⟨v, m₄, added, bind_eq_ok_iff.mpr ⟨make, m₅, wrapping, ?_⟩⟩
  exact bind_eq_ok_iff.mpr ⟨w, m₆, removed, bind_eq_ok_iff.mpr ⟨find, m', finding, rfl⟩⟩

/-! ### What is left as it was -/

/-- The method of the pieces is new. -/
theorem fresh (ran : plan.Ran refs m pieces m') : ∀ old, m.method pieces.unsubscribe ≠ .ok old := by
  obtain ⟨made, free, declared, -⟩ := ran
  exact (addMethod_gives _ m _ _ declared).2.2

theorem made (ran : plan.Ran refs m pieces m') :
    Event.ofField m plan.field refs plan.settings = .ok pieces.event := by
  obtain ⟨made, -⟩ := ran
  exact made

theorem free (ran : plan.Ran refs m pieces m') :
    (m.findMethod? pieces.event.owner (unsubscribeName pieces.event.name)).isSome = false := by
  obtain ⟨-, free, -⟩ := ran
  exact free

theorem event_eq (ran : plan.Ran refs m pieces m') (names : refs.Name m) {row : Field}
    (found : m.field plan.field = .ok row) : pieces.event.owner = row.owner ∧ pieces.event.name = row.name := by
  obtain ⟨backed, same, -⟩ := Event.ofField_ok ran.made names
  obtain ⟨row', found', -, -, owner, name⟩ := backed.field
  obtain rfl : row = row' := Except.ok.inj (found.symm.trans (same ▸ found'))
  exact ⟨owner.symm, name.symm⟩

/-- Behind the new method, all that is done is interning, putting code into that method and variables into the
accessors. -/
theorem filled {P : Op → Prop} [Interns (Along P)] (ran : plan.Ran refs m pieces m')
    (inserts : ∀ code, P (.insertCode pieces.unsubscribe code 0))
    (allocates : ∀ s ∈ plan.accessors, P (.addLocal s pieces.event.handler)) :
    ∃ m₁, addMethod (pieces.event.unsubscribeDecl.row pieces.event.owner) m = .ok pieces.unsubscribe m₁ ∧
      Along P m₁ m' := by
  obtain ⟨-, -, declared, coded, inserted, added, wrapping, removed, finding⟩ := ran
  rename_i event t v w body make find m₁ m₂ m₃ m₄ m₅ m₆
  have locals : ∀ {s : Token} {v : Variable} {m m' : Module}, s ∈ plan.accessors →
      addLocal s event.handler m = .ok v m' → Along P m m' := by
    intro s v m m' own ran
    exact (moves_op (.addLocal s event.handler) (allocates s own) rfl m : Moves (Along P) _ m).of_ok ran
  have along₂ : Along P m₁ m₂ := (moves_unsubscribeCode event t m₁).of_ok coded
  have along₃ : Along P m₂ m₃ :=
    (show Moves (Along P) (insertCode t body 0) m₂ from .step .refl _ (inserts body)).of_ok inserted
  have along₄ : Along P m₃ m₄ := locals List.mem_cons_self added
  have along₅ : Along P m₄ m₅ := (moves_makeWeakCode event _ t v m₄).of_ok wrapping
  have along₆ : Along P m₅ m₆ := locals (List.mem_cons_of_mem _ List.mem_cons_self) removed
  have along₇ : Along P m₆ m' := (moves_findWeakCode event _ w m₆).of_ok finding
  exact ⟨m₁, declared, trans_of _ along₂ (trans_of _ along₃ (trans_of _ along₄ (trans_of _ along₅
    (trans_of _ along₆ along₇))))⟩

/-- Code is put into the new method alone, and variables only into the accessors. -/
theorem along (ran : plan.Ran refs m pieces m') :
    Along (Op.AddsWithin (· = pieces.unsubscribe) (· ∈ plan.accessors)) m m' := by
  obtain ⟨m₁, declared, behind⟩ := ran.filled (P := Op.AddsWithin (· = pieces.unsubscribe) (· ∈ plan.accessors))
    (fun _ => ⟨trivial, fun _ given => given, nofun⟩) fun s own => ⟨trivial, nofun, fun _ given => given ▸ own⟩
  exact trans_of _ ((moves_op (.addMethod _) ⟨trivial, nofun, nofun⟩ rfl m).of_ok declared) behind

theorem adds (ran : plan.Ran refs m pieces m') : Along Op.Adds m m' := ran.along.imp fun _ within => within.adds

theorem listed (ran : plan.Ran refs m pieces m') (listed : m.Listed) : m'.Listed :=
  listed.along ran.adds fun _ adds => adds.keepsOwners

/-- A method that is not the new one and not an accessor of the plan stays as it was. -/
theorem keeps (ran : plan.Ran refs m pieces m') (other : t ≠ pieces.unsubscribe) (apart : t ∉ plan.accessors) :
    Keeps t m m' := by
  have evolves : Evolves (fun t => t = pieces.unsubscribe ∨ t ∈ plan.accessors) m m' := by
    refine ran.along.evolves fun op within t touches => ?_
    cases op with
    | addLocal method ty => exact .inr (within.allocates t touches)
    | insertCode method code index => exact .inl (within.inserts t touches)
    | rollbackMethod token => exact within.adds.elim
    | rewriteMethod token change => exact within.adds.elim
    | addType | addTypeRef | importType | addField | addMethod | addMemberRef | addMethodSpec => exact touches.elim
  exact evolves.keeps (not_or.mpr ⟨other, apart⟩)

theorem keeps_of_found (ran : plan.Ran refs m pieces m') (found : m.method t = .ok row) (apart : t ∉ plan.accessors) :
    Keeps t m m' :=
  ran.keeps (fun same => ran.fresh row (same ▸ found)) apart

/-- The heading of the new method is all that there is more in the tables that are looked up by name. -/
theorem declares (ran : plan.Ran refs m pieces m') :
    ∃ h : Method, Declares [h] m m' ∧ h.owner = pieces.event.owner ∧ h.name = unsubscribeName pieces.event.name := by
  obtain ⟨m₁, declared, behind⟩ := ran.filled (P := Op.Fills) (fun _ => trivial) fun _ _ => trivial
  obtain ⟨-, name, owner, -⟩ := unsubscribeDecl_row pieces.event pieces.event.owner
  exact ⟨_, (addMethod_declares _ m _ m₁ declared).trans behind.declares, owner, name⟩

end Plan.Ran

end WeakSubscription
