import WeakSubscription.Proofs.Weaving.Accessors

/-!
# Woven events

Weaving an event adds its unsubscribing method and puts code into both accessors. Each of the three methods
then implements its rule, and a second event cannot be woven for the same field, since the type of the field
lists a method of that name already.
-/

open WeakSubscription.Module

namespace WeakSubscription

open Execution Delegate Tracked

variable {event : Event} {m m' : Module} {method add remove : Token} {row : Method}

/-! ### The unsubscribing method -/

theorem unsubscribeDecl_row (event : Event) (owner : Token) :
    (event.unsubscribeDecl.row owner).isStatic = event.isStatic ∧
      (event.unsubscribeDecl.row owner).name = unsubscribeName event.name ∧
      (event.unsubscribeDecl.row owner).owner = owner ∧
      (event.unsubscribeDecl.row owner).result = .void ∧
      (event.unsubscribeDecl.row owner).body.code = [] := by
  unfold Event.unsubscribeDecl MethodDecl.staticIf
  cases event.isStatic with
  | true =>
    have has : (MethodModifiers.none ||| .hideBySig ||| .static).has .static = true := by decide
    exact ⟨has, rfl, rfl, rfl, rfl⟩
  | false =>
    have has : (MethodModifiers.none ||| .hideBySig).has .static = false := by decide
    exact ⟨has, rfl, rfl, rfl, rfl⟩

theorem findMethod?_isSome {owner : Token} (listed : m.Lists owner method)
    (found : m.method method = .ok row) : (m.findMethod? owner row.name).isSome = true := by
  obtain ⟨d, type, member⟩ := listed
  unfold findMethod?
  rw [type]
  show ((d.methods.filterMap fun t => (m.method t).toOption).find? (·.name == row.name)).isSome = true
  rw [List.find?_isSome]
  exact ⟨row, List.mem_filterMap.mpr ⟨method, member, by rw [found]; rfl⟩, beq_self_eq_true _⟩

/-- An unsubscribing method is a new method that its type lists under a name that was free. -/
structure Event.Unsubscribes (event : Event) (m : Module) (t : Token) (m' : Module) : Prop where
  fresh : ∀ old, m.method t ≠ .ok old
  free : (m.findMethod? event.owner (unsubscribeName event.name)).isSome = false
  evolves : Evolves (· = t) m m'
  declared : ∃ row, m'.method t = .ok row ∧ row.isStatic = event.isStatic ∧
    row.name = unsubscribeName event.name
  listed : m'.Lists event.owner t
  implements : event.Implements m' t (event.dropping (taking event.closed))

theorem implementUnsubscribe_gives (placed : m.Placed) (backed : event.Backed m)
    (found : m.method method = .ok row) (static : row.isStatic = event.isStatic)
    (void : row.result = .void) (empty : row.body.code = []) :
    Gives (fun _ m' => Evolves (· = method) m m' ∧ (∃ row', m'.method method = .ok row' ∧
        row'.isStatic = row.isStatic ∧ row'.name = row.name) ∧
        (∀ {owner : Token}, m.Lists owner method → m'.Lists owner method) ∧
        event.Implements m' method (event.dropping (taking event.closed)))
      (event.implementUnsubscribe method) m := by
  refine gives_bind fun code m₁ codeMade => ?_
  have ev₁ := evolves_of_ok (moves_unsubscribeCode _ _ _) codeMade
  obtain ⟨pre, rfl, nonempty, stores⟩ := unsubscribeCode_gives placed backed found _ _ codeMade
  have found₁ := (ev₁.keeps id).row found
  refine gives_bind fun _ m₂ inserted => ?_
  have ev₂ : Evolves (· = method) m₁ m₂ := (moves_insertCode _ _ _ m₁).of_ok inserted
  have found₂ := insertCode_gives _ found₁ _ _ inserted
  have split : pre.thenReturn ++ row.body.code = pre.thenReturn := by rw [empty, List.append_nil]
  have done : Evolves (· = method) m m₂ ∧ (∃ row', m₂.method method = .ok row' ∧
      row'.isStatic = row.isStatic ∧ row'.name = row.name) ∧
      (∀ {owner : Token}, m.Lists owner method → m₂.Lists owner method) ∧
      event.Implements m₂ method (event.dropping (taking event.closed)) := by
    refine ⟨trans_of _ (ev₁.imp fun _ => False.elim) ev₂, ⟨_, found₂, rfl, rfl⟩, ?_, ?_⟩
    · intro owner listed
      exact editBody_lists _ m₁ _ _ inserted ((ev₁.keeps id).listed listed)
    refine Event.implements_of_leads found₂ static void split nonempty ?_
    intro c s p h zs n upon kind eventKind holds args _ rule
    obtain ⟨u, carries, leads⟩ := stores (upon.earlier ev₂.grows) kind eventKind holds args rule
    exact ⟨u, c.locals, carries, leads []⟩
  split
  · exact gives_get_bind (gives_lift_bind fun _ _ => gives_pure done)
  · exact gives_pure done

theorem addUnsubscribe_gives (placed : m.Placed) (backed : event.Backed m) :
    Gives (fun t m' => event.Unsubscribes m t m') event.addUnsubscribe m := by
  refine gives_get_bind ?_
  dsimp only
  split
  · exact gives_lift_bind fun _ _ => gives_throw_bind _ _
  rename_i absent
  refine gives_bind fun method m₁ declared => ?_
  have ev₁ : Evolves (fun _ => False) m m₁ := evolves_of_ok (moves_addMethod _ _) declared
  obtain ⟨found, listed, fresh⟩ := addMethod_gives _ m _ _ declared
  refine gives_bind fun _ m₂ implemented => gives_pure ?_
  obtain ⟨static, name, owner, void, empty⟩ := unsubscribeDecl_row event event.owner
  have inner := implementUnsubscribe_gives (ev₁.placed placed) (backed.grow ev₁.grows) found static void
    empty
  have behind := gives_tryCatch (f := fun e => do
    let _ ← rollbackMethod method
    throw e) inner (fun e s' => gives_bind fun _ _ _ => gives_throw e) _ _ implemented
  obtain ⟨ev₂, ⟨row, found₂, static₂, name₂⟩, lists, implements⟩ := behind
  refine ⟨fresh, by simpa using absent, trans_of _ (ev₁.imp fun _ => False.elim) ev₂, ?_, ?_, implements⟩
  · exact ⟨row, found₂, static₂.trans static, name₂.trans name⟩
  · exact lists (owner ▸ listed)

/-! ### Weaving -/

/-- Weaves an event into its two accessors, and gives its unsubscribing method. -/
def Event.weave (event : Event) (add remove : Token) : Edit Token := do
  let unsubscribe ← event.addUnsubscribe
  event.weaveAccessor Fragment.combine add (event.makeWeakCode add unsubscribe)
  event.weaveAccessor Fragment.remove remove (event.findWeakCode remove)
  return unsubscribe

structure WovenEvent where
  event : Event
  add : Token
  remove : Token
  unsubscribe : Token
  deriving DecidableEq

namespace WovenEvent

variable {w : WovenEvent}

def methods (w : WovenEvent) : List Token := [w.add, w.remove, w.unsubscribe]

/-- The methods of the event do what they were woven for. -/
structure Installed (w : WovenEvent) (m : Module) : Prop where
  backed : w.event.Backed m
  declared : ∃ row, m.method w.unsubscribe = .ok row ∧ row.name = unsubscribeName w.event.name
  listed : m.Lists w.event.owner w.unsubscribe
  adds : w.event.Implements m w.add (w.event.appending (w.event.wrapping w.unsubscribe))
  removes : w.event.Implements m w.remove (w.event.dropping (w.event.finding w.unsubscribe))
  unsubscribes : w.event.Implements m w.unsubscribe (w.event.dropping (taking w.event.closed))

theorem Installed.grow (installed : w.Installed m) (grows : Grows m m')
    (keeps : ∀ t ∈ w.methods, Keeps t m m') : w.Installed m' := by
  have keepsAdd := keeps w.add (by simp [methods])
  have keepsRemove := keeps w.remove (by simp [methods])
  have keepsUnsubscribe := keeps w.unsubscribe (by simp [methods])
  obtain ⟨row, found, name⟩ := installed.declared
  exact ⟨installed.backed.grow grows, ⟨row, keepsUnsubscribe.row found, name⟩,
    keepsUnsubscribe.listed installed.listed, installed.adds.grow grows keepsAdd,
    installed.removes.grow grows keepsRemove, installed.unsubscribes.grow grows keepsUnsubscribe⟩

/-- A method of the event is there, and does more than return. -/
theorem Installed.busy (installed : w.Installed m) {t : Token} (member : t ∈ w.methods) :
    ∃ row, m.method t = .ok row ∧ row.body.code ≠ [.plain .ret] := by
  have implements : ∀ {rule : Rule} {t : Token}, w.event.Implements m t rule →
      ∃ row, m.method t = .ok row ∧ row.body.code ≠ [.plain .ret] := by
    rintro rule t ⟨row, found, -, busy, -⟩
    exact ⟨row, found, busy⟩
  simp only [methods, List.mem_cons, List.not_mem_nil, or_false] at member
  rcases member with rfl | rfl | rfl
  · exact implements installed.adds
  · exact implements installed.removes
  · exact implements installed.unsubscribes

end WovenEvent

theorem Event.Accessor.keep (accessor : event.Accessor m method) (keeps : Keeps method m m') :
    event.Accessor m' method := by
  obtain ⟨row, found, same⟩ := accessor
  exact ⟨row, keeps.row found, same⟩

/-- Weaving installs the event, and touches no method but its three. -/
theorem weave_gives (placed : m.Placed) (backed : event.Backed m) (adds : event.Accessor m add)
    (removes : event.Accessor m remove) (apart : add ≠ remove) :
    Gives (fun t m' => (∀ old, m.method t ≠ .ok old) ∧
        (m.findMethod? event.owner (unsubscribeName event.name)).isSome = false ∧
        Evolves (· ∈ [add, remove, t]) m m' ∧ (⟨event, add, remove, t⟩ : WovenEvent).Installed m')
      (event.weave add remove) m := by
  refine gives_bind fun unsubscribe m₁ declaredMade => ?_
  have declares := addUnsubscribe_gives placed backed _ _ declaredMade
  -- both accessors had rows before the unsubscribing method got its token
  have addOther : add ≠ unsubscribe := by
    rintro rfl
    obtain ⟨row, found, -⟩ := adds
    exact declares.fresh row found
  have removeOther : remove ≠ unsubscribe := by
    rintro rfl
    obtain ⟨row, found, -⟩ := removes
    exact declares.fresh row found
  have ev₁ := declares.evolves
  have placed₁ := ev₁.placed placed
  have backed₁ := backed.grow ev₁.grows
  have adds₁ := adds.keep (ev₁.keeps addOther)
  have removes₁ := removes.keep (ev₁.keeps removeOther)
  obtain ⟨unsubscribeRow, found₁, static, name⟩ := declares.declared
  refine gives_bind fun _ m₂ addMade => ?_
  have ev₂ : Evolves (· = add) m₁ m₂ := (moves_weaveAccessor Fragment.combine_applies _ _
    (moves_makeWeakCode _ _ _) m₁).of_ok addMade
  have implementsAdd : event.Implements m₂ add (event.appending (event.wrapping unsubscribe)) := by
    refine weaveAccessor_gives Fragment.combine_applies placed₁ backed₁ adds₁ (moves_makeWeakCode _ _ _)
      ?_ _ _ addMade
    intro var m' row ev found
    exact makeWeakCode_gives var (ev.placed placed₁) (backed₁.grow ev.grows) found
      ((ev.keeps addOther.symm).row found₁) static
  have removes₂ := removes₁.keep (ev₂.keeps apart.symm)
  refine gives_bind fun _ m₃ removeMade => gives_pure ?_
  have ev₃ : Evolves (· = remove) m₂ m₃ := (moves_weaveAccessor Fragment.remove_applies _ _
    (moves_findWeakCode _ _) m₂).of_ok removeMade
  have implementsRemove :
      event.Implements m₃ remove (event.dropping (event.finding unsubscribe)) := by
    refine weaveAccessor_gives Fragment.remove_applies (ev₂.placed placed₁) (backed₁.grow ev₂.grows)
      removes₂ (moves_findWeakCode _ _) ?_ _ _ removeMade
    intro var m' row ev found
    exact findWeakCode_gives var (ev.placed (ev₂.placed placed₁))
      ((backed₁.grow ev₂.grows).grow ev.grows) found
  -- what was woven first is carried over the edits of the other accessor
  have keeps₂ : Keeps unsubscribe m₁ m₂ := ev₂.keeps addOther.symm
  have keeps₃ : Keeps unsubscribe m₂ m₃ := ev₃.keeps removeOther.symm
  refine ⟨declares.fresh, declares.free, ?_, ?_⟩
  · have touches₁ : Evolves (· ∈ [add, remove, unsubscribe]) m m₁ := ev₁.imp fun t h => by simp [h]
    have touches₂ : Evolves (· ∈ [add, remove, unsubscribe]) m₁ m₂ := ev₂.imp fun t h => by simp [h]
    have touches₃ : Evolves (· ∈ [add, remove, unsubscribe]) m₂ m₃ := ev₃.imp fun t h => by simp [h]
    exact trans_of _ touches₁ (trans_of _ touches₂ touches₃)
  · exact ⟨(backed₁.grow ev₂.grows).grow ev₃.grows,
      ⟨unsubscribeRow, keeps₃.row (keeps₂.row found₁), name⟩,
      keeps₃.listed (keeps₂.listed declares.listed),
      implementsAdd.grow ev₃.grows (ev₃.keeps apart), implementsRemove,
      (declares.implements.grow ev₂.grows keeps₂).grow ev₃.grows keeps₃⟩

end WeakSubscription
