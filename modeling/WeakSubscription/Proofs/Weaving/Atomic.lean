import WeakSubscription.Proofs.Module.Rollback
import WeakSubscription.Proofs.Weaving.Growth

/-!
# All or nothing

The unsubscribing method is in the module before it has its code, so that a failure has to take it back, and finds
it to be the newest method still. What a failure leaves are the instantiations and the types that were interned
for the code. A success leaves one method besides, at the end of one list.
-/

open WeakSubscription.Module

namespace WeakSubscription

open Tracked

variable {m m' m'' : Module} {t owner : Token} {name : String}

namespace Module

/-! ### Instantiations and types -/

/-- The second module is the first one with more instantiations and types. -/
structure Specified (m m' : Module) : Prop where
  same : m' = { m with methodSpecs := m'.methodSpecs, typeSpecs := m'.typeSpecs }
  methodSpecs : m.methodSpecs <+: m'.methodSpecs
  typeSpecs : m.typeSpecs <+: m'.typeSpecs

instance : Std.Refl Specified where
  refl _ := ⟨rfl, List.prefix_refl _, List.prefix_refl _⟩

instance : IsTrans Module Specified where
  trans _ _ _ first later := by
    refine ⟨?_, first.methodSpecs.trans later.methodSpecs, first.typeSpecs.trans later.typeSpecs⟩
    rw [later.same, first.same]

instance : Specifies Specified where
  methodSpec method args m := by
    apply (performs_addMethodSpec method args m).moves
    intro m' effect
    cases effect with
    | found => exact Std.Refl.refl m
    | addMethodSpec => exact ⟨rfl, List.prefix_append _ _, List.prefix_refl _⟩
  importType ty m := by
    apply (performs_importType ty m).moves
    intro m' effect
    cases effect with
    | found => exact Std.Refl.refl m
    | importType => exact ⟨rfl, List.prefix_refl _, List.prefix_append _ _⟩

theorem Specified.types (specified : Specified m m') : m'.types = m.types := by rw [specified.same]

theorem Specified.methods (specified : Specified m m') : m'.methods = m.methods := by rw [specified.same]

theorem Specified.replaced (specified : Specified m m') (methods : List Method) (types : List TypeDef) :
    Specified { m with methods, types } { m' with methods, types } :=
  ⟨congrArg (fun n : Module => { n with methods, types }) specified.same, specified.methodSpecs, specified.typeSpecs⟩

/-! ### One more method -/

/-- The second module has one method more, which its owner lists last. The rest is as it was, but for more
instantiations and types. -/
structure GainsMethod (owner t : Token) (m m' : Module) : Prop where
  place : t.indexIn? .method = some m.methods.length
  methods : ∃ row, m'.methods = m.methods ++ [row] ∧ row.token = t ∧ row.owner = owner
  types : ∃ i, owner.indexIn? .typeDef = some i ∧ i < m.types.length ∧
    m'.types = m.types.modify i fun d => { d with methods := d.methods ++ [t] }
  rest : Specified { m with methods := m'.methods, types := m'.types } m'

theorem addMethod_gains (row : Method) (m : Module) :
    Gives (fun t m' => GainsMethod row.owner t m m') (addMethod row) m := by
  refine gives_get_bind (gives_lift_bind fun token next => gives_lift_bind fun i owned => ?_)
  refine gives_put_bind (gives_pure ?_)
  obtain ⟨fits, rfl⟩ := nextToken_ok next
  obtain ⟨place, inside⟩ := ownerIndex_eq_ok owned
  exact ⟨Token.indexIn?_ofRow fits, ⟨_, rfl, rfl, rfl⟩, ⟨i, place, inside, rfl⟩, Std.Refl.refl _⟩

namespace GainsMethod

theorem specified (gains : GainsMethod owner t m m') (later : Specified m' m'') : GainsMethod owner t m m'' := by
  refine ⟨gains.place, ?_, ?_, ?_⟩
  · rw [later.methods]
    exact gains.methods
  · rw [later.types]
    exact gains.types
  · rw [later.methods, later.types]
    exact trans_of Specified gains.rest later

/-- The new method may be given code. -/
theorem inserted {code : Code} {index : Nat} (gains : GainsMethod owner t m m')
    (effect : Effect m' (.insertCode t code index) m'') : GainsMethod owner t m m'' := by
  cases effect with
  | found => exact gains
  | @insertCode _ _ _ j row there read =>
    obtain ⟨row', methods, own, owned⟩ := gains.methods
    obtain rfl : m.methods.length = j := Option.some.inj (gains.place.symm.trans there)
    obtain rfl : row' = row := by simpa [methods] using read
    have newer : ∀ row, m'.methods.set m.methods.length row = m.methods ++ [row] := by simp [methods]
    exact ⟨gains.place, ⟨_, newer _, own, owned⟩, gains.types, gains.rest.replaced _ m'.types⟩

/-- Where no type listed the new method before, taking it back leaves only what was interned. -/
theorem takenBack (gains : GainsMethod owner t m m') (unlisted : ∀ d ∈ m.types, t ∉ d.methods) :
    ∃ row m'', rollbackMethod t m' = .ok row m'' ∧ Specified m m'' := by
  obtain ⟨row, methods, -, owned⟩ := gains.methods
  obtain ⟨i, place, -, types⟩ := gains.types
  obtain ⟨-, ran⟩ := rollbackMethod_of_last gains.place methods (owned ▸ place) types unlisted
  exact ⟨row, _, ran, gains.rest.replaced m.methods m.types⟩

end GainsMethod

end Module

/-! ### The unsubscribing method -/

theorem implementUnsubscribe_gains (gains : GainsMethod owner t m m') (event : Event) :
    Yields (fun _ m'' => GainsMethod owner t m m'') (fun _ m'' => GainsMethod owner t m m'')
      (event.implementUnsubscribe t) m' := by
  have codes : Moves Specified (event.unsubscribeCode t) m' := moves_unsubscribeCode event t m'
  refine yields_bind (fun e m₁ failed => gains.specified (codes.of_error failed)) fun code m₁ coded => ?_
  have gains₁ := gains.specified (codes.of_ok coded)
  have inserts := performs_insertCode t code 0 m₁
  refine yields_bind (fun e m₂ failed => ?_) fun _ m₂ inserted => ?_
  · rwa [inserts.2 e m₂ failed]
  have gains₂ := gains₁.inserted (inserts.1 _ m₂ inserted)
  split
  · exact yields_get_bind (yields_asked_bind (fun _ _ => gains₂) fun _ _ => yields_pure gains₂)
  · exact yields_pure gains₂

/-- The unsubscribing method comes with its code or not at all. -/
theorem addUnsubscribe_atomic (built : Along Op.KeepsOwners (Module.empty name) m) (event : Event) :
    Yields (fun t m' => GainsMethod event.owner t m m') (fun _ m' => Specified m m') event.addUnsubscribe m := by
  have listed := (listed_empty name).along built fun _ keeps => keeps
  have same : Specified m m := Std.Refl.refl m
  apply yields_get_bind
  dsimp only
  split
  · exact yields_asked_bind (fun _ _ => same) fun _ _ => yields_throw same
  refine yields_bind (fun e m₁ failed => ?_) fun t m₁ declared => ?_
  · rwa [(performs_addMethod _ m).2 e m₁ failed]
  have gains := addMethod_gains _ m t m₁ declared
  obtain ⟨-, -, free⟩ := addMethod_gives _ m t m₁ declared
  -- whichever step of the implementation failed, the method is still the newest one
  have takes : ∀ e m₂, GainsMethod event.owner t m m₂ → Yields (fun _ m' => GainsMethod event.owner t m m')
      (fun _ m' => Specified m m') (do let _ ← rollbackMethod t; throw e : Edit Unit) m₂ := by
    intro e m₂ gains₂
    obtain ⟨row, m₃, ran, specified⟩ := gains₂.takenBack (listed.unlisted free)
    exact yields_bind_of_ok ran (yields_throw specified)
  have handled := yields_tryCatch (implementUnsubscribe_gains gains event) takes
  exact yields_bind handled.2 fun _ m₂ ran => yields_pure (handled.1 _ m₂ ran)

namespace Ticker

/-- A module in which the field of the event is no delegate. -/
def untyped : Module :=
  [Op.addType ⟨"Sample", "Ticker"⟩ .publicFlag (some .object),
   Op.addField publisher "Ticked" .privateFlag .intPtr].foldl (fun m op => op.apply m) Ticker.imported

theorem untyped_built : Along Op.KeepsOwners (Module.empty "Ticker") untyped :=
  trans_of _ imported_built (.operated (by simp [Op.KeepsOwners]) Ticker.imported)

/-- The code for the other module does not verify there, so that the method is taken back. -/
theorem ticker_unsubscribe_atomic :
    Along Op.KeepsOwners (Module.empty "Ticker") declared ∧ Along Op.KeepsOwners (Module.empty "Ticker") untyped ∧
      (∃ t m', Ticker.event.event.addUnsubscribe declared = .ok t m' ∧ GainsMethod publisher t declared m') ∧
      ∃ e m', Ticker.event.event.addUnsubscribe untyped = .error e m' ∧ Specified untyped m' ∧ m' ≠ untyped := by
  refine ⟨declared_built, untyped_built, ?_, ?_⟩
  · have succeeds : (value? (Ticker.event.event.addUnsubscribe declared)).isSome = true := by decide +kernel
    rcases (addUnsubscribe_atomic declared_built Ticker.event.event).cases with added | ⟨e, m', failed, -⟩
    · exact added
    · rw [failed] at succeeds
      cases succeeds
  · have fails : value? (Ticker.event.event.addUnsubscribe untyped) = none := by decide +kernel
    have changed : endState (Ticker.event.event.addUnsubscribe untyped) ≠ untyped := by decide +kernel
    rcases (addUnsubscribe_atomic untyped_built Ticker.event.event).cases with ⟨t, m', ran, -⟩ | ⟨e, m', failed, kept⟩
    · rw [ran] at fails
      cases fails
    · rw [failed] at changed
      exact ⟨e, m', failed, kept, changed⟩

end Ticker

end WeakSubscription
