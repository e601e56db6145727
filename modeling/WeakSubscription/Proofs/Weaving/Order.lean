import WeakSubscription.Proofs.Weaving.Corresponding
import WeakSubscription.Proofs.Weaving.Plan

/-!
# The order of weaving

Two plans for different events can be carried out in either order. Behind the first one, the second one finds its
event as it was, no method of the name that it is to add, and its accessors untouched; only the tables of what is
interned differ, and with them the tokens in the code. So each plan is followed, step by step, in a module that is in
step with its own. The module at the end of one order has all that the other order interns, so no table is full on the
way.
-/

open WeakSubscription.Module

namespace WeakSubscription

open Tracked

variable {m m' n n' u : Module} {t t' : Token} {refs : HelperRefs} {event : Event} {row row' : Method}
  {more : List Method}

/-! ### Events beside others -/

theorem unsubscribeName_injective {a b : String} (same : unsubscribeName a = unsubscribeName b) : a = b := by
  have chars := congrArg String.toList same
  exact String.toList_injective (by simpa [unsubscribeName, String.toList_append] using chars)

theorem unsubscribeName_ne_invoke (name : String) : unsubscribeName name ≠ "Invoke" := by
  intro same
  have chars := congrArg String.toList same
  simp [unsubscribeName, String.toList_append] at chars

namespace Module.Declares

/-- New methods that are not `Invoke` leave the event arguments as they were. -/
theorem eventArgs (declares : Declares more m m') (listed : m.Listed) (listed' : m'.Listed)
    (apart : ∀ h ∈ more, h.name ≠ "Invoke") (handler : Ty) : m'.eventArgs handler = m.eventArgs handler := by
  cases handler with
  | named name =>
    have types := declares.findType? name.full
    have invokes : ∀ owner, (m'.findMethod? owner "Invoke").map Method.heading =
        (m.findMethod? owner "Invoke").map Method.heading :=
      fun owner => declares.findMethod? listed listed' fun h member => .inr (apart h member)
    unfold Module.eventArgs
    simp only [declares.findTypeRef?]
    generalize m'.findType? name.full = found', m.findType? name.full = found at types
    split
    · rfl
    · cases found with
      | none =>
        obtain rfl := Option.map_eq_none_iff.mp types
        rfl
      | some d =>
        obtain ⟨d', rfl, same⟩ := Option.map_eq_some_iff.mp types
        have token : d'.token = d.token := show d'.bare.token = d.bare.token by rw [same]
        have kind : d'.isDelegate = d.isDelegate := show d'.bare.isDelegate = d.bare.isDelegate by rw [same]
        have invoke := invokes d.token
        rw [Option.filter_some, Option.filter_some, kind]
        by_cases delegate : d.isDelegate = true
        · rw [if_pos delegate, if_pos delegate]
          simp only [token]
          generalize m'.findMethod? d.token "Invoke" = r', m.findMethod? d.token "Invoke" = r at invoke
          cases r with
          | none =>
            obtain rfl := Option.map_eq_none_iff.mp invoke
            rfl
          | some r =>
            obtain ⟨r', rfl, heading⟩ := Option.map_eq_some_iff.mp invoke
            have params : r'.params = r.params := show r'.heading.params = r.heading.params by rw [heading]
            simp only [params]
        · rw [if_neg delegate, if_neg delegate]
  | inst base args => rcases args with _ | ⟨_, _ | ⟨_, _⟩⟩ <;> rfl
  | void | object | intPtr | typeParam | methodParam => rfl

theorem ofField (declares : Declares more m m') (listed : m.Listed) (listed' : m'.Listed)
    (apart : ∀ h ∈ more, h.name ≠ "Invoke") (names : refs.Name m) (names' : refs.Name m') (field : Token)
    (settings : Settings) : Event.ofField m' field refs settings = Event.ofField m field refs settings := by
  have fields : m'.field field = m.field field := by
    unfold Module.field
    rw [declares.fields]
  unfold Event.ofField
  rw [fields, HelperRefs.requireResolved_of_name names, HelperRefs.requireResolved_of_name names']
  simp only [declares.eventArgs listed listed' apart]

end Module.Declares

/-! ### Pieces that correspond -/

/-- The second row is the first one with a token of its own, and with code that corresponds. -/
structure Method.Corresponds (m n : Module) (row row' : Method) : Prop where
  same : row' = { row with token := row'.token, body := { row.body with code := row'.body.code } }
  code : Code.Corresponds m n row.body.code row'.body.code

structure Pieces.Corresponds (m n : Module) (pieces pieces' : Pieces) : Prop where
  event : pieces'.event = pieces.event
  unsubscribe : ∃ row row', m.method pieces.unsubscribe = .ok row ∧ n.method pieces'.unsubscribe = .ok row' ∧
    row.Corresponds m n row'
  added : pieces'.added = pieces.added
  make : pieces.make.Corresponds m n pieces'.make
  removed : pieces'.removed = pieces.removed
  find : pieces.find.Corresponds m n pieces'.find

theorem Pieces.Corresponds.grow {pieces pieces' : Pieces} (same : pieces.Corresponds m n pieces')
    (kept : Retained m m') (kept' : Retained n n') (keeps : Keeps pieces.unsubscribe m m')
    (keeps' : Keeps pieces'.unsubscribe n n') : pieces.Corresponds m' n' pieces' := by
  obtain ⟨row, row', found, found', rows⟩ := same.unsubscribe
  exact { same with
    unsubscribe := ⟨row, row', keeps.row found, keeps'.row found', rows.same, rows.code.grow kept kept'⟩
    make := same.make.grow kept kept'
    find := same.find.grow kept kept' }

/-! ### Steps in step -/

theorem Method.Corresponds.callTarget {d : TypeDef} (same : row.Corresponds m n row') (inStep : InStep u m n)
    (found : m.method t = .ok row) (found' : n.method t' = .ok row') (owner : m.typeDef row.owner = .ok d) :
    ∃ target, m.callTarget t = .ok target ∧ n.callTarget t' = .ok target := by
  obtain ⟨d', owner', bare⟩ := inStep.typeDef owner
  have ty : d'.ty = d.ty := show d'.bare.ty = d.bare.ty by rw [bare]
  have sameOwner : row'.owner = row.owner := by rw [same.same]
  have name : row'.name = row.name := by rw [same.same]
  have signature : row'.signature = row.signature := by rw [same.same]; rfl
  refine ⟨⟨d.ty, row.name, row.signature⟩, callTarget_of_method found owner, ?_⟩
  rw [callTarget_of_method found' (sameOwner ▸ owner'), ty, name, signature]

/-- What two modules in step came to, when something was put into the method in both. -/
structure Onward (u : Module) (s : Token) (m m' n n' : Module) : Prop where
  inStep : InStep u m' n'
  along : Along (Op.AddsTo s) m m'
  along' : Along (Op.AddsTo s) n n'
  shares : ∀ r, Shares m n r → Shares m' n' r

namespace Onward

variable {s : Token}

theorem retained (onward : Onward u s m m' n n') : Retained m m' ∧ Retained n n' :=
  ⟨(onward.along.imp fun _ adds => adds.1).retained, (onward.along'.imp fun _ adds => adds.1).retained⟩

theorem keeps (onward : Onward u s m m' n n') (other : t ≠ s) (other' : t' ≠ s) : Keeps t m m' ∧ Keeps t' n n' :=
  ⟨(onward.along.evolves fun _ adds => adds.2).keeps other, (onward.along'.evolves fun _ adds => adds.2).keeps other'⟩

end Onward

section Accessors

variable {s : Token} {v : Variable} {make find code : Code} {m₁ m₂ : Module}

/-- A variable of a shared method is the same in both modules, and so are its uses. -/
theorem variable_follows {ty : Ty} {piece : Edit Code} (inStep : InStep u m n) (shared : Shares m n s)
    (added : addLocal s ty m = .ok v m₁) (coded : piece m₁ = .ok code m₂) (covers : Covers u m₂) (piece' : Edit Code)
    (lockstep : ∀ n₁, Onward u s m m₁ n n₁ →
      Lockstep u (fun code code' m' n' => code.Corresponds m' n' code') piece piece' m₁ n₁) :
    ∃ code' n₁ n₂, addLocal s ty n = .ok v n₁ ∧ piece' n₁ = .ok code' n₂ ∧ Onward u s m m₂ n n₂ ∧
      code.Corresponds m₂ n₂ code' := by
  have adds : ∀ {m m' : Module}, addLocal s ty m = .ok v m' → Along (Op.AddsTo s) m m' :=
    fun ran => (moves_op (.addLocal s ty) ⟨trivial, fun _ touched => touched⟩ rfl _).of_ok ran
  obtain ⟨n₁, added', inStep₁, shares⟩ := shared.addLocal inStep added
  obtain ⟨code', n₂, coded', along, along', inStep₂, codes⟩ :=
    lockstep n₁ ⟨inStep₁, adds added, adds added', shares⟩ code m₂ coded covers
  refine ⟨code', n₁, n₂, added', coded', ⟨inStep₂, ?_, ?_, fun r sharedRow => ?_⟩, codes⟩
  · exact trans_of _ (adds added) (along.addsTo s)
  · exact trans_of _ (adds added') (along'.addsTo s)
  · exact (shares r sharedRow).keep (along.quiet.keeps id) (along'.quiet.keeps id)

theorem makeWeak_follows {d : TypeDef} (inStep : InStep u m n) (names : event.refs.Name m)
    (names' : event.refs.Name n) (shared : Shares m n s) (found : m.method t = .ok row)
    (found' : n.method t' = .ok row') (rows : row.Corresponds m n row') (owner : m.typeDef row.owner = .ok d)
    (other : t ≠ s) (other' : t' ≠ s) (added : addLocal s event.handler m = .ok v m₁)
    (wrapping : event.makeWeakCode s t v m₁ = .ok make m₂)
    (covers : Covers u m₂) :
    ∃ make' n₁ n₂, addLocal s event.handler n = .ok v n₁ ∧ event.makeWeakCode s t' v n₁ = .ok make' n₂ ∧
      Onward u s m m₂ n n₂ ∧ make.Corresponds m₂ n₂ make' := by
  obtain ⟨callee, called, called'⟩ := rows.callTarget inStep found found' owner
  refine variable_follows inStep shared added wrapping covers _ fun n₁ onward => ?_
  obtain ⟨accessor, known, known'⟩ := onward.shares s shared
  obtain ⟨kept, kept'⟩ := onward.retained
  obtain ⟨keeps, keeps'⟩ := onward.keeps other other'
  have static : row'.isStatic = row.isStatic := by rw [rows.same]; rfl
  exact makeWeakCode_lockstep onward.inStep (names.grow kept.grows) (names'.grow kept'.grows) known known'
    (keeps.row found) (keeps'.row found') static (kept.callTarget called) (kept'.callTarget called') v

theorem findWeak_follows (inStep : InStep u m n) (names : event.refs.Name m) (names' : event.refs.Name n)
    (shared : Shares m n s) (added : addLocal s event.handler m = .ok v m₁)
    (finding : event.findWeakCode s v m₁ = .ok find m₂) (covers : Covers u m₂) :
    ∃ find' n₁ n₂, addLocal s event.handler n = .ok v n₁ ∧ event.findWeakCode s v n₁ = .ok find' n₂ ∧
      Onward u s m m₂ n n₂ ∧ find.Corresponds m₂ n₂ find' := by
  refine variable_follows inStep shared added finding covers _ fun n₁ onward => ?_
  obtain ⟨accessor, known, known'⟩ := onward.shares s shared
  obtain ⟨kept, kept'⟩ := onward.retained
  exact findWeakCode_lockstep onward.inStep (names.grow kept.grows) (names'.grow kept'.grows) known known' v

end Accessors

/-- A new method of the event gets corresponding bodies. Its tokens are none of methods that the modules shared. -/
theorem declared_follows {m₁ m₂ m₃ : Module} {body : Code} {d : TypeDef} (inStep : InStep u m n)
    (names : event.refs.Name m) (names' : event.refs.Name n) (owner : n.typeDef event.owner = .ok d)
    (room : n.methods.length + 1 < 0x1000000)
    (declared : addMethod (event.unsubscribeDecl.row event.owner) m = .ok t m₁)
    (coded : event.unsubscribeCode t m₁ = .ok body m₂) (inserted : insertCode t body 0 m₂ = .ok () m₃)
    (covers : Covers u m₃) :
    ∃ t' body' n₁ n₂ n₃, addMethod (event.unsubscribeDecl.row event.owner) n = .ok t' n₁ ∧
      event.unsubscribeCode t' n₁ = .ok body' n₂ ∧ insertCode t' body' 0 n₂ = .ok () n₃ ∧ InStep u m₃ n₃ ∧
      Retained m m₃ ∧ Retained n n₃ ∧
      (∃ row row', m₃.method t = .ok row ∧ n₃.method t' = .ok row' ∧ row.Corresponds m₃ n₃ row' ∧
        row.owner = event.owner) ∧
      ∀ s, Shares m n s → Shares m₃ n₃ s ∧ t ≠ s ∧ t' ≠ s := by
  obtain ⟨-, -, sameOwner, -, empty⟩ := unsubscribeDecl_row event event.owner
  obtain ⟨t', n₁, declared', inStep₁, shares₁⟩ := inStep.addMethod (sameOwner ▸ owner) room declared
  have ev₁ := evolves_of_ok (moves_addMethod _ _) declared
  have ev₁' := evolves_of_ok (moves_addMethod _ _) declared'
  have found₁ := (addMethod_gives _ m _ _ declared).1
  have found₁' := (addMethod_gives _ n _ _ declared').1
  have grows₃ : Grows m₂ m₃ := ((moves_insertCode t body 0 m₂).of_ok inserted).grows
  have lockstep :=
    unsubscribeCode_lockstep inStep₁ (names.grow ev₁.grows) (names'.grow ev₁'.grows) found₁ found₁' rfl rfl
  obtain ⟨body', n₂, coded', along₂, along₂', inStep₂, bodies⟩ := lockstep body m₂ coded (covers.earlier grows₃)
  obtain ⟨n₃, inserted', inStep₃, found₃, found₃', shares₃⟩ := inStep₂.insertCode ((along₂.quiet.keeps id).row found₁)
    ((along₂'.quiet.keeps id).row found₁') inserted body'
  have kept₃ : Retained m₂ m₃ := (retained_insertCode t body 0 m₂).of_ok inserted
  have kept₃' : Retained n₂ n₃ := (retained_insertCode t' body' 0 n₂).of_ok inserted'
  have corresponds : Code.Corresponds m₃ n₃ (body ++ []) (body' ++ []) := by
    rw [List.append_nil, List.append_nil]
    exact bodies.grow kept₃ kept₃'
  refine ⟨t', body', n₁, n₂, n₃, declared', coded', inserted', inStep₃, ?_, ?_,
    ⟨_, _, found₃, found₃', ⟨rfl, ?_⟩, sameOwner⟩, ?_⟩
  · exact trans_of Retained ev₁.retained (trans_of Retained along₂.quiet.retained kept₃)
  · exact trans_of Retained ev₁'.retained (trans_of Retained along₂'.quiet.retained kept₃')
  · simpa only [empty] using corresponds
  · intro s shared
    obtain ⟨shared₁, other, other'⟩ := shares₁ s shared
    have shared₂ := shared₁.keep (along₂.quiet.keeps id) (along₂'.quiet.keeps id)
    exact ⟨shares₃ s shared₂ other other', other, other'⟩

/-- A plan that ran in the first module runs in the second one, where its event is the same and still to be woven, and
leaves the modules in step. -/
theorem Plan.Ran.follows {plan : Plan} {pieces : Pieces} (ran : plan.Ran refs m pieces m') (inStep : InStep u m n)
    (names : refs.Name m) (names' : refs.Name n) (owned : m.FieldsOwned) (room : n.methods.length + 1 < 0x1000000)
    (made' : Event.ofField n plan.field refs plan.settings = .ok pieces.event)
    (free' : (n.findMethod? pieces.event.owner (unsubscribeName pieces.event.name)).isSome = false)
    (shared : ∀ s ∈ plan.accessors, Shares m n s) (covers : Covers u m') :
    ∃ pieces' n', plan.Ran refs n pieces' n' ∧ InStep u m' n' ∧ pieces.Corresponds m' n' pieces' := by
  obtain ⟨made, -, declared, coded, inserted, added, wrapping, removed, finding⟩ := ran
  rename_i event t v w body make find m₁ m₂ m₃ m₄ m₅ m₆
  have named : event.refs.Name m := (Event.ofField_ok made names).1.refs
  have named' : event.refs.Name n := (Event.ofField_ok made' names').1.refs
  obtain ⟨d, owner⟩ := (Event.typed_of_ofField names owned made).owner
  obtain ⟨d', owner', -⟩ := inStep.typeDef owner
  have later₄ : Grows m₃ m₄ := ((moves_addLocal plan.add _ m₃).of_ok added).grows
  have later₅ : Grows m₄ m₅ := ((moves_makeWeakCode event _ t v m₄).of_ok wrapping : Along Op.Adds m₄ m₅).grows
  have later₆ : Grows m₅ m₆ := ((moves_addLocal plan.remove _ m₅).of_ok removed).grows
  have later₇ : Grows m₆ m' := ((moves_findWeakCode event _ w m₆).of_ok finding : Along Op.Adds m₆ m').grows
  have covers₅ : Covers u m₅ := covers.earlier (later₆.trans later₇)
  obtain ⟨t', body', n₁, n₂, n₃, declared', coded', inserted', inStep₃, kept₃, kept₃', methods, shares⟩ :=
    declared_follows inStep named named' owner' room declared coded inserted (covers₅.earlier (later₄.trans later₅))
  obtain ⟨row, row', found, found', rows, rowOwner⟩ := methods
  obtain ⟨addShared, addOther, addOther'⟩ := shares _ (shared plan.add List.mem_cons_self)
  obtain ⟨removeShared, removeOther, removeOther'⟩ :=
    shares _ (shared plan.remove (List.mem_cons_of_mem _ List.mem_cons_self))
  obtain ⟨d₃, owner₃, -⟩ := kept₃.grows.typeDef owner
  obtain ⟨make', n₄, n₅, added', wrapping', onward₅, makes⟩ := makeWeak_follows inStep₃ (named.grow kept₃.grows)
    (named'.grow kept₃'.grows) addShared found found' rows (rowOwner ▸ owner₃) addOther addOther' added wrapping
    covers₅
  obtain ⟨kept₅, kept₅'⟩ := onward₅.retained
  obtain ⟨find', n₆, n₇, removed', finding', onward₇, finds⟩ := findWeak_follows onward₅.inStep
    (named.grow (kept₃.grows.trans kept₅.grows)) (named'.grow (kept₃'.grows.trans kept₅'.grows))
    (onward₅.shares _ removeShared) removed finding covers
  obtain ⟨kept₇, kept₇'⟩ := onward₇.retained
  obtain ⟨keeps₅, keeps₅'⟩ := onward₅.keeps addOther addOther'
  obtain ⟨keeps₇, keeps₇'⟩ := onward₇.keeps removeOther removeOther'
  refine ⟨⟨event, t', v, make', w, find'⟩, n₇,
    .intro made' free' declared' coded' inserted' added' wrapping' removed' finding', onward₇.inStep, ?_⟩
  have code := (rows.code.grow kept₅ kept₅').grow kept₇ kept₇'
  exact ⟨rfl, ⟨row, row', keeps₇.row (keeps₅.row found), keeps₇'.row (keeps₅'.row found'), rows.same, code⟩, rfl,
    makes.grow kept₇ kept₇', rfl, finds⟩

/-! ### Plans in either order -/

namespace Plan

/-- The plans are for different events of the module, and no accessor is in both. -/
structure Independent (m : Module) (a b : Plan) : Prop where
  events : ∃ row row', m.field a.field = .ok row ∧ m.field b.field = .ok row' ∧
    (row.owner ≠ row'.owner ∨ row.name ≠ row'.name)
  methods : ∀ t ∈ a.accessors, ∃ row, m.method t = .ok row
  methods' : ∀ t ∈ b.accessors, ∃ row, m.method t = .ok row
  apart : ∀ t ∈ a.accessors, t ∉ b.accessors

theorem Independent.symm {a b : Plan} (independent : Independent m a b) : Independent m b a := by
  obtain ⟨⟨row, row', found, found', differ⟩, methods, methods', apart⟩ := independent
  exact ⟨⟨row', row, found', found, differ.imp Ne.symm Ne.symm⟩, methods', methods,
    fun t own other => apart t other own⟩

namespace Ran

variable {a b : Plan} {p q : Pieces}

/-- Weaving an event leaves an event of another type or name as it was, and still to be woven. -/
theorem beside (ran : a.Ran refs m p m') (listed : m.Listed) (names : refs.Name m) {owner : Token} {name : String}
    (differ : p.event.owner ≠ owner ∨ p.event.name ≠ name) :
    (∀ field settings, Event.ofField m' field refs settings = Event.ofField m field refs settings) ∧
      (m'.findMethod? owner (unsubscribeName name)).isSome = (m.findMethod? owner (unsubscribeName name)).isSome := by
  obtain ⟨h, declares, ofOwner, ofName⟩ := ran.declares
  have listed' := ran.listed listed
  have other : ∀ g ∈ [h], g.name ≠ "Invoke" := by
    intro g member
    rw [List.mem_singleton.mp member, ofName]
    exact unsubscribeName_ne_invoke _
  have apart : ∀ g ∈ [h], g.owner ≠ owner ∨ g.name ≠ unsubscribeName name := by
    intro g member
    rw [List.mem_singleton.mp member, ofOwner, ofName]
    exact differ.imp id fun names same => names (unsubscribeName_injective same)
  have same := declares.findMethod? listed listed' apart
  refine ⟨declares.ofField listed listed' other names (names.grow ran.adds.grows), ?_⟩
  rw [← Option.isSome_map, same, Option.isSome_map]

theorem differ {F : Module} (ran : a.Ran refs m p m') (other : b.Ran refs n q F) (independent : Independent m a b)
    (names : refs.Name m) (grows : Grows m n) : p.event.owner ≠ q.event.owner ∨ p.event.name ≠ q.event.name := by
  obtain ⟨row, row', found, found', differ⟩ := independent.events
  obtain ⟨owner, name⟩ := ran.event_eq names found
  obtain ⟨owner', name'⟩ := other.event_eq (names.grow grows) (grows.field found')
  rwa [owner, name, owner', name']

/-- A plan that ran behind an independent one runs without it, and leaves a module in step. -/
theorem alone {F : Module} (first : a.Ran refs m p m') (second : b.Ran refs m' q F) (independent : Independent m a b)
    (listed : m.Listed) (distinct : m.Distinct) (names : refs.Name m) :
    ∃ q' n, b.Ran refs m q' n ∧ InStep F F n ∧ q.Corresponds F n q' := by
  have listed' := first.listed listed
  have names' := names.grow first.adds.grows
  have full := (second.listed listed').placed
  obtain ⟨h, declares, -⟩ := first.declares
  obtain ⟨sameEvent, sameName⟩ := first.beside listed names (first.differ second independent names first.adds.grows)
  -- everything that the module asks for is there at the end, and a method more
  have inStep : InStep F m' m := ⟨declares.types.symm, declares.typeRefs.symm, declares.fields.symm, listed'.placed,
    listed.placed, distinct, (Covers.refl F).earlier (first.adds.grows.trans second.adds.grows), full⟩
  have room : m.methods.length + 1 < 0x1000000 := by
    have count : m'.methods.length = m.methods.length + 1 := declares.length
    rw [← count]
    exact listed'.placed.methods.fits
  refine second.follows inStep names' names listed'.fieldsOwned room ((sameEvent _ _).symm.trans second.made)
    (sameName.symm.trans second.free) (fun t own => ?_) (Covers.refl F)
  obtain ⟨row, found⟩ := independent.methods' t own
  exact ⟨row, (first.keeps_of_found found fun other => independent.apart t other own).row found, found⟩

/-- A plan runs behind an independent one, if all that they intern is in a module that is not full. -/
theorem behind (ran : a.Ran refs m p m') (other : b.Ran refs m q n) (independent : Independent m a b)
    (listed : m.Listed) (names : refs.Name m) (distinct : n.Distinct) (within : Covers u n) (full : u.Placed)
    (covers : Covers u m') (room : n.methods.length + 1 < 0x1000000) :
    ∃ p' G, a.Ran refs n p' G ∧ p.Corresponds m' G p' := by
  obtain ⟨h, declares, -⟩ := other.declares
  obtain ⟨sameEvent, sameName⟩ := other.beside listed names
    ((ran.differ other independent names (Grows.refl m)).imp Ne.symm Ne.symm)
  have inStep : InStep u m n := ⟨declares.types, declares.typeRefs, declares.fields, listed.placed,
    (other.listed listed).placed, distinct, within, full⟩
  obtain ⟨p', G, ran', -, same⟩ := ran.follows inStep names (names.grow other.adds.grows) listed.fieldsOwned room
    ((sameEvent _ _).trans ran.made) (sameName.trans ran.free) (fun t own => by
      obtain ⟨row, found⟩ := independent.methods t own
      exact ⟨row, found, (other.keeps_of_found found (independent.apart t own)).row found⟩) covers
  exact ⟨p', G, ran', same⟩

theorem keeps_unsubscribe {F : Module} {row : Method} (first : a.Ran refs m p m') (second : b.Ran refs m' q F)
    (independent : Independent m a b) (found : m'.method p.unsubscribe = .ok row) : Keeps p.unsubscribe m' F := by
  refine second.keeps_of_found found fun own => ?_
  obtain ⟨old, known⟩ := independent.methods' _ own
  exact first.fresh old known

/-- Independent plans that were carried out can be carried out in the other order, with corresponding pieces. -/
theorem exchanged {F : Module} (first : a.Ran refs m p m') (second : b.Ran refs m' q F)
    (independent : Independent m a b) (listed : m.Listed) (distinct : m.Distinct) (names : refs.Name m) :
    ∃ p' q' n G, b.Ran refs m q' n ∧ a.Ran refs n p' G ∧ p.Corresponds F G p' ∧ q.Corresponds F G q' := by
  obtain ⟨q', n, ran, inStep, sameQ⟩ := first.alone second independent listed distinct names
  have room : n.methods.length + 1 < 0x1000000 := by
    obtain ⟨h, declares, -⟩ := first.declares
    obtain ⟨h', further, -⟩ := second.declares
    obtain ⟨g, other, -⟩ := ran.declares
    have count : n.methods.length + 1 = F.methods.length := by
      rw [other.length, further.length, declares.length]
      rfl
    rw [count]
    exact inStep.placed.methods.fits
  obtain ⟨p', G, last, sameP⟩ := first.behind ran independent listed names inStep.distinct inStep.within inStep.roomy
    ((Covers.refl F).earlier second.adds.grows) room
  -- what corresponds in the middle corresponds at the end
  obtain ⟨_, _, foundP, _, _⟩ := sameP.unsubscribe
  obtain ⟨_, _, _, foundQ, _⟩ := sameQ.unsubscribe
  refine ⟨p', q', n, G, ran, last, ?_, ?_⟩
  · exact sameP.grow second.adds.retained (Std.Refl.refl G) (first.keeps_unsubscribe second independent foundP)
      (Keeps.refl _ _)
  · exact sameQ.grow (Std.Refl.refl F) last.adds.retained (Keeps.refl _ _)
      (ran.keeps_unsubscribe last independent.symm foundQ)

end Ran

theorem weaveBoth_eq_ok_iff {a b : Plan} {p q : Pieces} {F : Module} (listed : m.Listed) (names : refs.Name m) :
    a.weaveBoth b refs m = .ok (p, q) F ↔ ∃ m', a.Ran refs m p m' ∧ b.Ran refs m' q F := by
  constructor
  · intro ran
    obtain ⟨p', m', first, rest⟩ := bind_eq_ok_iff.mp ran
    obtain ⟨q', F', second, last⟩ := bind_eq_ok_iff.mp rest
    obtain ⟨same, rfl⟩ := EStateM.Result.ok.inj last
    obtain ⟨rfl, rfl⟩ := Prod.mk.inj same
    exact ⟨m', ran_of_ok first, ran_of_ok second⟩
  · rintro ⟨m', first, second⟩
    have listed' := first.listed listed
    have ran := first.ok listed.placed names listed.fieldsOwned
    have ran' := second.ok listed'.placed (names.grow first.adds.grows) listed'.fieldsOwned
    exact bind_eq_ok_iff.mpr ⟨p, m', ran, bind_eq_ok_iff.mpr ⟨q, F, ran', rfl⟩⟩

theorem weaveBoth_exchanged {a b : Plan} {p q : Pieces} {F : Module} (imported : Imported Op.KeepsOwners refs m)
    (independent : Independent m a b) (ran : a.weaveBoth b refs m = .ok (p, q) F) :
    ∃ p' q' G, b.weaveBoth a refs m = .ok (q', p') G ∧ p.Corresponds F G p' ∧ q.Corresponds F G q' := by
  obtain ⟨-, names, -⟩ := imported.facts
  obtain ⟨m', first, second⟩ := (weaveBoth_eq_ok_iff imported.listed names).mp ran
  obtain ⟨p', q', n, G, other, last, same⟩ :=
    first.exchanged second independent imported.listed imported.distinct names
  exact ⟨p', q', G, (weaveBoth_eq_ok_iff imported.listed names).mpr ⟨n, other, last⟩, same⟩

end Plan

/-- Two events of a module that differ in their type or their name are woven in either order or in none, and what is
made for them corresponds: each unsubscribing method has the same row but for its own token and those in its body, and
tokens in the code resolve to the same field, type or call target. -/
theorem weaving_order_irrelevant {a b : Plan} (imported : Imported Op.KeepsOwners refs m)
    (independent : Plan.Independent m a b) :
    ((∃ pieces F, a.weaveBoth b refs m = .ok pieces F) ↔ ∃ pieces G, b.weaveBoth a refs m = .ok pieces G) ∧
      ∀ {p q p' q' : Pieces} {F G : Module}, a.weaveBoth b refs m = .ok (p, q) F →
        b.weaveBoth a refs m = .ok (q', p') G → p.Corresponds F G p' ∧ q.Corresponds F G q' := by
  refine ⟨⟨?_, ?_⟩, ?_⟩
  · rintro ⟨⟨p, q⟩, F, ran⟩
    obtain ⟨p', q', G, ran', -⟩ := Plan.weaveBoth_exchanged imported independent ran
    exact ⟨_, G, ran'⟩
  · rintro ⟨⟨q, p⟩, G, ran⟩
    obtain ⟨q', p', F, ran', -⟩ := Plan.weaveBoth_exchanged imported independent.symm ran
    exact ⟨_, F, ran'⟩
  · intro p q p' q' F G ran other
    obtain ⟨p₁, q₁, G₁, ran', same⟩ := Plan.weaveBoth_exchanged imported independent ran
    obtain ⟨pair, rfl⟩ := EStateM.Result.ok.inj (ran'.symm.trans other)
    obtain ⟨rfl, rfl⟩ := Prod.mk.inj pair
    exact same

namespace Ticker

/-! The ticker with a second event, of the generic handler type. -/

def beeped : Token := .ofRow .field 2

def beepedRow : Field := ⟨beeped, "Beeped", publisher, .privateFlag, .closedHandler (.named .eventArgs)⟩

def beepAccessor (name : String) : MethodDecl :=
  { accessor name with params := [⟨some "value", .closedHandler (.named .eventArgs)⟩] }

def beepOps : List Op :=
  [.addField publisher "Beeped" .privateFlag (.closedHandler (.named .eventArgs)),
   .addMethod ((beepAccessor "add_Beeped").row publisher),
   .addMethod ((beepAccessor "remove_Beeped").row publisher)]

def withBeeped : Module := beepOps.foldl (fun m op => op.apply m) declared

def tickedPlan : Plan := ⟨ticked, {}, Ticker.event.add, Ticker.event.remove⟩

def beepedPlan : Plan := ⟨beeped, {}, .ofRow .method 4, .ofRow .method 5⟩

theorem plans_independent : Plan.Independent withBeeped tickedPlan beepedPlan := by
  have known : ∀ t ∈ tickedPlan.accessors ++ beepedPlan.accessors, ∃ row, withBeeped.method t = .ok row := by
    have all : ∀ t ∈ tickedPlan.accessors ++ beepedPlan.accessors, (withBeeped.method t).toOption.isSome = true := by
      decide +kernel
    intro t own
    obtain ⟨row, found⟩ := Option.isSome_iff_exists.mp (all t own)
    exact ⟨row, eq_ok_of_toOption found⟩
  refine ⟨⟨tickedRow, beepedRow, ?_, ?_, .inr (by decide)⟩, ?_, ?_, by decide⟩
  · exact eq_ok_of_toOption (by decide +kernel)
  · exact eq_ok_of_toOption (by decide +kernel)
  · exact fun t own => known t (List.mem_append_left _ own)
  · exact fun t own => known t (List.mem_append_right _ own)

/-- Both orders go through for the two events of the ticker, with tokens of their own. -/
theorem ticker_weaving_order :
    Imported Op.KeepsOwners helpers withBeeped ∧ Plan.Independent withBeeped tickedPlan beepedPlan ∧
      ∃ p q p' q' F G, tickedPlan.weaveBoth beepedPlan helpers withBeeped = .ok (p, q) F ∧
        beepedPlan.weaveBoth tickedPlan helpers withBeeped = .ok (q', p') G ∧ p.Corresponds F G p' ∧
        q.Corresponds F G q' ∧ p.unsubscribe ≠ p'.unsubscribe ∧ p.make ≠ p'.make ∧ q.find ≠ q'.find := by
  have imported : Imported Op.KeepsOwners helpers withBeeped :=
    declared_imported.operated (by simp [beepOps, Op.KeepsOwners])
  obtain ⟨orders, same⟩ := weaving_order_irrelevant imported plans_independent
  have woven : (value? (tickedPlan.weaveBoth beepedPlan helpers withBeeped)).isSome = true := by decide +kernel
  obtain ⟨⟨p, q⟩, first⟩ := Option.isSome_iff_exists.mp woven
  have ran := eq_ok_of_value? first
  obtain ⟨⟨q', p'⟩, G, ran'⟩ := orders.mp ⟨_, _, ran⟩
  obtain ⟨sameP, sameQ⟩ := same ran ran'
  have differ : ∀ pair ∈ value? (tickedPlan.weaveBoth beepedPlan helpers withBeeped),
      ∀ pair' ∈ value? (beepedPlan.weaveBoth tickedPlan helpers withBeeped),
        pair.1.unsubscribe ≠ pair'.2.unsubscribe ∧ pair.1.make ≠ pair'.2.make ∧ pair.2.find ≠ pair'.1.find := by
    decide +kernel
  exact ⟨imported, plans_independent, p, q, p', q', _, G, ran, ran', sameP, sameQ,
    differ _ first _ (by rw [ran']; rfl)⟩

end Ticker

end WeakSubscription
