import WeakSubscription.Proofs.Events.Wrapped
import WeakSubscription.Proofs.Module.Arena
import WeakSubscription.Proofs.Module.Extension
import WeakSubscription.Proofs.Verification.Splicing
import WeakSubscription.Proofs.Weaving.EventCode
import WeakSubscription.Proofs.Weaving.Imported

/-!
# What growth leaves as it was

Compilers add to a module, and so do the import of the helpers and the weaving of events. None of them changes
what was there: tokens and names lead to the rows that they led to, calls and types mean what they meant, and a
method into which no code is put verifies as before.
-/

open WeakSubscription.Module

namespace WeakSubscription

open Tracked Verification

variable {m m' m'' : Module} {t method : Token} {event : Event} {inserted allocated : Token → Prop}

/-! ### Additions -/

/-- What those do to a module who only add to it. References and events need not be of this module. -/
inductive Addition where
  | edit (op : Op) (adds : op.Adds)
  | importHelpers (ns : String)
  | closeActionConstructor (refs : HelperRefs) (closed : Ty)
  | convert (refs : HelperRefs) (value : Fragment) (target : Ty)
  /-- Delegate arithmetic by this helper, which is removal or combination. -/
  | arithmetic (helper : Token) (source handler : Fragment)
  | findWeak (refs : HelperRefs) (closed : Ty) (source handler : Fragment)
  | makeWeak (refs : HelperRefs) (closed : Ty) (handler unsubscribe : Fragment)
  | addVariable (event : Event) (method : Token)
  | findWeakCode (event : Event) (method : Token) (v : Variable)
  | makeWeakCode (event : Event) (method unsubscribe : Token) (v : Variable)
  | addUnsubscribe (event : Event)

namespace Addition

def run : Addition → Edit Unit
  | edit op _ => op.run
  | importHelpers ns => discard (HelperRefs.addAll ns)
  | closeActionConstructor refs closed => discard (refs.closeActionConstructor closed)
  | convert refs value target => discard (value.convert refs target)
  | arithmetic helper source handler => discard (Fragment.arithmetic helper source handler)
  | findWeak refs closed source handler => discard (Fragment.findWeak refs closed source handler)
  | makeWeak refs closed handler unsubscribe => discard (Fragment.makeWeak refs closed handler unsubscribe)
  | addVariable event method => discard (event.addVariable method)
  | findWeakCode event method v => discard (event.findWeakCode method v)
  | makeWeakCode event method unsubscribe v => discard (event.makeWeakCode method unsubscribe v)
  | addUnsubscribe event => discard event.addUnsubscribe

/-- The module behind the addition, also when it fails. -/
def apply (a : Addition) (m : Module) : Module := endState (a.run m)

/-- Whether the addition puts code into the method, which was there before. -/
def Inserts : Addition → Token → Prop
  | edit op _, t => op.Inserts t
  | importHelpers _, _ | closeActionConstructor _ _, _ | convert _ _ _, _ | arithmetic _ _ _, _
  | findWeak _ _ _ _, _ | makeWeak _ _ _ _, _ | addVariable _ _, _ | findWeakCode _ _ _, _
  | makeWeakCode _ _ _ _, _ | addUnsubscribe _, _ => False

/-- Whether the addition gives the method a local. -/
def Allocates : Addition → Token → Prop
  | edit op _, t => op.Allocates t
  | addVariable _ method, t => t = method
  | importHelpers _, _ | closeActionConstructor _ _, _ | convert _ _ _, _ | arithmetic _ _ _, _
  | findWeak _ _ _ _, _ | makeWeak _ _ _ _, _ | findWeakCode _ _ _, _ | makeWeakCode _ _ _ _, _
  | addUnsubscribe _, _ => False

end Addition

/-! ### The unsubscribing method -/

theorem moves_implementUnsubscribe {rel : Module → Module → Prop} [Specifies rel] (event : Event)
    (inserts : ∀ code m, Moves rel (insertCode method code 0) m) (m : Module) :
    Moves rel (event.implementUnsubscribe method) m := by
  refine moves_bind (moves_unsubscribeCode event method m) fun code m₁ _ => ?_
  refine moves_bind (inserts code m₁) fun _ m₂ _ => ?_
  split
  · exact moves_get_bind (moves_lift_bind fun _ _ => moves_pure _)
  · exact moves_pure _

/-- Only the method that gets its body is given code. -/
theorem implementUnsubscribe_within (event : Event) (method : Token) (m : Module) :
    Moves (Along (Op.AddsWithin (· = method) fun _ => False)) (event.implementUnsubscribe method) m := by
  refine moves_implementUnsubscribe event (fun code m₁ => ?_) m
  exact .step .refl (.insertCode method code 0) ⟨trivial, fun _ given => given, nofun⟩

theorem moves_addUnsubscribe (event : Event) (m : Module) :
    Moves (Along Op.KeepsOwners) event.addUnsubscribe m := by
  apply moves_get_bind
  dsimp only
  split
  · exact moves_lift_bind fun _ _ => moves_throw_bind _ _
  have declares : Moves (Along Op.KeepsOwners) (event.unsubscribeDecl.declare event.owner) m :=
    moves_op (.addMethod _) trivial rfl m
  refine moves_bind declares fun method m₁ _ => ?_
  have implements : Moves (Along Op.KeepsOwners) (event.implementUnsubscribe method) m₁ :=
    (implementUnsubscribe_within event method m₁).imp fun _ within => within.adds.keepsOwners
  refine moves_bind (moves_tryCatch implements fun e m₂ => ?_) fun _ _ _ => moves_pure _
  exact moves_bind (moves_op (.rollbackMethod method) trivial rfl m₂) fun _ _ _ => moves_throw _

/-- Taking back a method that an earlier module did not have leaves what that module had. -/
theorem yields_takeBack {α : Type} (longer : Extends inserted allocated m m') (free : ∀ row, m.method t ≠ .ok row)
    (unlisted : ∀ d ∈ m.types, t ∉ d.methods) (e : Error) :
    Yields (fun _ m'' => Extends inserted allocated m m'') (fun _ m'' => Extends inserted allocated m m'')
      (do let _ ← rollbackMethod t; throw e : Edit α) m' := by
  have takes := performs_rollbackMethod t m'
  refine yields_bind (fun e' m'' failed => ?_) fun row m'' ran => yields_throw ?_
  · rwa [takes.2 e' m'' failed]
  · exact longer.takenBack (takes.1 row m'' ran) free unlisted

/-- A method that is added, and perhaps taken back, leaves what was there before it. -/
theorem addUnsubscribe_extended (listed : m.Listed) (event : Event) :
    Moves (Extends inserted allocated) event.addUnsubscribe m := by
  apply Yields.moves
  apply yields_get_bind
  dsimp only
  split
  · exact (moves_lift_bind fun _ _ => moves_throw_bind _ _ : Moves _ _ _).yields
  refine yields_bind (fun e m' failed => ?_) fun method m₁ declared => ?_
  · rw [(performs_addMethod _ m).2 e m' failed]
    exact Std.Refl.refl m
  -- the token of the new method is free in the module, so neither its code nor its removal counts there
  obtain ⟨-, -, free⟩ := addMethod_gives _ m _ _ declared
  have own : ∀ row ∈ m.methods, m.method row.token = .ok row := fun row member =>
    method_eq_ok_iff.mpr (listed.placed.methods.lookup_of_mem member)
  have unlisted := listed.unlisted free
  have adds : Along (Op.AddsWithin (· = method) fun _ => False) m m₁ :=
    (moves_op (.addMethod _) ⟨trivial, nofun, nofun⟩ rfl m : Moves _ (addMethod _) m).of_ok declared
  have behind : ∀ {m₂}, Along (Op.AddsWithin (· = method) fun _ => False) m₁ m₂ →
      Extends inserted allocated m m₂ := by
    intro m₂ later
    refine ((trans_of _ adds later).extended listed.placed).imp (fun row member hit => ?_) nofun
    exact absurd (hit ▸ own row member) (free row)
  have implements := (implementUnsubscribe_within event method m₁).yields
  have handled := yields_tryCatch (implements.imp (fun _ _ => behind) fun _ _ => behind) fun e m₂ longer =>
    yields_takeBack longer free unlisted e
  exact yields_bind handled.2 fun _ m₂ ran => yields_pure (handled.1 _ _ ran)

namespace Addition

/-- An addition other than that of an unsubscribing method is a number of operations that add. -/
theorem within (a : Addition) (other : ∀ event, a ≠ addUnsubscribe event) (m : Module) :
    Along (Op.AddsWithin a.Inserts a.Allocates) m (a.apply m) := by
  cases a with
  | edit op adds => exact .step .refl op ⟨adds, fun _ given => given, fun _ given => given⟩
  | importHelpers ns => exact moves_map (HelperRefs.moves_addAll ns m)
  | closeActionConstructor refs closed => exact moves_map (refs.moves_closeActionConstructor closed m)
  | convert refs value target => exact moves_map (Fragment.moves_convert value target m)
  | arithmetic helper source handler => exact moves_map (Fragment.moves_arithmetic helper source handler m)
  | findWeak refs closed source handler => exact moves_map (Fragment.moves_findWeak closed source handler m)
  | makeWeak refs closed handler unsubscribe =>
    exact moves_map (Fragment.moves_makeWeak closed handler unsubscribe m)
  | addVariable event method =>
    exact moves_map (moves_op (.addLocal method event.handler) ⟨trivial, nofun, fun _ given => given⟩ rfl m)
  | findWeakCode event method v => exact moves_map (moves_findWeakCode event method v m)
  | makeWeakCode event method unsubscribe v => exact moves_map (moves_makeWeakCode event method unsubscribe v m)
  | addUnsubscribe event => exact absurd rfl (other event)

theorem keepsOwners (a : Addition) (m : Module) : Along Op.KeepsOwners m (a.apply m) := by
  by_cases adds : ∃ event, a = addUnsubscribe event
  · obtain ⟨event, rfl⟩ := adds
    exact moves_map (moves_addUnsubscribe event m)
  · exact (a.within (not_exists.mp adds) m).imp fun _ within => within.adds.keepsOwners

theorem extended (a : Addition) (listed : m.Listed) : Extends a.Inserts a.Allocates m (a.apply m) := by
  by_cases adds : ∃ event, a = addUnsubscribe event
  · obtain ⟨event, rfl⟩ := adds
    exact moves_map (addUnsubscribe_extended listed event)
  · exact (a.within (not_exists.mp adds) m).extended listed.placed

end Addition

/-- Additions one after the other, each of them on what the ones before it left. -/
theorem extended_of_additions (listed : m.Listed) (additions : List Addition) :
    Extends (fun t => ∃ a ∈ additions, a.Inserts t) (fun t => ∃ a ∈ additions, a.Allocates t) m
      (additions.foldl (fun m a => a.apply m) m) := by
  induction additions generalizing m with
  | nil => exact Std.Refl.refl m
  | cons a rest ih =>
    have first : Extends (fun t => ∃ b ∈ a :: rest, b.Inserts t) (fun t => ∃ b ∈ a :: rest, b.Allocates t) m
        (a.apply m) :=
      (a.extended listed).imp (fun _ _ hit => ⟨a, List.mem_cons_self, hit⟩) fun _ _ hit =>
        ⟨a, List.mem_cons_self, hit⟩
    have later := ih (listed.along (a.keepsOwners m) fun _ keeps => keeps)
    refine trans_of (Extends _ _) first (later.imp (fun _ _ hit => ?_) fun _ _ hit => ?_)
    · obtain ⟨b, member, hit⟩ := hit
      exact ⟨b, List.mem_cons_of_mem _ member, hit⟩
    · obtain ⟨b, member, hit⟩ := hit
      exact ⟨b, List.mem_cons_of_mem _ member, hit⟩

/-! ### Meaning -/

/-- What tokens and names of the first module mean is what they mean in the second one. -/
structure MeansSame (inserted allocated : Token → Prop) (m m' : Module) : Prop where
  typeDef : ∀ t d, m.typeDef t = .ok d → ∃ d', m'.typeDef t = .ok d' ∧ d.Extends d'
  typeRef : ∀ t r, m.typeRef t = .ok r → m'.typeRef t = .ok r
  typeSpec : ∀ t ty, m.typeSpec t = .ok ty → m'.typeSpec t = .ok ty
  field : ∀ t f, m.field t = .ok f → m'.field t = .ok f
  method : ∀ t row, m.method t = .ok row →
    row.token = t ∧ ∃ row', m'.method t = .ok row' ∧ row.Extends inserted allocated row'
  memberRef : ∀ t r, m.memberRef t = .ok r → m'.memberRef t = .ok r
  methodSpec : ∀ t s, m.methodSpec t = .ok s → m'.methodSpec t = .ok s
  resolveType : ∀ t, m.contains t = true → m'.resolveType t = m.resolveType t
  callTarget : ∀ t, m.contains t = true → m'.callTarget t = m.callTarget t
  findType : ∀ name d, m.findType? name = some d → ∃ d', m'.findType? name = some d' ∧ d.Extends d'
  findTypeRef : ∀ name r, m.findTypeRef? name = some r → m'.findTypeRef? name = some r
  findMethod : ∀ owner name row, m.findMethod? owner name = some row →
    ∃ row', m'.findMethod? owner name = some row' ∧ row.Extends inserted allocated row'
  verify : ∀ t summary, ¬ inserted t → m.verify t = .ok summary → m'.verify t = .ok summary

theorem isOk_iff {ε α : Type} {x : Except ε α} : x.isOk = true ↔ ∃ a, x = .ok a := by
  cases x with
  | ok a => exact ⟨fun _ => ⟨a, rfl⟩, fun _ => rfl⟩
  | error e => exact ⟨nofun, nofun⟩

/-- A token of a table that types are in resolves to a type. -/
theorem Module.Extends.resolveType (longer : Extends inserted allocated m m') (inside : m.contains t = true) :
    m'.resolveType t = m.resolveType t := by
  have stays : ∀ {ty}, m.resolveType t = .ok ty → m'.resolveType t = m.resolveType t :=
    fun resolves => (longer.grows.resolveType resolves).trans resolves.symm
  unfold Module.contains at inside
  unfold Module.resolveType at stays ⊢
  cases table : t.table? with
  | none => simp only
  | some kind =>
    simp only [table] at inside stays ⊢
    cases kind with
    | typeDef =>
      obtain ⟨d, found⟩ := isOk_iff.mp inside
      exact stays (except_map_eq_ok_iff.mpr ⟨d, found, rfl⟩)
    | typeRef =>
      obtain ⟨r, found⟩ := isOk_iff.mp inside
      exact stays (except_map_eq_ok_iff.mpr ⟨r, found, rfl⟩)
    | typeSpec =>
      obtain ⟨ty, found⟩ := isOk_iff.mp inside
      exact stays found
    | field | method | memberRef | methodSpec => rfl

/-- A token of a table that methods are in has a call target, as owners and references are there. -/
theorem Module.Extends.callTarget (longer : Extends inserted allocated m m') (owned : m.MethodsOwned)
    (fit : m.SpecsFit) (inside : m.contains t = true) : m'.callTarget t = m.callTarget t := by
  have stays : ∀ {target}, m.callTarget t = .ok target → m'.callTarget t = m.callTarget t :=
    fun calls => (longer.retained.callTarget calls).trans calls.symm
  unfold Module.contains at inside
  unfold Module.callTarget at stays ⊢
  cases table : t.table? with
  | none => simp only
  | some kind =>
    simp only [table] at inside stays ⊢
    cases kind with
    | method =>
      obtain ⟨row, found⟩ := isOk_iff.mp inside
      obtain ⟨d, owner⟩ := owned.owner found
      exact stays (except_bind_eq_ok_iff.mpr ⟨row, found, except_bind_eq_ok_iff.mpr ⟨d, owner, rfl⟩⟩)
    | memberRef =>
      obtain ⟨ref, found⟩ := isOk_iff.mp inside
      exact stays (except_bind_eq_ok_iff.mpr ⟨ref, found, rfl⟩)
    | methodSpec =>
      obtain ⟨spec, found⟩ := isOk_iff.mp inside
      obtain ⟨i, -, read⟩ := lookup_eq_some_iff.mp (methodSpec_eq_ok_iff.mp found)
      obtain ⟨ref, named, -⟩ := fit spec (List.mem_of_getElem? read)
      exact stays (except_bind_eq_ok_iff.mpr ⟨spec, found, except_bind_eq_ok_iff.mpr ⟨ref, named, rfl⟩⟩)
    | typeDef | typeRef | typeSpec | field => rfl

theorem Module.Extends.findType? (longer : Extends inserted allocated m m') {name : String} {d : TypeDef}
    (found : m.findType? name = some d) : ∃ d', m'.findType? name = some d' ∧ d.Extends d' :=
  longer.types.find? (fun _ _ more => by rw [more.name]) found

theorem Module.Grows.findTypeRef? (grows : Grows m m') {name : String} {r : TypeRef}
    (found : m.findTypeRef? name = some r) : m'.findTypeRef? name = some r := by
  obtain ⟨more, same⟩ := grows.typeRefs
  unfold Module.findTypeRef? at found ⊢
  rw [← same, List.find?_append, found, Option.some_or]

/-- The first row of a kind among those that a list leads to stays the first one when the list grows. -/
theorem find?_filterMap_of_prefix {α β : Type} {rel : β → β → Prop} {l l' : List α} {f f' : α → Option β}
    {p : β → Bool} {b : β} (longer : l <+: l') (onward : ∀ a ∈ l, ∃ b b', f a = some b ∧ f' a = some b' ∧ rel b b')
    (same : ∀ b b', rel b b' → p b' = p b) (found : (l.filterMap f).find? p = some b) :
    ∃ b', (l'.filterMap f').find? p = some b' ∧ rel b b' := by
  obtain ⟨more, rfl⟩ := longer
  induction l with
  | nil => cases found
  | cons a l ih =>
    obtain ⟨c, c', leads, leads', related⟩ := onward a List.mem_cons_self
    rw [List.filterMap_cons_some leads, List.find?_cons] at found
    rw [List.cons_append, List.filterMap_cons_some leads', List.find?_cons, same c c' related]
    cases kind : p c with
    | true =>
      rw [kind] at found
      obtain rfl := Option.some.inj found
      exact ⟨c', rfl, related⟩
    | false =>
      rw [kind] at found
      exact ih (fun a member => onward a (List.mem_cons_of_mem _ member)) found

theorem Module.Extends.findMethod? (longer : Extends inserted allocated m m') (listed : m.Listed) {owner : Token}
    {name : String} {row : Method} (found : m.findMethod? owner name = some row) :
    ∃ row', m'.findMethod? owner name = some row' ∧ row.Extends inserted allocated row' := by
  obtain ⟨d, type, first⟩ := Option.bind_eq_some_iff.mp found
  have type : m.typeDef owner = .ok d := eq_ok_of_toOption type
  obtain ⟨d', type', more⟩ := longer.typeDef type
  obtain ⟨i, -, read⟩ := lookup_eq_some_iff.mp (typeDef_eq_ok_iff.mp type)
  have lists := listed.lists d (List.mem_of_getElem? read)
  -- a type lists no method that is not there, so no new method comes before the one that was found
  have onward : ∀ u ∈ d.methods, ∃ r r', (m.method u).toOption = some r ∧ (m'.method u).toOption = some r' ∧
      r.Extends inserted allocated r' := by
    intro u member
    rw [lists.methods] at member
    obtain ⟨r, inside, -, rfl⟩ := mem_membersOf.mp member
    have here : m.method r.token = .ok r := method_eq_ok_iff.mpr (listed.placed.methods.lookup_of_mem inside)
    obtain ⟨r', there, grown⟩ := longer.method here
    exact ⟨r, r', by rw [here]; rfl, by rw [there]; rfl, grown⟩
  obtain ⟨row', first', grown⟩ :=
    find?_filterMap_of_prefix more.methods onward (fun r r' grown => by rw [grown.name]) first
  refine ⟨row', Option.bind_eq_some_iff.mpr ⟨d', ?_, first'⟩, grown⟩
  rw [type']
  rfl

/-- A method that was given no code verifies as before, also if it was given locals. -/
theorem Module.Extends.verify (longer : Extends inserted allocated m m') (placed : m.Placed) {summary : Summary}
    (spared : ¬ inserted t) (verified : m.verify t = .ok summary) : m'.verify t = .ok summary := by
  obtain ⟨row, frame, found, built, accepted, count⟩ := verify_ok verified
  obtain ⟨row', found', grown⟩ := longer.method found
  obtain ⟨frame', built', grows⟩ := frameOf_grows longer.retained grown.grows built
  have own : row.token = t := placed.token_of_method found
  rw [verify_eq found' built', grown.code (own ▸ spared), grows.checkCode accepted, ← count]

/-- Whatever is added to a module, what was there keeps its meaning. Only the methods that were given code or
locals differ in them, and only those that were given code may verify differently. -/
theorem additions_keep_meaning {name : String} (built : Along Op.KeepsOwners (Module.empty name) m)
    (additions : List Addition) :
    MeansSame (fun t => ∃ a ∈ additions, a.Inserts t) (fun t => ∃ a ∈ additions, a.Allocates t) m
      (additions.foldl (fun m a => a.apply m) m) := by
  have listed := (listed_empty name).along built fun _ keeps => keeps
  have fit := (show (Module.empty name).SpecsFit from nofun).along built
  have longer := extended_of_additions listed additions
  exact {
    typeDef := fun _ _ found => longer.typeDef found
    typeRef := fun _ _ found => typeRef_eq_ok_iff.mpr (lookup_of_longer longer.typeRefs (typeRef_eq_ok_iff.mp found))
    typeSpec := fun _ _ found =>
      typeSpec_eq_ok_iff.mpr (lookup_of_longer longer.typeSpecs (typeSpec_eq_ok_iff.mp found))
    field := fun _ _ found => longer.grows.field found
    method := fun _ _ found => ⟨listed.placed.token_of_method found, longer.method found⟩
    memberRef := fun _ _ found => longer.grows.memberRef found
    methodSpec := fun _ _ found => longer.grows.methodSpec found
    resolveType := fun _ inside => longer.resolveType inside
    callTarget := fun _ inside => longer.callTarget listed.methodsOwned fit inside
    findType := fun _ _ found => longer.findType? found
    findTypeRef := fun _ _ found => longer.grows.findTypeRef? found
    findMethod := fun _ _ _ found => longer.findMethod? listed found
    verify := fun _ _ spared verified => longer.verify listed.placed spared verified }

/-! ### A ticker that grows -/

namespace Ticker

/-- The unsubscribing method is added twice, which fails the second time. One accessor is given a local and the
other one an instruction. -/
def additions : List Addition :=
  [.addUnsubscribe Ticker.event.event, .addUnsubscribe Ticker.event.event,
   .addVariable Ticker.event.event Ticker.event.remove,
   .makeWeakCode Ticker.event.event Ticker.event.add Ticker.event.unsubscribe ⟨0, .named .eventHandler⟩,
   .edit (.addType ⟨"Sample", "Clock"⟩ .publicFlag (some .object)) trivial,
   .edit (.addMethod ((accessor "remove_Ticked").row publisher)) trivial,
   .edit (.insertCode Ticker.event.add [.plain .nop] 0) trivial]

def grown : Module := additions.foldl (fun m a => a.apply m) declared

theorem imported_built : Along Op.KeepsOwners (Module.empty "Ticker") Ticker.imported :=
  (HelperRefs.moves_addAll "WeakEvents.Runtime" (Module.empty "Ticker") : Along Op.Adds _ Ticker.imported).imp
    fun _ adds => adds.keepsOwners

theorem declared_built : Along Op.KeepsOwners (Module.empty "Ticker") declared := by
  have kinds : ∀ op ∈ ops, op.KeepsOwners := by
    intro op member
    simp only [ops, List.mem_cons, List.not_mem_nil, or_false] at member
    rcases member with rfl | rfl | rfl | rfl | rfl | rfl <;> trivial
  exact trans_of _ imported_built (.operated kinds Ticker.imported)

theorem ticker_keeps_meaning :
    Along Op.KeepsOwners (Module.empty "Ticker") declared ∧
      declared.verify Ticker.event.remove = .ok ⟨0, 1⟩ ∧ grown.verify Ticker.event.remove = .ok ⟨0, 1⟩ ∧
      grown.callTarget helpers.makeWeak = declared.callTarget helpers.makeWeak ∧
      (∃ row, grown.findMethod? publisher "remove_Ticked" = some row ∧ row.token = Ticker.event.remove) ∧
      (grown.method Ticker.event.remove).toOption ≠ (declared.method Ticker.event.remove).toOption := by
  have same := additions_keep_meaning declared_built additions
  have verified : declared.verify Ticker.event.remove = .ok ⟨0, 1⟩ := eq_ok_of_toOption (by decide +kernel)
  have spared : ¬ ∃ a ∈ additions, a.Inserts Ticker.event.remove := by
    rintro ⟨a, member, hit⟩
    simp only [additions, List.mem_cons, List.not_mem_nil, or_false] at member
    rcases member with rfl | rfl | rfl | rfl | rfl | rfl | rfl
    case inr.inr.inr.inr.inr.inr => exact absurd (show Ticker.event.remove = Ticker.event.add from hit) (by decide)
    all_goals exact hit
  have named : declared.findMethod? publisher "remove_Ticked" =
      some { (accessor "remove_Ticked").row publisher with token := Ticker.event.remove } := by decide +kernel
  obtain ⟨row, found, longer⟩ := same.findMethod _ _ _ named
  exact ⟨declared_built, verified, same.verify _ _ spared verified, same.callTarget _ (by decide +kernel),
    ⟨row, found, longer.token⟩, by decide +kernel⟩

end Ticker

end WeakSubscription
