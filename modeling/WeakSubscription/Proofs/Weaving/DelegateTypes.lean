import WeakSubscription.Proofs.Weaving.Atomic
import WeakSubscription.Proofs.Weaving.Resolved

/-!
# Delegate types, declared and referenced

For a delegate type that is declared, the event arguments are read off its `Invoke`, which is found by name among the
methods of the first type of that name. A delegate type that is referenced carries a signature instead. A field is
woven alike in both cases: the event arguments are the same, and so is the code once its tokens are resolved.
-/

open WeakSubscription.Module

namespace WeakSubscription

open Tracked

variable {m m' : Module} {op : Op} {t constructor invoke : Token} {name : TypeName} {args : Ty} {kept : List Token}

/-! ### Declared delegates -/

/-- The second definition is the first one with other members. It still starts with these methods if the first one
does. -/
structure TypeDef.Keeps (kept : List Token) (d d' : TypeDef) : Prop where
  token : d'.token = d.token
  name : d'.name = d.name
  base : d'.base = d.base
  methods : kept <+: d.methods → kept <+: d'.methods

instance : Std.Refl (TypeDef.Keeps kept) where
  refl _ := ⟨rfl, rfl, rfl, id⟩

instance : IsTrans TypeDef (TypeDef.Keeps kept) where
  trans _ _ _ first later := ⟨later.token.trans first.token, later.name.trans first.name, later.base.trans first.base,
    later.methods ∘ first.methods⟩

namespace Module

/-- An operation on none of these methods leaves them at the starts of the lists that start with them. -/
theorem Effect.keepsTypes (effect : Effect m op m') (spares : ∀ t ∈ kept, ¬ op.Touches t) :
    Continues (TypeDef.Keeps kept) m.types m'.types := by
  have here : Continues (TypeDef.Keeps kept) m.types m.types := .refl _
  cases effect with
  | addType => exact .concat _ _
  | addField => exact here.modify _ fun _ _ _ keeps => ⟨keeps.token, keeps.name, keeps.base, keeps.methods⟩
  | addMethod =>
    exact here.modify _ fun _ _ _ keeps =>
      ⟨keeps.token, keeps.name, keeps.base, fun starts => (keeps.methods starts).trans (List.prefix_append _ _)⟩
  | rollbackMethod token newest read =>
    have stays : kept.filter (· ≠ token) = kept :=
      List.filter_eq_self.mpr fun t own => decide_eq_true fun same => spares t own same
    dsimp only
    split
    · refine here.modify _ fun d _ d' keeps => ⟨keeps.token, keeps.name, keeps.base, fun starts => ?_⟩
      have filtered := (keeps.methods starts).filter (· ≠ token)
      rwa [stays] at filtered
    · exact here
  | found | addTypeRef | importType | rewriteMethod | addLocal | insertCode | addMemberRef | addMethodSpec =>
    exact here

theorem Along.keepsTypes {P : Op → Prop} (along : Along P m m') (spares : ∀ op, P op → ∀ t ∈ kept, ¬ op.Touches t) :
    Continues (TypeDef.Keeps kept) m.types m'.types := by
  induction along with
  | refl => exact .refl _
  | step _ op own ih => exact ih.trans ((op.effect _).keepsTypes (spares op own))

/-- The first type of that name is a delegate, and its methods start with a constructor and an `Invoke` that takes
arguments of this type. -/
structure DeclaresDelegate (m : Module) (name : TypeName) (args : Ty) (constructor invoke : Token) : Prop where
  type : ∃ d, m.findType? name.full = some d ∧ d.isDelegate = true ∧ [constructor, invoke] <+: d.methods
  constructor : ∃ row, m.method constructor = .ok row ∧ row.name = ".ctor"
  invoke : ∃ row, m.method invoke = .ok row ∧ row.name = "Invoke" ∧ row.params.map (·.ty) = [.object, args]

/-- It stays declared as long as its two methods are left alone. -/
theorem DeclaresDelegate.along {P : Op → Prop} (declares : m.DeclaresDelegate name args constructor invoke)
    (along : Along P m m') (spares : ∀ op, P op → ∀ t ∈ [constructor, invoke], ¬ op.Touches t) :
    m'.DeclaresDelegate name args constructor invoke := by
  obtain ⟨d, found, delegate, starts⟩ := declares.type
  obtain ⟨d', found', keeps⟩ := (along.keepsTypes spares).find? (fun _ _ keeps => by rw [keeps.name]) found
  have evolves : Evolves (· ∉ [constructor, invoke]) m m' :=
    along.evolves fun op own t touches inside => spares op own t inside touches
  obtain ⟨row, ofConstructor, named⟩ := declares.constructor
  obtain ⟨row', ofInvoke, named', params⟩ := declares.invoke
  refine ⟨⟨d', found', ?_, keeps.methods starts⟩, ⟨row, ?_, named⟩, ⟨row', ?_, named', params⟩⟩
  · rwa [TypeDef.isDelegate, keeps.base]
  · exact (evolves.keeps (by simp)).row ofConstructor
  · exact (evolves.keeps (by simp)).row ofInvoke

/-- The event arguments of handlers of a delegate type. One type is treated specially, whatever it is declared as. -/
def argsOfDelegate (name : TypeName) (args : Ty) : Ty := if name = .eventHandler then .named .eventArgs else args

theorem DeclaresDelegate.eventArgs (declares : m.DeclaresDelegate name args constructor invoke) (placed : m.Placed) :
    m.eventArgs (.named name) = .ok (argsOfDelegate name args) := by
  obtain ⟨d, found, delegate, more, starts⟩ := declares.type
  obtain ⟨row, ofConstructor, named⟩ := declares.constructor
  obtain ⟨row', ofInvoke, named', params⟩ := declares.invoke
  have type : m.typeDef d.token = .ok d :=
    typeDef_eq_ok_iff.mpr (placed.types.lookup_of_mem (List.mem_of_find?_eq_some found))
  have first : m.findMethod? d.token "Invoke" = some row' := by
    refine Option.bind_eq_some_iff.mpr ⟨d, by rw [type]; rfl, ?_⟩
    rw [← starts]
    simp [Except.toOption, ofConstructor, named, ofInvoke, named']
  unfold Module.eventArgs argsOfDelegate
  dsimp only
  split
  · rfl
  · rw [found, Option.filter_some, if_pos delegate]
    simp only [first, params]

theorem addType_gives (name : TypeName) (flags : TypeFlags) (base : Option Ty) (m : Module) :
    Gives (fun t m' => t.indexIn? .typeDef = some m.types.length ∧
        m' = { m with types := m.types ++ [⟨t, name, flags, base, [], []⟩] })
      (addType name flags base) m := by
  refine gives_get_bind (gives_lift_bind fun token next => gives_put_bind (gives_pure ?_))
  obtain ⟨fits, rfl⟩ := nextToken_ok next
  exact ⟨Token.indexIn?_ofRow fits, rfl⟩

/-- A method that is added to the last type is listed behind its methods. -/
theorem addMethod_lastType {row : Method} {types : List TypeDef} {flags : TypeFlags} {base : Option Ty}
    {fields methods : List Token} (last : row.owner.indexIn? .typeDef = some types.length)
    (made : m.types = types ++ [⟨t, name, flags, base, fields, methods⟩]) :
    Gives (fun u m' => m'.types = types ++ [⟨t, name, flags, base, fields, methods ++ [u]⟩]) (addMethod row) m := by
  intro u m' added
  obtain ⟨i, place, -, changed⟩ := (addMethod_gains row m u m' added).types
  obtain rfl := Option.some.inj (last.symm.trans place)
  rw [changed, made]
  simp [List.modify_eq_take_cons_drop]

/-- A declared delegate lists its two methods and no other. -/
theorem declareDelegate_declares (undefined : m.findType? name.full = none) :
    Gives (fun t m' => ∃ constructor invoke, m'.DeclaresDelegate name args constructor invoke ∧
        ∀ u, m'.Lists t u ↔ u ∈ [constructor, invoke])
      (declareDelegate name args) m := by
  refine gives_bind fun t m₁ typed => gives_bind fun c m₂ constructed => gives_bind fun i m₃ invoked => ?_
  refine gives_pure ⟨c, i, ?_⟩
  obtain ⟨place, made⟩ := addType_gives _ _ _ m t m₁ typed
  have types₁ := congrArg Module.types made
  have types₂ := addMethod_lastType place types₁ c m₂ constructed
  have types₃ := addMethod_lastType place types₂ i m₃ invoked
  obtain ⟨ofConstructor, -⟩ := addMethod_gives _ m₁ c m₂ constructed
  obtain ⟨ofInvoke, -⟩ := addMethod_gives _ m₂ i m₃ invoked
  have ev := evolves_of_ok (moves_addMethod _ _) invoked
  obtain ⟨d, declared, methods, named, delegate⟩ : ∃ d, m₃.types = m.types ++ [d] ∧ d.methods = [c, i] ∧
      d.name = name ∧ d.isDelegate = true := ⟨_, types₃, rfl, rfl, rfl⟩
  refine ⟨⟨⟨d, ?_, delegate, ?_⟩, ⟨_, (ev.keeps id).row ofConstructor, rfl⟩, ⟨_, ofInvoke, rfl, rfl⟩⟩, fun u => ?_⟩
  · unfold findType? at undefined ⊢
    rw [declared, List.find?_append, undefined, Option.none_or]
    exact List.find?_cons_of_pos (by simp [named])
  · rw [methods]
  · have found : m₃.typeDef t = .ok d := by
      refine typeDef_eq_ok_iff.mpr (lookup_eq_some_iff.mpr ⟨_, place, ?_⟩)
      rw [declared, List.getElem?_concat_length]
    rw [← methods]
    constructor
    · rintro ⟨d', found', listed⟩
      obtain rfl := Except.ok.inj (found.symm.trans found')
      exact listed
    · exact fun listed => ⟨d, found, listed⟩

theorem declareDelegate_along (name : TypeName) (args : Ty) (m : Module) :
    Moves (Along Op.Adds) (declareDelegate name args) m := by
  refine moves_bind (moves_op (.addType _ _ _) trivial rfl m) fun t m₁ _ => ?_
  refine moves_bind (moves_op (.addMethod _) trivial rfl m₁) fun _ m₂ _ => ?_
  exact moves_bind (moves_op (.addMethod _) trivial rfl m₂) fun _ _ _ => moves_pure _

/-! ### Referenced delegates -/

/-- A delegate type that was not referenced before is referenced with the signature of its `Invoke`. -/
theorem referenceDelegate_references {scope : String} (unreferenced : m.findTypeRef? name.full = none) :
    Gives (fun _ m' => ∃ r, m'.findTypeRef? name.full = some r ∧
        r.invoke = some (.ofInstance [.object, args] .void))
      (referenceDelegate name args scope) m := by
  have other : m.typeRefs.find? (·.name == name) = none := by
    refine List.find?_eq_none.mpr fun r member named => ?_
    have sameName : (r.name.full == name.full) = true := by rw [beq_iff_eq.mp named, beq_self_eq_true]
    exact List.find?_eq_none.mp unreferenced r member sameName
  refine gives_get_bind ?_
  dsimp only
  rw [other]
  split
  · exact gives_throw_bind _ _
  · refine gives_lift_bind fun token _ => gives_put_bind
      (gives_pure ⟨⟨token, name, scope, some (.ofInstance [.object, args] .void)⟩, ?_, rfl⟩)
    unfold findTypeRef? at unreferenced ⊢
    rw [List.find?_append, unreferenced, Option.none_or]
    exact List.find?_cons_of_pos (beq_self_eq_true _)

theorem eventArgs_of_reference {r : TypeRef} (undefined : m.findType? name.full = none)
    (found : m.findTypeRef? name.full = some r) (signature : r.invoke = some (.ofInstance [.object, args] .void)) :
    m.eventArgs (.named name) = .ok (argsOfDelegate name args) := by
  unfold Module.eventArgs argsOfDelegate
  dsimp only
  split
  · rfl
  · rw [undefined, found]
    simp [signature, Signature.ofInstance]

end Module

/-! ### Weaving with either kind -/

/-- Whatever is woven for the one event in the first module is woven for the other event in the second one, and it is
the same once its tokens are resolved. Methods and variables are taken to be the same in both modules. -/
structure Event.WeaveAlike (event event' : Event) (m n : Module) : Prop where
  unsubscribe : (n.findMethod? event'.owner (unsubscribeName event'.name)).isSome =
      (m.findMethod? event.owner (unsubscribeName event.name)).isSome →
    Parallel SameUnsubscribe OutOfRows event.addUnsubscribe event'.addUnsubscribe m n
  findWeak : ∀ {method method' : Token} {row row' : Method}, SameMethod m n method method' row row' →
    row'.body.locals.length = row.body.locals.length → ∀ v : Variable,
    Parallel Code.ResolveAlike OutOfReferences (event.findWeakCode method v) (event'.findWeakCode method' v) m n
  makeWeak : ∀ {method method' unsubscribe unsubscribe' : Token} {row row' callee callee' : Method},
    SameMethod m n method method' row row' → row'.body.locals.length = row.body.locals.length →
    SameMethod m n unsubscribe unsubscribe' callee callee' → ∀ v : Variable,
    Parallel Code.ResolveAlike OutOfReferences (event.makeWeakCode method unsubscribe v)
      (event'.makeWeakCode method' unsubscribe' v) m n

theorem Event.Alike.weaveAlike {n : Module} {event event' : Event} (alike : event.Alike m n event')
    (placed : m.Placed) (placed' : n.Placed) (typed : event.Typed m) (typed' : event'.Typed n) :
    event.WeaveAlike event' m n where
  unsubscribe := addUnsubscribe_parallel placed placed' typed typed' alike
  findWeak := findWeakCode_parallel placed placed' typed.backed typed'.backed alike
  makeWeak := makeWeakCode_parallel placed placed' typed.backed typed'.backed alike

/-- A delegate type is declared in one copy of a module and referenced in another one. As long as it stays the one
that its name leads to, it has the same event arguments in both. Fields of the type that are the same but for the
numbers of rows have events with the same closed type and the same conversions, and whatever becomes of the two
modules, these events are woven alike. -/
theorem declared_and_referenced_alike {refs : HelperRefs} {D₀ D R₀ R : Module} {t' : Token} {scope : String}
    {P S Q T : Op → Prop} (imported : Imported P refs m) (undefined : m.findType? name.full = none)
    (unreferenced : m.findTypeRef? name.full = none) (declared : declareDelegate name args m = .ok t D₀)
    (spared : Along (fun op => ∀ u, D₀.Lists t u → ¬ op.Touches u) D₀ D)
    (referenced : referenceDelegate name args scope m = .ok t' R₀) (grown : Along S R₀ R)
    (foreign : R.findType? name.full = none) :
    D.eventArgs (.named name) = .ok (argsOfDelegate name args) ∧
      R.eventArgs (.named name) = .ok (argsOfDelegate name args) ∧
      ∀ {field field' : Token} {target : FieldTarget}, D.fieldTarget field = .ok target →
        R.fieldTarget field' = .ok target → target.ty = .named name → ∀ settings,
        ∃ event event', Event.ofField D field refs settings = .ok event ∧
          Event.ofField R field' refs settings = .ok event' ∧
          event.closed = .closedHandler (argsOfDelegate name args) ∧ event'.closed = event.closed ∧
          event'.isGeneric = event.isGeneric ∧
          ∀ D₁ R₁, Along Q D D₁ → Along T R R₁ → event.WeaveAlike event' D₁ R₁ := by
  have reached : Imported (fun _ => True) refs m := imported.imp fun _ _ => trivial
  have declares : Along Op.Adds m D₀ := (declareDelegate_along name args m).of_ok declared
  have references : Along Op.Adds m R₀ :=
    (moves_op (.addTypeRef name scope _) trivial rfl m : Moves _ (referenceDelegate name args scope) m).of_ok referenced
  obtain ⟨placed, names, owned⟩ :=
    ((reached.along (declares.imp fun _ _ => trivial)).along (spared.imp fun _ _ => trivial)).facts
  obtain ⟨placed', names', owned'⟩ :=
    ((reached.along (references.imp fun _ _ => trivial)).along (grown.imp fun _ _ => trivial)).facts
  obtain ⟨c, i, asDelegate, lists⟩ := declareDelegate_declares undefined t D₀ declared
  have derived := (asDelegate.along spared fun op spares u own => spares u ((lists u).mpr own)).eventArgs placed
  obtain ⟨r, found, signature⟩ := referenceDelegate_references unreferenced t' R₀ referenced
  have derived' := eventArgs_of_reference foreign (grown.grows.findTypeRef? found) signature
  refine ⟨derived, derived', fun leads leads' ofDelegate settings => ?_⟩
  obtain ⟨event, event', made, made', closed, alike⟩ := Event.alike_of_args names names' leads leads'
    (ofDelegate ▸ derived) (ofDelegate ▸ derived') settings
  refine ⟨event, event', made, made', closed, alike.closed, alike.isGeneric, fun D₁ R₁ along along' => ?_⟩
  have ev : Evolves (fun _ => True) D D₁ := along.evolves fun _ _ _ _ => trivial
  have ev' : Evolves (fun _ => True) R R₁ := along'.evolves fun _ _ _ _ => trivial
  exact (alike.grow ev.grows ev'.grows).weaveAlike (ev.placed placed) (ev'.placed placed')
    ((Event.typed_of_ofField names owned made).grow ev.grows)
    ((Event.typed_of_ofField names' owned' made').grow ev'.grows)

namespace Ticker

/-! The ticker with an event of a delegate type of its own, or of another module. -/

def strike : TypeName := ⟨"Sample", "StrikeHandler"⟩

def strikeArgs : Ty := .named ⟨"Sample", "StrikeArgs"⟩

def strikeDeclared : Module := endState (declareDelegate strike strikeArgs declared)

def strikeReferenced : Module := endState (referenceDelegate strike strikeArgs "Bells" declared)

def struck : Token := .ofRow .field 2

def strikeAdd : Method :=
  ({ accessor "add_Struck" with params := [⟨some "value", .named strike⟩] } : MethodDecl).row publisher

/-- A field of the delegate type, and an accessor with a variable. The number of the accessor differs. -/
def strikeOps (add : Token) : List Op :=
  [.addField publisher "Struck" .privateFlag (.named strike), .addMethod strikeAdd, .addLocal add (.named strike)]

def ownStrike : Module := (strikeOps (.ofRow .method 6)).foldl (fun m op => op.apply m) strikeDeclared

def foreignStrike : Module := (strikeOps (.ofRow .method 4)).foldl (fun m op => op.apply m) strikeReferenced

def struckTarget : FieldTarget := ⟨.named ⟨"Sample", "Ticker"⟩, "Struck", .privateFlag, .named strike⟩

def struckEvent : Event :=
  { Ticker.event.event with
    field := struck, name := "Struck", handler := .named strike, closed := .closedHandler strikeArgs }

def strikeAddRow (token : Token) : Method :=
  { strikeAdd with token, body := ⟨[.plain .ret], [⟨0, .named strike⟩], true⟩ }

theorem ownStrike_spared :
    Along (fun op => ∀ u, strikeDeclared.Lists (.ofRow .typeDef 3) u → ¬ op.Touches u) strikeDeclared ownStrike := by
  have listed : (strikeDeclared.typeDef (.ofRow .typeDef 3)).toOption.map (·.methods) =
      some [.ofRow .method 4, .ofRow .method 5] := by decide +kernel
  refine .operated (fun op member u lists touches => ?_) _
  obtain ⟨d, found, own⟩ := lists
  rw [found] at listed
  have methods : d.methods = [.ofRow .method 4, .ofRow .method 5] := Option.some.inj listed
  rw [methods] at own
  simp only [strikeOps, List.mem_cons, List.not_mem_nil, or_false] at member
  rcases member with rfl | rfl | rfl
  · exact touches
  · exact touches
  · obtain rfl : u = .ofRow .method 6 := touches
    exact absurd own (by decide)

theorem strikeAdd_same :
    SameMethod ownStrike foreignStrike (.ofRow .method 6) (.ofRow .method 4) (strikeAddRow (.ofRow .method 6))
      (strikeAddRow (.ofRow .method 4)) where
  left := eq_ok_of_toOption (by decide +kernel)
  right := eq_ok_of_toOption (by decide +kernel)
  target := ⟨⟨.named ⟨"Sample", "Ticker"⟩, "add_Struck", .ofInstance [.named strike] .void⟩,
    eq_ok_of_toOption (by decide +kernel), eq_ok_of_toOption (by decide +kernel)⟩

/-- The two tickers get methods with numbers of their own, which are the same otherwise. -/
theorem ticker_strikes_alike :
    Imported Op.KeepsOwners helpers declared ∧ declared.findType? strike.full = none ∧
      declared.findTypeRef? strike.full = none ∧
      declareDelegate strike strikeArgs declared = .ok (.ofRow .typeDef 3) strikeDeclared ∧
      Along (fun op => ∀ u, strikeDeclared.Lists (.ofRow .typeDef 3) u → ¬ op.Touches u) strikeDeclared ownStrike ∧
      referenceDelegate strike strikeArgs "Bells" declared = .ok (.ofRow .typeRef 1) strikeReferenced ∧
      Along (fun _ => True) strikeReferenced foreignStrike ∧ foreignStrike.findType? strike.full = none ∧
      ownStrike.eventArgs (.named strike) = .ok strikeArgs ∧
      foreignStrike.eventArgs (.named strike) = .ok strikeArgs ∧
      ownStrike.fieldTarget struck = .ok struckTarget ∧ foreignStrike.fieldTarget struck = .ok struckTarget ∧
      Event.ofField ownStrike struck helpers {} = .ok struckEvent ∧
      Event.ofField foreignStrike struck helpers {} = .ok struckEvent ∧
      (∃ t t' m n, struckEvent.addUnsubscribe ownStrike = .ok t m ∧
        struckEvent.addUnsubscribe foreignStrike = .ok t' n ∧ t ≠ t' ∧ SameUnsubscribe m n t t') ∧
      ∃ code code' m n, struckEvent.findWeakCode (.ofRow .method 6) ⟨0, .named strike⟩ ownStrike = .ok code m ∧
        struckEvent.findWeakCode (.ofRow .method 4) ⟨0, .named strike⟩ foreignStrike = .ok code' n ∧
        code.ResolveAlike m n code' := by
  have undefined : declared.findType? strike.full = none := by decide +kernel
  have unreferenced : declared.findTypeRef? strike.full = none := by decide +kernel
  have own : declareDelegate strike strikeArgs declared = .ok (.ofRow .typeDef 3) strikeDeclared :=
    eq_ok_of_value? (by decide +kernel)
  have referenced : referenceDelegate strike strikeArgs "Bells" declared = .ok (.ofRow .typeRef 1) strikeReferenced :=
    eq_ok_of_value? (by decide +kernel)
  have grown : Along (fun _ => True) strikeReferenced foreignStrike := .operated (fun _ _ => trivial) _
  have still : foreignStrike.findType? strike.full = none := by decide +kernel
  have leads : ownStrike.fieldTarget struck = .ok struckTarget := eq_ok_of_toOption (by decide +kernel)
  have leads' : foreignStrike.fieldTarget struck = .ok struckTarget := eq_ok_of_toOption (by decide +kernel)
  have made : Event.ofField ownStrike struck helpers {} = .ok struckEvent := eq_ok_of_toOption (by decide +kernel)
  have made' : Event.ofField foreignStrike struck helpers {} = .ok struckEvent :=
    eq_ok_of_toOption (by decide +kernel)
  obtain ⟨derived, derived', events⟩ := declared_and_referenced_alike (Q := fun _ => True) (T := fun _ => True)
    declared_imported undefined unreferenced own ownStrike_spared referenced grown still
  obtain ⟨event, event', made₁, made₁', -, -, -, woven⟩ := events leads leads' rfl {}
  obtain rfl := Except.ok.inj (made.symm.trans made₁)
  obtain rfl := Except.ok.inj (made'.symm.trans made₁')
  have alike := woven ownStrike foreignStrike .refl .refl
  have adds : struckEvent.addUnsubscribe ownStrike = .ok (.ofRow .method 7) _ := eq_ok_of_value? (by decide +kernel)
  have adds' : struckEvent.addUnsubscribe foreignStrike = .ok (.ofRow .method 5) _ :=
    eq_ok_of_value? (by decide +kernel)
  have finds : (value? (struckEvent.findWeakCode (.ofRow .method 6) ⟨0, .named strike⟩ ownStrike)).isSome = true := by
    decide +kernel
  have finds' : (value? (struckEvent.findWeakCode (.ofRow .method 4) ⟨0, .named strike⟩ foreignStrike)).isSome =
      true := by decide +kernel
  obtain ⟨code, found⟩ := Option.isSome_iff_exists.mp finds
  obtain ⟨code', found'⟩ := Option.isSome_iff_exists.mp finds'
  have ran := eq_ok_of_value? found
  have ran' := eq_ok_of_value? found'
  have unsubscribes := alike.unsubscribe (by decide +kernel)
  have codes := alike.findWeak strikeAdd_same rfl ⟨0, .named strike⟩
  exact ⟨declared_imported, undefined, unreferenced, own, ownStrike_spared, referenced, grown, still, derived, derived',
    leads, leads', made, made', ⟨_, _, _, _, adds, adds', by decide, unsubscribes.related _ _ _ _ adds adds'⟩,
    code, code', _, _, ran, ran', codes.related _ _ _ _ ran ran'⟩

end Ticker

end WeakSubscription
