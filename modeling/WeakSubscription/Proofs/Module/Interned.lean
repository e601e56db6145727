import WeakSubscription.Proofs.Module.Extension
import WeakSubscription.Proofs.Module.TypeNames

/-!
# Interning

Four operations give a token for what they are asked for, and add a row only if there is none. References to members
and instantiations are found by all that they are made of. A type is found by its name if it has one, among
definitions first, then among references, and else among the imported types. What the token means is what was asked
for, from then on, so a token answers one request only. The same request finds the same row again, for a name as long
as it gets no further row.
-/

namespace WeakSubscription.Module

open Tracked

variable {m m' m₁ : Module} {t : Token} {ty : Ty} {name : TypeName}

/-! ### Names that get no further row -/

theorem Grows.names_prefix (grows : Grows m m') : m.types.map (·.name) <+: m'.types.map (·.name) := by
  refine List.prefix_iff_getElem?.mpr fun i inside => ?_
  rw [List.length_map] at inside
  obtain ⟨d', read', -, name, -⟩ := grows.types (List.getElem?_eq_getElem inside)
  rw [List.getElem?_map, read', Option.map_some, name, List.getElem_map]

theorem Grows.count_names (grows : Grows m m') (same : m'.typeNames.count name = m.typeNames.count name) :
    (m'.types.map (·.name)).count name = (m.types.map (·.name)).count name ∧
      (m'.typeRefs.map (·.name)).count name = (m.typeRefs.map (·.name)).count name := by
  have defined := grows.names_prefix.sublist.count_le name
  have referenced := (grows.typeRefs.map (·.name)).sublist.count_le name
  rw [typeNames, typeNames, List.count_append, List.count_append] at same
  omega

theorem Grows.undefined (grows : Grows m m') (same : m'.typeNames.count name = m.typeNames.count name)
    (undefined : name ∉ m.types.map (·.name)) : name ∉ m'.types.map (·.name) :=
  List.count_eq_zero.mp ((grows.count_names same).1.trans (List.count_eq_zero.mpr undefined))

theorem Grows.unreferenced (grows : Grows m m') (same : m'.typeNames.count name = m.typeNames.count name)
    (unreferenced : name ∉ m.typeRefs.map (·.name)) : name ∉ m'.typeRefs.map (·.name) :=
  List.count_eq_zero.mp ((grows.count_names same).2.trans (List.count_eq_zero.mpr unreferenced))

theorem find?_named_eq_none_iff {α : Type} {rows : List α} {named : α → TypeName} :
    rows.find? (named · == name) = none ↔ name ∉ rows.map named := by
  simp [List.find?_eq_none]

/-! ### Imported types -/

def definedAs? (m : Module) (name : TypeName) : Option Token := (m.types.find? (·.name == name)).map (·.token)

def referencedAs? (m : Module) (name : TypeName) : Option Token := (m.typeRefs.find? (·.name == name)).map (·.token)

/-- The token of the row that a type has for its name. -/
def namedAs? (m : Module) : Ty → Option Token
  | .named name => (m.definedAs? name).or (m.referencedAs? name)
  | .void | .object | .intPtr | .inst _ _ | .typeParam _ | .methodParam _ => none

/-- The token that a type is imported as, if there is one. -/
def importedAs? (m : Module) (ty : Ty) : Option Token :=
  (m.namedAs? ty).or ((m.typeSpecs.idxOf? ty).map fun i => .ofRow .typeSpec (i + 1))

theorem Grows.definedAs? (grows : Grows m m') (found : m.definedAs? name = some t) : m'.definedAs? name = some t := by
  obtain ⟨d, first, rfl⟩ := Option.map_eq_some_iff.mp found
  have onward : Continues (fun d d' => d'.token = d.token ∧ d'.name = d.name ∧ d'.base = d.base) m.types m'.types :=
    fun _ _ read => grows.types read
  obtain ⟨d', first', token, -⟩ := onward.find? (fun d d' same => by rw [same.2.1]) first
  rw [Module.definedAs?, first', Option.map_some, token]

theorem Grows.referencedAs? (grows : Grows m m') (found : m.referencedAs? name = some t) :
    m'.referencedAs? name = some t := by
  obtain ⟨r, first, rfl⟩ := Option.map_eq_some_iff.mp found
  rw [Module.referencedAs?, grows.typeRefs.find?_eq_some first, Option.map_some]

theorem definedAs?_eq_none_iff : m.definedAs? name = none ↔ name ∉ m.types.map (·.name) := by
  rw [definedAs?, Option.map_eq_none_iff, find?_named_eq_none_iff]

theorem referencedAs?_eq_none_iff : m.referencedAs? name = none ↔ name ∉ m.typeRefs.map (·.name) := by
  rw [referencedAs?, Option.map_eq_none_iff, find?_named_eq_none_iff]

/-- A name without a row, or with one, has the same row where none of that name came. -/
theorem Grows.namedAs?_eq (grows : Grows m m') (same : m'.typeNames.count name = m.typeNames.count name) :
    m'.namedAs? (.named name) = m.namedAs? (.named name) := by
  simp only [namedAs?]
  cases defined : m.definedAs? name with
  | some t => rw [grows.definedAs? defined, Option.some_or, Option.some_or]
  | none =>
    have undefined' := grows.undefined same (definedAs?_eq_none_iff.mp defined)
    rw [definedAs?_eq_none_iff.mpr undefined', Option.none_or, Option.none_or]
    cases referenced : m.referencedAs? name with
    | some t => exact grows.referencedAs? referenced
    | none =>
      have unreferenced' := grows.unreferenced same (referencedAs?_eq_none_iff.mp referenced)
      exact referencedAs?_eq_none_iff.mpr unreferenced'

/-- A type is imported as the same token again, for a name where none of that name came. -/
theorem Grows.importedAs? (grows : Grows m m') (found : m.importedAs? ty = some t)
    (same : ∀ name, ty = .named name → m'.typeNames.count name = m.typeNames.count name) :
    m'.importedAs? ty = some t := by
  have names : m'.namedAs? ty = m.namedAs? ty := by
    cases ty with
    | named name => exact grows.namedAs?_eq (same name rfl)
    | void | object | intPtr | inst _ _ | typeParam _ | methodParam _ => rfl
  rw [Module.importedAs?, names]
  rcases Option.or_eq_some_iff.mp found with named | ⟨unnamed, spec⟩
  · rw [named, Option.some_or]
  · obtain ⟨i, place, rfl⟩ := Option.map_eq_some_iff.mp spec
    have place' : m'.typeSpecs.idxOf? ty = some i := grows.typeSpecs.findIdx?_eq_some place
    rw [unnamed, place', Option.none_or, Option.map_some]

theorem importType_eq (ty : Ty) : importType ty = (do
    let m ← get
    match m.namedAs? ty with
    | some token => return token
    | none =>
      match m.typeSpecs.idxOf? ty with
      | some i => return .ofRow .typeSpec (i + 1)
      | none =>
        let token ← nextToken .typeSpec m.typeSpecs.length
        Tracked.put { m with typeSpecs := m.typeSpecs ++ [ty] }
        return token : Edit Token) := by
  cases ty <;> rfl

theorem importType_of_importedAs? (found : m.importedAs? ty = some t) : importType ty m = .ok t m := by
  rw [importType_eq]
  rcases Option.or_eq_some_iff.mp found with named | ⟨unnamed, spec⟩
  · simp [named]
  · obtain ⟨i, place, rfl⟩ := Option.map_eq_some_iff.mp spec
    simp [unnamed, place]

theorem importType_finds (ty : Ty) (m : Module) : Gives (fun t m' => m'.importedAs? ty = some t) (importType ty) m := by
  rw [importType_eq]
  apply gives_get_bind
  split
  · rename_i token named
    refine gives_pure ?_
    rw [importedAs?, named, Option.some_or]
  · rename_i unnamed
    split
    · rename_i i place
      refine gives_pure ?_
      rw [importedAs?, unnamed, place, Option.none_or, Option.map_some]
    · rename_i missing
      refine gives_lift_bind fun token next => gives_put_bind (gives_pure ?_)
      obtain ⟨-, rfl⟩ := nextToken_ok next
      have last : (m.typeSpecs ++ [ty]).idxOf? ty = some m.typeSpecs.length := by
        refine List.idxOf?_eq_some_iff.mpr ⟨by simp, by simp, fun j before same => ?_⟩
        rw [List.getElem_append_left before] at same
        exact List.idxOf?_eq_none_iff.mp missing (same ▸ List.getElem_mem before)
      have unnamed' : namedAs? { m with typeSpecs := m.typeSpecs ++ [ty] } ty = none := unnamed
      rw [importedAs?, unnamed', Option.none_or]
      exact congrArg (Option.map _) last

/-! ### Requests -/

/-- An operation that interns. -/
inductive Interner where
  | importType
  | addTypeRef
  | addMemberRef
  | addMethodSpec

namespace Interner

/-- What the operation is asked for. -/
def Request : Interner → Type
  | importType => Ty
  | addTypeRef => TypeName × String × Option Signature
  | addMemberRef => Ty × String × Signature
  | addMethodSpec => Token × List Ty

def run : (i : Interner) → i.Request → Edit Token
  | importType, ty => Module.importType ty
  | addTypeRef, (name, scope, invoke) => Module.addTypeRef name scope invoke
  | addMemberRef, (parent, name, signature) => Module.addMemberRef parent name signature
  | addMethodSpec, (method, args) => Module.addMethodSpec method args

/-- The token stands for what was asked for, and nothing else. -/
def StandsFor (m : Module) (t : Token) : (i : Interner) → i.Request → Prop
  | importType, ty => m.resolveType t = .ok ty
  | addTypeRef, (name, scope, invoke) => m.typeRef t = .ok ⟨t, name, scope, invoke⟩
  | addMemberRef, (parent, name, signature) => m.memberRef t = .ok ⟨t, parent, name, signature⟩
  | addMethodSpec, (method, args) => m.methodSpec t = .ok ⟨t, method, args⟩

/-- The row of the token is the one that the operation finds. -/
def Finds (m : Module) (t : Token) : (i : Interner) → i.Request → Prop
  | importType, ty => m.importedAs? ty = some t
  | addTypeRef, (name, scope, invoke) => name ∉ m.types.map (·.name) ∧
      ∃ row, m.typeRefs.find? (·.name == name) = some row ∧ row.scope = scope ∧ row.invoke = invoke ∧ row.token = t
  | addMemberRef, (parent, name, signature) => ∃ row,
      m.memberRefs.find? (fun r => r.parent == parent && r.name == name && r.signature == signature) = some row ∧
        row.token = t
  | addMethodSpec, (method, args) => ∃ ref row, m.memberRef method = .ok ref ∧ ref.signature.arity = args.length ∧
      m.methodSpecs.find? (fun s => s.method == method && s.args == args) = some row ∧ row.token = t

/-- The name by which the operation looks for a row. -/
def name? : (i : Interner) → i.Request → Option TypeName
  | importType, .named name => some name
  | addTypeRef, (name, _, _) => some name
  | importType, .void | importType, .object | importType, .intPtr | importType, .inst _ _ | importType, .typeParam _
  | importType, .methodParam _ | addMemberRef, _ | addMethodSpec, _ => none

variable {i : Interner} {asked other : i.Request}

theorem moves_run (i : Interner) (asked : i.Request) (m : Module) :
    Moves (Evolves fun _ => False) (i.run asked) m := by
  cases i with
  | importType => exact moves_importType asked m
  | addTypeRef => exact moves_addTypeRef _ _ _ m
  | addMemberRef => exact moves_addMemberRef _ _ _ m
  | addMethodSpec => exact moves_addMethodSpec _ _ m

theorem standsFor_of_run (placed : m.Placed) (ran : i.run asked m = .ok t m') : StandsFor m' t i asked := by
  cases i with
  | importType => exact importType_gives asked placed _ _ ran
  | addTypeRef => exact addTypeRef_gives _ _ _ placed _ _ ran
  | addMemberRef => exact addMemberRef_gives _ _ _ placed _ _ ran
  | addMethodSpec => exact addMethodSpec_gives _ _ placed _ _ ran

theorem finds_of_run (ran : i.run asked m = .ok t m') : Finds m' t i asked := by
  cases i with
  | importType => exact importType_finds asked m _ _ ran
  | addTypeRef =>
    obtain ⟨undefined, found⟩ := addTypeRef_finds _ _ _ m _ _ ran
    refine ⟨fun defined => ?_, found⟩
    obtain ⟨d, member, own⟩ := List.mem_map.mp defined
    exact undefined d member own
  | addMemberRef => exact addMemberRef_finds _ _ _ m _ _ ran
  | addMethodSpec => exact addMethodSpec_finds _ _ m _ _ ran

/-- Where the row is there, the operation gives its token and changes nothing. -/
theorem run_of_finds (finds : Finds m t i asked) : i.run asked m = .ok t m := by
  cases i with
  | importType => exact importType_of_importedAs? finds
  | addTypeRef =>
    obtain ⟨undefined, row, found, scope, invoke, rfl⟩ := finds
    show Module.addTypeRef _ _ _ m = _
    rw [← scope, ← invoke]
    exact addTypeRef_of_row (fun d member own => undefined (List.mem_map.mpr ⟨d, member, own⟩)) found
  | addMemberRef =>
    obtain ⟨row, found, rfl⟩ := finds
    exact addMemberRef_of_row found
  | addMethodSpec =>
    obtain ⟨ref, row, known, arity, found, rfl⟩ := finds
    exact addMethodSpec_of_row known arity found

theorem standsFor_grow (grows : Grows m m') (stands : StandsFor m t i asked) : StandsFor m' t i asked := by
  cases i with
  | importType => exact grows.resolveType stands
  | addTypeRef => exact typeRef_eq_ok_iff.mpr (lookup_of_longer grows.typeRefs (typeRef_eq_ok_iff.mp stands))
  | addMemberRef => exact grows.memberRef stands
  | addMethodSpec => exact grows.methodSpec stands

theorem finds_grow (grows : Grows m m') (finds : Finds m t i asked)
    (same : ∀ name, i.name? asked = some name → m'.typeNames.count name = m.typeNames.count name) :
    Finds m' t i asked := by
  cases i with
  | importType =>
    refine grows.importedAs? finds fun name own => same name ?_
    rw [own]
    rfl
  | addTypeRef =>
    obtain ⟨undefined, row, found, parts⟩ := finds
    exact ⟨grows.undefined (same _ rfl) undefined, row, grows.typeRefs.find?_eq_some found, parts⟩
  | addMemberRef =>
    obtain ⟨row, found, own⟩ := finds
    exact ⟨row, grows.memberRefs.find?_eq_some found, own⟩
  | addMethodSpec =>
    obtain ⟨ref, row, known, arity, found, own⟩ := finds
    exact ⟨ref, row, grows.memberRef known, arity, grows.methodSpecs.find?_eq_some found, own⟩

theorem eq_of_standsFor (stands : StandsFor m t i asked) (stands' : StandsFor m t i other) : asked = other := by
  cases i with
  | importType => exact Except.ok.inj (stands.symm.trans stands')
  | addTypeRef =>
    obtain ⟨-, name, scope, invoke⟩ := TypeRef.mk.inj (Except.ok.inj (stands.symm.trans stands'))
    exact Prod.ext name (Prod.ext scope invoke)
  | addMemberRef =>
    obtain ⟨-, parent, name, signature⟩ := MemberRef.mk.inj (Except.ok.inj (stands.symm.trans stands'))
    exact Prod.ext parent (Prod.ext name signature)
  | addMethodSpec =>
    obtain ⟨-, method, args⟩ := MethodSpec.mk.inj (Except.ok.inj (stands.symm.trans stands'))
    exact Prod.ext method args

end Interner

/-! ### Instantiations of a method -/

/-- An instantiation is of a member reference, so no method is among its own instantiations. -/
theorem nodup_instantiationsOf (placed : m.Placed) (fit : m.SpecsFit) (method : Token) :
    (m.instantiationsOf method).Nodup := by
  have rows : (m.methodSpecs.filter (·.method == method)).map (·.token) |>.Nodup :=
    (nodup_of_numbered placed.methodSpecs).sublist (List.filter_sublist.map _)
  refine List.nodup_cons.mpr ⟨fun itself => ?_, rows⟩
  obtain ⟨s, inside, own⟩ := List.mem_map.mp itself
  obtain ⟨member, of⟩ := List.mem_filter.mp inside
  obtain ⟨ref, known, -⟩ := fit s member
  have isRef : s.method.table = Table.memberRef.id := inTable_of_lookup (memberRef_eq_ok_iff.mp known)
  have isSpec : s.token.table = Table.methodSpec.id := inTable_of_lookup (placed.methodSpecs.lookup_of_mem member)
  rw [beq_iff_eq.mp of, ← own, isSpec] at isRef
  exact absurd isRef (by decide)

/-! ### Any history -/

/-- In a module of any history, what interning gives stands for what was asked for, at once and in all that becomes of
the module. Other requests of the same operation get other tokens, and the same request gets the same token and
changes nothing, unless it is by a name and a row of that name came. A method and each of its instantiations are
listed once. -/
theorem interned (reached : Reachable m) :
    (∀ (i : Interner) (asked : i.Request) (t : Token) (m' : Module), i.run asked m = .ok t m' →
      Interner.StandsFor m' t i asked ∧
      ∀ m₁, Along (fun _ => True) m' m₁ →
        Interner.StandsFor m₁ t i asked ∧
        ((∀ name, i.name? asked = some name → m₁.typeNames.count name = m'.typeNames.count name) →
          i.run asked m₁ = .ok t m₁) ∧
        ∀ (other : i.Request) (t' : Token) (m₂ : Module), other ≠ asked → i.run other m₁ = .ok t' m₂ → t' ≠ t) ∧
    ∀ method, (m.instantiationsOf method).Nodup ∧
      ∀ t, t ∈ m.instantiationsOf method ↔ t = method ∨ ∃ args, m.methodSpec t = .ok ⟨t, method, args⟩ := by
  have placed := reached.placed
  constructor
  · intro i asked t m' ran
    have stands := Interner.standsFor_of_run placed ran
    have placed' := ((i.moves_run asked m).of_ok ran).placed placed
    refine ⟨stands, fun m₁ along => ?_⟩
    have stands₁ := Interner.standsFor_grow along.grows stands
    refine ⟨stands₁, fun same => ?_, fun other t' m₂ differs ran' => ?_⟩
    · exact Interner.run_of_finds (Interner.finds_grow along.grows (Interner.finds_of_run ran) same)
    · rintro rfl
      have onward : Evolves (fun _ => True) m' m₁ := along.evolves fun _ _ _ _ => trivial
      have stands₂ := Interner.standsFor_of_run (onward.placed placed') ran'
      have kept := Interner.standsFor_grow ((i.moves_run other m₁).of_ok ran').grows stands₁
      exact differs (Interner.eq_of_standsFor stands₂ kept)
  · exact fun method =>
      ⟨nodup_instantiationsOf placed reached.specsFit method, fun t => placed.mem_instantiationsOf_iff⟩

namespace Detour

/-- A type that is nested, with a parameter inside. -/
def nested : Ty := .inst .action [.inst .genericEventHandler [.methodParam 0], .named ⟨"Sample", "Box"⟩]

def requested : Module := endState (importType nested made)

/-- A method that comes and goes, a type of another name, and an imported type. -/
def later : List Op :=
  [.addMethod ((decl "fourth").row box), .rollbackMethod (.ofRow .method 3),
   .addType ⟨"Sample", "Lid"⟩ .publicFlag (some .object), .importType (.inst .action [nested])]

theorem interned_detour : Reachable made ∧ importType nested made = .ok (.ofRow .typeSpec 2) requested ∧
    Along (fun _ => True) requested (applyAll later requested) ∧
    (applyAll later requested).resolveType (.ofRow .typeSpec 2) = .ok nested ∧
    importType nested (applyAll later requested) = .ok (.ofRow .typeSpec 2) (applyAll later requested) ∧
    importType (.inst .action [nested]) (applyAll later requested) =
      .ok (.ofRow .typeSpec 3) (applyAll later requested) ∧ Token.ofRow .typeSpec 3 ≠ .ofRow .typeSpec 2 ∧
    (made.instantiationsOf (.ofRow .memberRef 1)).Nodup ∧
    .ofRow .methodSpec 1 ∈ made.instantiationsOf (.ofRow .memberRef 1) := by
  have reached : Reachable made := (built.imp fun _ _ => trivial).reachable
  have asked : importType nested made = .ok (.ofRow .typeSpec 2) requested :=
    eq_ok_of_value? (by decide +kernel)
  have along : Along (fun _ => True) requested (applyAll later requested) := .operated (fun _ _ => trivial) _
  have wider : importType (.inst .action [nested]) (applyAll later requested) =
      .ok (.ofRow .typeSpec 3) (applyAll later requested) := eq_ok_of_parts (by decide +kernel)
  obtain ⟨requests, lists⟩ := interned reached
  obtain ⟨-, lasting⟩ := requests .importType nested _ _ asked
  obtain ⟨stands, again, others⟩ := lasting _ along
  obtain ⟨nodup, members⟩ := lists (.ofRow .memberRef 1)
  have differs : Ty.inst .action [nested] ≠ nested := by decide
  have spec : made.methodSpec (.ofRow .methodSpec 1) = .ok ⟨.ofRow .methodSpec 1, .ofRow .memberRef 1, [.object]⟩ :=
    eq_ok_of_toOption (by decide +kernel)
  exact ⟨reached, asked, along, stands, again nofun, wider, others _ _ _ differs wider, nodup,
    (members _).mpr (.inr ⟨_, spec⟩)⟩

end Detour

end WeakSubscription.Module
