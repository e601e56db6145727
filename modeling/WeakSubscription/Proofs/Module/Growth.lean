import WeakSubscription.Proofs.Module.Placement
import WeakSubscription.Proofs.Moves

/-!
# Modules only grow

Edits add rows, and besides that they only change member lists and method bodies; the exception is the
newest method, which can be taken back. `Evolves` says this of two modules, with the tokens of the
methods that were touched set apart. Every edit moves along it, also one that fails, so that tokens keep
their meaning.
-/

namespace WeakSubscription.Module

open Tracked

variable {m m' m'' : Module} {t : Token} {touched : Token → Prop}

/-! ### Rows that stay -/

/-- What the first module says about tokens, methods apart, the second one says too. -/
structure Grows (m m' : Module) : Prop where
  types : ∀ {i : Nat} {d : TypeDef}, m.types[i]? = some d →
    ∃ d', m'.types[i]? = some d' ∧ d'.token = d.token ∧ d'.name = d.name ∧ d'.base = d.base
  typeRefs : m.typeRefs <+: m'.typeRefs
  fields : m.fields <+: m'.fields
  memberRefs : m.memberRefs <+: m'.memberRefs
  methodSpecs : m.methodSpecs <+: m'.methodSpecs
  typeSpecs : m.typeSpecs <+: m'.typeSpecs

namespace Grows

theorem refl (m : Module) : Grows m m :=
  ⟨fun read => ⟨_, read, rfl, rfl, rfl⟩, List.prefix_refl _, List.prefix_refl _, List.prefix_refl _,
    List.prefix_refl _, List.prefix_refl _⟩

theorem trans (first : Grows m m') (later : Grows m' m'') : Grows m m'' where
  types := by
    intro i d read
    obtain ⟨d', read', token', name', base'⟩ := first.types read
    obtain ⟨d'', read'', token'', name'', base''⟩ := later.types read'
    exact ⟨d'', read'', token''.trans token', name''.trans name', base''.trans base'⟩
  typeRefs := first.typeRefs.trans later.typeRefs
  fields := first.fields.trans later.fields
  memberRefs := first.memberRefs.trans later.memberRefs
  methodSpecs := first.methodSpecs.trans later.methodSpecs
  typeSpecs := first.typeSpecs.trans later.typeSpecs

theorem field (grows : Grows m m') {f : Field} (found : m.field t = .ok f) : m'.field t = .ok f :=
  field_eq_ok_iff.mpr (lookup_of_longer grows.fields (field_eq_ok_iff.mp found))

theorem memberRef (grows : Grows m m') {r : MemberRef} (found : m.memberRef t = .ok r) :
    m'.memberRef t = .ok r :=
  memberRef_eq_ok_iff.mpr (lookup_of_longer grows.memberRefs (memberRef_eq_ok_iff.mp found))

theorem methodSpec (grows : Grows m m') {s : MethodSpec} (found : m.methodSpec t = .ok s) :
    m'.methodSpec t = .ok s :=
  methodSpec_eq_ok_iff.mpr (lookup_of_longer grows.methodSpecs (methodSpec_eq_ok_iff.mp found))

theorem typeDef (grows : Grows m m') {d : TypeDef} (found : m.typeDef t = .ok d) :
    ∃ d', m'.typeDef t = .ok d' ∧ d'.token = d.token ∧ d'.name = d.name ∧ d'.base = d.base := by
  obtain ⟨i, place, read⟩ := lookup_eq_some_iff.mp (typeDef_eq_ok_iff.mp found)
  obtain ⟨d', read', same⟩ := grows.types read
  exact ⟨d', typeDef_eq_ok_iff.mpr (lookup_eq_some_iff.mpr ⟨i, place, read'⟩), same⟩

theorem resolveType (grows : Grows m m') {ty : Ty} (found : m.resolveType t = .ok ty) :
    m'.resolveType t = .ok ty := by
  unfold Module.resolveType at found ⊢
  cases table : t.table? with
  | none =>
    simp only [table] at found
    cases found
  | some table' =>
    simp only [table] at found ⊢
    cases table' with
    | typeDef =>
      obtain ⟨d, row, rfl⟩ := except_map_eq_ok_iff.mp found
      obtain ⟨d', row', -, name, -⟩ := grows.typeDef row
      exact except_map_eq_ok_iff.mpr ⟨d', row', by rw [TypeDef.ty, name, TypeDef.ty]⟩
    | typeRef =>
      obtain ⟨r, row, rfl⟩ := except_map_eq_ok_iff.mp found
      have row' := lookup_of_longer grows.typeRefs (typeRef_eq_ok_iff.mp row)
      exact except_map_eq_ok_iff.mpr ⟨r, typeRef_eq_ok_iff.mpr row', rfl⟩
    | typeSpec =>
      exact typeSpec_eq_ok_iff.mpr (lookup_of_longer grows.typeSpecs (typeSpec_eq_ok_iff.mp found))
    | field | method | memberRef | methodSpec => cases found

end Grows

/-! ### Methods that stay -/

/-- The type definition lists the method. -/
def Lists (m : Module) (owner method : Token) : Prop := ∃ d, m.typeDef owner = .ok d ∧ method ∈ d.methods

/-- The method keeps its row, and the types that list it. -/
structure Keeps (t : Token) (m m' : Module) : Prop where
  row : ∀ {row : Method}, m.method t = .ok row → m'.method t = .ok row
  listed : ∀ {owner : Token}, m.Lists owner t → m'.Lists owner t

theorem Keeps.of_eq (types : m'.types = m.types) (methods : m'.methods = m.methods) : Keeps t m m' where
  row := by
    intro row found
    rwa [method_eq_ok_iff, methods, ← method_eq_ok_iff]
  listed := by
    rintro owner ⟨d, found, member⟩
    refine ⟨d, ?_, member⟩
    rwa [typeDef_eq_ok_iff, types, ← typeDef_eq_ok_iff]

/-- How a module may differ from an earlier one: rows stay at their places and keep their meaning, and
methods that were not touched stay as they are. -/
structure Evolves (touched : Token → Prop) (m m' : Module) : Prop where
  placed : m.Placed → m'.Placed
  grows : Grows m m'
  keeps : ∀ {t : Token}, ¬ touched t → Keeps t m m'

instance : Std.Refl (Evolves touched) where
  refl m := ⟨fun placed => placed, .refl m, fun _ => .of_eq rfl rfl⟩

instance : IsTrans Module (Evolves touched) where
  trans _ _ _ first later :=
    ⟨fun placed => later.placed (first.placed placed), first.grows.trans later.grows, fun spared =>
      ⟨fun found => (later.keeps spared).row ((first.keeps spared).row found),
        fun listed => (later.keeps spared).listed ((first.keeps spared).listed listed)⟩⟩

theorem Evolves.imp {touched' : Token → Prop} (evolves : Evolves touched m m')
    (h : ∀ t, touched t → touched' t) : Evolves touched' m m' :=
  ⟨evolves.placed, evolves.grows, fun spared => evolves.keeps fun hit => spared (h _ hit)⟩

/-- What an edit that touches no method leaves as it was. -/
theorem evolves_of_ok {α : Type} {x : Edit α} {a : α} (moves : Moves (Evolves fun _ => False) x m)
    (ran : x m = .ok a m') : Evolves (fun _ => False) m m' :=
  moves.of_ok ran

/-! ### Types and references -/

theorem moves_addType (name : TypeName) (flags : TypeFlags) (base : Option Ty) (m : Module) :
    Moves (Evolves touched) (addType name flags base) m := by
  refine moves_get_bind (moves_lift_bind fun token next => ?_)
  obtain ⟨fits, rfl⟩ := nextToken_ok next
  refine moves_bind (moves_put ⟨?_, ?_, ?_⟩) fun _ _ _ => moves_pure _
  · intro placed
    exact { placed with types := placed.types.append fits rfl }
  · refine { Grows.refl m with types := ?_ }
    intro i d read
    have inside : i < m.types.length := (List.getElem?_eq_some_iff.mp read).1
    exact ⟨d, by rw [List.getElem?_append_left inside, read], rfl, rfl, rfl⟩
  · intro t _
    refine ⟨fun found => found, ?_⟩
    rintro owner ⟨d, found, member⟩
    refine ⟨d, typeDef_eq_ok_iff.mpr ?_, member⟩
    exact lookup_of_longer (List.prefix_append _ _) (typeDef_eq_ok_iff.mp found)

theorem moves_addTypeRef (name : TypeName) (scope : String) (invoke : Option Signature) (m : Module) :
    Moves (Evolves touched) (addTypeRef name scope invoke) m := by
  refine moves_get_bind ?_
  dsimp only
  split
  · exact moves_throw_bind _ _
  · split
    · split
      · exact moves_pure _
      · exact moves_throw _
    · refine moves_lift_bind fun token next => ?_
      obtain ⟨fits, rfl⟩ := nextToken_ok next
      refine moves_bind (moves_put ⟨?_, ?_, fun _ => .of_eq rfl rfl⟩) fun _ _ _ => moves_pure _
      · intro placed
        exact { placed with typeRefs := placed.typeRefs.append fits rfl }
      · exact { Grows.refl m with typeRefs := List.prefix_append _ _ }

theorem moves_importType (ty : Ty) (m : Module) : Moves (Evolves touched) (importType ty) m := by
  refine moves_get_bind ?_
  dsimp only
  split
  · exact moves_pure _
  · split
    · exact moves_pure _
    · refine moves_lift_bind fun token next => ?_
      obtain ⟨fits, rfl⟩ := nextToken_ok next
      refine moves_bind (moves_put ⟨?_, ?_, fun _ => .of_eq rfl rfl⟩) fun _ _ _ => moves_pure _
      · intro placed
        refine { placed with typeSpecs := ?_ }
        rwa [List.length_append, List.length_singleton]
      · exact { Grows.refl m with typeSpecs := List.prefix_append _ _ }

theorem moves_addMemberRef (parent : Ty) (name : String) (signature : Signature) (m : Module) :
    Moves (Evolves touched) (addMemberRef parent name signature) m := by
  refine moves_get_bind ?_
  dsimp only
  split
  · exact moves_pure _
  · refine moves_lift_bind fun token next => ?_
    obtain ⟨fits, rfl⟩ := nextToken_ok next
    refine moves_bind (moves_put ⟨?_, ?_, fun _ => .of_eq rfl rfl⟩) fun _ _ _ => moves_pure _
    · intro placed
      exact { placed with memberRefs := placed.memberRefs.append fits rfl }
    · exact { Grows.refl m with memberRefs := List.prefix_append _ _ }

theorem moves_addMethodSpec (method : Token) (args : List Ty) (m : Module) :
    Moves (Evolves touched) (addMethodSpec method args) m := by
  refine moves_get_bind (moves_lift_bind fun ref _ => ?_)
  dsimp only
  split
  · exact moves_throw_bind _ _
  · split
    · exact moves_pure _
    · refine moves_lift_bind fun token next => ?_
      obtain ⟨fits, rfl⟩ := nextToken_ok next
      refine moves_bind (moves_put ⟨?_, ?_, fun _ => .of_eq rfl rfl⟩) fun _ _ _ => moves_pure _
      · intro placed
        exact { placed with methodSpecs := placed.methodSpecs.append fits rfl }
      · exact { Grows.refl m with methodSpecs := List.prefix_append _ _ }

/-! ### Members -/

section MemberLists

variable {i : Nat} {change : TypeDef → TypeDef} {types : List TypeDef}

/-- Changing the member lists of a type moves no row. -/
theorem types_modify (same : ∀ d, (change d).token = d.token ∧ (change d).name = d.name ∧
      (change d).base = d.base) {j : Nat} {d : TypeDef} (read : types[j]? = some d) :
    ∃ d', (types.modify i change)[j]? = some d' ∧ d'.token = d.token ∧ d'.name = d.name ∧
      d'.base = d.base := by
  by_cases here : i = j
  · subst here
    exact ⟨change d, by rw [List.getElem?_modify_eq, read, Option.map_eq_map, Option.map_some], same d⟩
  · exact ⟨d, by rw [List.getElem?_modify_ne _ _ here, read], rfl, rfl, rfl⟩

/-- What a change keeps of a row, it keeps of all rows. -/
theorem map_modify_of_same {α : Type} {part : TypeDef → α} (same : ∀ d, part (change d) = part d) :
    (types.modify i change).map part = types.map part := by
  refine List.ext_getElem? fun j => ?_
  rw [List.getElem?_map, List.getElem?_map]
  by_cases here : i = j
  · subst here
    rw [List.getElem?_modify_eq, Option.map_eq_map, Option.map_map]
    exact congrArg (Option.map · _) (funext same)
  · rw [List.getElem?_modify_ne _ _ here]

theorem numbered_modify (numbered : Numbered .typeDef TypeDef.token types)
    (same : ∀ d, (change d).token = d.token) :
    Numbered .typeDef TypeDef.token (types.modify i change) :=
  numbered.of_map_eq (map_modify_of_same same)

/-- Lists that gain members, or lose a method other than this one, still list this one. -/
theorem lists_modify (stays : ∀ d, t ∈ d.methods → t ∈ (change d).methods) {owner : Token}
    (listed : m.Lists owner t) (types : m'.types = m.types.modify i change) : m'.Lists owner t := by
  obtain ⟨d, found, member⟩ := listed
  obtain ⟨j, place, read⟩ := lookup_eq_some_iff.mp (typeDef_eq_ok_iff.mp found)
  by_cases here : i = j
  · subst here
    refine ⟨change d, typeDef_eq_ok_iff.mpr (lookup_eq_some_iff.mpr ⟨i, place, ?_⟩), stays d member⟩
    rw [types, List.getElem?_modify_eq, read, Option.map_eq_map, Option.map_some]
  · refine ⟨d, typeDef_eq_ok_iff.mpr (lookup_eq_some_iff.mpr ⟨j, place, ?_⟩), member⟩
    rw [types, List.getElem?_modify_ne _ _ here, read]

end MemberLists

theorem moves_addField (owner : Token) (name : String) (flags : FieldFlags) (ty : Ty) (m : Module) :
    Moves (Evolves touched) (addField owner name flags ty) m := by
  refine moves_get_bind (moves_lift_bind fun token next => moves_lift_bind fun i _ => ?_)
  obtain ⟨fits, rfl⟩ := nextToken_ok next
  refine moves_bind (moves_put ⟨?_, ?_, fun _ => ⟨fun found => found, fun listed => ?_⟩⟩)
    fun _ _ _ => moves_pure _
  · intro placed
    exact { placed with
      fields := placed.fields.append fits rfl
      types := numbered_modify placed.types (by intro d; rfl) }
  · exact { Grows.refl m with
      types := types_modify (by intro d; exact ⟨rfl, rfl, rfl⟩)
      fields := List.prefix_append _ _ }
  · exact lists_modify (by intro d member; exact member) listed rfl

theorem moves_addMethod (row : Method) (m : Module) : Moves (Evolves touched) (addMethod row) m := by
  refine moves_get_bind (moves_lift_bind fun token next => moves_lift_bind fun i _ => ?_)
  obtain ⟨fits, rfl⟩ := nextToken_ok next
  refine moves_bind (moves_put ⟨?_, ?_, fun _ => ⟨fun found => ?_, fun listed => ?_⟩⟩)
    fun _ _ _ => moves_pure _
  · intro placed
    exact { placed with
      methods := placed.methods.append fits rfl
      types := numbered_modify placed.types (by intro d; rfl) }
  · exact { Grows.refl m with types := types_modify (by intro d; exact ⟨rfl, rfl, rfl⟩) }
  · exact method_eq_ok_iff.mpr (lookup_of_longer (List.prefix_append _ _) (method_eq_ok_iff.mp found))
  · exact lists_modify (by intro d member; exact List.mem_append_left _ member) listed rfl

theorem moves_rollbackMethod (token : Token) (m : Module) :
    Moves (Evolves (· = token)) (rollbackMethod token) m := by
  refine moves_get_bind (moves_lift_bind fun row found => ?_)
  dsimp only
  split
  · exact moves_throw_bind _ _
  rename_i newest
  have newest : token.index? = some (m.methods.length - 1) := Decidable.not_not.mp newest
  obtain ⟨i, place, read⟩ := lookup_eq_some_iff.mp (method_eq_ok_iff.mp found)
  have last : i = m.methods.length - 1 := Option.some.inj ((index?_of_indexIn? place).symm.trans newest)
  have inside : i < m.methods.length := (List.getElem?_eq_some_iff.mp read).1
  have stays : ∀ {t : Token}, t ≠ token → ∀ {row : Method}, m.method t = .ok row →
      lookup .method m.methods.dropLast t = some row := by
    intro t other row found
    obtain ⟨j, place', read'⟩ := lookup_eq_some_iff.mp (method_eq_ok_iff.mp found)
    have inside' : j < m.methods.length := (List.getElem?_eq_some_iff.mp read').1
    have apart : j ≠ i := by
      rintro rfl
      exact other (eq_of_indexIn? place' place)
    refine lookup_eq_some_iff.mpr ⟨j, place', ?_⟩
    rw [List.getElem?_dropLast, if_pos (by omega), read']
  have unlisted : ∀ {t : Token}, t ≠ token → ∀ d : TypeDef, t ∈ d.methods →
      t ∈ d.methods.filter (· ≠ token) := by
    intro t other d member
    exact List.mem_filter.mpr ⟨member, decide_eq_true other⟩
  refine moves_bind (moves_put ?_) fun _ _ _ => moves_pure _
  cases row.owner.index? with
  | none =>
    refine ⟨fun placed => ?_, ?_, fun other => ⟨fun found => ?_, fun listed => listed⟩⟩
    · exact { placed with methods := placed.methods.of_longer (List.dropLast_prefix _) }
    · exact { Grows.refl m with fields := List.prefix_refl _ }
    · exact method_eq_ok_iff.mpr (stays other found)
  | some k =>
    refine ⟨fun placed => ?_, ?_, fun other => ⟨fun found => ?_, fun listed => ?_⟩⟩
    · exact { placed with
        methods := placed.methods.of_longer (List.dropLast_prefix _)
        types := numbered_modify placed.types (by intro d; rfl) }
    · exact { Grows.refl m with types := types_modify (by intro d; exact ⟨rfl, rfl, rfl⟩) }
    · exact method_eq_ok_iff.mpr (stays other found)
    · exact lists_modify (unlisted other) listed rfl

/-- Another row for a method, with its token, touches that method alone. -/
theorem evolves_setMethod {token : Token} {i : Nat} {row row' : Method}
    (place : token.indexIn? .method = some i) (read : m.methods[i]? = some row)
    (same : row'.token = row.token) :
    Evolves (· = token) m { m with methods := m.methods.set i row' } := by
  refine ⟨?_, ?_, fun other => ⟨fun found => ?_, fun listed => listed⟩⟩
  · intro placed
    exact { placed with methods := placed.methods.set read same }
  · exact { Grows.refl m with fields := List.prefix_refl _ }
  · obtain ⟨k, place', read'⟩ := lookup_eq_some_iff.mp (method_eq_ok_iff.mp found)
    have apart : i ≠ k := by
      rintro rfl
      exact other (eq_of_indexIn? place' place)
    refine method_eq_ok_iff.mpr (lookup_eq_some_iff.mpr ⟨k, place', ?_⟩)
    rw [List.getElem?_set_ne apart, read']

theorem moves_editBody {α : Type} (token : Token) (edit : Body → Except Error (Body × α)) (m : Module) :
    Moves (Evolves (· = token)) (editBody token edit) m := by
  refine moves_get_bind ?_
  cases place : token.indexIn? .method with
  | none => exact moves_throw _
  | some i =>
    refine moves_lift_bind fun row found => moves_lift_bind fun edited _ => ?_
    obtain ⟨j, place', read⟩ := lookup_eq_some_iff.mp (method_eq_ok_iff.mp found)
    obtain rfl : i = j := Option.some.inj (place.symm.trans place')
    exact moves_bind (moves_put (evolves_setMethod place read rfl)) fun _ _ _ => moves_pure _

theorem moves_addLocal (method : Token) (ty : Ty) (m : Module) :
    Moves (Evolves (· = method)) (addLocal method ty) m :=
  moves_editBody method _ m

theorem moves_insertCode (method : Token) (code : Code) (index : Nat) (m : Module) :
    Moves (Evolves (· = method)) (insertCode method code index) m :=
  moves_editBody method _ m

/-! ### Interning -/

/-- Interning an instantiation moves along the relation. -/
class Instantiates (rel : Module → Module → Prop) : Prop extends Std.Refl rel, IsTrans Module rel where
  methodSpec : ∀ method args m, Moves rel (addMethodSpec method args) m

/-- Interning an instantiation or a type moves along the relation. -/
class Specifies (rel : Module → Module → Prop) : Prop extends Instantiates rel where
  importType : ∀ ty m, Moves rel (importType ty) m

/-- Interning a reference moves along the relation. -/
class References (rel : Module → Module → Prop) : Prop extends Std.Refl rel where
  memberRef : ∀ parent name signature m, Moves rel (addMemberRef parent name signature) m

/-- Interning a reference, an instantiation or a type moves along the relation. -/
class Interns (rel : Module → Module → Prop) : Prop extends Specifies rel, References rel

instance : Interns (Evolves touched) where
  memberRef := moves_addMemberRef
  methodSpec := moves_addMethodSpec
  importType := moves_importType

end WeakSubscription.Module
