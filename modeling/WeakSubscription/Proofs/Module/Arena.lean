import Mathlib.Data.List.Nodup
import WeakSubscription.Module.Declare
import WeakSubscription.Proofs.Module.Listing

/-!
# The tables of a built module

In a module that was built out of an empty one, every row carries the token of its place, members and the lists
of their types agree, interned rows are distinct, instantiations have the arguments that their methods take, and
locals are numbered. Operations that fail leave the module as it was.
-/

namespace WeakSubscription.Module

open Tracked

variable {α κ : Type} {m m' : Module} {op : Op} {t : Token} {table : Table} {rows : List α} {row : α}
  {token owner : α → Token} {name : String}

/-! ### Interned rows -/

/-- No two rows of an interning table are asked for by the same key. -/
structure Distinct (m : Module) : Prop where
  typeRefs : (m.typeRefs.map (·.name)).Nodup
  memberRefs : (m.memberRefs.map fun r => (r.parent, r.name, r.signature)).Nodup
  methodSpecs : (m.methodSpecs.map fun s => (s.method, s.args)).Nodup
  typeSpecs : m.typeSpecs.Nodup

theorem nodup_map_concat {key : α → κ} (nodup : (rows.map key).Nodup) (new : ∀ r ∈ rows, key r ≠ key row) :
    ((rows ++ [row]).map key).Nodup := by
  rw [List.map_append, List.map_singleton]
  refine List.nodup_append.mpr ⟨nodup, List.nodup_singleton _, ?_⟩
  intro k member k' last same
  obtain ⟨r, inside, rfl⟩ := List.mem_map.mp member
  exact new r inside (same.trans (List.mem_singleton.mp last))

theorem distinct_empty (name : String) : (empty name).Distinct :=
  ⟨List.nodup_nil, List.nodup_nil, List.nodup_nil, List.nodup_nil⟩

theorem Effect.distinct (effect : Effect m op m') (distinct : m.Distinct) : m'.Distinct := by
  obtain ⟨typeRefs, memberRefs, methodSpecs, typeSpecs⟩ := distinct
  cases effect with
  | addTypeRef name scope invoke fits new =>
    exact ⟨nodup_map_concat typeRefs new, memberRefs, methodSpecs, typeSpecs⟩
  | addMemberRef parent name signature fits new =>
    exact ⟨typeRefs, nodup_map_concat memberRefs new, methodSpecs, typeSpecs⟩
  | addMethodSpec method args known arity fits new =>
    exact ⟨typeRefs, memberRefs, nodup_map_concat methodSpecs new, typeSpecs⟩
  | importType ty fits new =>
    refine ⟨typeRefs, memberRefs, methodSpecs, ?_⟩
    have apart : ∀ s ∈ m.typeSpecs, id s ≠ id ty := by
      rintro s member rfl
      exact new member
    have nodup : ((m.typeSpecs ++ [ty]).map id).Nodup := nodup_map_concat (by rwa [List.map_id]) apart
    rwa [List.map_id] at nodup
  | found | addType | addField | addMethod | rollbackMethod | rewriteMethod | addLocal | insertCode =>
    exact ⟨typeRefs, memberRefs, methodSpecs, typeSpecs⟩

theorem Reachable.distinct (reached : Reachable m) : m.Distinct := by
  induction reached with
  | empty name => exact distinct_empty name
  | edited op _ ih => exact (op.effect _).distinct ih

/-- Every instantiation is of a referenced method, with an argument for each of its generic parameters. -/
def SpecsFit (m : Module) : Prop :=
  ∀ s ∈ m.methodSpecs, ∃ r, m.memberRef s.method = .ok r ∧ r.signature.arity = s.args.length

theorem SpecsFit.apply (fit : m.SpecsFit) (op : Op) : (op.apply m).SpecsFit := by
  have grows := (op.moves m).grows
  have old : ∀ s ∈ m.methodSpecs, ∃ r, (op.apply m).memberRef s.method = .ok r ∧
      r.signature.arity = s.args.length := by
    intro s member
    obtain ⟨r, found, arity⟩ := fit s member
    exact ⟨r, grows.memberRef found, arity⟩
  have effect := op.effect m
  generalize op.apply m = m' at effect grows old
  cases effect with
  | addMethodSpec method args known arity fits new =>
    intro s member
    rcases List.mem_append.mp member with before | last
    · exact old s before
    · obtain rfl := List.mem_singleton.mp last
      exact ⟨_, grows.memberRef known, arity⟩
  | found | addType | addTypeRef | importType | addField | addMethod | rollbackMethod | rewriteMethod | addLocal
  | insertCode | addMemberRef => exact old

theorem SpecsFit.along {P : Op → Prop} (fit : m.SpecsFit) (along : Along P m m') : m'.SpecsFit := by
  induction along with
  | refl => exact fit
  | step _ op _ ih => exact ih.apply op

theorem Reachable.specsFit (reached : Reachable m) : m.SpecsFit := by
  induction reached with
  | empty name => exact nofun
  | edited op _ ih => exact ih.apply op

/-! ### Locals -/

/-- Whether the operation rewrites no method, and adds none that has locals already. -/
def Op.Builds : Op → Prop
  | rewriteMethod _ _ => False
  | addMethod row => row.body.locals = []
  | addType _ _ _ | addTypeRef _ _ _ | importType _ | addField _ _ _ _ | rollbackMethod _ | addLocal _ _
  | insertCode _ _ _ | addMemberRef _ _ _ | addMethodSpec _ _ => True

theorem Op.Builds.keepsOwners (builds : op.Builds) : op.KeepsOwners := by
  cases op with
  | rewriteMethod token change => exact builds.elim
  | _ => trivial

/-- Locals have the index of their place, and there are no more than an index operand can name. -/
structure LocalsNumbered (body : Body) : Prop where
  count : body.locals.length ≤ Body.maxLocals
  index : ∀ (i : Nat) (v : Variable), body.locals[i]? = some v → v.index = i

theorem localsNumbered_of_nil {body : Body} (none_yet : body.locals = []) : LocalsNumbered body := by
  refine ⟨?_, fun i v read => ?_⟩
  · rw [none_yet]
    exact Nat.zero_le _
  · rw [none_yet] at read
    cases read

theorem LocalsNumbered.addLocal {body : Body} (numbered : LocalsNumbered body) (ty : Ty)
    (room : body.locals.length < Body.maxLocals) :
    LocalsNumbered { body with locals := body.locals ++ [⟨body.locals.length, ty⟩] } := by
  refine ⟨?_, fun i v read => ?_⟩
  · rw [List.length_append, List.length_singleton]
    exact room
  · obtain before | last := Nat.lt_or_ge i body.locals.length
    · rw [List.getElem?_append_left before] at read
      exact numbered.index i v read
    · rw [List.getElem?_append_right last] at read
      obtain ⟨inside, rfl⟩ := List.getElem?_eq_some_iff.mp read
      simp only [List.length_singleton] at inside
      simp only [List.getElem_singleton]
      omega

theorem Effect.localsNumbered (effect : Effect m op m') (builds : op.Builds)
    (numbered : ∀ r ∈ m.methods, LocalsNumbered r.body) : ∀ r ∈ m'.methods, LocalsNumbered r.body := by
  have set : ∀ {i : Nat} {row : Method}, LocalsNumbered row.body →
      ∀ r ∈ m.methods.set i row, LocalsNumbered r.body := by
    intro i row own r member
    rcases List.mem_or_eq_of_mem_set member with old | rfl
    · exact numbered r old
    · exact own
  cases effect with
  | addMethod row fits place inside =>
    intro r member
    rcases List.mem_append.mp member with old | new
    · exact numbered r old
    · obtain rfl := List.mem_singleton.mp new
      exact localsNumbered_of_nil builds
  | rollbackMethod token newest read =>
    exact fun r member => numbered r ((List.dropLast_prefix _).mem member)
  | rewriteMethod token change place read => exact builds.elim
  | addLocal token ty place read room =>
    exact set ((numbered _ (List.mem_of_getElem? read)).addLocal ty room)
  | insertCode token code index place read inside =>
    obtain ⟨count, index⟩ := numbered _ (List.mem_of_getElem? read)
    exact set ⟨count, index⟩
  | found | addType | addTypeRef | importType | addField | addMemberRef | addMethodSpec => exact numbered

/-! ### Tokens and lists -/

/-- Every row carries the word of its place: the table in the high byte, and the places counted from one. -/
def CarriesWords (table : Table) (token : α → Token) (rows : List α) : Prop :=
  ∀ (i : Nat) (row : α), rows[i]? = some row → (token row).value = table.id.toNat <<< 24 ||| (i + 1)

theorem value_ofRow {i : Nat} (fits : i + 1 < 0x1000000) :
    (Token.ofRow table (i + 1)).value = table.id.toNat <<< 24 ||| (i + 1) := by
  have row : (Token.ofRow table (i + 1)).row.val = i + 1 := Nat.mod_eq_of_lt fits
  rw [Token.value, Token.table_ofRow, row, ← Nat.shiftLeft_add_eq_or_of_lt (i := 24) fits, Nat.shiftLeft_eq]

theorem carriesWords_of_numbered (numbered : Numbered table token rows) : CarriesWords table token rows := by
  intro i row read
  rw [numbered.carried read, value_ofRow (numbered.place_lt read)]

theorem nodup_of_numbered (numbered : Numbered table token rows) : (rows.map token).Nodup := by
  apply List.nodup_iff_getElem?_ne_getElem?.mpr
  intro i j before inside same
  rw [List.length_map] at inside
  have read := List.getElem?_eq_getElem inside
  have read' := List.getElem?_eq_getElem (Nat.lt_trans before inside)
  rw [List.getElem?_map, List.getElem?_map, read, read'] at same
  have place := Token.indexIn?_ofRow (t := table) (numbered.place_lt read)
  have place' := Token.indexIn?_ofRow (t := table) (numbered.place_lt read')
  rw [← numbered.carried read, ← Option.some.inj same, numbered.carried read', place'] at place
  exact Nat.ne_of_lt before (Option.some.inj place)

/-- A member is counted once among the members of its owner, and not among those of others. -/
theorem count_membersOf (numbered : Numbered table token rows) (member : row ∈ rows) (t : Token) :
    (membersOf token owner rows t).count (token row) = if owner row = t then 1 else 0 := by
  have nodup := nodup_of_numbered numbered
  have sub : (membersOf token owner rows t).Sublist (rows.map token) := List.filter_sublist.map token
  by_cases own : owner row = t
  · rw [if_pos own]
    exact List.count_eq_one_of_mem (sub.nodup nodup) (mem_membersOf.mpr ⟨row, member, own, rfl⟩)
  · rw [if_neg own]
    apply List.count_eq_zero_of_not_mem
    intro inside
    obtain ⟨row', member', own', same⟩ := mem_membersOf.mp inside
    obtain rfl := List.inj_on_of_nodup_map nodup member' member same
    exact own own'

theorem count_membersOf_of_table {u : Token} (numbered : Numbered table token rows) (other : u.table ≠ table.id)
    (t : Token) : (membersOf token owner rows t).count u = 0 := by
  apply List.count_eq_zero_of_not_mem
  intro inside
  obtain ⟨row, member, -, rfl⟩ := mem_membersOf.mp inside
  obtain ⟨i, read⟩ := List.mem_iff_getElem?.mp member
  exact other (by rw [numbered.carried read]; rfl)

/-! ### Built modules -/

/-- The tables of a module as a whole. -/
structure Arena (m : Module) : Prop where
  typeWords : CarriesWords .typeDef TypeDef.token m.types
  typeRefWords : CarriesWords .typeRef TypeRef.token m.typeRefs
  fieldWords : CarriesWords .field Field.token m.fields
  methodWords : CarriesWords .method Method.token m.methods
  memberRefWords : CarriesWords .memberRef MemberRef.token m.memberRefs
  methodSpecWords : CarriesWords .methodSpec MethodSpec.token m.methodSpecs
  /-- Imported types carry no token; the one of their place names them. -/
  typeSpecWords : ∀ (i : Nat) (ty : Ty), m.typeSpecs[i]? = some ty →
    ∃ t : Token, t.value = Table.typeSpec.id.toNat <<< 24 ||| (i + 1) ∧ m.typeSpec t = .ok ty
  /-- Every field is listed once by its owner, and nowhere else. -/
  fields : ∀ f ∈ m.fields, ∃ d, m.typeDef f.owner = .ok d ∧ f.token ∈ d.fields ∧
    ∀ d' ∈ m.types, (d'.fields ++ d'.methods).count f.token = if d' = d then 1 else 0
  /-- Every method is listed once by its owner, and nowhere else. -/
  methods : ∀ r ∈ m.methods, ∃ d, m.typeDef r.owner = .ok d ∧ r.token ∈ d.methods ∧
    ∀ d' ∈ m.types, (d'.fields ++ d'.methods).count r.token = if d' = d then 1 else 0
  /-- Nothing but members is listed. -/
  lists : ∀ d ∈ m.types, (∀ t ∈ d.fields, ∃ f, m.field t = .ok f ∧ f.owner = d.token) ∧
    ∀ t ∈ d.methods, ∃ r, m.method t = .ok r ∧ r.owner = d.token
  distinct : m.Distinct
  specs : m.SpecsFit
  locals : ∀ r ∈ m.methods, LocalsNumbered r.body

/-- A type definition that is named by a token is the only one that carries the token. -/
theorem eq_iff_of_typeDef {d d' : TypeDef} (numbered : Numbered .typeDef TypeDef.token m.types)
    (found : m.typeDef t = .ok d) (member : d' ∈ m.types) : t = d'.token ↔ d' = d := by
  have row := typeDef_eq_ok_iff.mp found
  obtain ⟨i, -, read⟩ := lookup_eq_some_iff.mp row
  rw [← numbered.token_of_lookup row]
  constructor
  · exact fun same =>
      List.inj_on_of_nodup_map (nodup_of_numbered numbered) member (List.mem_of_getElem? read) same.symm
  · rintro rfl
    rfl

/-- Where types list the members of two tables, a member of one is listed once by its owner, and nowhere else. -/
theorem Listed.counts {β : Type} {table' : Table} {token' owner' : β → Token} {rows' : List β}
    {d : TypeDef} (listed : m.Listed) (list other : TypeDef → List Token) (numbered : Numbered table token rows)
    (numbered' : Numbered table' token' rows') (apart : table.id ≠ table'.id)
    (lists : ∀ d ∈ m.types, list d = membersOf token owner rows d.token ∧
      other d = membersOf token' owner' rows' d.token)
    (member : row ∈ rows) (found : m.typeDef (owner row) = .ok d) :
    token row ∈ list d ∧
      ∀ d' ∈ m.types, (list d').count (token row) + (other d').count (token row) = if d' = d then 1 else 0 := by
  obtain ⟨i, -, read⟩ := lookup_eq_some_iff.mp (typeDef_eq_ok_iff.mp found)
  have inside := List.mem_of_getElem? read
  refine ⟨?_, fun d' member' => ?_⟩
  · rw [(lists d inside).1]
    exact mem_membersOf.mpr ⟨row, member, (eq_iff_of_typeDef listed.placed.types found inside).mpr rfl, rfl⟩
  · have outside : (token row).table ≠ table'.id :=
      inTable_of_lookup (numbered.lookup_of_mem member) ▸ apart
    rw [(lists d' member').1, (lists d' member').2, count_membersOf numbered member,
      count_membersOf_of_table numbered' outside, Nat.add_zero]
    simp only [eq_iff_of_typeDef listed.placed.types found member']

theorem Listed.fieldCounts (listed : m.Listed) {f : Field} (member : f ∈ m.fields) :
    ∃ d, m.typeDef f.owner = .ok d ∧ f.token ∈ d.fields ∧
      ∀ d' ∈ m.types, (d'.fields ++ d'.methods).count f.token = if d' = d then 1 else 0 := by
  obtain ⟨d, found⟩ := listed.fieldsOwned f member
  obtain ⟨listedThere, counts⟩ := listed.counts TypeDef.fields TypeDef.methods
    listed.placed.fields listed.placed.methods (by decide)
    (fun d inside => ⟨(listed.lists d inside).fields, (listed.lists d inside).methods⟩) member found
  refine ⟨d, found, listedThere, fun d' member' => ?_⟩
  rw [List.count_append, counts d' member']

theorem Listed.methodCounts (listed : m.Listed) {r : Method} (member : r ∈ m.methods) :
    ∃ d, m.typeDef r.owner = .ok d ∧ r.token ∈ d.methods ∧
      ∀ d' ∈ m.types, (d'.fields ++ d'.methods).count r.token = if d' = d then 1 else 0 := by
  obtain ⟨d, found⟩ := listed.methodsOwned r member
  obtain ⟨listedThere, counts⟩ := listed.counts TypeDef.methods TypeDef.fields
    listed.placed.methods listed.placed.fields (by decide)
    (fun d inside => ⟨(listed.lists d inside).methods, (listed.lists d inside).fields⟩) member found
  refine ⟨d, found, listedThere, fun d' member' => ?_⟩
  rw [List.count_append, Nat.add_comm, counts d' member']

theorem Listed.only (listed : m.Listed) {d : TypeDef} (member : d ∈ m.types) :
    (∀ t ∈ d.fields, ∃ f, m.field t = .ok f ∧ f.owner = d.token) ∧
      ∀ t ∈ d.methods, ∃ r, m.method t = .ok r ∧ r.owner = d.token := by
  obtain ⟨fields, methods⟩ := listed.lists d member
  rw [fields, methods]
  constructor
  · intro t inside
    obtain ⟨f, row, own, rfl⟩ := mem_membersOf.mp inside
    exact ⟨f, field_eq_ok_iff.mpr (listed.placed.fields.lookup_of_mem row), own⟩
  · intro t inside
    obtain ⟨r, row, own, rfl⟩ := mem_membersOf.mp inside
    exact ⟨r, method_eq_ok_iff.mpr (listed.placed.methods.lookup_of_mem row), own⟩

theorem distinct_of_along {P : Op → Prop} (along : Along P m m') (distinct : m.Distinct) : m'.Distinct := by
  induction along with
  | refl => exact distinct
  | step _ op _ ih => exact (op.effect _).distinct ih

theorem localsNumbered_of_along (along : Along Op.Builds m m') (numbered : ∀ r ∈ m.methods, LocalsNumbered r.body) :
    ∀ r ∈ m'.methods, LocalsNumbered r.body := by
  induction along with
  | refl => exact numbered
  | step _ op builds ih => exact (op.effect _).localsNumbered builds ih

/-- The tables of a built module are in order, and an operation that fails on it changes nothing. -/
theorem built_arena (built : Along Op.Builds (empty name) m) :
    m.Arena ∧ ∀ (op : Op) (e : Error) (m' : Module), op.run m = .error e m' → m' = m := by
  have listed := (listed_empty name).along built fun _ builds => builds.keepsOwners
  obtain ⟨types, typeRefs, fields, methods, memberRefs, methodSpecs, typeSpecs⟩ := listed.placed
  refine ⟨?_, fun op e m' failed => op.unchanged_of_error failed⟩
  exact {
    typeWords := carriesWords_of_numbered types
    typeRefWords := carriesWords_of_numbered typeRefs
    fieldWords := carriesWords_of_numbered fields
    methodWords := carriesWords_of_numbered methods
    memberRefWords := carriesWords_of_numbered memberRefs
    methodSpecWords := carriesWords_of_numbered methodSpecs
    typeSpecWords := by
      intro i ty read
      have inside : i < m.typeSpecs.length := (List.getElem?_eq_some_iff.mp read).1
      have fits : i + 1 < 0x1000000 := by omega
      exact ⟨_, value_ofRow fits, typeSpec_eq_ok_iff.mpr ((lookup_ofRow fits).trans read)⟩
    fields := fun f member => listed.fieldCounts member
    methods := fun r member => listed.methodCounts member
    lists := fun d member => listed.only member
    distinct := distinct_of_along built (distinct_empty name)
    specs := (show (empty name).SpecsFit from nofun).along built
    locals := localsNumbered_of_along built nofun }

/-! ### A module that was built with detours -/

namespace Detour

def box : Token := .ofRow .typeDef 1

def decl (name : String) : MethodDecl := { name, code := [.plain .ret] }

/-- The second method is taken back for another one, and the first one cannot be; references and imported types
are asked for twice, and an instantiation with the wrong number of arguments. -/
def ops : List Op :=
  [.addType ⟨"Sample", "Box"⟩ .publicFlag (some .object), .addField box "Filled" .privateFlag .object,
   .addMethod ((decl "first").row box), .addMethod ((decl "second").row box),
   .rollbackMethod (.ofRow .method 1), .rollbackMethod (.ofRow .method 2),
   .addMethod ((decl "third").row box), .addLocal (.ofRow .method 2) .object,
   .insertCode (.ofRow .method 2) [.plain .nop] 0, .addMemberRef .object "Make" ⟨false, 1, [], .methodParam 0⟩,
   .addMemberRef .object "Make" ⟨false, 1, [], .methodParam 0⟩, .addMethodSpec (.ofRow .memberRef 1) [],
   .addMethodSpec (.ofRow .memberRef 1) [.object], .importType .object, .importType .object]

def made : Module := ops.foldl (fun m op => op.apply m) (.empty "Sample")

theorem built : Along Op.Builds (empty "Sample") made := by
  apply Along.operated
  simp [ops, Op.Builds, MethodDecl.row, Body.ofCode]

theorem built_arena_detour :
    Along Op.Builds (empty "Sample") made ∧ made.Arena ∧ made.methods.map (·.name) = ["first", "third"] ∧
      (Op.rollbackMethod (.ofRow .method 1)).apply made = made := by
  obtain ⟨arena, unchanged⟩ := built_arena built
  refine ⟨built, arena, by decide +kernel, ?_⟩
  cases ran : (Op.rollbackMethod (.ofRow .method 1)).run made with
  | ok a m' =>
    have refused : value? ((Op.rollbackMethod (.ofRow .method 1)).run made) = none := by decide +kernel
    rw [ran] at refused
    cases refused
  | error e m' =>
    rw [Op.apply, ran]
    exact unchanged _ e m' ran

end Detour

end WeakSubscription.Module
