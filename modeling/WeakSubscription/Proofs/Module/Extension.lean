import WeakSubscription.Proofs.Module.Listing

/-!
# Rows that stay

Operations that add leave every row at its place. A type gains members at the ends of its lists, and a method
gains locals behind its locals; only code that is put into a method changes what was there. `Extends` says this
of two modules, with the methods that were given code or locals set apart.
-/

namespace WeakSubscription

variable {α β : Type} {rel : α → α → Prop} {rows rows' rows'' : List α} {row : α}

/-! ### Tables -/

/-- Each row has a successor at its place in the second table, and is related to it. -/
def Continues (rel : α → α → Prop) (rows rows' : List α) : Prop :=
  ∀ (i : Nat) (row : α), rows[i]? = some row → ∃ row', rows'[i]? = some row' ∧ rel row row'

namespace Continues

theorem trans [IsTrans α rel] (first : Continues rel rows rows') (later : Continues rel rows' rows'') :
    Continues rel rows rows'' := by
  intro i row read
  obtain ⟨row', read', related⟩ := first i row read
  obtain ⟨row'', read'', related'⟩ := later i row' read'
  exact ⟨row'', read'', trans_of rel related related'⟩

theorem imp {rel' : α → α → Prop} (onward : Continues rel rows rows')
    (weaker : ∀ row ∈ rows, ∀ row', rel row row' → rel' row row') : Continues rel' rows rows' := by
  intro i row read
  obtain ⟨row', read', related⟩ := onward i row read
  exact ⟨row', read', weaker row (List.mem_of_getElem? read) row' related⟩

theorem modify (onward : Continues rel rows rows') (i : Nat) {change : α → α}
    (changes : ∀ row ∈ rows, ∀ row', rel row row' → rel row (change row')) :
    Continues rel rows (rows'.modify i change) := by
  intro j row read
  obtain ⟨row', read', related⟩ := onward j row read
  by_cases here : i = j
  · subst here
    refine ⟨change row', ?_, changes row (List.mem_of_getElem? read) row' related⟩
    rw [List.getElem?_modify_eq, read', Option.map_eq_map, Option.map_some]
  · exact ⟨row', by rw [List.getElem?_modify_ne _ _ here, read'], related⟩

section Reflexive

variable [Std.Refl rel]

theorem of_prefix (longer : rows <+: rows') : Continues rel rows rows' := by
  obtain ⟨more, rfl⟩ := longer
  intro i row read
  have inside : i < rows.length := (List.getElem?_eq_some_iff.mp read).1
  exact ⟨row, by rw [List.getElem?_append_left inside, read], Std.Refl.refl row⟩

theorem refl (rows : List α) : Continues rel rows rows := of_prefix (List.prefix_refl rows)

theorem concat (rows : List α) (row : α) : Continues rel rows (rows ++ [row]) := of_prefix (List.prefix_append _ _)

theorem set {i : Nat} {new : α} (read : rows[i]? = some row) (changes : rel row new) :
    Continues rel rows (rows.set i new) := by
  intro j old read'
  by_cases here : i = j
  · subst here
    obtain rfl := Option.some.inj (read.symm.trans read')
    exact ⟨new, List.getElem?_set_self (List.getElem?_eq_some_iff.mp read).1, changes⟩
  · exact ⟨old, by rw [List.getElem?_set_ne here, read'], Std.Refl.refl old⟩

end Reflexive

theorem lookup {table : Table} {t : Token} (onward : Continues rel rows rows')
    (found : Module.lookup table rows t = some row) :
    ∃ row', Module.lookup table rows' t = some row' ∧ rel row row' := by
  obtain ⟨i, place, read⟩ := Module.lookup_eq_some_iff.mp found
  obtain ⟨row', read', related⟩ := onward i row read
  exact ⟨row', Module.lookup_eq_some_iff.mpr ⟨i, place, read'⟩, related⟩

/-- The first row of a kind stays the first one, where rows stay of the kind that they are. -/
theorem find? {p : α → Bool} (onward : Continues rel rows rows') (same : ∀ row row', rel row row' → p row' = p row)
    (found : rows.find? p = some row) : ∃ row', rows'.find? p = some row' ∧ rel row row' := by
  obtain ⟨kind, i, inside, rfl, earlier⟩ := List.find?_eq_some_iff_getElem.mp found
  obtain ⟨row', read', related⟩ := onward i rows[i] (List.getElem?_eq_getElem inside)
  obtain ⟨inside', rfl⟩ := List.getElem?_eq_some_iff.mp read'
  refine ⟨rows'[i], List.find?_eq_some_iff_getElem.mpr ⟨?_, i, inside', rfl, ?_⟩, related⟩
  · rw [same _ _ related, kind]
  · intro j before
    obtain ⟨other', readOther, relatedOther⟩ := onward j rows[j] (List.getElem?_eq_getElem (by omega))
    obtain ⟨_, rfl⟩ := List.getElem?_eq_some_iff.mp readOther
    rw [same _ _ relatedOther]
    exact earlier j before

end Continues

/-! ### Rows -/

/-- The second definition is the first one, with more members. -/
structure TypeDef.Extends (d d' : TypeDef) : Prop where
  same : d' = { d with fields := d'.fields, methods := d'.methods }
  fields : d.fields <+: d'.fields
  methods : d.methods <+: d'.methods

instance : Std.Refl TypeDef.Extends where
  refl _ := ⟨rfl, List.prefix_refl _, List.prefix_refl _⟩

instance : IsTrans TypeDef TypeDef.Extends where
  trans d d' d'' first later := by
    refine ⟨?_, first.fields.trans later.fields, first.methods.trans later.methods⟩
    rw [later.same, first.same]

namespace TypeDef.Extends

variable {d d' : TypeDef}

theorem name (longer : d.Extends d') : d'.name = d.name := by rw [longer.same]

theorem withField (longer : d.Extends d') (t : Token) : d.Extends { d' with fields := d'.fields ++ [t] } := by
  refine ⟨?_, longer.fields.trans (List.prefix_append _ _), longer.methods⟩
  rw [longer.same]

theorem withMethod (longer : d.Extends d') (t : Token) : d.Extends { d' with methods := d'.methods ++ [t] } := by
  refine ⟨?_, longer.fields, longer.methods.trans (List.prefix_append _ _)⟩
  rw [longer.same]

/-- A method that the first definition does not list may leave the list. -/
theorem without {t : Token} (longer : d.Extends d') (unlisted : t ∉ d.methods) :
    d.Extends { d' with methods := d'.methods.filter (· ≠ t) } := by
  have kept : d.methods.filter (· ≠ t) = d.methods := by
    refine List.filter_eq_self.mpr fun u listed => decide_eq_true ?_
    rintro rfl
    exact unlisted listed
  have shorter := longer.methods.filter (· ≠ t)
  rw [kept] at shorter
  refine ⟨?_, longer.fields, shorter⟩
  rw [longer.same]

end TypeDef.Extends

/-- The second method is the first one, with other code only if it was given some, and with more locals only if
it was given some. -/
structure Method.Extends (inserted allocated : Token → Prop) (row row' : Method) : Prop where
  same : row' = { row with body := { row.body with code := row'.body.code, locals := row'.body.locals } }
  code : ¬ inserted row.token → row'.body.code = row.body.code
  locals : row.body.locals <+: row'.body.locals
  allocated : ¬ allocated row.token → row'.body.locals = row.body.locals

section

variable {inserted allocated inserted' allocated' : Token → Prop} {r r' r'' : Method}

namespace Method.Extends

instance : Std.Refl (Method.Extends inserted allocated) where
  refl _ := ⟨rfl, fun _ => rfl, List.prefix_refl _, fun _ => rfl⟩

theorem token (longer : r.Extends inserted allocated r') : r'.token = r.token := by rw [longer.same]

theorem name (longer : r.Extends inserted allocated r') : r'.name = r.name := by rw [longer.same]

instance : IsTrans Method (Method.Extends inserted allocated) where
  trans r r' r'' first later := by
    refine ⟨?_, fun spared => ?_, first.locals.trans later.locals, fun spared => ?_⟩
    · rw [later.same, first.same]
    · rw [later.code (first.token ▸ spared), first.code spared]
    · rw [later.allocated (first.token ▸ spared), first.allocated spared]

theorem imp (longer : r.Extends inserted allocated r') (ins : inserted r.token → inserted' r.token)
    (alloc : allocated r.token → allocated' r.token) : r.Extends inserted' allocated' r' :=
  ⟨longer.same, fun spared => longer.code (spared ∘ ins), longer.locals,
    fun spared => longer.allocated (spared ∘ alloc)⟩

theorem grows (longer : r.Extends inserted allocated r') : r.Grows r' := by
  refine ⟨?_, longer.locals⟩
  rw [longer.same]

end Method.Extends

/-! ### Modules -/

namespace Module

variable {m m' m'' : Module} {t : Token} {op : Op}

/-- The second module has all rows of the first one at their places. -/
structure Extends (inserted allocated : Token → Prop) (m m' : Module) : Prop where
  types : Continues TypeDef.Extends m.types m'.types
  typeRefs : m.typeRefs <+: m'.typeRefs
  fields : m.fields <+: m'.fields
  methods : Continues (Method.Extends inserted allocated) m.methods m'.methods
  memberRefs : m.memberRefs <+: m'.memberRefs
  methodSpecs : m.methodSpecs <+: m'.methodSpecs
  typeSpecs : m.typeSpecs <+: m'.typeSpecs

namespace Extends

instance : Std.Refl (Extends inserted allocated) where
  refl _ := ⟨.refl _, List.prefix_refl _, List.prefix_refl _, .refl _, List.prefix_refl _, List.prefix_refl _,
    List.prefix_refl _⟩

instance : IsTrans Module (Extends inserted allocated) where
  trans _ _ _ first later := ⟨first.types.trans later.types, first.typeRefs.trans later.typeRefs,
    first.fields.trans later.fields, first.methods.trans later.methods, first.memberRefs.trans later.memberRefs,
    first.methodSpecs.trans later.methodSpecs, first.typeSpecs.trans later.typeSpecs⟩

/-- Only what was given to methods that were there counts. -/
theorem imp (longer : Extends inserted allocated m m')
    (ins : ∀ row ∈ m.methods, inserted row.token → inserted' row.token)
    (alloc : ∀ row ∈ m.methods, allocated row.token → allocated' row.token) : Extends inserted' allocated' m m' :=
  { longer with
    methods := longer.methods.imp fun row member _ related => related.imp (ins row member) (alloc row member) }

theorem grows (longer : Extends inserted allocated m m') : Grows m m' where
  types := by
    intro i d read
    obtain ⟨d', read', more⟩ := longer.types i d read
    refine ⟨d', read', ?_⟩
    rw [more.same]
    exact ⟨rfl, rfl, rfl⟩
  typeRefs := longer.typeRefs
  fields := longer.fields
  memberRefs := longer.memberRefs
  methodSpecs := longer.methodSpecs
  typeSpecs := longer.typeSpecs

theorem typeDef (longer : Extends inserted allocated m m') {d : TypeDef} (found : m.typeDef t = .ok d) :
    ∃ d', m'.typeDef t = .ok d' ∧ d.Extends d' := by
  obtain ⟨d', found', more⟩ := longer.types.lookup (typeDef_eq_ok_iff.mp found)
  exact ⟨d', typeDef_eq_ok_iff.mpr found', more⟩

theorem method (longer : Extends inserted allocated m m') (found : m.method t = .ok r) :
    ∃ r', m'.method t = .ok r' ∧ r.Extends inserted allocated r' := by
  obtain ⟨r', found', more⟩ := longer.methods.lookup (method_eq_ok_iff.mp found)
  exact ⟨r', method_eq_ok_iff.mpr found', more⟩

theorem retained (longer : Extends inserted allocated m m') : Retained m m' := by
  refine ⟨longer.grows, fun found => ?_⟩
  obtain ⟨r', found', more⟩ := longer.method found
  exact ⟨r', found', more.grows⟩

end Extends

/-! ### Operations -/

namespace Op

def Inserts : Op → Token → Prop
  | insertCode method _ _, t => t = method
  | addType _ _ _, _ | addTypeRef _ _ _, _ | importType _, _ | addField _ _ _ _, _ | addMethod _, _
  | rollbackMethod _, _ | rewriteMethod _ _, _ | addLocal _ _, _ | addMemberRef _ _ _, _ | addMethodSpec _ _, _ =>
    False

def Allocates : Op → Token → Prop
  | addLocal method _, t => t = method
  | addType _ _ _, _ | addTypeRef _ _ _, _ | importType _, _ | addField _ _ _ _, _ | addMethod _, _
  | rollbackMethod _, _ | rewriteMethod _ _, _ | insertCode _ _ _, _ | addMemberRef _ _ _, _
  | addMethodSpec _ _, _ => False

/-- Whether the operation adds, with code and locals only for methods that are set apart. -/
structure AddsWithin (inserted allocated : Token → Prop) (op : Op) : Prop where
  adds : op.Adds
  inserts : ∀ t, op.Inserts t → inserted t
  allocates : ∀ t, op.Allocates t → allocated t

end Op

instance : Interns (Along (Op.AddsWithin inserted allocated)) where
  memberRef parent name signature := moves_op (.addMemberRef parent name signature) ⟨trivial, nofun, nofun⟩ rfl
  methodSpec method args := moves_op (.addMethodSpec method args) ⟨trivial, nofun, nofun⟩ rfl
  importType ty := moves_op (.importType ty) ⟨trivial, nofun, nofun⟩ rfl

/-- What an operation that adds does to a module extends it. -/
theorem Effect.extended (effect : Effect m op m') (within : op.AddsWithin inserted allocated) (placed : m.Placed) :
    Extends inserted allocated m m' := by
  have here : Extends inserted allocated m m := Std.Refl.refl m
  cases effect with
  | found => exact here
  | addType name flags base fits => exact { here with types := .concat _ _ }
  | addTypeRef name scope invoke fits new => exact { here with typeRefs := List.prefix_append _ _ }
  | importType ty fits new => exact { here with typeSpecs := List.prefix_append _ _ }
  | addField owner name flags ty fits place inside =>
    exact { here with
      types := here.types.modify _ fun d _ d' more => more.withField _
      fields := List.prefix_append _ _ }
  | addMethod row fits place inside =>
    exact { here with
      types := here.types.modify _ fun d _ d' more => more.withMethod _
      methods := .concat _ _ }
  | rollbackMethod token newest read => exact within.adds.elim
  | rewriteMethod token change place read => exact within.adds.elim
  | addLocal token ty place read room =>
    have given := within.allocates _ (placed.methods.token_of_indexIn? place read)
    exact { here with
      methods := .set read ⟨rfl, fun _ => rfl, List.prefix_append _ _, fun spared => absurd given spared⟩ }
  | insertCode token code index place read inside =>
    have given := within.inserts _ (placed.methods.token_of_indexIn? place read)
    exact { here with
      methods := .set read ⟨rfl, fun spared => absurd given spared, List.prefix_refl _, fun _ => rfl⟩ }
  | addMemberRef parent name signature fits new => exact { here with memberRefs := List.prefix_append _ _ }
  | addMethodSpec method args known arity fits new => exact { here with methodSpecs := List.prefix_append _ _ }

/-- A method that the first module did not have can be taken back. -/
theorem Extends.takenBack (longer : Extends inserted allocated m m') (effect : Effect m' (.rollbackMethod t) m'')
    (unnamed : ∀ row, m.method t ≠ .ok row) (unlisted : ∀ d ∈ m.types, t ∉ d.methods) :
    Extends inserted allocated m m'' := by
  cases effect with
  | found => exact longer
  | rollbackMethod _ newest read =>
    have methods : Continues (Method.Extends inserted allocated) m.methods m'.methods.dropLast := by
      intro i row read
      obtain ⟨row', read', more⟩ := longer.methods i row read
      have inside : i < m'.methods.length := (List.getElem?_eq_some_iff.mp read').1
      have earlier : i ≠ m'.methods.length - 1 := by
        rintro rfl
        exact unnamed row (method_eq_ok_iff.mpr (lookup_eq_some_iff.mpr ⟨_, newest, read⟩))
      exact ⟨row', by rw [List.getElem?_dropLast, if_pos (by omega), read'], more⟩
    refine { longer with methods := methods, types := ?_ }
    dsimp only
    split
    · exact longer.types.modify _ fun d member d' more => more.without (unlisted d member)
    · exact longer.types

theorem Along.extended (along : Along (Op.AddsWithin inserted allocated) m m') (placed : m.Placed) :
    Extends inserted allocated m m' := by
  have evolves : ∀ {m'}, Along (Op.AddsWithin inserted allocated) m m' → Evolves (fun _ => True) m m' :=
    fun along => along.evolves fun _ _ _ _ => trivial
  induction along with
  | refl => exact Std.Refl.refl m
  | step before op within ih =>
    exact trans_of (Extends inserted allocated) ih ((op.effect _).extended within ((evolves before).placed placed))

end Module

end

end WeakSubscription
