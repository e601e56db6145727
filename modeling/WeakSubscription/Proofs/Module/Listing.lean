import WeakSubscription.Proofs.Module.Effects
import WeakSubscription.Proofs.Module.Ownership

/-!
# Member lists

A type definition lists the tokens of exactly those members that name it as their owner, in the order of their
rows. Members come to the end of their table and of the list together, and the newest method leaves both. Every
operation keeps this that leaves the methods with their owners.
-/

namespace WeakSubscription.Module

variable {α : Type} {m m' : Module} {op : Op} {t : Token} {rows : List α} {row : α} {token owner : α → Token}
  {types : List TypeDef} {d d' : TypeDef}

/-! ### Members of an owner -/

/-- The tokens of the rows that name the owner. -/
def membersOf (token owner : α → Token) (rows : List α) (t : Token) : List Token :=
  (rows.filter (owner · = t)).map token

theorem membersOf_concat (rows : List α) (row : α) (t : Token) :
    membersOf token owner (rows ++ [row]) t =
      membersOf token owner rows t ++ if owner row = t then [token row] else [] := by
  unfold membersOf
  by_cases own : owner row = t <;> simp [own]

theorem membersOf_eq_nil (apart : ∀ row ∈ rows, owner row ≠ t) : membersOf token owner rows t = [] := by
  have none_left : rows.filter (owner · = t) = [] := List.filter_eq_nil_iff.mpr (by simpa using apart)
  rw [membersOf, none_left, List.map_nil]

theorem mem_membersOf {u : Token} :
    u ∈ membersOf token owner rows t ↔ ∃ row ∈ rows, owner row = t ∧ token row = u := by
  simp [membersOf, and_assoc]

/-- Rows that keep token and owner are the same members. -/
theorem membersOf_set {i : Nat} {row' : α} (read : rows[i]? = some row) (sameToken : token row' = token row)
    (sameOwner : owner row' = owner row) (t : Token) :
    membersOf token owner (rows.set i row') t = membersOf token owner rows t := by
  induction rows generalizing i with
  | nil => rfl
  | cons first rest ih =>
    cases i with
    | zero =>
      obtain rfl := Option.some.inj read
      simp only [membersOf, List.set_cons_zero, List.filter_cons, sameOwner]
      split
      · simp only [List.map_cons, sameToken]
      · rfl
    | succ i =>
      have later := ih read
      simp only [membersOf, List.set_cons_succ, List.filter_cons] at later ⊢
      split
      · simp only [List.map_cons, later]
      · exact later

/-! ### Types with changed lists -/

theorem Placed.token_of_method (placed : m.Placed) {row : Method} (found : m.method t = .ok row) : row.token = t :=
  placed.methods.token_of_lookup (method_eq_ok_iff.mp found)

/-- Where the type at one place is changed, it is the one with the token of that place. -/
theorem mem_modify_owner {change : TypeDef → TypeDef} {i : Nat} (numbered : Numbered .typeDef TypeDef.token types)
    (place : t.indexIn? .typeDef = some i) (member : d' ∈ types.modify i change) :
    ∃ d ∈ types, d' = if d.token = t then change d else d := by
  obtain ⟨j, read'⟩ := List.mem_iff_getElem?.mp member
  rw [List.getElem?_modify] at read'
  obtain ⟨d, read, rfl⟩ := Option.map_eq_some_iff.mp read'
  refine ⟨d, List.mem_of_getElem? read, ?_⟩
  by_cases here : i = j
  · subst here
    simp only [if_true, numbered.token_of_indexIn? place read]
  · have other : d.token ≠ t := by
      intro own
      have place' := Token.indexIn?_ofRow (t := .typeDef) (numbered.place_lt read)
      rw [← numbered.carried read, own, place] at place'
      exact here (Option.some.inj place')
    simp only [here, other, if_false]

/-- The token of the next type names no type yet. -/
theorem ne_next_of_typeDef (found : m.typeDef t = .ok d) (fits : m.types.length + 1 < 0x1000000) :
    t ≠ .ofRow .typeDef (m.types.length + 1) := by
  rintro rfl
  rw [typeDef_eq_ok_iff, lookup_ofRow fits, List.getElem?_eq_none (Nat.le_refl _)] at found
  cases found

/-! ### Listed members -/

/-- The lists of the type are those of the members that name it. -/
structure ListsMembers (m : Module) (d : TypeDef) : Prop where
  fields : d.fields = membersOf Field.token Field.owner m.fields d.token
  methods : d.methods = membersOf Method.token Method.owner m.methods d.token

/-- Rows are at their places, members have owners, and types list their members. -/
structure Listed (m : Module) : Prop where
  placed : m.Placed
  fieldsOwned : m.FieldsOwned
  methodsOwned : m.MethodsOwned
  lists : ∀ d ∈ m.types, m.ListsMembers d

/-- No type lists a token that names no method. -/
theorem Listed.unlisted (listed : m.Listed) (free : ∀ row, m.method t ≠ .ok row) : ∀ d ∈ m.types, t ∉ d.methods := by
  intro d member lists
  rw [(listed.lists d member).methods] at lists
  obtain ⟨row, inside, -, rfl⟩ := mem_membersOf.mp lists
  exact free row (method_eq_ok_iff.mpr (listed.placed.methods.lookup_of_mem inside))

theorem listed_empty (name : String) : (empty name).Listed :=
  ⟨placed_empty name, fieldsOwned_empty name, methodsOwned_empty name, nofun⟩

/-- The newest method is not among the members that are left without it. -/
theorem membersOf_dropLast (numbered : Numbered .method Method.token m.methods) {last : Method}
    (read : m.methods[m.methods.length - 1]? = some last) (t : Token) :
    membersOf Method.token Method.owner m.methods.dropLast t =
      if last.owner = t then (membersOf Method.token Method.owner m.methods t).filter (· ≠ last.token)
      else membersOf Method.token Method.owner m.methods t := by
  have split : m.methods = m.methods.dropLast ++ [last] := by
    obtain ⟨inside, same⟩ := List.getElem?_eq_some_iff.mp read
    have nonempty : m.methods ≠ [] := by
      rintro empty
      rw [empty] at inside
      cases inside
    rw [← same, ← List.getLast_eq_getElem nonempty, List.dropLast_concat_getLast]
  have others : ∀ r ∈ m.methods.dropLast, r.token ≠ last.token := by
    intro r member same
    obtain ⟨i, before⟩ := List.mem_iff_getElem?.mp member
    rw [List.getElem?_dropLast] at before
    split at before
    · rename_i inside
      have place := Token.indexIn?_ofRow (t := .method) (numbered.place_lt before)
      have place' := Token.indexIn?_ofRow (t := .method) (numbered.place_lt read)
      rw [← numbered.carried before, same, numbered.carried read, place'] at place
      have := Option.some.inj place
      omega
    · cases before
  have kept : (membersOf Method.token Method.owner m.methods.dropLast t).filter (· ≠ last.token) =
      membersOf Method.token Method.owner m.methods.dropLast t := by
    apply List.filter_eq_self.mpr
    intro u member
    obtain ⟨r, inside, -, rfl⟩ := mem_membersOf.mp member
    exact decide_eq_true (others r inside)
  have all : membersOf Method.token Method.owner (m.methods.dropLast ++ [last]) t =
      membersOf Method.token Method.owner m.methods.dropLast t ++ if last.owner = t then [last.token] else [] :=
    membersOf_concat _ _ _
  rw [← split] at all
  rw [all]
  by_cases own : last.owner = t
  · simp only [if_pos own, List.filter_append, kept]
    simp
  · simp only [if_neg own, List.append_nil]

/-- Types list their members behind every effect. -/
theorem Effect.lists (effect : Effect m op m') (keeps : op.KeepsOwners) (listed : m.Listed) :
    ∀ d ∈ m'.types, m'.ListsMembers d := by
  have set : ∀ {i : Nat} {row row' : Method}, m.methods[i]? = some row → row'.token = row.token →
      row'.owner = row.owner → ∀ d ∈ m.types, ListsMembers { m with methods := m.methods.set i row' } d := by
    intro i row row' read sameToken sameOwner d member
    obtain ⟨fields, methods⟩ := listed.lists d member
    exact ⟨fields, methods.trans (membersOf_set read sameToken sameOwner _).symm⟩
  cases effect with
  | found => exact listed.lists
  | addTypeRef _ _ _ _ _ | importType _ _ _ | addMemberRef _ _ _ _ _ | addMethodSpec _ _ _ _ _ _ =>
    exact fun d member => ⟨(listed.lists d member).fields, (listed.lists d member).methods⟩
  | addType name flags base fits =>
    intro d member
    rcases List.mem_append.mp member with old | new
    · exact ⟨(listed.lists d old).fields, (listed.lists d old).methods⟩
    · obtain rfl := List.mem_singleton.mp new
      refine ⟨(membersOf_eq_nil fun f inside => ?_).symm, (membersOf_eq_nil fun r inside => ?_).symm⟩
      · obtain ⟨d, found⟩ := listed.fieldsOwned f inside
        exact ne_next_of_typeDef found fits
      · obtain ⟨d, found⟩ := listed.methodsOwned r inside
        exact ne_next_of_typeDef found fits
  | addField owner name flags ty fits place inside =>
    intro d' member
    obtain ⟨d, old, rfl⟩ := mem_modify_owner listed.placed.types place member
    obtain ⟨fields, methods⟩ := listed.lists d old
    by_cases own : d.token = owner
    · rw [if_pos own]
      refine ⟨?_, methods⟩
      rw [membersOf_concat, if_pos own.symm, ← fields]
    · rw [if_neg own]
      refine ⟨?_, methods⟩
      rw [membersOf_concat, if_neg (Ne.symm own), List.append_nil, ← fields]
  | addMethod row fits place inside =>
    intro d' member
    obtain ⟨d, old, rfl⟩ := mem_modify_owner listed.placed.types place member
    obtain ⟨fields, methods⟩ := listed.lists d old
    by_cases own : d.token = row.owner
    · rw [if_pos own]
      refine ⟨fields, ?_⟩
      rw [membersOf_concat, if_pos own.symm, ← methods]
    · rw [if_neg own]
      refine ⟨fields, ?_⟩
      rw [membersOf_concat, if_neg (Ne.symm own), List.append_nil, ← methods]
  | @rollbackMethod token last newest read =>
    intro d' member
    obtain ⟨d₀, found⟩ := listed.methodsOwned last (List.mem_of_getElem? read)
    obtain ⟨i, place, -⟩ := lookup_eq_some_iff.mp (typeDef_eq_ok_iff.mp found)
    have own : last.token = token := listed.placed.methods.token_of_indexIn? newest read
    rw [index?_of_indexIn? place] at member
    obtain ⟨d, old, rfl⟩ := mem_modify_owner listed.placed.types place member
    obtain ⟨fields, methods⟩ := listed.lists d old
    have left := membersOf_dropLast listed.placed.methods read d.token
    by_cases owns : d.token = last.owner
    · rw [if_pos owns]
      refine ⟨fields, ?_⟩
      rw [left, if_pos owns.symm, ← methods, own]
    · rw [if_neg owns]
      refine ⟨fields, ?_⟩
      rw [left, if_neg (Ne.symm owns), ← methods]
  | rewriteMethod token change place read => exact set read rfl (keeps _)
  | addLocal token ty place read room => exact set read rfl rfl
  | insertCode token code index place read inside => exact set read rfl rfl

theorem Listed.apply (listed : m.Listed) (keeps : op.KeepsOwners) : (op.apply m).Listed :=
  ⟨(op.moves m).placed listed.placed, op.fieldsOwned listed.fieldsOwned,
    Op.methodsOwned keeps listed.methodsOwned, (op.effect m).lists keeps listed⟩

theorem Listed.along {P : Op → Prop} (listed : m.Listed) (along : Along P m m')
    (keeps : ∀ op, P op → op.KeepsOwners) : m'.Listed := by
  induction along with
  | refl => exact listed
  | step _ op kind ih => exact ih.apply (keeps op kind)

end WeakSubscription.Module
