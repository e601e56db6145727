import Mathlib.Data.List.Infix
import WeakSubscription.Module.Edit

/-!
# Rows at their places

The row at place `i` of a table carries the token with row number `i + 1`, and no table is longer than
row numbers reach. A token that is read off a row therefore leads back to that row.
-/

namespace WeakSubscription

variable {α : Type} {table : Table} {token : α → Token} {rows rows' : List α} {row : α} {t : Token}

/-! ### Tables -/

namespace Module

theorem lookup_ofRow {i : Nat} (fits : i + 1 < 0x1000000) :
    lookup table rows (.ofRow table (i + 1)) = rows[i]? := by
  rw [lookup, Token.indexIn?_ofRow fits, Option.bind_some]

/-- The token that the next row gets leads to it. -/
theorem lookup_concat (fits : rows.length + 1 < 0x1000000) :
    lookup table (rows ++ [row]) (.ofRow table (rows.length + 1)) = some row := by
  rw [lookup_ofRow fits, List.getElem?_concat_length]

theorem lookup_eq_some_iff :
    lookup table rows t = some row ↔ ∃ i, t.indexIn? table = some i ∧ rows[i]? = some row := by
  rw [lookup, Option.bind_eq_some_iff]

/-- A longer table gives the same row for a token. -/
theorem lookup_of_longer (longer : rows <+: rows') (found : lookup table rows t = some row) :
    lookup table rows' t = some row := by
  obtain ⟨i, place, read⟩ := lookup_eq_some_iff.mp found
  obtain ⟨more, rfl⟩ := longer
  have inside : i < rows.length := (List.getElem?_eq_some_iff.mp read).1
  rw [lookup_eq_some_iff]
  exact ⟨i, place, by rw [List.getElem?_append_left inside, read]⟩

end Module

/-- Every row carries the token of its place, and row numbers reach to the end of the table. -/
structure Numbered (table : Table) (token : α → Token) (rows : List α) : Prop where
  fits : rows.length < 0x1000000
  carried : ∀ {i : Nat} {row : α}, rows[i]? = some row → token row = .ofRow table (i + 1)

namespace Numbered

theorem nil : Numbered table token [] :=
  ⟨show 0 < 0x1000000 by decide, fun read => by simp at read⟩

theorem place_lt (numbered : Numbered table token rows) {i : Nat} (read : rows[i]? = some row) :
    i + 1 < 0x1000000 := by
  have inside : i < rows.length := (List.getElem?_eq_some_iff.mp read).1
  have fits := numbered.fits
  omega

theorem lookup (numbered : Numbered table token rows) {i : Nat} (read : rows[i]? = some row) :
    Module.lookup table rows (token row) = some row := by
  rw [numbered.carried read, Module.lookup_ofRow (numbered.place_lt read), read]

/-- The token that a row carries leads to the row. -/
theorem lookup_of_mem (numbered : Numbered table token rows) (member : row ∈ rows) :
    Module.lookup table rows (token row) = some row := by
  obtain ⟨i, read⟩ := List.mem_iff_getElem?.mp member
  exact numbered.lookup read

theorem append (numbered : Numbered table token rows) (fits : rows.length + 1 < 0x1000000)
    (own : token row = .ofRow table (rows.length + 1)) : Numbered table token (rows ++ [row]) := by
  refine ⟨by simpa using fits, ?_⟩
  intro i row' read
  by_cases inside : i < rows.length
  · rw [List.getElem?_append_left inside] at read
    exact numbered.carried read
  · rw [List.getElem?_append_right (by omega)] at read
    obtain ⟨place, rfl⟩ := List.getElem?_eq_some_iff.mp read
    have last : i = rows.length := by
      simp only [List.length_singleton] at place
      omega
    simpa [last] using own

theorem of_map_eq (numbered : Numbered table token rows) (same : rows'.map token = rows.map token) :
    Numbered table token rows' := by
  have length := congrArg List.length same
  rw [List.length_map, List.length_map] at length
  refine ⟨length ▸ numbered.fits, ?_⟩
  intro i row' read
  have carried : (rows.map token)[i]? = some (token row') := by
    rw [← same, List.getElem?_map, read, Option.map_some]
  rw [List.getElem?_map] at carried
  obtain ⟨row, read', tokens⟩ := Option.map_eq_some_iff.mp carried
  rw [← tokens]
  exact numbered.carried read'

theorem set (numbered : Numbered table token rows) {i : Nat} {row' : α} (read : rows[i]? = some row)
    (same : token row' = token row) : Numbered table token (rows.set i row') := by
  obtain ⟨inside, rfl⟩ := List.getElem?_eq_some_iff.mp read
  refine numbered.of_map_eq ?_
  rw [List.map_set, same, ← List.getElem_map token (h := by simpa using inside), List.set_getElem_self]

theorem of_longer (numbered : Numbered table token rows') (shorter : rows <+: rows') :
    Numbered table token rows := by
  obtain ⟨more, rfl⟩ := shorter
  have fits := numbered.fits
  rw [List.length_append] at fits
  refine ⟨by omega, ?_⟩
  intro i row read
  have inside : i < rows.length := (List.getElem?_eq_some_iff.mp read).1
  exact numbered.carried (by rw [List.getElem?_append_left inside, read])

end Numbered

/-! ### Modules -/

namespace Module

/-- Every row of the module is at its place. Imported types carry no token, so only their number counts. -/
structure Placed (m : Module) : Prop where
  types : Numbered .typeDef TypeDef.token m.types
  typeRefs : Numbered .typeRef TypeRef.token m.typeRefs
  fields : Numbered .field Field.token m.fields
  methods : Numbered .method Method.token m.methods
  memberRefs : Numbered .memberRef MemberRef.token m.memberRefs
  methodSpecs : Numbered .methodSpec MethodSpec.token m.methodSpecs
  typeSpecs : m.typeSpecs.length < 0x1000000

theorem placed_empty (name : String) : (empty name).Placed :=
  ⟨.nil, .nil, .nil, .nil, .nil, .nil, show 0 < 0x1000000 by decide⟩

/-! ### Rows by token -/

variable {m : Module}

theorem elim_eq_ok_iff {o : Option α} {e : Error} : o.elim (.error e) .ok = Except.ok row ↔ o = some row := by
  cases o with
  | none => exact ⟨nofun, nofun⟩
  | some a => exact ⟨fun h => congrArg some (Except.ok.inj h), fun h => congrArg _ (Option.some.inj h)⟩

theorem typeDef_eq_ok_iff {d : TypeDef} : m.typeDef t = .ok d ↔ lookup .typeDef m.types t = some d :=
  elim_eq_ok_iff

theorem typeRef_eq_ok_iff {r : TypeRef} : m.typeRef t = .ok r ↔ lookup .typeRef m.typeRefs t = some r :=
  elim_eq_ok_iff

theorem typeSpec_eq_ok_iff {ty : Ty} : m.typeSpec t = .ok ty ↔ lookup .typeSpec m.typeSpecs t = some ty :=
  elim_eq_ok_iff

theorem field_eq_ok_iff {f : Field} : m.field t = .ok f ↔ lookup .field m.fields t = some f :=
  elim_eq_ok_iff

theorem method_eq_ok_iff {r : Method} : m.method t = .ok r ↔ lookup .method m.methods t = some r :=
  elim_eq_ok_iff

theorem memberRef_eq_ok_iff {r : MemberRef} :
    m.memberRef t = .ok r ↔ lookup .memberRef m.memberRefs t = some r :=
  elim_eq_ok_iff

theorem methodSpec_eq_ok_iff {s : MethodSpec} :
    m.methodSpec t = .ok s ↔ lookup .methodSpec m.methodSpecs t = some s :=
  elim_eq_ok_iff

theorem index?_of_indexIn? {i : Nat} (place : t.indexIn? table = some i) : t.index? = some i := by
  unfold Token.indexIn? at place
  split at place
  · exact place
  · cases place

/-- The table of a token that names a row. -/
theorem inTable_of_lookup (found : lookup table rows t = some row) : t.table = table.id := by
  obtain ⟨i, place, -⟩ := lookup_eq_some_iff.mp found
  unfold Token.indexIn? at place
  split at place
  · rename_i inside
    exact beq_iff_eq.mp inside
  · cases place

theorem table?_of_lookup (found : lookup table rows t = some row) : t.table? = some table := by
  rw [Token.table?, inTable_of_lookup found, Table.ofId?_id]

theorem callTarget_of_method {r : Method} {d : TypeDef} (found : m.method t = .ok r)
    (owner : m.typeDef r.owner = .ok d) :
    m.callTarget t = .ok ⟨d.ty, r.name, r.signature⟩ := by
  unfold callTarget
  rw [table?_of_lookup (method_eq_ok_iff.mp found)]
  exact except_bind_eq_ok_iff.mpr ⟨r, found, except_bind_eq_ok_iff.mpr ⟨d, owner, rfl⟩⟩

theorem callTarget_of_memberRef {ref : MemberRef} (found : m.memberRef t = .ok ref) :
    m.callTarget t = .ok ⟨ref.parent, ref.name, ref.closedSignature []⟩ := by
  unfold callTarget
  rw [table?_of_lookup (memberRef_eq_ok_iff.mp found)]
  exact except_bind_eq_ok_iff.mpr ⟨ref, found, rfl⟩

theorem callTarget_of_methodSpec {ref : MemberRef} {method : Token} {args : List Ty}
    (found : m.methodSpec t = .ok ⟨t, method, args⟩) (known : m.memberRef method = .ok ref) :
    m.callTarget t = .ok ⟨ref.parent, ref.name, ref.closedSignature args⟩ := by
  unfold callTarget
  rw [table?_of_lookup (methodSpec_eq_ok_iff.mp found)]
  exact except_bind_eq_ok_iff.mpr ⟨_, found, except_bind_eq_ok_iff.mpr ⟨ref, known, rfl⟩⟩

theorem callTarget_of_closedConstructor {closed : Ty}
    (closes : m.memberRef t = .ok ⟨t, .inst .action [closed], ".ctor", .ofInstance [.object, .intPtr] .void⟩) :
    m.callTarget t = .ok ⟨.inst .action [closed], ".ctor", .ofInstance [.object, .intPtr] .void⟩ :=
  callTarget_of_memberRef closes

/-- Two tokens that lead to the same place of a table are the same. -/
theorem eq_of_indexIn? {t' : Token} {i : Nat} (first : t.indexIn? table = some i)
    (second : t'.indexIn? table = some i) : t = t' := by
  have parts : ∀ {t : Token}, t.indexIn? table = some i → t.table = table.id ∧ t.row.val = i + 1 := by
    intro t place
    unfold Token.indexIn? Token.index? at place
    split at place
    · rename_i inside
      split at place
      · cases place
      · rename_i positive
        have index := Option.some.inj place
        exact ⟨beq_iff_eq.mp inside, by omega⟩
    · cases place
  obtain ⟨sameTable, sameRow⟩ := parts first
  obtain ⟨sameTable', sameRow'⟩ := parts second
  cases t
  cases t'
  rw [Token.mk.injEq]
  exact ⟨sameTable.trans sameTable'.symm, Fin.ext (sameRow.trans sameRow'.symm)⟩

theorem nextToken_ok {n : Nat} (h : nextToken table n = .ok t) :
    n + 1 < 0x1000000 ∧ t = .ofRow table (n + 1) := by
  unfold nextToken at h
  split at h
  · rename_i fits
    exact ⟨fits, (Except.ok.inj h).symm⟩
  · cases h

end Module

namespace Numbered

/-- The row at the place of a token carries the token. -/
theorem token_of_indexIn? (numbered : Numbered table token rows) {i : Nat} (place : t.indexIn? table = some i)
    (read : rows[i]? = some row) : token row = t :=
  (numbered.carried read).trans (Module.eq_of_indexIn? (Token.indexIn?_ofRow (numbered.place_lt read)) place)

theorem token_of_lookup (numbered : Numbered table token rows) (found : Module.lookup table rows t = some row) :
    token row = t := by
  obtain ⟨i, place, read⟩ := Module.lookup_eq_some_iff.mp found
  exact numbered.token_of_indexIn? place read

end Numbered

/-- Instantiations of a method are the rows that name it. -/
theorem Module.Placed.mem_instantiationsOf_iff {m : Module} {method : Token} (placed : m.Placed) :
    t ∈ m.instantiationsOf method ↔ t = method ∨ ∃ args, m.methodSpec t = .ok ⟨t, method, args⟩ := by
  unfold instantiationsOf
  simp only [List.mem_cons, List.mem_map, List.mem_filter, beq_iff_eq]
  refine or_congr_right ⟨?_, ?_⟩
  · rintro ⟨row, ⟨member, rfl⟩, rfl⟩
    exact ⟨row.args, methodSpec_eq_ok_iff.mpr (placed.methodSpecs.lookup_of_mem member)⟩
  · rintro ⟨args, found⟩
    obtain ⟨i, -, read⟩ := lookup_eq_some_iff.mp (methodSpec_eq_ok_iff.mp found)
    exact ⟨_, ⟨List.mem_of_getElem? read, rfl⟩, rfl⟩

end WeakSubscription
