import WeakSubscription.Proofs.Module.Growth

/-!
# What edits give

The token that an edit gives means what was asked for, whether the row was there before or was made for it.
-/

namespace WeakSubscription.Module

open Tracked

variable {m m' : Module} {t : Token}

/-! ### References, instantiations and imported types -/

/-- A referenced member is the one that was asked for. -/
theorem addMemberRef_gives (parent : Ty) (name : String) (signature : Signature) (placed : m.Placed) :
    Gives (fun t m' => m'.memberRef t = .ok ⟨t, parent, name, signature⟩)
      (addMemberRef parent name signature) m := by
  refine gives_get_bind ?_
  dsimp only
  split
  · rename_i existing found
    refine gives_pure ?_
    have asked := List.find?_some found
    simp only [Bool.and_eq_true, beq_iff_eq] at asked
    obtain ⟨⟨rfl, rfl⟩, rfl⟩ := asked
    exact memberRef_eq_ok_iff.mpr (placed.memberRefs.lookup_of_mem (List.mem_of_find?_eq_some found))
  · refine gives_lift_bind fun token next => gives_put_bind (gives_pure ?_)
    obtain ⟨fits, rfl⟩ := nextToken_ok next
    exact memberRef_eq_ok_iff.mpr (lookup_concat fits)

/-- An instantiation is the one that was asked for. -/
theorem addMethodSpec_gives (method : Token) (args : List Ty) (placed : m.Placed) :
    Gives (fun t m' => m'.methodSpec t = .ok ⟨t, method, args⟩) (addMethodSpec method args) m := by
  refine gives_get_bind (gives_lift_bind fun ref _ => ?_)
  dsimp only
  split
  · exact gives_throw_bind _ _
  · split
    · rename_i existing found
      refine gives_pure ?_
      have asked := List.find?_some found
      simp only [Bool.and_eq_true, beq_iff_eq] at asked
      obtain ⟨rfl, rfl⟩ := asked
      exact methodSpec_eq_ok_iff.mpr (placed.methodSpecs.lookup_of_mem (List.mem_of_find?_eq_some found))
    · refine gives_lift_bind fun token next => gives_put_bind (gives_pure ?_)
      obtain ⟨fits, rfl⟩ := nextToken_ok next
      exact methodSpec_eq_ok_iff.mpr (lookup_concat fits)

theorem resolveType_of_typeDef {d : TypeDef} (found : lookup .typeDef m.types t = some d) :
    m.resolveType t = .ok d.ty := by
  unfold resolveType
  rw [table?_of_lookup found]
  exact except_map_eq_ok_iff.mpr ⟨d, typeDef_eq_ok_iff.mpr found, rfl⟩

theorem resolveType_of_typeRef {r : TypeRef} (found : lookup .typeRef m.typeRefs t = some r) :
    m.resolveType t = .ok r.ty := by
  unfold resolveType
  rw [table?_of_lookup found]
  exact except_map_eq_ok_iff.mpr ⟨r, typeRef_eq_ok_iff.mpr found, rfl⟩

theorem resolveType_of_typeSpec {ty : Ty} (found : lookup .typeSpec m.typeSpecs t = some ty) :
    m.resolveType t = .ok ty := by
  unfold resolveType
  rw [table?_of_lookup found]
  exact typeSpec_eq_ok_iff.mpr found

/-- An imported type is the one that was asked for. -/
theorem importType_gives (ty : Ty) (placed : m.Placed) :
    Gives (fun t m' => m'.resolveType t = .ok ty) (importType ty) m := by
  refine gives_get_bind ?_
  dsimp only
  split
  · rename_i token found
    refine gives_pure ?_
    cases ty with
    | named name =>
      obtain defined | ⟨-, referenced⟩ := Option.or_eq_some_iff.mp found
      · obtain ⟨d, first, rfl⟩ := Option.map_eq_some_iff.mp defined
        have named : d.name = name := by simpa using List.find?_some first
        rw [← named]
        exact resolveType_of_typeDef (placed.types.lookup_of_mem (List.mem_of_find?_eq_some first))
      · obtain ⟨r, first, rfl⟩ := Option.map_eq_some_iff.mp referenced
        have named : r.name = name := by simpa using List.find?_some first
        rw [← named]
        exact resolveType_of_typeRef (placed.typeRefs.lookup_of_mem (List.mem_of_find?_eq_some first))
    | void | object | intPtr | inst _ _ | typeParam _ | methodParam _ => cases found
  · split
    · rename_i i place
      refine gives_pure (resolveType_of_typeSpec ?_)
      obtain ⟨inside, same, -⟩ := List.idxOf?_eq_some_iff.mp place
      have fits := placed.typeSpecs
      rw [lookup_ofRow (by omega)]
      exact List.getElem?_eq_some_iff.mpr ⟨inside, by simpa using same⟩
    · refine gives_lift_bind fun token next => gives_put_bind (gives_pure ?_)
      obtain ⟨fits, rfl⟩ := nextToken_ok next
      exact resolveType_of_typeSpec (lookup_concat fits)

theorem addTypeRef_gives (name : TypeName) (scope : String) (invoke : Option Signature) (placed : m.Placed) :
    Gives (fun t m' => m'.typeRef t = .ok ⟨t, name, scope, invoke⟩) (addTypeRef name scope invoke) m := by
  apply gives_get_bind
  dsimp only
  split
  · exact gives_throw_bind _ _
  · split
    · rename_i existing found
      split
      · rename_i same
        obtain ⟨rfl, rfl⟩ := same
        obtain rfl : existing.name = name := by simpa using List.find?_some found
        exact gives_pure (typeRef_eq_ok_iff.mpr (placed.typeRefs.lookup_of_mem (List.mem_of_find?_eq_some found)))
      · exact gives_throw _
    · refine gives_lift_bind fun token next => gives_put_bind (gives_pure ?_)
      obtain ⟨fits, rfl⟩ := nextToken_ok next
      exact typeRef_eq_ok_iff.mpr (lookup_concat fits)

/-! ### Rows that are found -/

/-- A row that was not found is the one that is found once it was added. -/
theorem find?_concat_of_none {α : Type} {rows : List α} {row : α} {p : α → Bool} (missing : rows.find? p = none)
    (kind : p row) : (rows ++ [row]).find? p = some row := by
  rw [List.find?_append, missing, Option.none_or, List.find?_singleton, if_pos kind]

theorem addMethodSpec_of_row {method : Token} {args : List Ty} {ref : MemberRef} {row : MethodSpec}
    (known : m.memberRef method = .ok ref) (arity : ref.signature.arity = args.length)
    (found : m.methodSpecs.find? (fun s => s.method == method && s.args == args) = some row) :
    addMethodSpec method args m = .ok row.token m := by
  simp [addMethodSpec, known, arity, found, bind, EStateM.bind]

theorem addMemberRef_of_row {parent : Ty} {name : String} {signature : Signature} {row : MemberRef}
    (found : m.memberRefs.find? (fun r => r.parent == parent && r.name == name && r.signature == signature) =
      some row) :
    addMemberRef parent name signature m = .ok row.token m := by
  simp [addMemberRef, found]

theorem addTypeRef_of_row {name : TypeName} {row : TypeRef} (undefined : ∀ d ∈ m.types, d.name ≠ name)
    (found : m.typeRefs.find? (·.name == name) = some row) :
    addTypeRef name row.scope row.invoke m = .ok row.token m := by
  have none_defined : ¬ ∃ d, d ∈ m.types ∧ d.name = name := fun ⟨d, member, same⟩ => undefined d member same
  simp [addTypeRef, none_defined, found]

theorem addMethodSpec_finds (method : Token) (args : List Ty) (m : Module) :
    Gives (fun t m' => ∃ ref row, m'.memberRef method = .ok ref ∧ ref.signature.arity = args.length ∧
      m'.methodSpecs.find? (fun s => s.method == method && s.args == args) = some row ∧ row.token = t)
      (addMethodSpec method args) m := by
  refine gives_get_bind (gives_lift_bind fun ref known => ?_)
  dsimp only
  split
  · exact gives_throw_bind _ _
  · rename_i arity
    split
    · rename_i row found
      exact gives_pure ⟨ref, row, known, Decidable.not_not.mp arity, found, rfl⟩
    · rename_i missing
      refine gives_lift_bind fun token _ => gives_put_bind (gives_pure ?_)
      exact ⟨ref, _, known, Decidable.not_not.mp arity, find?_concat_of_none missing (by simp), rfl⟩

theorem addMemberRef_finds (parent : Ty) (name : String) (signature : Signature) (m : Module) :
    Gives (fun t m' => ∃ row,
      m'.memberRefs.find? (fun r => r.parent == parent && r.name == name && r.signature == signature) = some row ∧
        row.token = t) (addMemberRef parent name signature) m := by
  apply gives_get_bind
  dsimp only
  split
  · rename_i row found
    exact gives_pure ⟨row, found, rfl⟩
  · rename_i missing
    refine gives_lift_bind fun token _ => gives_put_bind (gives_pure ?_)
    exact ⟨_, find?_concat_of_none missing (by simp), rfl⟩

/-- A name is referenced only where no type is defined under it. -/
theorem addTypeRef_finds (name : TypeName) (scope : String) (invoke : Option Signature) (m : Module) :
    Gives (fun t m' => (∀ d ∈ m'.types, d.name ≠ name) ∧ ∃ row, m'.typeRefs.find? (·.name == name) = some row ∧
      row.scope = scope ∧ row.invoke = invoke ∧ row.token = t) (addTypeRef name scope invoke) m := by
  apply gives_get_bind
  dsimp only
  split
  · exact gives_throw_bind _ _
  · rename_i free
    have undefined : ∀ d ∈ m.types, d.name ≠ name := by simpa using free
    split
    · rename_i row found
      split
      · rename_i same
        exact gives_pure ⟨undefined, row, found, same.1, same.2, rfl⟩
      · exact gives_throw _
    · rename_i missing
      refine gives_lift_bind fun token _ => gives_put_bind (gives_pure ⟨undefined, ?_⟩)
      exact ⟨_, find?_concat_of_none missing (by simp), rfl, rfl, rfl⟩

/-! ### Methods -/

/-- An added method has the given row, with its token filled in, and is listed by its owner. The token
named no method before. -/
theorem addMethod_gives (row : Method) (m : Module) :
    Gives (fun t m' => m'.method t = .ok { row with token := t } ∧ m'.Lists row.owner t ∧
      ∀ old, m.method t ≠ .ok old) (addMethod row) m := by
  refine gives_get_bind (gives_lift_bind fun token next => gives_lift_bind fun i owned => ?_)
  refine gives_put_bind (gives_pure ?_)
  obtain ⟨fits, rfl⟩ := nextToken_ok next
  refine ⟨method_eq_ok_iff.mpr (lookup_concat fits), ?_, ?_⟩
  · unfold ownerIndex at owned
    split at owned
    · rename_i j place
      split at owned
      · rename_i inside
        obtain rfl := Except.ok.inj owned
        obtain ⟨d, read⟩ : ∃ d, m.types[j]? = some d := ⟨_, List.getElem?_eq_getElem inside⟩
        refine ⟨{ d with methods := d.methods ++ [.ofRow .method (m.methods.length + 1)] },
          typeDef_eq_ok_iff.mpr (lookup_eq_some_iff.mpr ⟨j, place, ?_⟩), ?_⟩
        · rw [List.getElem?_modify_eq, read, Option.map_eq_map, Option.map_some]
        · exact List.mem_append_right _ (List.mem_singleton_self _)
      · cases owned
    · cases owned
  · intro old found
    rw [method_eq_ok_iff, lookup_ofRow fits, List.getElem?_eq_none (Nat.le_refl _)] at found
    cases found

/-- An edited body is that of the method as it was, edited. -/
theorem editBody_gives {α : Type} (edit : Body → Except Error (Body × α)) {row : Method}
    (found : m.method t = .ok row) :
    Gives (fun a m' => ∃ body, edit row.body = .ok (body, a) ∧ m'.method t = .ok { row with body })
      (editBody t edit) m := by
  obtain ⟨i, place, read⟩ := lookup_eq_some_iff.mp (method_eq_ok_iff.mp found)
  have inside : i < m.methods.length := (List.getElem?_eq_some_iff.mp read).1
  refine gives_get_bind ?_
  dsimp only
  rw [place]
  refine gives_lift_bind fun row' found' => gives_lift_bind fun edited changed => ?_
  obtain rfl : row = row' := Except.ok.inj (found.symm.trans found')
  refine gives_put_bind (gives_pure ⟨edited.1, changed, ?_⟩)
  refine method_eq_ok_iff.mpr (lookup_eq_some_iff.mpr ⟨i, place, ?_⟩)
  rw [List.getElem?_set_self inside]

/-- An edited body takes no method off the list of its type. -/
theorem editBody_lists {α : Type} (edit : Body → Except Error (Body × α)) (m : Module) :
    Gives (fun _ m' => ∀ {owner method : Token}, m.Lists owner method → m'.Lists owner method)
      (editBody t edit) m := by
  refine gives_get_bind ?_
  cases t.indexIn? .method with
  | none => exact gives_throw _
  | some i =>
    refine gives_lift_bind fun row _ => gives_lift_bind fun edited _ => ?_
    refine gives_put_bind (gives_pure ?_)
    intro owner method listed
    exact listed

/-- A new local stands behind the locals that were there. -/
theorem addLocal_gives (ty : Ty) {row : Method} (found : m.method t = .ok row) :
    Gives (fun v m' => v = ⟨row.body.locals.length, ty⟩ ∧ row.body.locals.length < Body.maxLocals ∧
        m'.method t = .ok { row with body := { row.body with locals := row.body.locals ++ [v] } })
      (addLocal t ty) m := by
  intro v m' ran
  obtain ⟨body, added, changed⟩ := editBody_gives _ found _ _ ran
  unfold Body.addLocal at added
  split at added
  · rename_i room
    obtain ⟨rfl, rfl⟩ := Prod.mk.inj (Except.ok.inj added)
    exact ⟨rfl, room, changed⟩
  · cases added

/-- Code that is put in front of a body stands in front of it. -/
theorem insertCode_gives (code : Code) {row : Method} (found : m.method t = .ok row) :
    Gives (fun _ m' => m'.method t = .ok { row with body := { row.body with code := code ++ row.body.code } })
      (insertCode t code 0) m := by
  intro _ m' ran
  obtain ⟨body, inserted, changed⟩ := editBody_gives _ found _ _ ran
  obtain ⟨body', fits, same⟩ := except_map_eq_ok_iff.mp inserted
  obtain ⟨rfl, -⟩ := Prod.mk.inj same
  rw [Body.insert, if_pos (Nat.zero_le _)] at fits
  obtain rfl := Except.ok.inj fits
  simpa using changed

end WeakSubscription.Module
