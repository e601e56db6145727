import WeakSubscription.Proofs.Module.Arena
import WeakSubscription.Proofs.Module.Exhaustion

/-!
# Taking a method back

The newest method can be taken back, and no other. It stands at the end of its table and of the list of its owner, and
its token is in no other list, so that nothing of it is left but what was interned for its body. The next method gets
its token.
-/

namespace WeakSubscription.Module

open Tracked

variable {m m' : Module} {row last : Method} {d : TypeDef} {t : Token} {i : Nat} {name : String}

/-! ### The newest method -/

theorem modify_eq_self {α : Type} {rows : List α} {change : α → α} (same : ∀ row ∈ rows, change row = row) (i : Nat) :
    rows.modify i change = rows := by
  refine List.ext_getElem? fun j => ?_
  rw [List.getElem?_modify]
  cases read : rows[j]? with
  | none => rfl
  | some row =>
    have kept := same row (List.mem_of_getElem? read)
    by_cases here : i = j <;> simp [here, kept]

/-- What stands behind the methods of another module and is listed by none of its types leaves its methods and its
types when it is taken back. -/
theorem rollbackMethod_of_last (here : t.indexIn? .method = some m.methods.length)
    (methods : m'.methods = m.methods ++ [last]) (place : last.owner.indexIn? .typeDef = some i)
    (types : m'.types = m.types.modify i fun d => { d with methods := d.methods ++ [t] })
    (unlisted : ∀ d ∈ m.types, t ∉ d.methods) :
    m'.method t = .ok last ∧ rollbackMethod t m' = .ok last { m' with methods := m.methods, types := m.types } := by
  have found : m'.method t = .ok last := by
    refine method_eq_ok_iff.mpr (lookup_eq_some_iff.mpr ⟨_, here, ?_⟩)
    rw [methods, List.getElem?_concat_length]
  have newest : t.index? = some (m'.methods.length - 1) := by
    rw [methods, List.length_append, List.length_singleton, Nat.add_sub_cancel]
    exact index?_of_indexIn? here
  have others : m'.methods.dropLast = m.methods := by rw [methods, List.dropLast_concat]
  have lists : m'.types.modify i (fun d => { d with methods := d.methods.filter (· ≠ t) }) = m.types := by
    have kept : ∀ d ∈ m.types, (d.methods ++ [t]).filter (· ≠ t) = d.methods := by
      intro d member
      have stays : d.methods.filter (· ≠ t) = d.methods := List.filter_eq_self.mpr fun u listed =>
        decide_eq_true (ne_of_mem_of_not_mem listed (unlisted d member))
      simp only [List.filter_append, stays]
      simp
    rw [types, List.modify_modify_eq]
    exact modify_eq_self (fun d member => congrArg (fun l => { d with methods := l }) (kept d member)) i
  refine ⟨found, ?_⟩
  rw [rollbackMethod_of_newest found newest, index?_of_indexIn? place]
  simp only [others, lists]

theorem rollbackMethod_of_other (placed : m.Placed) (other : ∀ row, m.methods.getLast? = some row → row.token ≠ t) :
    rollbackMethod t m =
      .error (if (m.method t).isOk then .malformed (.notNewestMethod t) else .memberNotFound t) m := by
  cases found : m.method t with
  | error e =>
    have unknown : e = .memberNotFound t := by
      unfold Module.method at found
      cases read : lookup .method m.methods t with
      | none =>
        rw [read] at found
        exact (Except.error.inj found).symm
      | some row =>
        rw [read] at found
        cases found
    simp [rollbackMethod, found, unknown, bind, EStateM.bind, Except.isOk, Except.toBool]
  | ok row =>
    have older : t.index? ≠ some (m.methods.length - 1) := by
      intro newest
      obtain ⟨i, place, read⟩ := lookup_eq_some_iff.mp (method_eq_ok_iff.mp found)
      obtain rfl : i = m.methods.length - 1 := Option.some.inj ((index?_of_indexIn? place).symm.trans newest)
      exact other row (List.getLast?_eq_getElem? ▸ read) (placed.token_of_method found)
    simp [rollbackMethod, found, older, bind, EStateM.bind, Except.isOk, Except.toBool]

/-- A method with an owner gets the token behind those of all methods, or finds the table full. -/
theorem addMethod_eq (row : Method) (owner : m.typeDef row.owner = .ok d) : ∃ i, row.owner.indexIn? .typeDef = some i ∧
    addMethod row m =
      if m.methods.length + 1 < 0x1000000 then
        .ok (.ofRow .method (m.methods.length + 1)) { m with
          methods := m.methods ++ [{ row with token := .ofRow .method (m.methods.length + 1) }]
          types := m.types.modify i fun d =>
            { d with methods := d.methods ++ [.ofRow .method (m.methods.length + 1)] } }
      else .error (.malformed (.tableFull .method)) m := by
  obtain ⟨i, owned⟩ := ownerIndex_of_typeDef owner
  refine ⟨i, (ownerIndex_eq_ok owned).1, ?_⟩
  by_cases fits : m.methods.length + 1 < 0x1000000 <;> simp [addMethod, nextToken, fits, owned, bind, EStateM.bind]

/-! ### Drafts -/

namespace Op

/-- Whether the operation is on the body of the method, or interns. -/
def Drafts (t : Token) : Op → Prop
  | addLocal method _ | insertCode method _ _ => method = t
  | rewriteMethod method change => method = t ∧ ∀ row, change row = { row with body := (change row).body }
  | importType _ | addMemberRef _ _ _ | addMethodSpec _ _ => True
  | addType _ _ _ | addTypeRef _ _ _ | addField _ _ _ _ | addMethod _ | rollbackMethod _ => False

/-- Whether the operation neither adds a method nor takes one back. -/
def KeepsMethods : Op → Prop
  | addMethod _ | rollbackMethod _ => False
  | addType _ _ _ | addTypeRef _ _ _ | importType _ | addField _ _ _ _ | rewriteMethod _ _ | addLocal _ _
  | insertCode _ _ _ | addMemberRef _ _ _ | addMethodSpec _ _ => True

end Op

/-- The second module is the first one with the method behind its methods and listed by its owner, with any body, and
with other references, instantiations and imported types. -/
inductive Drafted (row : Method) (t : Token) (m : Module) : Module → Prop
  | mk {i : Nat} (here : t.indexIn? .method = some m.methods.length) (place : row.owner.indexIn? .typeDef = some i)
      (body : Body) (memberRefs : List MemberRef) (methodSpecs : List MethodSpec) (typeSpecs : List Ty) :
      Drafted row t m
        { m with
          methods := m.methods ++ [{ row with token := t, body }]
          types := m.types.modify i fun d => { d with methods := d.methods ++ [t] }
          memberRefs, methodSpecs, typeSpecs }

namespace Drafted

theorem setBody (drafted : Drafted row t m m') {old : Method} (place : t.indexIn? .method = some i)
    (read : m'.methods[i]? = some old) (body : Body) :
    Drafted row t m { m' with methods := m'.methods.set i { old with body } } := by
  cases drafted with
  | mk here owner body' memberRefs methodSpecs typeSpecs =>
    obtain rfl : m.methods.length = i := Option.some.inj (here.symm.trans place)
    obtain rfl : { row with token := t, body := body' } = old := by simpa using read
    simp only [List.set_append_right, Nat.le_refl, Nat.sub_self, List.set_cons_zero]
    exact .mk here owner body memberRefs methodSpecs typeSpecs

theorem apply {op : Op} (drafted : Drafted row t m m') (drafts : op.Drafts t) : Drafted row t m (op.apply m') := by
  have effect := op.effect m'
  generalize op.apply m' = m'' at effect
  cases effect with
  | found => exact drafted
  | addLocal token ty place read room =>
    obtain rfl : token = t := drafts
    exact drafted.setBody place read _
  | insertCode token code index place read inside =>
    obtain rfl : token = t := drafts
    exact drafted.setBody place read _
  | @rewriteMethod token change i old place read =>
    obtain ⟨rfl, body_only⟩ := drafts
    have changed : { change old with token := old.token } = { old with body := (change old).body } := by
      rw [body_only old]
    rw [changed]
    exact drafted.setBody place read _
  | importType | addMemberRef | addMethodSpec =>
    cases drafted with
    | mk here owner body memberRefs methodSpecs typeSpecs => exact .mk here owner body _ _ _
  | addType | addTypeRef | addField | addMethod | rollbackMethod => exact drafts.elim

theorem along {m₂ : Module} (drafted : Drafted row t m m') (along : Along (Op.Drafts t) m' m₂) :
    Drafted row t m m₂ := by
  induction along with
  | refl => exact drafted
  | step _ op drafts ih => exact ih.apply drafts

/-- Where no type listed the method before, taking it back leaves nothing but what was interned. -/
theorem takenBack (drafted : Drafted row t m m') (unlisted : ∀ d ∈ m.types, t ∉ d.methods) :
    ∃ body, m'.method t = .ok { row with token := t, body } ∧
      rollbackMethod t m' = .ok { row with token := t, body }
        { m with memberRefs := m'.memberRefs, methodSpecs := m'.methodSpecs, typeSpecs := m'.typeSpecs } := by
  cases drafted with
  | mk here owner body memberRefs methodSpecs typeSpecs =>
    exact ⟨body, rollbackMethod_of_last here rfl owner rfl unlisted⟩

end Drafted

theorem length_methods_of_along (along : Along Op.KeepsMethods m m') : m'.methods.length = m.methods.length := by
  induction along with
  | refl => rfl
  | @step m' _ op keeps ih =>
    rw [← ih]
    have effect := op.effect m'
    generalize op.apply m' = m'' at effect
    cases effect with
    | addMethod | rollbackMethod => exact keeps.elim
    | addLocal | insertCode | rewriteMethod => exact List.length_set
    | found | addType | addTypeRef | importType | addField | addMemberRef | addMethodSpec => rfl

/-! ### Any history -/

/-- In a module of any history in which methods kept their owners, a method with an owner is added, unless the table is
full. It gets a body, and references are interned for it; then it is taken back as it is by then, types with their
lists, fields, references to types and methods are as they were, and its token is the one of the next method. Tokens
that do not name the newest method are refused. -/
theorem rollback_undoes (built : Along Op.KeepsOwners (empty name) m) :
    (∀ (row : Method) (d : TypeDef), m.typeDef row.owner = .ok d →
      (addMethod row m = .error (.malformed (.tableFull .method)) m ∧ 0x1000000 ≤ m.methods.length + 1) ∨
      ∃ t m₁, addMethod row m = .ok t m₁ ∧ ∀ m₂, Along (Op.Drafts t) m₁ m₂ →
        ∃ body m₃, m₂.method t = .ok { row with token := t, body } ∧
          rollbackMethod t m₂ = .ok { row with token := t, body } m₃ ∧
          m₃ = { m with memberRefs := m₂.memberRefs, methodSpecs := m₂.methodSpecs, typeSpecs := m₂.typeSpecs } ∧
          ∀ m₄, Along Op.KeepsMethods m₃ m₄ → ∀ (next : Method) (d' : TypeDef), m₄.typeDef next.owner = .ok d' →
            ∃ m₅, addMethod next m₄ = .ok t m₅) ∧
    ∀ t, (∀ row, m.methods.getLast? = some row → row.token ≠ t) →
      rollbackMethod t m =
        .error (if (m.method t).isOk then .malformed (.notNewestMethod t) else .memberNotFound t) m := by
  have listed := (listed_empty name).along built fun _ keeps => keeps
  refine ⟨fun row d owner => ?_, fun t other => rollbackMethod_of_other listed.placed other⟩
  obtain ⟨i, place, added⟩ := addMethod_eq row owner
  by_cases fits : m.methods.length + 1 < 0x1000000
  · rw [if_pos fits] at added
    refine .inr ⟨_, _, added, fun m₂ along => ?_⟩
    have drafted := Drafted.mk (Token.indexIn?_ofRow fits) place row.body m.memberRefs m.methodSpecs m.typeSpecs
    obtain ⟨-, -, free⟩ := addMethod_gives row m _ _ added
    obtain ⟨body, found, ran⟩ := (drafted.along along).takenBack (listed.unlisted free)
    refine ⟨body, _, found, ran, rfl, fun m₄ later next d' owner' => ?_⟩
    have length : m₄.methods.length = m.methods.length :=
      (length_methods_of_along later).trans rfl
    obtain ⟨j, -, again⟩ := addMethod_eq next owner'
    rw [length, if_pos fits] at again
    exact ⟨_, again⟩
  · rw [if_neg fits] at added
    exact .inl ⟨added, by omega⟩

namespace Detour

def draft : Method := (decl "draft").row box

/-- The draft gets a local and code; a reference and a type are interned for it. -/
def edits : List Op :=
  [.addLocal (.ofRow .method 3) .object, .insertCode (.ofRow .method 3) [.plain .nop] 0,
   .addMemberRef .object "Take" ⟨false, 0, [.object], .void⟩, .importType (.inst .action [.object])]

/-- A draft behind a method that has the token of another one before it. -/
theorem rollback_undoes_draft : Along Op.KeepsOwners (empty "Sample") made ∧
    (∃ d, made.typeDef draft.owner = .ok d) ∧
    (∃ m₁ body m₃, addMethod draft made = .ok (.ofRow .method 3) m₁ ∧
      Along (Op.Drafts (.ofRow .method 3)) m₁ (edits.foldl (fun m op => op.apply m) m₁) ∧
      rollbackMethod (.ofRow .method 3) (edits.foldl (fun m op => op.apply m) m₁) =
        .ok { draft with token := .ofRow .method 3, body } m₃ ∧
      m₃.types = made.types ∧ m₃.methods = made.methods ∧ m₃ ≠ made ∧
      ∃ m₅, addMethod draft m₃ = .ok (.ofRow .method 3) m₅) ∧
    rollbackMethod (.ofRow .method 1) made = .error (.malformed (.notNewestMethod (.ofRow .method 1))) made := by
  have keeps : Along Op.KeepsOwners (empty "Sample") made := built.imp fun _ builds => builds.keepsOwners
  obtain ⟨undone, refused⟩ := rollback_undoes keeps
  obtain ⟨d, owner⟩ : ∃ d, made.typeDef draft.owner = .ok d := by
    have known : (made.typeDef draft.owner).toOption.isSome = true := by decide +kernel
    obtain ⟨d, read⟩ := Option.isSome_iff_exists.mp known
    exact ⟨d, eq_ok_of_toOption read⟩
  refine ⟨keeps, ⟨d, owner⟩, ?_, ?_⟩
  · have added : addMethod draft made = .ok (.ofRow .method 3) (endState (addMethod draft made)) :=
      eq_ok_of_value? (by decide +kernel)
    rcases undone draft d owner with ⟨failed, -⟩ | ⟨t, m₁, added', later⟩
    · cases failed.symm.trans added
    · obtain ⟨rfl, rfl⟩ := EStateM.Result.ok.inj (added.symm.trans added')
      have drafts : ∀ op ∈ edits, op.Drafts (.ofRow .method 3) := by simp [edits, Op.Drafts]
      have edited := Along.operated drafts (endState (addMethod draft made))
      have changed : (edits.foldl (fun m op => op.apply m) (endState (addMethod draft made))).memberRefs ≠
          made.memberRefs := by decide +kernel
      obtain ⟨body, m₃, -, takes, same, next⟩ := later _ edited
      have types : m₃.types = made.types := by rw [same]
      have methods : m₃.methods = made.methods := by rw [same]
      have interned : m₃.memberRefs =
          (edits.foldl (fun m op => op.apply m) (endState (addMethod draft made))).memberRefs := by rw [same]
      have owner' : m₃.typeDef draft.owner = .ok d := by
        rw [typeDef_eq_ok_iff, types]
        exact typeDef_eq_ok_iff.mp owner
      refine ⟨_, body, m₃, added, edited, takes, types, methods, ?_, next _ .refl draft d owner'⟩
      rw [← interned] at changed
      exact fun unchanged => changed (congrArg memberRefs unchanged)
  · have older : ∀ row, made.methods.getLast? = some row → row.token ≠ .ofRow .method 1 := by
      decide +kernel
    have known : (made.method (.ofRow .method 1)).isOk = true := by decide +kernel
    rw [refused _ older, if_pos known]

end Detour

end WeakSubscription.Module
