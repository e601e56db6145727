import WeakSubscription.Proofs.Module.Interning

/-!
# Tables that are full

A row number has twenty-four bits, so a table may have no place for another row. Where all that an edit names
is there, this is the one way in which it can fail.
-/

namespace WeakSubscription.Module

open Tracked

variable {m m' : Module} {table : Table} {t : Token} {e : Error} {n : Nat}

def rowCount (m : Module) : Table → Nat
  | .typeRef => m.typeRefs.length
  | .typeDef => m.types.length
  | .field => m.fields.length
  | .method => m.methods.length
  | .memberRef => m.memberRefs.length
  | .typeSpec => m.typeSpecs.length
  | .methodSpec => m.methodSpecs.length

/-- The error is that a table is full, and that table is. -/
def OutOfRows (e : Error) (m : Module) : Prop :=
  ∃ table, e = .malformed (.tableFull table) ∧ 0x1000000 ≤ m.rowCount table + 1

/-- The full table is not that of methods, to which interning adds nothing. -/
def OutOfReferences (e : Error) (m : Module) : Prop :=
  ∃ table, table ≠ .method ∧ e = .malformed (.tableFull table) ∧ 0x1000000 ≤ m.rowCount table + 1

theorem OutOfReferences.outOfRows (out : OutOfReferences e m) : OutOfRows e m := by
  obtain ⟨table, -, full⟩ := out
  exact ⟨table, full⟩

theorem nextToken_error (h : nextToken table n = .error e) :
    e = .malformed (.tableFull table) ∧ 0x1000000 ≤ n + 1 := by
  unfold nextToken at h
  split at h
  · cases h
  · rename_i full
    exact ⟨(Except.error.inj h).symm, by omega⟩

section

variable {α : Type} {f : Token → Edit α} {Q : Error → Module → Prop}

theorem fails_nextToken_bind (full : 0x1000000 ≤ n + 1 → Q (.malformed (.tableFull table)) m)
    (later : ∀ t, Fails Q (f t) m) : Fails Q (liftM (nextToken table n) >>= f) m := by
  refine fails_bind (fails_lift fun e refused => ?_) fun t s' next => ?_
  · obtain ⟨rfl, reached⟩ := nextToken_error refused
    exact full reached
  · obtain ⟨-, rfl⟩ := lift_eq_ok_iff.mp next
    exact later t

theorem fails_put_pure {m' : Module} (a : α) : Fails Q (do Tracked.put m'; return a : Edit α) m :=
  fails_of_ok rfl

end

theorem addMemberRef_fails (parent : Ty) (name : String) (signature : Signature) (m : Module) :
    Fails OutOfReferences (addMemberRef parent name signature) m := by
  apply fails_get_bind
  dsimp only
  split
  · exact fails_pure _
  · exact fails_nextToken_bind (fun full => ⟨.memberRef, nofun, rfl, full⟩) fun t => fails_put_pure t

theorem addMethodSpec_fails {method : Token} {ref : MemberRef} (found : m.memberRef method = .ok ref)
    {args : List Ty} (count : ref.signature.arity = args.length) :
    Fails OutOfReferences (addMethodSpec method args) m := by
  refine fails_get_bind (fails_lift_bind found ?_)
  dsimp only
  rw [if_neg (Decidable.not_not.mpr count)]
  split
  · exact fails_pure _
  · exact fails_nextToken_bind (fun full => ⟨.methodSpec, nofun, rfl, full⟩) fun t => fails_put_pure t

theorem importType_fails (ty : Ty) (m : Module) : Fails OutOfReferences (importType ty) m := by
  apply fails_get_bind
  dsimp only
  split
  · exact fails_pure _
  · split
    · exact fails_pure _
    · exact fails_nextToken_bind (fun full => ⟨.typeSpec, nofun, rfl, full⟩) fun t => fails_put_pure t

/-! ### The table of methods -/

def SameMethods (m m' : Module) : Prop := m'.methods = m.methods

instance : Std.Refl SameMethods where
  refl _ := rfl

instance : IsTrans Module SameMethods where
  trans _ _ _ first later := later.trans first

theorem SameMethods.method (same : SameMethods m m') {row : Method} (found : m.method t = .ok row) :
    m'.method t = .ok row := by
  rw [method_eq_ok_iff, same, ← method_eq_ok_iff]
  exact found

instance : Interns SameMethods where
  memberRef parent name signature m := by
    apply moves_get_bind
    dsimp only
    split
    · exact moves_pure _
    · exact moves_lift_bind fun token _ => rfl
  methodSpec method args m := by
    refine moves_get_bind (moves_lift_bind fun ref _ => ?_)
    dsimp only
    split
    · exact moves_throw_bind _ _
    · split
      · exact moves_pure _
      · exact moves_lift_bind fun token _ => rfl
  importType ty m := by
    apply moves_get_bind
    dsimp only
    split
    · exact moves_pure _
    · split
      · exact moves_pure _
      · exact moves_lift_bind fun token _ => rfl

theorem ownerIndex_of_typeDef {d : TypeDef} (found : m.typeDef t = .ok d) : ∃ i, m.ownerIndex t = .ok i := by
  obtain ⟨i, place, read⟩ := lookup_eq_some_iff.mp (typeDef_eq_ok_iff.mp found)
  have inside : i < m.types.length := (List.getElem?_eq_some_iff.mp read).1
  refine ⟨i, ?_⟩
  unfold ownerIndex
  simp only [place, if_pos inside]

theorem addMethod_fails {row : Method} {d : TypeDef} (owner : m.typeDef row.owner = .ok d) :
    Fails OutOfRows (addMethod row) m := by
  obtain ⟨i, place⟩ := ownerIndex_of_typeDef owner
  apply fails_get_bind
  refine fails_nextToken_bind (fun full => ⟨.method, rfl, full⟩) fun t => ?_
  exact fails_lift_bind place (fails_put_pure t)

theorem addMethod_newest (row : Method) (m : Module) :
    Gives (fun t m' => t.index? = some (m'.methods.length - 1)) (addMethod row) m := by
  refine gives_get_bind (gives_lift_bind fun token next => gives_lift_bind fun i _ => ?_)
  refine gives_put_bind (gives_pure ?_)
  obtain ⟨fits, rfl⟩ := nextToken_ok next
  have place := Token.indexIn?_ofRow (t := .method) fits
  rw [Token.indexIn?, if_pos (Token.inTable_ofRow _ _)] at place
  rw [place, List.length_append, List.length_singleton, Nat.add_sub_cancel]

/-- The newest method can be taken back. -/
theorem rollbackMethod_of_newest {row : Method} (found : m.method t = .ok row)
    (newest : t.index? = some (m.methods.length - 1)) :
    rollbackMethod t m = .ok row { m with
      methods := m.methods.dropLast
      types := match row.owner.index? with
        | some i => m.types.modify i fun d => { d with methods := d.methods.filter (· ≠ t) }
        | none => m.types } := by
  cases place : row.owner.index? with
  | none => simp [rollbackMethod, found, newest, place, bind, EStateM.bind]
  | some i => simp [rollbackMethod, found, newest, place, bind, EStateM.bind]

/-- Taking it back leaves the other tables as long as they are. -/
theorem rollbackMethod_newest {row : Method} (found : m.method t = .ok row)
    (newest : t.index? = some (m.methods.length - 1)) :
    ∃ m', rollbackMethod t m = .ok row m' ∧ ∀ table ≠ .method, m'.rowCount table = m.rowCount table := by
  refine ⟨_, rollbackMethod_of_newest found newest, fun table other => ?_⟩
  cases table with
  | method => exact absurd rfl other
  | typeDef =>
    simp only [rowCount]
    split
    · exact List.length_modify _ _ _
    · rfl
  | typeRef | field | memberRef | typeSpec | methodSpec => rfl

/-- A failure for want of place for a reference stays one after the newest method was taken back. -/
theorem takeBack_yields {α : Type} {P : α → Module → Prop} {row : Method} (found : m.method t = .ok row)
    (newest : t.index? = some (m.methods.length - 1)) (out : OutOfReferences e m) :
    Yields P OutOfRows (do let _ ← rollbackMethod t; throw e) m := by
  obtain ⟨table, other, isFull, full⟩ := out
  obtain ⟨m', ran, counts⟩ := rollbackMethod_newest found newest
  refine yields_of_error (bind_of_ok ran) ⟨table, isFull, ?_⟩
  rw [counts table other]
  exact full

end WeakSubscription.Module
