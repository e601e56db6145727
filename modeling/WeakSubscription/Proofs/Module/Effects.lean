import WeakSubscription.Proofs.Module.History

/-!
# What operations do

An operation that fails leaves the module as it was, and one that succeeds found what it was asked for or made
one change. The changes are listed here, each with what the operation made sure of before it, so that an
invariant of modules has one case for every change.
-/

namespace WeakSubscription.Module

open Tracked

variable {m m' : Module} {t : Token}

/-- The second module is what the operation made of the first one. -/
inductive Effect (m : Module) : Op → Module → Prop
  /-- What was asked for was there already. -/
  | found (op : Op) : Effect m op m
  | addType (name : TypeName) (flags : TypeFlags) (base : Option Ty) (fits : m.types.length + 1 < 0x1000000) :
      Effect m (.addType name flags base)
        { m with types := m.types ++ [⟨.ofRow .typeDef (m.types.length + 1), name, flags, base, [], []⟩] }
  | addTypeRef (name : TypeName) (scope : String) (invoke : Option Signature)
      (fits : m.typeRefs.length + 1 < 0x1000000) (new : ∀ r ∈ m.typeRefs, r.name ≠ name) :
      Effect m (.addTypeRef name scope invoke)
        { m with typeRefs := m.typeRefs ++ [⟨.ofRow .typeRef (m.typeRefs.length + 1), name, scope, invoke⟩] }
  | importType (ty : Ty) (fits : m.typeSpecs.length + 1 < 0x1000000) (new : ty ∉ m.typeSpecs) :
      Effect m (.importType ty) { m with typeSpecs := m.typeSpecs ++ [ty] }
  | addField (owner : Token) (name : String) (flags : FieldFlags) (ty : Ty) {i : Nat}
      (fits : m.fields.length + 1 < 0x1000000) (place : owner.indexIn? .typeDef = some i)
      (inside : i < m.types.length) :
      Effect m (.addField owner name flags ty)
        { m with
          fields := m.fields ++ [⟨.ofRow .field (m.fields.length + 1), name, owner, flags, ty⟩]
          types := m.types.modify i fun d =>
            { d with fields := d.fields ++ [.ofRow .field (m.fields.length + 1)] } }
  | addMethod (row : Method) {i : Nat} (fits : m.methods.length + 1 < 0x1000000)
      (place : row.owner.indexIn? .typeDef = some i) (inside : i < m.types.length) :
      Effect m (.addMethod row)
        { m with
          methods := m.methods ++ [{ row with token := .ofRow .method (m.methods.length + 1) }]
          types := m.types.modify i fun d =>
            { d with methods := d.methods ++ [.ofRow .method (m.methods.length + 1)] } }
  | rollbackMethod (token : Token) {row : Method} (newest : token.indexIn? .method = some (m.methods.length - 1))
      (read : m.methods[m.methods.length - 1]? = some row) :
      Effect m (.rollbackMethod token)
        { m with
          methods := m.methods.dropLast
          types := match row.owner.index? with
            | some i => m.types.modify i fun d => { d with methods := d.methods.filter (· ≠ token) }
            | none => m.types }
  | rewriteMethod (token : Token) (change : Method → Method) {i : Nat} {row : Method}
      (place : token.indexIn? .method = some i) (read : m.methods[i]? = some row) :
      Effect m (.rewriteMethod token change)
        { m with methods := m.methods.set i { change row with token := row.token } }
  | addLocal (token : Token) (ty : Ty) {i : Nat} {row : Method} (place : token.indexIn? .method = some i)
      (read : m.methods[i]? = some row) (room : row.body.locals.length < Body.maxLocals) :
      Effect m (.addLocal token ty)
        { m with methods := m.methods.set i { row with
          body := { row.body with locals := row.body.locals ++ [⟨row.body.locals.length, ty⟩] } } }
  | insertCode (token : Token) (code : Code) (index : Nat) {i : Nat} {row : Method}
      (place : token.indexIn? .method = some i) (read : m.methods[i]? = some row)
      (inside : index ≤ row.body.code.length) :
      Effect m (.insertCode token code index)
        { m with methods := m.methods.set i { row with
          body := { row.body with code := row.body.code.take index ++ code ++ row.body.code.drop index } } }
  | addMemberRef (parent : Ty) (name : String) (signature : Signature)
      (fits : m.memberRefs.length + 1 < 0x1000000)
      (new : ∀ r ∈ m.memberRefs, (r.parent, r.name, r.signature) ≠ (parent, name, signature)) :
      Effect m (.addMemberRef parent name signature)
        { m with memberRefs := m.memberRefs ++
          [⟨.ofRow .memberRef (m.memberRefs.length + 1), parent, name, signature⟩] }
  | addMethodSpec (method : Token) (args : List Ty) {ref : MemberRef} (known : m.memberRef method = .ok ref)
      (arity : ref.signature.arity = args.length) (fits : m.methodSpecs.length + 1 < 0x1000000)
      (new : ∀ s ∈ m.methodSpecs, (s.method, s.args) ≠ (method, args)) :
      Effect m (.addMethodSpec method args)
        { m with methodSpecs := m.methodSpecs ++
          [⟨.ofRow .methodSpec (m.methodSpecs.length + 1), method, args⟩] }

/-! ### Single operations -/

/-- Success with the effect of the operation, or failure without any. -/
def Performs {α : Type} (op : Op) (x : Edit α) (m : Module) : Prop :=
  Yields (fun _ m' => Effect m op m') (fun _ m' => m' = m) x m

section

variable {α β : Type} {op : Op} {x : Except Error β} {f : β → Edit α}

/-- A relation that holds for the effects of an operation is one that the operation moves along. -/
theorem Performs.moves {α : Type} {rel : Module → Module → Prop} [Std.Refl rel] {y : Edit α}
    (performs : Performs op y m) (effects : ∀ m', Effect m op m' → rel m m') : Moves rel y m := by
  apply Yields.moves
  refine Yields.imp performs (fun _ m' => effects m') fun _ m' same => ?_
  rw [same]
  exact Std.Refl.refl m

/-- A value that is asked for before anything is changed. -/
theorem performs_asked_bind (later : ∀ b, x = .ok b → Performs op (f b) m) : Performs op (liftM x >>= f) m :=
  yields_asked_bind (fun _ _ => rfl) later

theorem performs_throw (e : Error) : Performs op (throw e : Edit α) m := yields_throw rfl

theorem performs_found (a : α) : Performs op (pure a : Edit α) m := yields_pure (.found op)

theorem performs_put {a : α} (effect : Effect m op m') : Performs op (do Tracked.put m'; return a : Edit α) m :=
  yields_of_ok rfl effect

end

theorem ownerIndex_eq_ok {owner : Token} {i : Nat} (h : m.ownerIndex owner = .ok i) :
    owner.indexIn? .typeDef = some i ∧ i < m.types.length := by
  unfold ownerIndex at h
  split at h
  · rename_i j place
    split at h
    · rename_i inside
      obtain rfl := Except.ok.inj h
      exact ⟨place, inside⟩
    · cases h
  · cases h

theorem performs_addType (name : TypeName) (flags : TypeFlags) (base : Option Ty) (m : Module) :
    Performs (.addType name flags base) (addType name flags base) m := by
  refine yields_get_bind (performs_asked_bind fun token next => ?_)
  obtain ⟨fits, rfl⟩ := nextToken_ok next
  exact performs_put (.addType name flags base fits)

theorem performs_addTypeRef (name : TypeName) (scope : String) (invoke : Option Signature) (m : Module) :
    Performs (.addTypeRef name scope invoke) (addTypeRef name scope invoke) m := by
  apply yields_get_bind
  dsimp only
  split
  · exact performs_throw _
  · split
    · split
      · exact performs_found _
      · exact performs_throw _
    · rename_i missing
      refine performs_asked_bind fun token next => ?_
      obtain ⟨fits, rfl⟩ := nextToken_ok next
      refine performs_put (.addTypeRef name scope invoke fits ?_)
      simpa using missing

theorem performs_importType (ty : Ty) (m : Module) : Performs (.importType ty) (importType ty) m := by
  apply yields_get_bind
  dsimp only
  split
  · exact performs_found _
  · split
    · exact performs_found _
    · rename_i missing
      refine performs_asked_bind fun token next => ?_
      obtain ⟨fits, rfl⟩ := nextToken_ok next
      exact performs_put (.importType ty fits (by simpa using missing))

theorem performs_addField (owner : Token) (name : String) (flags : FieldFlags) (ty : Ty) (m : Module) :
    Performs (.addField owner name flags ty) (addField owner name flags ty) m := by
  refine yields_get_bind (performs_asked_bind fun token next => performs_asked_bind fun i owned => ?_)
  obtain ⟨fits, rfl⟩ := nextToken_ok next
  obtain ⟨place, inside⟩ := ownerIndex_eq_ok owned
  exact performs_put (.addField owner name flags ty fits place inside)

theorem performs_addMethod (row : Method) (m : Module) : Performs (.addMethod row) (addMethod row) m := by
  refine yields_get_bind (performs_asked_bind fun token next => performs_asked_bind fun i owned => ?_)
  obtain ⟨fits, rfl⟩ := nextToken_ok next
  obtain ⟨place, inside⟩ := ownerIndex_eq_ok owned
  exact performs_put (.addMethod row fits place inside)

theorem performs_rollbackMethod (token : Token) (m : Module) :
    Performs (.rollbackMethod token) (rollbackMethod token) m := by
  refine yields_get_bind (performs_asked_bind fun row found => ?_)
  obtain ⟨i, place, read⟩ := lookup_eq_some_iff.mp (method_eq_ok_iff.mp found)
  dsimp only
  split
  · exact performs_throw _
  · rename_i newest
    have newest : token.index? = some (m.methods.length - 1) := Decidable.not_not.mp newest
    obtain rfl : i = m.methods.length - 1 := Option.some.inj ((index?_of_indexIn? place).symm.trans newest)
    exact performs_put (.rollbackMethod token place read)

theorem performs_rewriteMethod (token : Token) (change : Method → Method) (m : Module) :
    Performs (.rewriteMethod token change) (rewriteMethod token change) m := by
  refine yields_get_bind (performs_asked_bind fun row found => ?_)
  obtain ⟨i, place, read⟩ := lookup_eq_some_iff.mp (method_eq_ok_iff.mp found)
  rw [place]
  exact yields_of_ok rfl (.rewriteMethod token change place read)

/-- What an edit of a body does is told by the edit of the one body. -/
theorem performs_editBody {α : Type} {op : Op} {edit : Body → Except Error (Body × α)}
    (effect : ∀ {i : Nat} {row : Method} {body : Body} {a : α}, t.indexIn? .method = some i →
      m.methods[i]? = some row → edit row.body = .ok (body, a) →
      Effect m op { m with methods := m.methods.set i { row with body } }) :
    Performs op (editBody t edit) m := by
  apply yields_get_bind
  cases place : t.indexIn? .method with
  | none => exact performs_throw _
  | some i =>
    refine performs_asked_bind fun row found => performs_asked_bind fun edited changed => ?_
    obtain ⟨j, place', read⟩ := lookup_eq_some_iff.mp (method_eq_ok_iff.mp found)
    obtain rfl : i = j := Option.some.inj (place.symm.trans place')
    exact performs_put (effect place read changed)

theorem performs_addLocal (token : Token) (ty : Ty) (m : Module) :
    Performs (.addLocal token ty) (addLocal token ty) m := by
  refine performs_editBody fun place read added => ?_
  unfold Body.addLocal at added
  split at added
  · rename_i room
    obtain ⟨rfl, rfl⟩ := Prod.mk.inj (Except.ok.inj added)
    exact .addLocal token ty place read room
  · cases added

theorem performs_insertCode (token : Token) (code : Code) (index : Nat) (m : Module) :
    Performs (.insertCode token code index) (insertCode token code index) m := by
  refine performs_editBody fun place read edited => ?_
  obtain ⟨body, inserted, same⟩ := except_map_eq_ok_iff.mp edited
  obtain ⟨rfl, -⟩ := Prod.mk.inj same
  unfold Body.insert at inserted
  split at inserted
  · rename_i inside
    obtain rfl := Except.ok.inj inserted
    exact .insertCode token code index place read inside
  · cases inserted

theorem performs_addMemberRef (parent : Ty) (name : String) (signature : Signature) (m : Module) :
    Performs (.addMemberRef parent name signature) (addMemberRef parent name signature) m := by
  apply yields_get_bind
  dsimp only
  split
  · exact performs_found _
  · rename_i missing
    refine performs_asked_bind fun token next => ?_
    obtain ⟨fits, rfl⟩ := nextToken_ok next
    refine performs_put (.addMemberRef parent name signature fits ?_)
    intro r member same
    obtain ⟨rfl, rfl, rfl⟩ : r.parent = parent ∧ r.name = name ∧ r.signature = signature := by simpa using same
    simpa using List.find?_eq_none.mp missing r member

theorem performs_addMethodSpec (method : Token) (args : List Ty) (m : Module) :
    Performs (.addMethodSpec method args) (addMethodSpec method args) m := by
  refine yields_get_bind (performs_asked_bind fun ref known => ?_)
  dsimp only
  split
  · exact performs_throw _
  · rename_i count
    have arity : ref.signature.arity = args.length := Decidable.not_not.mp count
    split
    · exact performs_found _
    · rename_i missing
      refine performs_asked_bind fun token next => ?_
      obtain ⟨fits, rfl⟩ := nextToken_ok next
      refine performs_put (.addMethodSpec method args known arity fits ?_)
      intro s member same
      obtain ⟨rfl, rfl⟩ : s.method = method ∧ s.args = args := by simpa using same
      simpa using List.find?_eq_none.mp missing s member

/-! ### Operations -/

namespace Op

/-- An operation has its effect, or fails and leaves the module as it was. -/
theorem performs (op : Op) (m : Module) : Performs op op.run m := by
  cases op with
  | addType name flags base => exact yields_map (performs_addType name flags base m)
  | addTypeRef name scope invoke => exact yields_map (performs_addTypeRef name scope invoke m)
  | importType ty => exact yields_map (performs_importType ty m)
  | addField owner name flags ty => exact yields_map (performs_addField owner name flags ty m)
  | addMethod row => exact yields_map (performs_addMethod row m)
  | rollbackMethod token => exact yields_map (performs_rollbackMethod token m)
  | rewriteMethod token change => exact performs_rewriteMethod token change m
  | addLocal method ty => exact yields_map (performs_addLocal method ty m)
  | insertCode method code index => exact performs_insertCode method code index m
  | addMemberRef parent name signature => exact yields_map (performs_addMemberRef parent name signature m)
  | addMethodSpec method args => exact yields_map (performs_addMethodSpec method args m)

theorem effect (op : Op) (m : Module) : Effect m op (op.apply m) := by
  rcases (op.performs m).cases with ⟨a, m', ran, effect⟩ | ⟨e, m', failed, rfl⟩
  · rwa [apply, ran]
  · rw [apply, failed]
    exact .found op

theorem unchanged_of_error {op : Op} {e : Error} (failed : op.run m = .error e m') : m' = m :=
  (op.performs m).2 e m' failed

end Op

end WeakSubscription.Module
