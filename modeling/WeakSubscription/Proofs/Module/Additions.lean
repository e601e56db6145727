import WeakSubscription.Proofs.Module.Interning
import WeakSubscription.Proofs.Module.History

/-!
# Operations that add

Most operations only add to a module: they put rows at the end of a table, locals behind the locals of a
method, code into its body. What a token meant before them it means behind them, and `Retained` says so for
whole modules.
-/

namespace WeakSubscription

/-- The second method is the first one, with more in its body. -/
def Method.Grows (row row' : Method) : Prop :=
  row' = { row with body := row'.body } ∧ row.body.locals <+: row'.body.locals

theorem Method.Grows.refl (row : Method) : row.Grows row := ⟨rfl, List.prefix_refl _⟩

theorem Method.Grows.trans {row row' row'' : Method} (first : row.Grows row') (later : row'.Grows row'') :
    row.Grows row'' := by
  refine ⟨?_, first.2.trans later.2⟩
  rw [later.1, first.1]

namespace Module

open Tracked

variable {m m' m'' : Module} {t : Token} {α : Type}

/-! ### What is retained -/

/-- The tokens of the first module mean the same in the second one. -/
structure Retained (m m' : Module) : Prop where
  grows : Grows m m'
  methods : ∀ {t : Token} {row : Method}, m.method t = .ok row → ∃ row', m'.method t = .ok row' ∧ row.Grows row'

instance : Std.Refl Retained where
  refl m := ⟨.refl m, fun found => ⟨_, found, .refl _⟩⟩

instance : IsTrans Module Retained where
  trans _ _ _ first later := by
    refine ⟨first.grows.trans later.grows, fun found => ?_⟩
    obtain ⟨row', found', grows⟩ := first.methods found
    obtain ⟨row'', found'', grows'⟩ := later.methods found'
    exact ⟨row'', found'', grows.trans grows'⟩

theorem Evolves.retained (evolves : Evolves (fun _ => False) m m') : Retained m m' :=
  ⟨evolves.grows, fun found => ⟨_, (evolves.keeps id).row found, .refl _⟩⟩

/-- A module in which one method grew retains what was there. -/
theorem Evolves.retained_of_method {row row' : Method} (evolves : Evolves (· = t) m m')
    (found : m.method t = .ok row) (found' : m'.method t = .ok row') (grows : row.Grows row') :
    Retained m m' := by
  refine ⟨evolves.grows, @fun u old foundOld => ?_⟩
  by_cases here : u = t
  · subst here
    obtain rfl := Except.ok.inj (found.symm.trans foundOld)
    exact ⟨row', found', grows⟩
  · exact ⟨old, (evolves.keeps here).row foundOld, .refl old⟩

theorem Retained.typeDef (kept : Retained m m') {d : TypeDef} (found : m.typeDef t = .ok d) :
    ∃ d', m'.typeDef t = .ok d' ∧ d'.ty = d.ty := by
  obtain ⟨d', found', -, name, -⟩ := kept.grows.typeDef found
  exact ⟨d', found', congrArg Ty.named name⟩

theorem Retained.callTarget (kept : Retained m m') {target : CallTarget} (found : m.callTarget t = .ok target) :
    m'.callTarget t = .ok target := by
  unfold Module.callTarget at found ⊢
  cases table : t.table? with
  | none => simp [table] at found
  | some kind =>
    cases kind with
    | method =>
      simp only [table] at found ⊢
      obtain ⟨row, method, found⟩ := except_bind_eq_ok_iff.mp found
      obtain ⟨d, owner, built⟩ := except_bind_eq_ok_iff.mp found
      obtain ⟨row', method', grows⟩ := kept.methods method
      have sameOwner : row'.owner = row.owner := by rw [grows.1]
      have sameSignature : row'.signature = row.signature := by rw [grows.1]; rfl
      have sameName : row'.name = row.name := by rw [grows.1]
      obtain ⟨d', owner', ty⟩ := kept.typeDef owner
      rw [← sameOwner] at owner'
      apply except_bind_eq_ok_iff.mpr
      refine ⟨row', method', except_bind_eq_ok_iff.mpr ⟨d', owner', ?_⟩⟩
      rw [ty, sameSignature, sameName]
      exact built
    | memberRef =>
      simp only [table] at found ⊢
      obtain ⟨ref, row, built⟩ := except_bind_eq_ok_iff.mp found
      exact except_bind_eq_ok_iff.mpr ⟨ref, kept.grows.memberRef row, built⟩
    | methodSpec =>
      simp only [table] at found ⊢
      obtain ⟨spec, row, found⟩ := except_bind_eq_ok_iff.mp found
      obtain ⟨ref, row', built⟩ := except_bind_eq_ok_iff.mp found
      apply except_bind_eq_ok_iff.mpr
      exact ⟨spec, kept.grows.methodSpec row,
        except_bind_eq_ok_iff.mpr ⟨ref, kept.grows.memberRef row', built⟩⟩
    | typeRef | typeDef | field | typeSpec => simp [table] at found

/-! ### Edited bodies -/

theorem editBody_of_ok {edit : Body → Except Error (Body × α)} {row : Method} {body : Body} {a : α}
    (found : m.method t = .ok row) (edited : edit row.body = .ok (body, a)) :
    ∃ m', editBody t edit m = .ok a m' ∧ m'.method t = .ok { row with body } := by
  obtain ⟨i, place, -⟩ := lookup_eq_some_iff.mp (method_eq_ok_iff.mp found)
  have ran : editBody t edit m = .ok a { m with methods := m.methods.set i { row with body } } := by
    unfold editBody
    simp [place, found, edited, bind, EStateM.bind]
  refine ⟨_, ran, ?_⟩
  obtain ⟨body', edited', found'⟩ := editBody_gives edit found _ _ ran
  rw [edited] at edited'
  obtain ⟨rfl, -⟩ := Prod.mk.inj (Except.ok.inj edited')
  exact found'

theorem editBody_of_error {edit : Body → Except Error (Body × α)} {row : Method} {e : Error}
    (found : m.method t = .ok row) (refused : edit row.body = .error e) :
    editBody t edit m = .error e m := by
  obtain ⟨i, place, -⟩ := lookup_eq_some_iff.mp (method_eq_ok_iff.mp found)
  unfold editBody
  simp [place, found, refused, bind, EStateM.bind]

theorem addLocal_of_lt {row : Method} (found : m.method t = .ok row)
    (room : row.body.locals.length < Body.maxLocals) (ty : Ty) :
    ∃ m', addLocal t ty m = .ok ⟨row.body.locals.length, ty⟩ m' ∧ m'.method t = .ok { row with
      body := { row.body with locals := row.body.locals ++ [⟨row.body.locals.length, ty⟩] } } := by
  have added : row.body.addLocal ty = .ok (_, ⟨row.body.locals.length, ty⟩) := if_pos room
  exact editBody_of_ok found added

/-- Code can be put in front of every body. -/
theorem insertCode_of_method {row : Method} (found : m.method t = .ok row) (code : Code) :
    ∃ m', insertCode t code 0 m = .ok () m' ∧
      m'.method t = .ok { row with body := { row.body with code := code ++ row.body.code } } := by
  have inserted : row.body.insert code 0 = .ok { row.body with code := code ++ row.body.code } :=
    if_pos (Nat.zero_le _)
  exact editBody_of_ok found (except_map_eq_ok_iff.mpr ⟨_, inserted, rfl⟩)

theorem retained_setMethod {i : Nat} {row row' : Method} (place : t.indexIn? .method = some i)
    (found : m.method t = .ok row) (grows : row.Grows row') :
    Retained m { m with methods := m.methods.set i row' } := by
  obtain ⟨j, place', read⟩ := lookup_eq_some_iff.mp (method_eq_ok_iff.mp found)
  obtain rfl := Option.some.inj (place.symm.trans place')
  have inside : i < m.methods.length := (List.getElem?_eq_some_iff.mp read).1
  have sameToken : row'.token = row.token := by rw [grows.1]
  refine (evolves_setMethod place read sameToken).retained_of_method found ?_ grows
  apply method_eq_ok_iff.mpr
  exact lookup_eq_some_iff.mpr ⟨i, place, List.getElem?_set_self inside⟩

theorem retained_editBody {edit : Body → Except Error (Body × α)}
    (keeps : ∀ {body body' : Body} {a : α}, edit body = .ok (body', a) → body.locals <+: body'.locals)
    (m : Module) : Moves Retained (editBody t edit) m := by
  apply moves_get_bind
  cases place : t.indexIn? .method with
  | none => exact moves_throw _
  | some i =>
    refine moves_lift_bind fun row found => moves_lift_bind fun edited changed => ?_
    refine moves_bind (moves_put (retained_setMethod place found ⟨rfl, ?_⟩)) fun _ _ _ => moves_pure _
    exact keeps changed

theorem addLocal_locals {body body' : Body} {ty : Ty} {v : Variable} (added : body.addLocal ty = .ok (body', v)) :
    body'.locals = body.locals ++ [v] := by
  unfold Body.addLocal at added
  split at added
  · obtain ⟨rfl, rfl⟩ := Prod.mk.inj (Except.ok.inj added)
    rfl
  · cases added

theorem insert_locals {body body' : Body} {code : Code} {index : Nat}
    (inserted : body.insert code index = .ok body') : body'.locals = body.locals := by
  unfold Body.insert at inserted
  split at inserted
  · obtain rfl := Except.ok.inj inserted
    rfl
  · cases inserted

theorem retained_addLocal (method : Token) (ty : Ty) (m : Module) :
    Moves Retained (addLocal method ty) m := by
  apply retained_editBody
  intro body body' v added
  rw [addLocal_locals added]
  exact List.prefix_append _ _

theorem retained_insertCode (method : Token) (code : Code) (index : Nat) (m : Module) :
    Moves Retained (insertCode method code index) m := by
  apply retained_editBody
  intro body body' _ inserted
  obtain ⟨body'', placed, same⟩ := except_map_eq_ok_iff.mp inserted
  obtain ⟨rfl, -⟩ := Prod.mk.inj same
  rw [insert_locals placed]

/-! ### Operations that add -/

namespace Op

/-- Whether the operation takes no method back and rewrites none. -/
def Adds : Op → Prop
  | rollbackMethod _ | rewriteMethod _ _ => False
  | addType _ _ _ | addTypeRef _ _ _ | importType _ | addField _ _ _ _ | addMethod _ | addLocal _ _
  | insertCode _ _ _ | addMemberRef _ _ _ | addMethodSpec _ _ => True

theorem retained {op : Op} (adds : op.Adds) (m : Module) : Retained m (op.apply m) := by
  cases op with
  | rollbackMethod token => exact adds.elim
  | rewriteMethod token change => exact adds.elim
  | addLocal method ty => exact moves_map (retained_addLocal method ty m)
  | insertCode method code index => exact retained_insertCode method code index m
  | addType _ _ _ | addTypeRef _ _ _ | importType _ | addField _ _ _ _ | addMethod _ | addMemberRef _ _ _
  | addMethodSpec _ _ =>
    apply Evolves.retained
    exact (Op.moves _ m).imp fun _ hit => hit

end Op

/-- The second module is the first one after some operations of this kind. -/
inductive Along (P : Op → Prop) (m : Module) : Module → Prop
  | refl : Along P m m
  | step {m' : Module} (before : Along P m m') (op : Op) (h : P op) : Along P m (op.apply m')

section Along

variable {P Q : Op → Prop}

instance : Std.Refl (Along P) where
  refl _ := .refl

instance : IsTrans Module (Along P) where
  trans _ _ _ first later := by
    induction later with
    | refl => exact first
    | step _ op h ih => exact .step ih op h

theorem Along.imp (along : Along P m m') (h : ∀ op, P op → Q op) : Along Q m m' := by
  induction along with
  | refl => exact .refl
  | step _ op kind ih => exact .step ih op (h op kind)

/-- A list of operations, one after the other. -/
theorem Along.operated {ops : List Op} (kinds : ∀ op ∈ ops, P op) (m : Module) :
    Along P m (ops.foldl (fun m op => op.apply m) m) := by
  induction ops generalizing m with
  | nil => exact .refl
  | cons op rest ih =>
    have later := ih (fun op' member => kinds op' (List.mem_cons_of_mem _ member)) (op.apply m)
    exact trans_of (Along P) (.step .refl op (kinds op List.mem_cons_self)) later

/-- Operations touch no methods but those that each of them is on. -/
theorem Along.evolves {touched : Token → Prop} (along : Along P m m')
    (within : ∀ op, P op → ∀ t, op.Touches t → touched t) : Evolves touched m m' := by
  induction along with
  | refl => exact Std.Refl.refl m
  | step _ op h ih => exact trans_of _ ih ((op.moves _).imp (within op h))

theorem Along.grows (along : Along P m m') : Grows m m' :=
  (along.evolves fun _ _ _ _ => trivial : Evolves (fun _ => True) m m').grows

theorem Reachable.along (reached : Reachable m) (along : Along P m m') : Reachable m' := by
  induction along with
  | refl => exact reached
  | step _ op _ ih => exact .edited op ih

theorem Along.reachable {name : String} (built : Along P (empty name) m) : Reachable m :=
  (Reachable.empty name).along built

theorem moves_op {x : Edit α} (op : Op) (h : P op) (run : op.run = discard x) (m : Module) :
    Moves (Along P) x m := by
  have same : op.apply m = endState (x m) := by
    rw [Op.apply, run]
    show endState (EStateM.map _ x m) = _
    unfold EStateM.map
    cases x m <;> rfl
  have moved := Along.step (.refl : Along P m m) op h
  rwa [same] at moved

end Along

instance : Interns (Along Op.Adds) where
  memberRef parent name signature := moves_op (.addMemberRef parent name signature) trivial rfl
  methodSpec method args := moves_op (.addMethodSpec method args) trivial rfl
  importType ty := moves_op (.importType ty) trivial rfl

/-- Whether the operation adds, and to no method but this one. -/
def Op.AddsTo (method : Token) (op : Op) : Prop := op.Adds ∧ ∀ t, op.Touches t → t = method

instance {method : Token} : Interns (Along (Op.AddsTo method)) where
  memberRef parent name signature := moves_op (.addMemberRef parent name signature) ⟨trivial, nofun⟩ rfl
  methodSpec method args := moves_op (.addMethodSpec method args) ⟨trivial, nofun⟩ rfl
  importType ty := moves_op (.importType ty) ⟨trivial, nofun⟩ rfl

theorem Along.retained (along : Along Op.Adds m m') : Retained m m' := by
  induction along with
  | refl => exact Std.Refl.refl m
  | step _ op adds ih => exact trans_of Retained ih (op.retained adds _)

end Module

end WeakSubscription
