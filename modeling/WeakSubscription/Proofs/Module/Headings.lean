import WeakSubscription.Proofs.Module.Lockstep

/-!
# Headings

What is looked up by name are types and the headings of methods: their rows without the bodies. Filling bodies and
interning leave the headings as they are, and a new method puts its own behind them.
-/

namespace WeakSubscription

/-- The row of the method with an empty body. -/
def Method.heading (r : Method) : Method := { r with body := .ofCode [] }

namespace Module

open Tracked

variable {m m' m'' n n' u : Module} {t : Token} {name : String} {more more' : List Method} {op : Op}

/-! ### Methods by name -/

/-- Where types list their members, the first method of a name in a type is the first one in the table. -/
theorem Listed.findMethod? (listed : m.Listed) (owner : Token) (name : String) :
    (m.findMethod? owner name).map Method.heading =
      (m.methods.map Method.heading).find? fun r => decide (r.owner = owner) && r.name == name := by
  have first : m.findMethod? owner name = m.methods.find? fun r => decide (r.owner = owner) && r.name == name := by
    unfold Module.findMethod?
    cases type : m.typeDef owner with
    | error e =>
      refine (List.find?_eq_none.mpr fun r member => ?_).symm
      obtain ⟨d, found⟩ := listed.methodsOwned r member
      have other : r.owner ≠ owner := by
        rintro rfl
        cases type.symm.trans found
      simp [other]
    | ok d =>
      obtain ⟨i, place, read⟩ := lookup_eq_some_iff.mp (typeDef_eq_ok_iff.mp type)
      have own : d.token = owner := listed.placed.types.token_of_indexIn? place read
      have lists := (listed.lists d (List.mem_of_getElem? read)).methods
      have rows : d.methods.filterMap (fun t => (m.method t).toOption) = m.methods.filter (·.owner = owner) := by
        rw [lists, membersOf, List.filterMap_map, own]
        refine (List.filterMap_congr fun r inside => ?_).trans List.filterMap_some
        have found := method_eq_ok_iff.mpr (listed.placed.methods.lookup_of_mem (List.mem_filter.mp inside).1)
        simp only [Function.comp, found]
        rfl
      show (d.methods.filterMap fun t => (m.method t).toOption).find? _ = _
      rw [rows, List.find?_filter]
      simp only [Bool.decide_and, Bool.decide_eq_true]
  rw [first, List.find?_map]
  rfl

/-! ### More headings -/

/-- The second module has the types and fields of the first one, and these headings behind those of the first one. -/
structure Declares (more : List Method) (m m' : Module) : Prop where
  types : m'.types.map TypeDef.bare = m.types.map TypeDef.bare
  typeRefs : m'.typeRefs = m.typeRefs
  fields : m'.fields = m.fields
  headings : m'.methods.map Method.heading = m.methods.map Method.heading ++ more

namespace Declares

theorem refl (m : Module) : Declares [] m m := ⟨rfl, rfl, rfl, (List.append_nil _).symm⟩

theorem trans (first : Declares more m m') (later : Declares more' m' m'') : Declares (more ++ more') m m'' where
  types := later.types.trans first.types
  typeRefs := later.typeRefs.trans first.typeRefs
  fields := later.fields.trans first.fields
  headings := by rw [later.headings, first.headings, List.append_assoc]

theorem length (declares : Declares more m m') : m'.methods.length = m.methods.length + more.length := by
  have same := congrArg List.length declares.headings
  rwa [List.length_append, List.length_map, List.length_map] at same

theorem findType? (declares : Declares more m m') (name : String) :
    (m'.findType? name).map TypeDef.bare = (m.findType? name).map TypeDef.bare :=
  find?_bare declares.types (·.full == name)

theorem findTypeRef? (declares : Declares more m m') (name : String) :
    m'.findTypeRef? name = m.findTypeRef? name := by
  unfold Module.findTypeRef?
  rw [declares.typeRefs]

/-- A name that no new heading has in a type means what it meant before. -/
theorem findMethod? (declares : Declares more m m') (listed : m.Listed) (listed' : m'.Listed) {owner : Token}
    (apart : ∀ h ∈ more, h.owner ≠ owner ∨ h.name ≠ name) :
    (m'.findMethod? owner name).map Method.heading = (m.findMethod? owner name).map Method.heading := by
  have missing : (more.find? fun r => decide (r.owner = owner) && r.name == name) = none := by
    refine List.find?_eq_none.mpr fun h member => ?_
    rcases apart h member with other | other <;> simp [other]
  rw [listed'.findMethod?, listed.findMethod?, declares.headings, List.find?_append, missing, Option.or_none]

end Declares

/-! ### Operations -/

/-- Whether the operation interns a row, or puts something into a body. -/
def Op.Fills : Op → Prop
  | importType _ | addMemberRef _ _ _ | addMethodSpec _ _ | addLocal _ _ | insertCode _ _ _ => True
  | addType _ _ _ | addTypeRef _ _ _ | addField _ _ _ _ | addMethod _ | rollbackMethod _ | rewriteMethod _ _ => False

instance : Interns (Along Op.Fills) where
  memberRef parent name signature := moves_op (.addMemberRef parent name signature) trivial rfl
  methodSpec method args := moves_op (.addMethodSpec method args) trivial rfl
  importType ty := moves_op (.importType ty) trivial rfl

theorem Effect.declares (effect : Effect m op m') (fills : op.Fills) : Declares [] m m' := by
  have set : ∀ {i : Nat} {row : Method} {body : Body}, m.methods[i]? = some row →
      Declares [] m { m with methods := m.methods.set i { row with body } } := by
    intro i row body read
    refine ⟨rfl, rfl, rfl, ?_⟩
    obtain ⟨inside, rfl⟩ := List.getElem?_eq_some_iff.mp read
    have same : Method.heading { m.methods[i] with body } = Method.heading m.methods[i] := rfl
    rw [List.map_set, same, ← List.getElem_map Method.heading (h := by simpa using inside), List.set_getElem_self,
      List.append_nil]
  cases effect with
  | found | importType | addMemberRef | addMethodSpec => exact ⟨rfl, rfl, rfl, (List.append_nil _).symm⟩
  | addLocal token ty place read room => exact set read
  | insertCode token code index place read inside => exact set read
  | addType | addTypeRef | addField | addMethod | rollbackMethod | rewriteMethod => exact fills.elim

theorem Along.declares (along : Along Op.Fills m m') : Declares [] m m' := by
  induction along with
  | refl => exact .refl m
  | step _ op fills ih => exact ih.trans ((op.effect _).declares fills)

theorem addMethod_declares (row : Method) (m : Module) :
    Gives (fun t m' => Declares [Method.heading { row with token := t }] m m') (addMethod row) m := by
  refine gives_get_bind (gives_lift_bind fun token next => gives_lift_bind fun i owned => ?_)
  exact gives_put_bind (gives_pure ⟨map_modify_of_same fun _ => rfl, rfl, rfl, List.map_append⟩)

/-- Modules in step stay so when methods are added or filled, each in its own way. -/
theorem InStep.after (inStep : InStep u m n) (declares : Declares more m m') (declares' : Declares more' n n')
    (effect : Effect n op n') (asked : op.AskedIn u) (placed : m'.Placed) (follower : n'.Placed) :
    InStep u m' n' where
  types := by rw [declares'.types, declares.types, inStep.types]
  typeRefs := by rw [declares'.typeRefs, declares.typeRefs, inStep.typeRefs]
  fields := by rw [declares'.fields, declares.fields, inStep.fields]
  placed
  follower
  distinct := effect.distinct inStep.distinct
  within := effect.covered inStep.within asked
  roomy := inStep.roomy

/-- The method has the same row in both modules. -/
def Shares (m n : Module) (t : Token) : Prop := ∃ row, m.method t = .ok row ∧ n.method t = .ok row

theorem Shares.keep (shared : Shares m n t) (keeps : Keeps t m m') (keeps' : Keeps t n n') : Shares m' n' t := by
  obtain ⟨row, found, found'⟩ := shared
  exact ⟨row, keeps.row found, keeps'.row found'⟩

theorem addMethod_of_room {row : Method} {d : TypeDef} (owner : n.typeDef row.owner = .ok d)
    (room : n.methods.length + 1 < 0x1000000) : ∃ t n', addMethod row n = .ok t n' := by
  obtain ⟨i, place⟩ := ownerIndex_of_typeDef owner
  apply ok_of_never
  apply fails_get_bind
  refine fails_nextToken_bind (fun full => absurd full (Nat.not_le_of_lt room)) fun t => ?_
  exact fails_lift_bind place (fails_put_pure t)

/-- A method that is added to both modules gets tokens of its own, which are none of the methods that they share. -/
theorem InStep.addMethod {row : Method} {d : TypeDef} (inStep : InStep u m n) (owner : n.typeDef row.owner = .ok d)
    (room : n.methods.length + 1 < 0x1000000) (ran : addMethod row m = .ok t m') :
    ∃ t' n', Module.addMethod row n = .ok t' n' ∧ InStep u m' n' ∧
      ∀ s, Shares m n s → Shares m' n' s ∧ t ≠ s ∧ t' ≠ s := by
  obtain ⟨t', n', ran'⟩ := addMethod_of_room owner room
  have evolves := evolves_of_ok (moves_addMethod _ _) ran
  have evolves' := evolves_of_ok (moves_addMethod _ _) ran'
  have effect' := (performs_addMethod row n).1 _ _ ran'
  refine ⟨t', n', ran', inStep.after (addMethod_declares row m _ _ ran) (addMethod_declares row n _ _ ran') effect'
    trivial (evolves.placed inStep.placed) (evolves'.placed inStep.follower), ?_⟩
  rintro s ⟨old, found, found'⟩
  refine ⟨⟨old, (evolves.keeps id).row found, (evolves'.keeps id).row found'⟩, ?_, ?_⟩
  · rintro rfl
    exact (addMethod_gives row m _ _ ran).2.2 old found
  · rintro rfl
    exact (addMethod_gives row n _ _ ran').2.2 old found'

/-- Code can be put into methods that are not shared, in each module its own. -/
theorem InStep.insertCode {t' : Token} {row row' : Method} {code : Code} (inStep : InStep u m n)
    (found : m.method t = .ok row) (found' : n.method t' = .ok row') (ran : insertCode t code 0 m = .ok () m')
    (code' : Code) :
    ∃ n', Module.insertCode t' code' 0 n = .ok () n' ∧ InStep u m' n' ∧
      m'.method t = .ok { row with body := { row.body with code := code ++ row.body.code } } ∧
      n'.method t' = .ok { row' with body := { row'.body with code := code' ++ row'.body.code } } ∧
      ∀ s, Shares m n s → t ≠ s → t' ≠ s → Shares m' n' s := by
  obtain ⟨n', ran', grown'⟩ := insertCode_of_method found' code'
  have grown := insertCode_gives code found () m' ran
  have evolves := (moves_insertCode t code 0 m).of_ok ran
  have evolves' := (moves_insertCode t' code' 0 n).of_ok ran'
  have effect := (performs_insertCode t code 0 m).1 _ _ ran
  have effect' := (performs_insertCode t' code' 0 n).1 _ _ ran'
  refine ⟨n', ran', inStep.after (effect.declares trivial) (effect'.declares trivial) effect' trivial
    (evolves.placed inStep.placed) (evolves'.placed inStep.follower), grown, grown', ?_⟩
  intro s shared other other'
  exact shared.keep (evolves.keeps other.symm) (evolves'.keeps other'.symm)

/-- A local for a shared method is the same in both modules, which go on sharing what they shared. -/
theorem Shares.addLocal {s : Token} {ty : Ty} {v : Variable} (shared : Shares m n s) (inStep : InStep u m n)
    (ran : addLocal s ty m = .ok v m') : ∃ n', Module.addLocal s ty n = .ok v n' ∧ InStep u m' n' ∧
      ∀ r, Shares m n r → Shares m' n' r := by
  obtain ⟨row, found, found'⟩ := shared
  obtain ⟨rfl, room, grown⟩ := addLocal_gives ty found v m' ran
  obtain ⟨n', ran', grown'⟩ := addLocal_of_lt found' room ty
  have evolves := (moves_addLocal s ty m).of_ok ran
  have evolves' := (moves_addLocal s ty n).of_ok ran'
  have effect := (performs_addLocal s ty m).1 _ _ ran
  have effect' := (performs_addLocal s ty n).1 _ _ ran'
  refine ⟨n', ran', inStep.after (effect.declares trivial) (effect'.declares trivial) effect' trivial
    (evolves.placed inStep.placed) (evolves'.placed inStep.follower), ?_⟩
  intro r sharedRow
  by_cases here : r = s
  · subst here
    exact ⟨_, grown, grown'⟩
  · exact sharedRow.keep (evolves.keeps here) (evolves'.keeps here)

end Module

end WeakSubscription
