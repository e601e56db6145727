import Mathlib.Data.List.Nodup
import WeakSubscription.Proofs.Module.Arena

/-!
# Names of types

Definitions and references carry the names of types. A type is referenced only under a name that no row carries
yet, and a type that is referenced again keeps its row. A definition does not look at names. So names have one
row each in exactly those modules in which every definition was of a new name.
-/

namespace WeakSubscription.Module

open Tracked

variable {m m' : Module} {op : Op}

/-- The names that types of the module carry, row by row: definitions first, then references. -/
def typeNames (m : Module) : List TypeName := m.types.map (·.name) ++ m.typeRefs.map (·.name)

/-- The module behind some operations, one after the other. -/
def applyAll (ops : List Op) (m : Module) : Module := ops.foldl (fun m op => op.apply m) m

namespace Op

/-- Whether the operation is one that adds types by name. -/
def Names : Op → Prop
  | addType _ _ _ | addTypeRef _ _ _ => True
  | importType _ | addField _ _ _ _ | addMethod _ | rollbackMethod _ | rewriteMethod _ _ | addLocal _ _
  | insertCode _ _ _ | addMemberRef _ _ _ | addMethodSpec _ _ => False

/-- The operation defines a type of a name that a row of the module carries already. -/
def Doubles (m : Module) : Op → Prop
  | addType name _ _ => name ∈ m.typeNames ∧ m.types.length + 1 < 0x1000000
  | addTypeRef _ _ _ | importType _ | addField _ _ _ _ | addMethod _ | rollbackMethod _ | rewriteMethod _ _
  | addLocal _ _ | insertCode _ _ _ | addMemberRef _ _ _ | addMethodSpec _ _ => False

end Op

/-! ### Single operations -/

theorem addType_of_room (name : TypeName) (flags : TypeFlags) (base : Option Ty)
    (fits : m.types.length + 1 < 0x1000000) :
    (Op.addType name flags base).apply m =
      { m with types := m.types ++ [⟨.ofRow .typeDef (m.types.length + 1), name, flags, base, [], []⟩] } := by
  have next : nextToken .typeDef m.types.length = .ok (.ofRow .typeDef (m.types.length + 1)) := if_pos fits
  have ran : addType name flags base m = .ok (.ofRow .typeDef (m.types.length + 1))
      { m with types := m.types ++ [⟨.ofRow .typeDef (m.types.length + 1), name, flags, base, [], []⟩] } := by
    simp [addType, next, bind, EStateM.bind]
  rw [Op.apply, Op.run, discard_of_ok ran, endState]

theorem addType_of_full (name : TypeName) (flags : TypeFlags) (base : Option Ty)
    (full : ¬ m.types.length + 1 < 0x1000000) : (Op.addType name flags base).apply m = m := by
  have next : nextToken .typeDef m.types.length = .error (.malformed (.tableFull .typeDef)) := if_neg full
  have failed : addType name flags base m = .error (.malformed (.tableFull .typeDef)) m := by
    simp [addType, next, bind, EStateM.bind]
  rw [Op.apply, Op.run, discard_of_error failed, endState]

/-- No row came, or one of a name that none carried. -/
def NamesKept (m m' : Module) : Prop :=
  m'.typeNames = m.typeNames ∨ ∃ name, name ∉ m.typeNames ∧ m'.typeNames = m.typeNames ++ [name]

instance : Std.Refl NamesKept where
  refl _ := .inl rfl

theorem NamesKept.nodup_iff (kept : NamesKept m m') : m'.typeNames.Nodup ↔ m.typeNames.Nodup := by
  rcases kept with same | ⟨name, new, added⟩
  · rw [same]
  · rw [added, ← List.concat_eq_append, List.nodup_concat]
    exact ⟨fun both => both.2, fun nodup => ⟨new, nodup⟩⟩

theorem namesKept_addTypeRef (name : TypeName) (scope : String) (invoke : Option Signature) (m : Module) :
    Moves NamesKept (addTypeRef name scope invoke) m := by
  apply moves_get_bind
  dsimp only
  split
  · exact moves_throw_bind _ _
  · rename_i undefined
    split
    · split
      · exact moves_pure _
      · exact moves_throw _
    · rename_i unreferenced
      have new : name ∉ m.typeNames := by
        have undefined : ∀ d ∈ m.types, d.name ≠ name := by simpa using undefined
        have unreferenced : ∀ r ∈ m.typeRefs, r.name ≠ name := by simpa using unreferenced
        intro carried
        rcases List.mem_append.mp carried with defined | referenced
        · obtain ⟨d, member, same⟩ := List.mem_map.mp defined
          exact undefined d member same
        · obtain ⟨r, member, same⟩ := List.mem_map.mp referenced
          exact unreferenced r member same
      refine moves_lift_bind fun token _ => .inr ⟨name, new, ?_⟩
      show m.types.map (·.name) ++ List.map TypeRef.name (m.typeRefs ++ [_]) = _
      rw [List.map_append, ← List.append_assoc]
      rfl

theorem typeNames_of_modify {i : Nat} {change : TypeDef → TypeDef} (same : ∀ d, (change d).name = d.name)
    (types : m'.types = m.types.modify i change) (typeRefs : m'.typeRefs = m.typeRefs) :
    m'.typeNames = m.typeNames := by
  rw [typeNames, types, typeRefs, map_modify_of_same same, typeNames]

/-- Operations on members, bodies and references leave the names alone. -/
theorem Effect.typeNames_eq (effect : Effect m op m') (other : ¬ op.Names) : m'.typeNames = m.typeNames := by
  cases effect with
  | addType | addTypeRef => exact absurd trivial other
  | addField => exact typeNames_of_modify (by intro d; rfl) rfl rfl
  | addMethod => exact typeNames_of_modify (by intro d; rfl) rfl rfl
  | @rollbackMethod token row newest read =>
    cases place : row.owner.index? with
    | some i => exact typeNames_of_modify (by intro d; rfl) rfl rfl
    | none => rfl
  | found | importType | rewriteMethod | addLocal | insertCode | addMemberRef | addMethodSpec => rfl

namespace Op

/-- An operation leaves one row to each name exactly if there was one before, and it defines no name anew. -/
theorem typeNames_apply (op : Op) (m : Module) :
    (op.apply m).typeNames.Nodup ↔ m.typeNames.Nodup ∧ ¬ op.Doubles m := by
  have kept : NamesKept m (op.apply m) → ¬ op.Doubles m →
      ((op.apply m).typeNames.Nodup ↔ m.typeNames.Nodup ∧ ¬ op.Doubles m) :=
    fun kept single => by rw [kept.nodup_iff, and_iff_left single]
  cases op with
  | addType name flags base =>
    by_cases fits : m.types.length + 1 < 0x1000000
    · rw [addType_of_room name flags base fits, Doubles, and_iff_left fits]
      unfold typeNames
      dsimp only
      rw [List.map_append, List.map_singleton, List.append_assoc, List.singleton_append, List.nodup_middle,
        List.nodup_cons, and_comm]
    · rw [addType_of_full name flags base fits, Doubles]
      exact (and_iff_left fun both => fits both.2).symm
  | addTypeRef name scope invoke => exact kept (moves_map (namesKept_addTypeRef name scope invoke m)) id
  | importType | addField | addMethod | rollbackMethod | rewriteMethod | addLocal | insertCode | addMemberRef
  | addMethodSpec => exact kept (.inl ((Op.effect _ m).typeNames_eq id)) id

end Op

/-! ### Runs of operations -/

theorem applyAll_cons (op : Op) (ops : List Op) (m : Module) : applyAll (op :: ops) m = applyAll ops (op.apply m) := rfl

theorem typeNames_applyAll (ops : List Op) (m : Module) : (applyAll ops m).typeNames.Nodup ↔
    m.typeNames.Nodup ∧ ∀ before op after, ops = before ++ op :: after → ¬ op.Doubles (applyAll before m) := by
  induction ops generalizing m with
  | nil => simp [applyAll]
  | cons op ops ih =>
    rw [applyAll_cons, ih, op.typeNames_apply, and_assoc]
    refine and_congr_right fun _ => ?_
    constructor
    · rintro ⟨first, later⟩ before op' after split
      cases before with
      | nil =>
        obtain ⟨rfl, -⟩ := List.cons.inj split
        exact first
      | cons op'' before =>
        obtain ⟨rfl, rest⟩ := List.cons.inj split
        exact later before op' after rest
    · intro single
      refine ⟨single [] op ops rfl, fun before op' after split => ?_⟩
      exact single (op :: before) op' after (congrArg (op :: ·) split)

/-- Whatever operations made a module, no name is referenced by two rows. Each name has one row in the tables of
definitions and references together exactly if no operation on the way defined a type of a name that a row
carried by then. -/
theorem type_names_of_run (name : String) (ops : List Op) :
    ((applyAll ops (empty name)).typeRefs.map (·.name)).Nodup ∧
      ((applyAll ops (empty name)).typeNames.Nodup ↔
        ∀ before op after, ops = before ++ op :: after → ¬ op.Doubles (applyAll before (empty name))) := by
  have ran : Along (fun _ => True) (empty name) (applyAll ops (empty name)) := .operated (fun _ _ => trivial) _
  refine ⟨(distinct_of_along ran (distinct_empty name)).typeRefs, ?_⟩
  rw [typeNames_applyAll]
  exact and_iff_right List.nodup_nil

/-! ### A name with three rows -/

namespace Tick

def tick : TypeName := ⟨"Sample", "Tick"⟩

def reference : Op := .addTypeRef tick "Other" none

def definition : Op := .addType tick .publicFlag (some .object)

def referenced : Module := applyAll [reference] (empty "Sample.dll")

def defined : Module := applyAll [reference, definition] (empty "Sample.dll")

/-- A type is defined under a name that is referenced already, and once more. The token that the name is imported
as changes with the first definition. -/
theorem tick_defined_twice :
    (applyAll [reference, definition, definition] (empty "Sample.dll")).typeNames = [tick, tick, tick] ∧
      ¬ defined.typeNames.Nodup ∧
      importType (.named tick) referenced = .ok (.ofRow .typeRef 1) referenced ∧
      importType (.named tick) defined = .ok (.ofRow .typeDef 1) defined := by
  refine ⟨by decide +kernel, by decide +kernel, ?_, ?_⟩
  · exact eq_ok_of_parts (by decide +kernel)
  · exact eq_ok_of_parts (by decide +kernel)

end Tick

end WeakSubscription.Module
