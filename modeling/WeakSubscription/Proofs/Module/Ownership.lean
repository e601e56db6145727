import WeakSubscription.Proofs.Module.Additions

/-!
# Owners of members

A field or a method only comes into a module behind a type definition that is to own it, and a type definition
is never taken away. In a module that operations made, every field therefore has its owner, and so has every
method unless its row was rewritten to name another one.
-/

namespace WeakSubscription.Module

open Tracked

variable {m m' : Module} {t : Token} {P : Op → Prop}

def FieldsOwned (m : Module) : Prop := ∀ f ∈ m.fields, ∃ d, m.typeDef f.owner = .ok d

def MethodsOwned (m : Module) : Prop := ∀ r ∈ m.methods, ∃ d, m.typeDef r.owner = .ok d

theorem FieldsOwned.owner (owned : m.FieldsOwned) {row : Field} (found : m.field t = .ok row) :
    ∃ d, m.typeDef row.owner = .ok d := by
  obtain ⟨i, -, read⟩ := lookup_eq_some_iff.mp (field_eq_ok_iff.mp found)
  exact owned row (List.mem_of_getElem? read)

theorem MethodsOwned.owner (owned : m.MethodsOwned) {row : Method} (found : m.method t = .ok row) :
    ∃ d, m.typeDef row.owner = .ok d := by
  obtain ⟨i, -, read⟩ := lookup_eq_some_iff.mp (method_eq_ok_iff.mp found)
  exact owned row (List.mem_of_getElem? read)

/-! ### Where members come from -/

/-- A member of the second module has an owner in the first one, or the owner of a member there. -/
structure MembersWithin (m m' : Module) : Prop where
  fields : ∀ f ∈ m'.fields, f ∈ m.fields ∨ ∃ d, m.typeDef f.owner = .ok d
  methods : ∀ r ∈ m'.methods, (∃ r₀ ∈ m.methods, r.owner = r₀.owner) ∨ ∃ d, m.typeDef r.owner = .ok d

namespace MembersWithin

theorem of_eq (fields : m'.fields = m.fields) (methods : m'.methods = m.methods) : MembersWithin m m' := by
  refine ⟨?_, ?_⟩
  · intro f member
    exact .inl (fields ▸ member)
  · intro r member
    exact .inl ⟨r, methods ▸ member, rfl⟩

instance : Std.Refl MembersWithin where
  refl _ := .of_eq rfl rfl

theorem fieldsOwned (within : MembersWithin m m') (grows : Grows m m') (owned : m.FieldsOwned) :
    m'.FieldsOwned := by
  intro f member
  obtain ⟨d, found⟩ : ∃ d, m.typeDef f.owner = .ok d := by
    rcases within.fields f member with old | new
    · exact owned f old
    · exact new
  obtain ⟨d', found', -⟩ := grows.typeDef found
  exact ⟨d', found'⟩

theorem methodsOwned (within : MembersWithin m m') (grows : Grows m m') (owned : m.MethodsOwned) :
    m'.MethodsOwned := by
  intro r member
  obtain ⟨d, found⟩ : ∃ d, m.typeDef r.owner = .ok d := by
    rcases within.methods r member with ⟨r₀, old, same⟩ | new
    · rw [same]
      exact owned r₀ old
    · exact new
  obtain ⟨d', found', -⟩ := grows.typeDef found
  exact ⟨d', found'⟩

end MembersWithin

theorem typeDef_of_ownerIndex {owner : Token} {i : Nat} (place : m.ownerIndex owner = .ok i) :
    ∃ d, m.typeDef owner = .ok d := by
  unfold ownerIndex at place
  split at place
  · rename_i j place'
    split at place
    · rename_i inside
      refine ⟨m.types[j], typeDef_eq_ok_iff.mpr (lookup_eq_some_iff.mpr ⟨j, place', ?_⟩)⟩
      exact List.getElem?_eq_getElem inside
    · cases place
  · cases place

theorem within_addType (name : TypeName) (flags : TypeFlags) (base : Option Ty) (m : Module) :
    Moves MembersWithin (addType name flags base) m := by
  refine moves_get_bind (moves_lift_bind fun token _ => ?_)
  exact .of_eq rfl rfl

theorem within_addTypeRef (name : TypeName) (scope : String) (invoke : Option Signature) (m : Module) :
    Moves MembersWithin (addTypeRef name scope invoke) m := by
  apply moves_get_bind
  dsimp only
  split
  · exact moves_throw_bind _ _
  · split
    · split
      · exact moves_pure _
      · exact moves_throw _
    · exact moves_lift_bind fun token _ => .of_eq rfl rfl

theorem within_importType (ty : Ty) (m : Module) : Moves MembersWithin (importType ty) m := by
  apply moves_get_bind
  dsimp only
  split
  · exact moves_pure _
  · split
    · exact moves_pure _
    · exact moves_lift_bind fun token _ => .of_eq rfl rfl

theorem within_addMemberRef (parent : Ty) (name : String) (signature : Signature) (m : Module) :
    Moves MembersWithin (addMemberRef parent name signature) m := by
  apply moves_get_bind
  dsimp only
  split
  · exact moves_pure _
  · exact moves_lift_bind fun token _ => .of_eq rfl rfl

theorem within_addMethodSpec (method : Token) (args : List Ty) (m : Module) :
    Moves MembersWithin (addMethodSpec method args) m := by
  refine moves_get_bind (moves_lift_bind fun ref _ => ?_)
  dsimp only
  split
  · exact moves_throw_bind _ _
  · split
    · exact moves_pure _
    · exact moves_lift_bind fun token _ => .of_eq rfl rfl

theorem within_addField (owner : Token) (name : String) (flags : FieldFlags) (ty : Ty) (m : Module) :
    Moves MembersWithin (addField owner name flags ty) m := by
  refine moves_get_bind (moves_lift_bind fun token _ => moves_lift_bind fun i place => ?_)
  refine ⟨?_, fun r member => .inl ⟨r, member, rfl⟩⟩
  intro f member
  rcases List.mem_append.mp member with old | new
  · exact .inl old
  · obtain rfl := List.mem_singleton.mp new
    exact .inr (typeDef_of_ownerIndex place)

theorem within_addMethod (row : Method) (m : Module) : Moves MembersWithin (addMethod row) m := by
  refine moves_get_bind (moves_lift_bind fun token _ => moves_lift_bind fun i place => ?_)
  refine ⟨fun f member => .inl member, ?_⟩
  intro r member
  rcases List.mem_append.mp member with old | new
  · exact .inl ⟨r, old, rfl⟩
  · obtain rfl := List.mem_singleton.mp new
    exact .inr (typeDef_of_ownerIndex place)

theorem within_rollbackMethod (token : Token) (m : Module) :
    Moves MembersWithin (rollbackMethod token) m := by
  refine moves_get_bind (moves_lift_bind fun row _ => ?_)
  dsimp only
  split
  · exact moves_throw_bind _ _
  · refine ⟨fun f member => .inl member, fun r member => .inl ⟨r, ?_, rfl⟩⟩
    exact (List.dropLast_prefix _).mem member

theorem within_setMethod {i : Nat} {row row' : Method} (found : m.method t = .ok row)
    (same : row'.owner = row.owner) : MembersWithin m { m with methods := m.methods.set i row' } := by
  obtain ⟨j, -, read⟩ := lookup_eq_some_iff.mp (method_eq_ok_iff.mp found)
  refine ⟨fun f member => .inl member, ?_⟩
  intro r member
  rcases List.mem_or_eq_of_mem_set member with old | rfl
  · exact .inl ⟨r, old, rfl⟩
  · exact .inl ⟨row, List.mem_of_getElem? read, same⟩

theorem within_editBody {α : Type} (token : Token) (edit : Body → Except Error (Body × α)) (m : Module) :
    Moves MembersWithin (editBody token edit) m := by
  apply moves_get_bind
  cases token.indexIn? .method with
  | none => exact moves_throw _
  | some i =>
    refine moves_lift_bind fun row found => moves_lift_bind fun edited _ => ?_
    exact within_setMethod found rfl

/-! ### Operations -/

namespace Op

/-- Whether the operation leaves the methods with the types that they name as their owners. -/
def KeepsOwners : Op → Prop
  | rewriteMethod _ change => ∀ row, (change row).owner = row.owner
  | addType _ _ _ | addTypeRef _ _ _ | importType _ | addField _ _ _ _ | addMethod _ | rollbackMethod _
  | addLocal _ _ | insertCode _ _ _ | addMemberRef _ _ _ | addMethodSpec _ _ => True

theorem within {op : Op} (keeps : op.KeepsOwners) (m : Module) : MembersWithin m (op.apply m) := by
  cases op with
  | addType name flags base => exact moves_map (within_addType name flags base m)
  | addTypeRef name scope invoke => exact moves_map (within_addTypeRef name scope invoke m)
  | importType ty => exact moves_map (within_importType ty m)
  | addField owner name flags ty => exact moves_map (within_addField owner name flags ty m)
  | addMethod row => exact moves_map (within_addMethod row m)
  | rollbackMethod token => exact moves_map (within_rollbackMethod token m)
  | addLocal method ty => exact moves_map (within_editBody method (·.addLocal ty) m)
  | insertCode method code index =>
    exact within_editBody method (fun b => (·, ()) <$> b.insert code index) m
  | addMemberRef parent name signature => exact moves_map (within_addMemberRef parent name signature m)
  | addMethodSpec method args => exact moves_map (within_addMethodSpec method args m)
  | rewriteMethod token change =>
    show Moves MembersWithin (Module.rewriteMethod token change) m
    refine moves_get_bind (moves_lift_bind fun row found => ?_)
    cases token.indexIn? .method with
    | none => exact moves_throw _
    | some i => exact within_setMethod found (keeps row)

theorem methodsOwned {op : Op} (keeps : op.KeepsOwners) (owned : m.MethodsOwned) :
    (op.apply m).MethodsOwned :=
  (within keeps m).methodsOwned (op.moves m).grows owned

/-- Every operation leaves the fields with their owners, however it rewrites methods. -/
theorem fieldsOwned (op : Op) (owned : m.FieldsOwned) : (op.apply m).FieldsOwned := by
  have grows := (op.moves m).grows
  by_cases keeps : op.KeepsOwners
  · exact (within keeps m).fieldsOwned grows owned
  -- a rewritten method may name any owner, but fields are not among what it changes
  cases op with
  | rewriteMethod token change =>
    have : Std.Refl fun m m' : Module => m'.fields = m.fields := ⟨fun _ => rfl⟩
    have same : Moves (fun m m' => m'.fields = m.fields) (Module.rewriteMethod token change) m := by
      refine moves_get_bind (moves_lift_bind fun row _ => ?_)
      cases token.indexIn? .method with
      | none => exact moves_throw _
      | some i => exact moves_put rfl
    intro f member
    obtain ⟨d, found⟩ := owned f (same ▸ member)
    obtain ⟨d', found', -⟩ := grows.typeDef found
    exact ⟨d', found'⟩
  | _ => exact absurd trivial keeps

end Op

theorem Op.Adds.keepsOwners {op : Op} (adds : op.Adds) : op.KeepsOwners := by
  cases op with
  | rewriteMethod token change => exact adds.elim
  | _ => trivial

theorem fieldsOwned_empty (name : String) : (empty name).FieldsOwned := nofun

theorem methodsOwned_empty (name : String) : (empty name).MethodsOwned := nofun

theorem Along.methodsOwned (along : Along P m m') (keeps : ∀ op, P op → op.KeepsOwners)
    (owned : m.MethodsOwned) : m'.MethodsOwned := by
  induction along with
  | refl => exact owned
  | step _ op kind ih => exact Op.methodsOwned (keeps op kind) ih

theorem Along.fieldsOwned (along : Along P m m') (owned : m.FieldsOwned) : m'.FieldsOwned := by
  induction along with
  | refl => exact owned
  | step _ op _ ih => exact op.fieldsOwned ih

theorem Reachable.fieldsOwned (reached : Reachable m) : m.FieldsOwned := by
  induction reached with
  | empty name => exact fieldsOwned_empty name
  | edited op _ ih => exact op.fieldsOwned ih

end WeakSubscription.Module
