import WeakSubscription.Proofs.Module.Growth

/-!
# How modules come about

A module starts out empty and is edited step by step, by any operation on it and also by operations that
fail. An operation touches at most one method that was there before.
-/

namespace WeakSubscription.Module

open Tracked

variable {m m' : Module} {t : Token}

/-- Changes the row of a method in any way that leaves its token. -/
def rewriteMethod (token : Token) (change : Method → Method) : Edit Unit := do
  let m ← get
  let row ← m.method token
  match token.indexIn? .method with
  | none => throw (.memberNotFound token)
  | some i => Tracked.put { m with methods := m.methods.set i { change row with token := row.token } }

/-- An operation on a module. -/
inductive Op where
  | addType (name : TypeName) (flags : TypeFlags) (base : Option Ty)
  | addTypeRef (name : TypeName) (scope : String) (invoke : Option Signature)
  | importType (ty : Ty)
  | addField (owner : Token) (name : String) (flags : FieldFlags) (ty : Ty)
  | addMethod (row : Method)
  | rollbackMethod (token : Token)
  | rewriteMethod (token : Token) (change : Method → Method)
  | addLocal (method : Token) (ty : Ty)
  | insertCode (method : Token) (code : Code) (index : Nat)
  | addMemberRef (parent : Ty) (name : String) (signature : Signature)
  | addMethodSpec (method : Token) (args : List Ty)

namespace Op

def run : Op → Edit Unit
  | addType name flags base => discard (Module.addType name flags base)
  | addTypeRef name scope invoke => discard (Module.addTypeRef name scope invoke)
  | importType ty => discard (Module.importType ty)
  | addField owner name flags ty => discard (Module.addField owner name flags ty)
  | addMethod row => discard (Module.addMethod row)
  | rollbackMethod token => discard (Module.rollbackMethod token)
  | rewriteMethod token change => Module.rewriteMethod token change
  | addLocal method ty => discard (Module.addLocal method ty)
  | insertCode method code index => Module.insertCode method code index
  | addMemberRef parent name signature => discard (Module.addMemberRef parent name signature)
  | addMethodSpec method args => discard (Module.addMethodSpec method args)

/-- The module behind the operation, also when it fails. -/
def apply (op : Op) (m : Module) : Module := endState (op.run m)

/-- Whether the operation is one on this method. -/
def Touches : Op → Token → Prop
  | rollbackMethod token, t | rewriteMethod token _, t | addLocal token _, t | insertCode token _ _, t =>
    t = token
  | addType _ _ _, _ | addTypeRef _ _ _, _ | importType _, _ | addField _ _ _ _, _ | addMethod _, _
  | addMemberRef _ _ _, _ | addMethodSpec _ _, _ => False

end Op

theorem moves_rewriteMethod (token : Token) (change : Method → Method) (m : Module) :
    Moves (Evolves (· = token)) (rewriteMethod token change) m := by
  refine moves_get_bind (moves_lift_bind fun row found => ?_)
  obtain ⟨i, place, read⟩ := lookup_eq_some_iff.mp (method_eq_ok_iff.mp found)
  rw [place]
  exact moves_put (evolves_setMethod place read rfl)

/-- An operation touches no method but the one that it is on. -/
theorem Op.moves (op : Op) (m : Module) : Evolves op.Touches m (op.apply m) := by
  cases op with
  | addType name flags base => exact moves_map (moves_addType name flags base m)
  | addTypeRef name scope invoke => exact moves_map (moves_addTypeRef name scope invoke m)
  | importType ty => exact moves_map (moves_importType ty m)
  | addField owner name flags ty => exact moves_map (moves_addField owner name flags ty m)
  | addMethod row => exact moves_map (moves_addMethod row m)
  | rollbackMethod token => exact moves_map (moves_rollbackMethod token m)
  | rewriteMethod token change => exact moves_rewriteMethod token change m
  | addLocal method ty => exact moves_map (moves_addLocal method ty m)
  | insertCode method code index => exact moves_insertCode method code index m
  | addMemberRef parent name signature => exact moves_map (moves_addMemberRef parent name signature m)
  | addMethodSpec method args => exact moves_map (moves_addMethodSpec method args m)

/-- A module that operations made out of an empty one. -/
inductive Reachable : Module → Prop
  | empty (name : String) : Reachable (empty name)
  | edited {m : Module} (op : Op) (reached : Reachable m) : Reachable (op.apply m)

theorem Reachable.placed (reached : Reachable m) : m.Placed := by
  induction reached with
  | empty name => exact placed_empty name
  | edited op _ ih => exact (op.moves _).placed ih

end WeakSubscription.Module
