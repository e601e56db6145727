import WeakSubscription.Proofs.Execution.Lasting

/-!
# Objects keep their types

Nothing that a program does gives an object another type or takes it out of the heap. This holds of every
step, also of one that fails, and so of every call.
-/

namespace WeakSubscription

open Tracked

namespace Machine

/-- The type with which an object was allocated, whether or not it was collected since. -/
def typeOf? (m : Machine) (r : ObjectRef) : Option Ty := m.objects[r.slot]?.map (·.type)

/-- Every object of the first machine is one of the second, with the same type. -/
def KeepsTypes (m m' : Machine) : Prop := ∀ r t, m.typeOf? r = some t → m'.typeOf? r = some t

instance : Std.Refl KeepsTypes := ⟨fun _ _ _ typed => typed⟩

instance : IsTrans Machine KeepsTypes := ⟨fun _ _ _ first later r t typed => later r t (first r t typed)⟩

theorem keepsTypes_of_objects_eq {m m' : Machine} (same : m'.objects = m.objects) : KeepsTypes m m' := by
  intro r t typed
  rwa [typeOf?, same]

theorem typeOf?_of_object {m : Machine} {r : ObjectRef} {o : HeapObject} (found : m.object r = .ok o) :
    m.typeOf? r = some o.type := by
  unfold object at found
  split at found
  · rename_i o' read
    split at found
    · obtain rfl := Except.ok.inj found
      rw [typeOf?, read, Option.map_some]
    · cases found
  · cases found

theorem typeOf?_of_alloc {m m' : Machine} {r : ObjectRef} {t : Ty} (made : alloc t m = .ok r m') :
    m'.typeOf? r = some t := by
  obtain ⟨room, rfl, rfl⟩ := alloc_eq_ok_iff.mp made
  rw [typeOf?, withObject, ObjectRef.slot_ofSlot room, List.getElem?_concat_length, Option.map_some]

theorem keepsTypes_withObject (m : Machine) (t : Ty) : KeepsTypes m (m.withObject t) := by
  intro r u typed
  obtain ⟨o', read, rfl⟩ := Option.map_eq_some_iff.mp typed
  have inside : r.slot < m.objects.length := (List.getElem?_eq_some_iff.mp read).1
  rw [typeOf?, withObject, List.getElem?_append_left inside, read, Option.map_some]

theorem keepsTypes_set {m : Machine} {r : ObjectRef} {o o' : HeapObject} (found : m.object r = .ok o)
    (same : o'.type = o.type) : KeepsTypes m { m with objects := m.objects.set r.slot o' } := by
  intro q t typed
  have old := typeOf?_of_object found
  obtain ⟨p, read, rfl⟩ := Option.map_eq_some_iff.mp typed
  by_cases here : r.slot = q.slot
  · have inside : q.slot < m.objects.length := (List.getElem?_eq_some_iff.mp read).1
    rw [typeOf?, here, read, Option.map_some] at old
    rw [typeOf?, here, List.getElem?_set_self inside, Option.map_some, same]
    exact old.symm
  · rw [typeOf?, List.getElem?_set_ne here, read, Option.map_some]

theorem moves_setField (module : Module) (field : Token) (target? : Option ObjectRef) (v : Value)
    (m : Machine) : Moves KeepsTypes (setField module field target? v) m := by
  refine moves_get_bind (moves_lift_bind fun row found => ?_)
  split
  · exact moves_put (keepsTypes_of_objects_eq rfl)
  · cases target? with
    | none => exact moves_throw _
    | some r =>
      refine moves_lift_bind fun o found => ?_
      exact moves_put (keepsTypes_set found rfl)

theorem lasting_keepsTypes : Lasting KeepsTypes where
  grows := keepsTypes_withObject
  setField := moves_setField
  numbers _ _ := keepsTypes_of_objects_eq rfl
  enters _ _ := keepsTypes_of_objects_eq rfl
  framed inside := inside

end Machine

end WeakSubscription
