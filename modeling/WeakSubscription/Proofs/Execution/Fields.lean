import WeakSubscription.Execution.Machine

/-!
# Fields of a machine

The value of a field lies in a live object, or among the statics if the field is static. Writing one field
changes no other field and no other part of the machine.
-/

namespace WeakSubscription.Machine

variable {module : Module} {s s' : Machine} {field field' : Token} {f : Field} {p q : Option ObjectRef}
  {r : ObjectRef} {v : Value} {o : HeapObject}

/-! ### Live objects -/

theorem isAlive_iff : s.isAlive r = true ↔ ∃ o, s.objects[r.slot]? = some o ∧ o.alive = true := by
  rw [isAlive, Option.any_eq_true]

theorem object_eq_ok_iff : s.object r = .ok o ↔ s.objects[r.slot]? = some o ∧ o.alive = true := by
  unfold object
  cases read : s.objects[r.slot]? with
  | none => simp
  | some o' =>
    dsimp only
    by_cases alive : o'.alive = true
    · rw [if_pos alive, Option.some.injEq, Except.ok.injEq]
      exact ⟨fun same => ⟨same, same ▸ alive⟩, fun h => h.1⟩
    · rw [if_neg alive, Option.some.injEq]
      exact ⟨fun h => (nomatch h), fun h => absurd (h.1 ▸ h.2) alive⟩

theorem object_of_isAlive (alive : s.isAlive r = true) : ∃ o, s.object r = .ok o := by
  obtain ⟨o, read, living⟩ := isAlive_iff.mp alive
  exact ⟨o, object_eq_ok_iff.mpr ⟨read, living⟩⟩

/-- The field has a place in the machine: among the statics, or in a live object. -/
def Holds (s : Machine) (p : Option ObjectRef) : Prop := p.all s.isAlive = true

instance (s : Machine) (p : Option ObjectRef) : Decidable (s.Holds p) :=
  inferInstanceAs (Decidable (p.all s.isAlive = true))

/-! ### Writing a field -/

def withField (s : Machine) (field : Token) (p : Option ObjectRef) (v : Value) : Machine :=
  match p with
  | none => { s with statics := s.statics.set field v }
  | some r => { s with
      objects := s.objects.modify r.slot fun o => { o with fields := o.fields.set field v } }

@[simp] theorem trace_withField : (s.withField field p v).trace = s.trace := by
  cases p <;> rfl

@[simp] theorem depth_withField : (s.withField field p v).depth = s.depth := by
  cases p <;> rfl

@[simp] theorem lastWeakId_withField : (s.withField field p v).lastWeakId = s.lastWeakId := by
  cases p <;> rfl

@[simp] theorem alive_withField :
    (s.withField field p v).objects.map (·.alive) = s.objects.map (·.alive) := by
  cases p with
  | none => rfl
  | some r =>
    refine List.ext_getElem? fun n => ?_
    rw [withField, List.getElem?_map, List.getElem?_map]
    by_cases here : r.slot = n
    · subst here
      rw [List.getElem?_modify_eq, Option.map_eq_map, Option.map_map]
      rfl
    · rw [List.getElem?_modify_ne _ _ here]

theorem isAlive_eq_of_alive_eq (same : s'.objects.map (·.alive) = s.objects.map (·.alive)) :
    s'.isAlive = s.isAlive := by
  funext r
  have read := congrArg (·[r.slot]?) same
  simp only [List.getElem?_map] at read
  have any : ∀ o? : Option HeapObject, o?.any (·.alive) = (o?.map (·.alive)).any id := by
    intro o?
    cases o? <;> rfl
  rw [isAlive, isAlive, any, any, read]

@[simp] theorem isAlive_withField : (s.withField field p v).isAlive = s.isAlive :=
  isAlive_eq_of_alive_eq alive_withField

theorem setField_eq (found : module.field field = .ok f) (kind : f.isStatic = p.isNone)
    (holds : s.Holds p) : setField module field p v s = .ok () (s.withField field p v) := by
  unfold setField
  rw [Tracked.get_bind, found, Tracked.lift_ok_bind, kind]
  cases p with
  | none => rfl
  | some r =>
    obtain ⟨o, object⟩ := object_of_isAlive (s := s) (r := r) holds
    have read := (object_eq_ok_iff.mp object).1
    simp only [Option.isNone_some, Bool.false_eq_true, if_false]
    rw [object, Tracked.lift_ok_bind, Tracked.put_apply, withField]
    congr 2
    refine List.ext_getElem? fun n => ?_
    by_cases here : r.slot = n
    · subst here
      have inside : r.slot < s.objects.length := (List.getElem?_eq_some_iff.mp read).1
      rw [List.getElem?_set_self inside, List.getElem?_modify_eq, read]
      rfl
    · rw [List.getElem?_set_ne here, List.getElem?_modify_ne _ _ here]

/-! ### Reading a field -/

theorem fieldValue_static (found : module.field field = .ok f) (kind : f.isStatic = true) :
    s.fieldValue module field p = .ok (s.statics.get field) := by
  simp only [fieldValue, bind, Except.bind, found, kind, if_true, pure, Except.pure]

theorem fieldValue_instance (found : module.field field = .ok f) (kind : f.isStatic = false) :
    s.fieldValue module field (some r) = (·.fields.get field) <$> s.object r := by
  simp only [fieldValue, bind, Except.bind, found, kind, Bool.false_eq_true, if_false, pure, Except.pure]
  rfl

theorem fieldValue_withField_self (found : module.field field = .ok f) (kind : f.isStatic = p.isNone)
    (holds : s.Holds p) : (s.withField field p v).fieldValue module field p = .ok v := by
  cases p with
  | none => rw [fieldValue_static found kind, withField, FieldValues.get_set_self]
  | some r =>
    obtain ⟨o, object⟩ := object_of_isAlive (s := s) (r := r) holds
    obtain ⟨read, alive⟩ := object_eq_ok_iff.mp object
    rw [fieldValue_instance found kind]
    refine except_map_eq_ok_iff.mpr ⟨{ o with fields := o.fields.set field v }, ?_,
      FieldValues.get_set_self ..⟩
    refine object_eq_ok_iff.mpr ⟨?_, alive⟩
    rw [withField, List.getElem?_modify_eq, read]
    rfl

/-- Setting a field changes no other field, and not the same field of other objects. -/
theorem fieldValue_withField_of_ne (found : module.field field' = .ok f) (kind : f.isStatic = q.isNone)
    (apart : field' ≠ field ∨ q ≠ p) :
    (s.withField field p v).fieldValue module field' q = s.fieldValue module field' q := by
  cases q with
  | none =>
    rw [fieldValue_static found kind, fieldValue_static found kind]
    cases p with
    | none =>
      have other : field' ≠ field := apart.resolve_right fun h => h rfl
      rw [withField, FieldValues.get_set_of_ne other]
    | some r => rfl
  | some r =>
    rw [fieldValue_instance found kind, fieldValue_instance found kind]
    cases p with
    | none => rfl
    | some r' =>
      by_cases here : r'.slot = r.slot
      · have other : field' ≠ field :=
          apart.resolve_right fun h => h (congrArg some (ObjectRef.eq_of_slot_eq here.symm))
        unfold object
        rw [withField, here, List.getElem?_modify_eq]
        cases s.objects[r.slot]? with
        | none => rfl
        | some o =>
          cases alive : o.alive
          · simp only [Option.map_eq_map, Option.map_some, alive, Bool.false_eq_true, if_false]
          · simp only [Option.map_eq_map, Option.map_some, alive, if_true]
            exact congrArg Except.ok (FieldValues.get_set_of_ne other)
      · unfold object
        rw [withField, List.getElem?_modify_ne _ _ here]

/-! ### Allocation and collection -/

/-- What depends on static fields and live objects alone is the same in a machine with more objects. -/
theorem fieldValue_alloc {t : Ty} (found : module.field field = .ok f) (kind : f.isStatic = p.isNone)
    (holds : s.Holds p) :
    (s.withObject t).fieldValue module field p = s.fieldValue module field p := by
  cases p with
  | none =>
    rw [fieldValue_static found kind, fieldValue_static found kind]
    rfl
  | some r =>
    obtain ⟨o, read, -⟩ := isAlive_iff.mp (show s.isAlive r = true from holds)
    have inside : r.slot < s.objects.length := (List.getElem?_eq_some_iff.mp read).1
    rw [fieldValue_instance found kind, fieldValue_instance found kind, object, object, withObject,
      List.getElem?_append_left inside]

theorem fieldValue_new {t : Ty} (found : module.field field = .ok f) (kind : f.isStatic = false)
    (new : r.slot = s.objects.length) : (s.withObject t).fieldValue module field (some r) = .ok .null := by
  rw [fieldValue_instance found kind]
  refine except_map_eq_ok_iff.mpr ⟨⟨t, true, []⟩, object_eq_ok_iff.mpr ⟨?_, rfl⟩, rfl⟩
  rw [new]
  exact List.getElem?_concat_length

theorem collect_eq (living : s.object r = .ok o) :
    collect r s = .ok () { s with
      objects := s.objects.set r.slot { o with alive := false, fields := [] } } := by
  unfold collect
  rw [Tracked.get_bind, living, Tracked.lift_ok_bind, Tracked.put_apply]

theorem fieldValue_collect (found : module.field field = .ok f) (kind : f.isStatic = p.isNone)
    {o' : HeapObject} (apart : p ≠ some r) :
    ({ s with objects := s.objects.set r.slot o' } : Machine).fieldValue module field p =
      s.fieldValue module field p := by
  cases p with
  | none => rw [fieldValue_static found kind, fieldValue_static found kind]
  | some r' =>
    have other : r.slot ≠ r'.slot := fun same => apart (congrArg some (ObjectRef.eq_of_slot_eq same.symm))
    rw [fieldValue_instance found kind, fieldValue_instance found kind, object, object,
      List.getElem?_set_ne other]

end WeakSubscription.Machine
