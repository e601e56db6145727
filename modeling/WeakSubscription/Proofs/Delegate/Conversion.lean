import WeakSubscription.Delegate.Weak
import WeakSubscription.Proofs.Delegate.Laws

/-!
# Conversions

A conversion gives a delegate another type and keeps its entries. Combining and removing ask of two types only
whether they have the same name, and wrappers are made and found by entries alone. So operands may be converted
before or the result after, and an event whose changes all go through another type holds the handlers that it
would hold without the conversions.
-/

namespace WeakSubscription

variable {a b v w : Value} {t u u' : Ty}

/-! ### Retyped values -/

namespace Value

/-- The value with its delegate, if it is one, in another type. -/
def retyped (t : Ty) : Value → Value
  | .null => .null
  | .object r => .object r
  | .delegate d => .delegate ⟨t, d.entries⟩
  | .methodPointer m => .methodPointer m

/-- The invocation list of a delegate. Null has no entries, and nor have values that are no delegates. -/
def entries : Value → List Entry
  | .delegate d => d.entries
  | .null | .object _ | .methodPointer _ => []

@[simp] theorem entries_retyped (v : Value) (t : Ty) : (v.retyped t).entries = v.entries := by
  cases v <;> rfl

@[simp] theorem retyped_retyped (v : Value) (t u : Ty) : (v.retyped t).retyped u = v.retyped u := by
  cases v <;> rfl

@[simp] theorem retyped_ofEntries (t u : Ty) (es : List Entry) : (ofEntries t es).retyped u = ofEntries u es := by
  cases es <;> rfl

theorem retyped_eq_null_iff : v.retyped t = .null ↔ v = .null := by
  cases v <;> simp [retyped]

/-- Every value has been given a type that it could have been given before. -/
theorem exists_eq_retyped (v : Value) : ∃ t, v = v.retyped t := by
  cases v with
  | delegate d => exact ⟨d.type, rfl⟩
  | null | object _ | methodPointer _ => exact ⟨.object, rfl⟩

theorem isOperand_ofEntries (t : Ty) (es : List Entry) : (ofEntries t es).IsOperand := by
  cases es with
  | nil => exact .inl rfl
  | cons e es => exact .inr ⟨_, rfl⟩

theorem IsOperand.retyped (operand : v.IsOperand) (t : Ty) : (v.retyped t).IsOperand := by
  obtain rfl | ⟨d, rfl⟩ := operand
  · exact .inl rfl
  · exact .inr ⟨_, rfl⟩

end Value

namespace Delegate

variable {d e : Delegate}

theorem changeType_operand (operand : v.IsOperand) (t : Ty) : changeType v t = .ok (v.retyped t) := by
  obtain rfl | ⟨d, rfl⟩ := operand <;> rfl

/-! ### Arithmetic -/

theorem combine_retyped (first : a.IsOperand) (second : b.IsOperand) (combined : combine a b = .ok v) (t : Ty) :
    combine (a.retyped t) (b.retyped t) = .ok (v.retyped t) := by
  obtain rfl | ⟨d, rfl⟩ := first
  · obtain rfl := Except.ok.inj ((combine_null_left second).symm.trans combined)
    exact combine_null_left (second.retyped t)
  · obtain rfl | ⟨e, rfl⟩ := second
    · obtain rfl := Except.ok.inj combined
      rfl
    · obtain ⟨-, rfl⟩ := combine_delegates_eq_ok_iff.mp combined
      exact combine_of_sameName rfl

theorem remove_of_sameName (same : d.type.SameName e.type) :
    remove (.delegate d) (.delegate e) =
      .ok ((withoutLast e.entries d.entries).elim (.delegate d) (.ofEntries d.type)) := by
  simp only [remove, Value.asOperand, bind, Except.bind, requireSameType, if_pos same]
  cases withoutLast e.entries d.entries <;> rfl

theorem remove_delegates_ok (removed : remove (.delegate d) (.delegate e) = .ok v) :
    v = (withoutLast e.entries d.entries).elim (.delegate d) (.ofEntries d.type) := by
  by_cases same : d.type.SameName e.type
  · exact (Except.ok.inj ((remove_of_sameName same).symm.trans removed)).symm
  · simp only [remove, Value.asOperand, bind, Except.bind, requireSameType, if_neg same, reduceCtorEq] at removed

theorem remove_retyped (first : a.IsOperand) (second : b.IsOperand) (removed : remove a b = .ok v) (t : Ty) :
    remove (a.retyped t) (b.retyped t) = .ok (v.retyped t) := by
  obtain rfl | ⟨d, rfl⟩ := first
  · obtain rfl := Except.ok.inj removed
    rfl
  · obtain rfl | ⟨e, rfl⟩ := second
    · obtain rfl := Except.ok.inj removed
      rfl
    · obtain rfl := remove_delegates_ok removed
      refine (remove_of_sameName (d := ⟨t, d.entries⟩) (e := ⟨t, e.entries⟩) rfl).trans (congrArg Except.ok ?_)
      show (withoutLast e.entries d.entries).elim _ _ = _
      cases withoutLast e.entries d.entries with
      | none => rfl
      | some left => exact (Value.retyped_ofEntries d.type t left).symm

theorem remove_isOperand (first : a.IsOperand) (second : b.IsOperand) (removed : remove a b = .ok v) :
    v.IsOperand := by
  obtain rfl | ⟨d, rfl⟩ := first
  · exact .inl (Except.ok.inj removed).symm
  · obtain rfl | ⟨e, rfl⟩ := second
    · exact .inr ⟨d, (Except.ok.inj removed).symm⟩
    · obtain rfl := remove_delegates_ok removed
      cases withoutLast e.entries d.entries with
      | none => exact .inr ⟨d, rfl⟩
      | some left => exact Value.isOperand_ofEntries d.type left

/-! ### Wrappers -/

theorem findWeak_retyped (a b : Value) (u u' t : Ty) : findWeak (a.retyped u) (b.retyped u') t = findWeak a b t := by
  cases a <;> cases b <;> rfl

theorem findWeak_operands (first : a.IsOperand) (second : b.IsOperand) (t : Ty) :
    ∃ found, findWeak a b t = .ok found := by
  obtain rfl | ⟨d, rfl⟩ := first <;> obtain rfl | ⟨e, rfl⟩ := second <;> exact ⟨_, rfl⟩

theorem makeWeak_retyped (handler unsubscribe : Value) (u t : Ty) (last : UInt32) :
    makeWeak (handler.retyped u) unsubscribe t last = makeWeak handler unsubscribe t last := by
  cases handler <;> rfl

/-! ### Changes of an event -/

/-- What is done to the handlers that an event holds. -/
inductive Change where
  | add
  | drop

namespace Change

variable {change : Change} {changes : List (Change × Value)} {held handler : Value}

def apply : Change → (held handler : Value) → Except Error Value
  | add => combine
  | drop => remove

/-- The change made in another type: held handlers and handler are converted, and what comes of them is converted
to the type of the event. -/
def applyIn (other own : Ty) (change : Change) (held handler : Value) : Except Error Value := do
  let held ← changeType held other
  let handler ← changeType handler other
  changeType (← change.apply held handler) own

def applyAll : List (Change × Value) → (held : Value) → Except Error Value
  | [], held => .ok held
  | (change, handler) :: changes, held => do applyAll changes (← change.apply held handler)

def applyAllIn (other own : Ty) : List (Change × Value) → (held : Value) → Except Error Value
  | [], held => .ok held
  | (change, handler) :: changes, held => do
    applyAllIn other own changes (← change.applyIn other own held handler)

theorem apply_retyped (first : held.IsOperand) (second : handler.IsOperand)
    (applied : change.apply held handler = .ok v) (t : Ty) :
    change.apply (held.retyped t) (handler.retyped t) = .ok (v.retyped t) := by
  cases change with
  | add => exact combine_retyped first second applied t
  | drop => exact remove_retyped first second applied t

theorem apply_isOperand (first : held.IsOperand) (second : handler.IsOperand)
    (applied : change.apply held handler = .ok v) : v.IsOperand := by
  cases change with
  | add => exact combine_isOperand first second applied
  | drop => exact remove_isOperand first second applied

/-- A change in another type comes to the same, whatever type the held handlers have by now. -/
theorem applyIn_retyped (first : held.IsOperand) (second : handler.IsOperand)
    (applied : change.apply held handler = .ok v) (s u t : Ty) :
    change.applyIn u t (held.retyped s) handler = .ok (v.retyped t) := by
  have result : (v.retyped u).IsOperand := (apply_isOperand first second applied).retyped u
  have converted : change.applyIn u t (held.retyped s) handler = changeType (v.retyped u) t := by
    simp only [applyIn, changeType_operand (first.retyped s), changeType_operand second, Value.retyped_retyped,
      bind, Except.bind, apply_retyped first second applied]
  rw [converted, changeType_operand result, Value.retyped_retyped]

/-- By induction on the changes: from the first one on, the two sides differ in type only. -/
theorem applyAllIn_retyped (operand : held.IsOperand) (operands : ∀ p ∈ changes, p.2.IsOperand)
    (applied : applyAll changes held = .ok v) (s u t : Ty) :
    ∃ s', applyAllIn u t changes (held.retyped s) = .ok (v.retyped s') := by
  induction changes generalizing held s with
  | nil =>
    obtain rfl := Except.ok.inj applied
    exact ⟨s, rfl⟩
  | cons p changes ih =>
    obtain ⟨change, handler⟩ := p
    obtain ⟨second, rest⟩ := List.forall_mem_cons.mp operands
    obtain ⟨next, first, later⟩ := except_bind_eq_ok_iff.mp applied
    obtain ⟨s', ran⟩ := ih (apply_isOperand operand second first) rest later t
    exact ⟨s', except_bind_eq_ok_iff.mpr ⟨_, applyIn_retyped operand second first s u t, ran⟩⟩

end Change

/-! ### Conversions are not seen -/

/-- Operands may be converted before or the result after, when handlers are combined and removed. Wrappers are
found and made as if nothing were converted. And an event holds the same handlers after changes that all go through
another type as after the changes themselves. -/
theorem conversions_transparent (first : a.IsOperand) (second : b.IsOperand) (t u u' : Ty) :
    (∀ v, combine a b = .ok v → ∃ w, changeType v t = .ok w ∧
      (do combine (← changeType a t) (← changeType b t) : Except Error Value) = .ok w) ∧
    (∀ v, remove a b = .ok v → ∃ w, changeType v t = .ok w ∧
      (do remove (← changeType a t) (← changeType b t) : Except Error Value) = .ok w) ∧
    (∃ found, findWeak a b t = .ok found ∧
      (do findWeak (← changeType a u) (← changeType b u') t : Except Error Value) = .ok found) ∧
    (∀ unsubscribe last, (do makeWeak (← changeType a u) unsubscribe t last : Except Error (Value × UInt32)) =
      makeWeak a unsubscribe t last) ∧
    ∀ changes : List (Change × Value), (∀ p ∈ changes, p.2.IsOperand) → ∀ v, Change.applyAll changes a = .ok v →
      ∃ w, Change.applyAllIn u t changes a = .ok w ∧ w.entries = v.entries ∧ (w = .null ↔ v = .null) := by
  have convert : ∀ {v : Value}, v.IsOperand → ∀ t, changeType v t = .ok (v.retyped t) := changeType_operand
  refine ⟨fun v combined => ⟨v.retyped t, convert (combine_isOperand first second combined) t, ?_⟩,
    fun v removed => ⟨v.retyped t, convert (remove_isOperand first second removed) t, ?_⟩, ?_,
    fun unsubscribe last => ?_, fun changes operands v applied => ?_⟩
  · rw [convert first, convert second]
    exact combine_retyped first second combined t
  · rw [convert first, convert second]
    exact remove_retyped first second removed t
  · obtain ⟨found, search⟩ := findWeak_operands first second t
    refine ⟨found, search, ?_⟩
    rw [convert first, convert second]
    exact (findWeak_retyped a b u u' t).trans search
  · rw [convert first]
    exact makeWeak_retyped a unsubscribe u t last
  · obtain ⟨s, same⟩ := a.exists_eq_retyped
    obtain ⟨s', ran⟩ := Change.applyAllIn_retyped first operands applied s u t
    exact ⟨v.retyped s', by rw [same]; exact ran, v.entries_retyped s', Value.retyped_eq_null_iff⟩

/-! ### An event of a type of its own -/

namespace Converted

def custom : Ty := .named ⟨"Sample", "Ticked"⟩

def canonical : Ty := .inst .genericEventHandler [.named .eventArgs]

def listener : Delegate := .bound custom (some ⟨1⟩) (.ofRow .method 1)

def wrapper : Delegate :=
  ⟨custom, [.weak 1 ⟨some ⟨2⟩, .ofRow .method 1⟩ canonical [.strong ⟨none, .ofRow .method 2⟩] canonical]⟩

/-- The wrapper joins the listener, and both leave. -/
def changes : List (Change × Value) :=
  [(.add, .delegate wrapper), (.drop, .delegate listener), (.add, .null), (.drop, .delegate wrapper)]

/-- The two are combined in the other type as in their own, and the event is empty in the end in both. -/
theorem conversions_transparent_custom :
    (Value.delegate listener).IsOperand ∧ (Value.delegate wrapper).IsOperand ∧ (∀ p ∈ changes, p.2.IsOperand) ∧
      (do combine (← changeType (.delegate listener) canonical) (← changeType (.delegate wrapper) canonical) :
        Except Error Value) = .ok (.delegate ⟨canonical, listener.entries ++ wrapper.entries⟩) ∧
      Change.applyAll changes (.delegate listener) = .ok .null ∧
      Change.applyAllIn canonical custom changes (.delegate listener) = .ok .null := by
  have first : (Value.delegate listener).IsOperand := .inr ⟨_, rfl⟩
  have second : (Value.delegate wrapper).IsOperand := .inr ⟨_, rfl⟩
  have operands : ∀ p ∈ changes, p.2.IsOperand := by simp [changes, Value.IsOperand]
  have joined : combine (.delegate listener) (.delegate wrapper) =
      .ok (.delegate ⟨custom, listener.entries ++ wrapper.entries⟩) := combine_of_sameName rfl
  have emptied : Change.applyAll changes (.delegate listener) = .ok .null := by decide
  obtain ⟨combined, -⟩ := conversions_transparent first second canonical custom custom
  obtain ⟨v, converted, inOther⟩ := combined _ joined
  obtain rfl := Except.ok.inj converted
  obtain ⟨-, -, -, -, changed⟩ := conversions_transparent first second custom canonical canonical
  obtain ⟨w, inOtherToo, -, nothing⟩ := changed changes operands _ emptied
  obtain rfl := nothing.mpr rfl
  exact ⟨first, second, operands, inOther, emptied, inOtherToo⟩

end Converted

end Delegate

end WeakSubscription
