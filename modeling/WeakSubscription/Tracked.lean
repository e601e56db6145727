import WeakSubscription.Error

/-!
Computations over a state that may fail. A failure keeps the state as it was at that point, so what
was done before it stays done.
-/

namespace WeakSubscription

/-! ### Computations without a state -/

theorem except_pure_eq_ok_iff {ε α : Type} {a b : α} :
    (pure a : Except ε α) = .ok b ↔ a = b :=
  ⟨Except.ok.inj, congrArg Except.ok⟩

/-- What a successful composition without a state went through. -/
theorem except_bind_eq_ok_iff {ε α β : Type} {x : Except ε α} {f : α → Except ε β} {b : β} :
    (x >>= f) = .ok b ↔ ∃ a, x = .ok a ∧ f a = .ok b := by
  cases x with
  | error e => exact ⟨fun h => (nomatch h), by rintro ⟨_, ⟨⟩, _⟩⟩
  | ok a => exact ⟨fun h => ⟨a, rfl, h⟩, by rintro ⟨_, ⟨⟩, h⟩; exact h⟩

theorem except_map_eq_ok_iff {ε α β : Type} {x : Except ε α} {f : α → β} {b : β} :
    (f <$> x) = .ok b ↔ ∃ a, x = .ok a ∧ f a = b := by
  cases x with
  | error e => exact ⟨fun h => (nomatch h), by rintro ⟨_, ⟨⟩, _⟩⟩
  | ok a => exact ⟨fun h => ⟨a, rfl, Except.ok.inj h⟩, by rintro ⟨_, ⟨⟩, h⟩; exact congrArg _ h⟩

/-! ### Computations on a state -/

/-- A computation that changes a state of type `σ` and fails with an `Error`. -/
abbrev Tracked (σ : Type) := EStateM Error σ

instance (σ : Type) : MonadLift (Except Error) (Tracked σ) where
  monadLift
    | .ok a => pure a
    | .error e => throw e

namespace Tracked

variable {σ α β : Type}

def put (s : σ) : Tracked σ Unit := set s

/-! ### Single steps -/

@[simp] theorem pure_apply (a : α) (s : σ) : (pure a : Tracked σ α) s = .ok a s := rfl

@[simp] theorem get_apply (s : σ) : (get : Tracked σ σ) s = .ok s s := rfl

@[simp] theorem throw_apply (e : Error) (s : σ) : (throw e : Tracked σ α) s = .error e s := rfl

@[simp] theorem put_apply (s t : σ) : (put t : Tracked σ Unit) s = .ok () t := rfl

@[simp] theorem modify_apply (f : σ → σ) (s : σ) :
    (modify f : Tracked σ PUnit) s = .ok () (f s) := rfl

@[simp] theorem lift_ok (a : α) (s : σ) :
    (liftM (Except.ok a : Except Error α) : Tracked σ α) s = .ok a s := rfl

@[simp] theorem lift_error (e : Error) (s : σ) :
    (liftM (Except.error e : Except Error α) : Tracked σ α) s = .error e s := rfl

@[simp] theorem lift_ok_bind (a : α) (f : α → Tracked σ β) :
    (liftM (Except.ok a : Except Error α) >>= f) = f a := rfl

@[simp] theorem get_bind (f : σ → Tracked σ β) (s : σ) : (get >>= f) s = f s s := rfl

@[simp] theorem lift_eq_ok_iff {x : Except Error α} {a : α} {s s' : σ} :
    (liftM x : Tracked σ α) s = .ok a s' ↔ x = .ok a ∧ s' = s := by
  cases x with
  | ok b => exact ⟨by rintro ⟨⟩; exact ⟨rfl, rfl⟩, by rintro ⟨⟨⟩, rfl⟩; rfl⟩
  | error e => exact ⟨fun h => (nomatch h), fun h => (nomatch h.1)⟩

@[simp] theorem lift_eq_error_iff {x : Except Error α} {e : Error} {s s' : σ} :
    (liftM x : Tracked σ α) s = .error e s' ↔ x = .error e ∧ s' = s := by
  cases x with
  | ok b => exact ⟨fun h => (nomatch h), fun h => (nomatch h.1)⟩
  | error e' => exact ⟨by rintro ⟨⟩; exact ⟨rfl, rfl⟩, by rintro ⟨⟨⟩, rfl⟩; rfl⟩

theorem lift_pure (a : α) : (liftM (pure a : Except Error α) : Tracked σ α) = pure a := rfl

theorem lift_bind (x : Except Error α) (f : α → Except Error β) :
    (liftM (x >>= f) : Tracked σ β) = liftM x >>= fun a => liftM (f a) := by
  cases x <;> rfl

/-! ### Composition -/

/-- A successful computation followed by another is the other, in the state that the first left. -/
theorem bind_of_ok {x : Tracked σ α} {f : α → Tracked σ β} {s s' : σ} {a : α}
    (h : x s = .ok a s') : (x >>= f) s = f a s' := by
  simp [bind, EStateM.bind, h]

/-- A failed computation is not continued. -/
theorem bind_of_error {x : Tracked σ α} {f : α → Tracked σ β} {s s' : σ} {e : Error}
    (h : x s = .error e s') : (x >>= f) s = .error e s' := by
  simp [bind, EStateM.bind, h]

/-- What a successful composition went through. -/
theorem bind_eq_ok_iff {x : Tracked σ α} {f : α → Tracked σ β} {s t : σ} {b : β} :
    (x >>= f) s = .ok b t ↔ ∃ a s', x s = .ok a s' ∧ f a s' = .ok b t := by
  cases h : x s with
  | ok a s' =>
    rw [bind_of_ok h]
    exact ⟨fun run => ⟨a, s', rfl, run⟩, by rintro ⟨_, _, ⟨⟩, run⟩; exact run⟩
  | error e s' =>
    rw [bind_of_error h]
    exact ⟨fun run => (by cases run), by rintro ⟨_, _, ⟨⟩, _⟩⟩

/-- What a failed composition went through. -/
theorem bind_eq_error_iff {x : Tracked σ α} {f : α → Tracked σ β} {s t : σ} {e : Error} :
    (x >>= f) s = .error e t ↔
      x s = .error e t ∨ ∃ a s', x s = .ok a s' ∧ f a s' = .error e t := by
  cases h : x s with
  | ok a s' =>
    rw [bind_of_ok h]
    exact ⟨fun run => .inr ⟨a, s', rfl, run⟩, by rintro (⟨⟨⟩⟩ | ⟨_, _, ⟨⟩, run⟩); exact run⟩
  | error e' s' =>
    rw [bind_of_error h]
    exact ⟨by rintro ⟨⟩; exact .inl rfl, by rintro (⟨⟨⟩⟩ | ⟨_, _, ⟨⟩, _⟩); rfl⟩

/-- What a successful mapping went through. -/
theorem map_eq_ok_iff {x : Tracked σ α} {f : α → β} {s t : σ} {b : β} :
    (f <$> x) s = .ok b t ↔ ∃ a, x s = .ok a t ∧ f a = b := by
  cases h : x s with
  | ok a s' =>
    simp only [Functor.map, EStateM.map, h]
    exact ⟨by rintro ⟨⟩; exact ⟨a, rfl, rfl⟩, by rintro ⟨_, ⟨⟩, rfl⟩; rfl⟩
  | error e s' =>
    simp only [Functor.map, EStateM.map, h]
    exact ⟨fun run => (nomatch run), by rintro ⟨_, ⟨⟩, _⟩⟩

theorem discard_of_ok {x : Tracked σ α} {s s' : σ} {a : α} (ran : x s = .ok a s') :
    (discard x : Tracked σ Unit) s = .ok () s' :=
  map_eq_ok_iff.mpr ⟨a, ran, rfl⟩

theorem discard_of_error {x : Tracked σ α} {s s' : σ} {e : Error} (failed : x s = .error e s') :
    (discard x : Tracked σ Unit) s = .error e s' := by
  simp only [discard, Functor.discard, Functor.mapConst, EStateM.map, failed, Function.comp]

end Tracked

end WeakSubscription
