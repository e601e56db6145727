import Mathlib.Order.Defs.Unbundled
import WeakSubscription.Tracked

/-!
# What computations do to their state

A computation moves along a relation when its last state is related to its first, whether it succeeds or
fails. For a reflexive and transitive relation this is closed under the ways in which computations are
put together, so that it only has to be shown where a state is put. What a computation gives when it
succeeds is said by `Gives`, which goes through a computation in the same way.
-/

namespace WeakSubscription.Tracked

variable {σ α β : Type} {rel : σ → σ → Prop} {s : σ}

/-- The state in which a computation ended, also when it failed. -/
def endState : EStateM.Result Error σ α → σ
  | .ok _ s | .error _ s => s

/-- The computation goes from this state along the relation. -/
def Moves (rel : σ → σ → Prop) (x : Tracked σ α) (s : σ) : Prop := rel s (endState (x s))

theorem Moves.of_ok {x : Tracked σ α} {a : α} {s' : σ} (moves : Moves rel x s)
    (ran : x s = .ok a s') : rel s s' := by
  rwa [Moves, ran] at moves

theorem Moves.of_error {x : Tracked σ α} {e : Error} {s' : σ} (moves : Moves rel x s)
    (ran : x s = .error e s') : rel s s' := by
  rwa [Moves, ran] at moves

theorem moves_put {t : σ} (h : rel s t) : Moves rel (put t) s := h

theorem moves_modify {f : σ → σ} (h : rel s (f s)) : Moves rel (modify f : Tracked σ PUnit) s := h

section Reflexive

variable [Std.Refl rel]

theorem moves_pure (a : α) : Moves rel (pure a : Tracked σ α) s := Std.Refl.refl s

theorem moves_throw (e : Error) : Moves rel (throw e : Tracked σ α) s := Std.Refl.refl s

theorem moves_throw_bind (e : Error) (f : α → Tracked σ β) :
    Moves rel ((throw e : Tracked σ α) >>= f) s := Std.Refl.refl s

theorem moves_lift (x : Except Error α) : Moves rel (liftM x : Tracked σ α) s := by
  cases x with
  | ok a => exact Std.Refl.refl s
  | error e => exact Std.Refl.refl s

end Reflexive

theorem moves_bind [IsTrans σ rel] {x : Tracked σ α} {f : α → Tracked σ β} (first : Moves rel x s)
    (later : ∀ a s', x s = .ok a s' → Moves rel (f a) s') : Moves rel (x >>= f) s := by
  cases ran : x s with
  | ok a s' =>
    have onward := later a s' ran
    rw [Moves, bind_of_ok ran]
    exact trans_of rel (first.of_ok ran) onward
  | error e s' =>
    rw [Moves, bind_of_error ran]
    exact first.of_error ran

/-- A computation that fails where it starts. -/
theorem moves_bind_of_error {x : Tracked σ α} {f : α → Tracked σ β} {e : Error} {s' : σ}
    (failed : x s = .error e s') (h : rel s s') : Moves rel (x >>= f) s := by
  rwa [Moves, bind_of_error failed]

theorem moves_map {x : Tracked σ α} {f : α → β} (first : Moves rel x s) :
    Moves rel (f <$> x) s := by
  cases ran : x s with
  | ok a s' => simpa only [Moves, Functor.map, EStateM.map, ran, endState] using first
  | error e s' => simpa only [Moves, Functor.map, EStateM.map, ran, endState] using first

/-- A computation that starts by reading the state. -/
theorem moves_get_bind {f : σ → Tracked σ α} (later : Moves rel (f s) s) :
    Moves rel (get >>= f) s := later

/-- A value taken from outside the state. -/
theorem moves_lift_bind [Std.Refl rel] {x : Except Error α} {f : α → Tracked σ β}
    (later : ∀ a, x = .ok a → Moves rel (f a) s) : Moves rel (liftM x >>= f) s := by
  cases x with
  | ok a => exact later a rfl
  | error e => exact Std.Refl.refl s

/-- A success is not handled. -/
theorem tryCatch_of_ok {x : Tracked σ α} {f : Error → Tracked σ α} {a : α} {s' : σ} (ran : x s = .ok a s') :
    tryCatch x f s = .ok a s' := by
  show EStateM.tryCatch x f s = _
  delta EStateM.tryCatch
  rw [ran]

/-- A failure is handled in the state that it left. -/
theorem tryCatch_of_error {x : Tracked σ α} {f : Error → Tracked σ α} {e : Error} {s' : σ}
    (failed : x s = .error e s') : tryCatch x f s = f e s' := by
  show EStateM.tryCatch x f s = _
  delta EStateM.tryCatch
  rw [failed]
  rfl

/-- A computation that goes on behind its failures. -/
theorem moves_tryCatch [IsTrans σ rel] {x : Tracked σ α} {f : Error → Tracked σ α} (first : Moves rel x s)
    (handled : ∀ e s', Moves rel (f e) s') : Moves rel (tryCatch x f) s := by
  cases ran : x s with
  | ok a s' =>
    rw [Moves, tryCatch_of_ok ran]
    exact first.of_ok ran
  | error e s' =>
    rw [Moves, tryCatch_of_error ran]
    exact trans_of rel (first.of_error ran) (handled e s')

/-- What is composed with computations that do the same in this state does the same in it. -/
theorem bind_congr_at {x y : Tracked σ α} {f : α → Tracked σ β} (same : x s = y s) : (x >>= f) s = (y >>= f) s := by
  show EStateM.bind x f s = EStateM.bind y f s
  unfold EStateM.bind
  rw [same]

/-- The value of a computation that succeeded. -/
def value? : EStateM.Result Error σ α → Option α
  | .ok a _ => some a
  | .error _ _ => none

theorem eq_ok_of_value? {r : EStateM.Result Error σ α} {a : α} (h : value? r = some a) :
    r = .ok a (endState r) := by
  cases r with
  | ok b s =>
    obtain rfl := Option.some.inj h
    rfl
  | error e s => cases h

theorem eq_ok_of_parts {r : EStateM.Result Error σ α} {a : α} {s : σ} (h : value? r = some a ∧ endState r = s) :
    r = .ok a s :=
  h.2 ▸ eq_ok_of_value? h.1

/-- The error of a computation that failed. -/
def error? : EStateM.Result Error σ α → Option Error
  | .ok _ _ => none
  | .error e _ => some e

theorem eq_error_of_error? {r : EStateM.Result Error σ α} {e : Error} (h : error? r = some e) :
    r = .error e (endState r) := by
  cases r with
  | ok b s => cases h
  | error e' s =>
    obtain rfl := Option.some.inj h
    rfl

theorem eq_ok_of_toOption {ε : Type} {x : Except ε α} {a : α} (h : x.toOption = some a) : x = .ok a := by
  cases x with
  | ok b => exact congrArg _ (Option.some.inj h)
  | error e => cases h

/-! ### What a success gives -/

/-- If the computation succeeds from this state, its value and its last state are as stated. -/
def Gives (P : α → σ → Prop) (x : Tracked σ α) (s : σ) : Prop :=
  ∀ a s', x s = .ok a s' → P a s'

variable {P : α → σ → Prop}

theorem gives_pure {a : α} (h : P a s) : Gives P (pure a : Tracked σ α) s := by
  intro b s' ran
  obtain ⟨rfl, rfl⟩ := EStateM.Result.ok.inj ran
  exact h

theorem gives_throw (e : Error) : Gives P (throw e : Tracked σ α) s := by
  intro b s' ran
  cases ran

theorem gives_throw_bind (e : Error) (f : β → Tracked σ α) :
    Gives P ((throw e : Tracked σ β) >>= f) s := by
  intro b s' ran
  cases ran

theorem gives_bind {x : Tracked σ β} {f : β → Tracked σ α}
    (later : ∀ b s', x s = .ok b s' → Gives P (f b) s') : Gives P (x >>= f) s := by
  intro a s' ran
  obtain ⟨b, s₁, first, onward⟩ := bind_eq_ok_iff.mp ran
  exact later b s₁ first a s' onward

theorem gives_get_bind {f : σ → Tracked σ α} (later : Gives P (f s) s) : Gives P (get >>= f) s :=
  later

theorem gives_put_bind {t : σ} {f : Unit → Tracked σ α} (later : Gives P (f ()) t) :
    Gives P (put t >>= f) s :=
  later

theorem gives_lift_bind {x : Except Error β} {f : β → Tracked σ α}
    (later : ∀ b, x = .ok b → Gives P (f b) s) : Gives P (liftM x >>= f) s := by
  refine gives_bind fun b s' first => ?_
  obtain ⟨taken, rfl⟩ := lift_eq_ok_iff.mp first
  exact later b taken

/-- What holds of a computation and of all that goes on behind its failures. -/
theorem gives_tryCatch {x : Tracked σ α} {f : Error → Tracked σ α} (main : Gives P x s)
    (handled : ∀ e s', Gives P (f e) s') : Gives P (tryCatch x f) s := by
  intro a s' ran
  cases first : x s with
  | ok b s₁ =>
    obtain ⟨rfl, rfl⟩ := EStateM.Result.ok.inj ((tryCatch_of_ok first).symm.trans ran)
    exact main b s₁ first
  | error e s₁ => exact handled e s₁ a s' ((tryCatch_of_error first).symm.trans ran)

/-! ### What a failure leaves -/

/-- If the computation fails from this state, its error and its last state are as stated. -/
def Fails (Q : Error → σ → Prop) (x : Tracked σ α) (s : σ) : Prop :=
  ∀ e s', x s = .error e s' → Q e s'

variable {Q : Error → σ → Prop}

theorem fails_of_ok {x : Tracked σ α} {a : α} {s' : σ} (ran : x s = .ok a s') : Fails Q x s := by
  intro e s'' failed
  cases ran.symm.trans failed

theorem fails_pure (a : α) : Fails Q (pure a : Tracked σ α) s := fails_of_ok rfl

theorem fails_bind {x : Tracked σ β} {f : β → Tracked σ α} (first : Fails Q x s)
    (later : ∀ b s', x s = .ok b s' → Fails Q (f b) s') : Fails Q (x >>= f) s := by
  intro e s' failed
  rcases bind_eq_error_iff.mp failed with here | ⟨b, s₁, ran, onward⟩
  · exact first e s' here
  · exact later b s₁ ran e s' onward

theorem fails_get_bind {f : σ → Tracked σ α} (later : Fails Q (f s) s) : Fails Q (get >>= f) s := later

theorem fails_lift {x : Except Error α} (refused : ∀ e, x = .error e → Q e s) :
    Fails Q (liftM x : Tracked σ α) s := by
  intro e s' failed
  obtain ⟨here, rfl⟩ := lift_eq_error_iff.mp failed
  exact refused e here

/-- A value from outside the state that is there. -/
theorem fails_lift_bind {x : Except Error β} {f : β → Tracked σ α} {b : β} (taken : x = .ok b)
    (later : Fails Q (f b) s) : Fails Q (liftM x >>= f) s := by
  rw [taken]
  exact later

/-! ### Both ends -/

/-- What a success gives, and what a failure leaves. -/
def Yields (P : α → σ → Prop) (Q : Error → σ → Prop) (x : Tracked σ α) (s : σ) : Prop :=
  Gives P x s ∧ Fails Q x s

theorem Yields.cases {x : Tracked σ α} (yields : Yields P Q x s) :
    (∃ a s', x s = .ok a s' ∧ P a s') ∨ ∃ e s', x s = .error e s' ∧ Q e s' := by
  cases ran : x s with
  | ok a s' => exact .inl ⟨a, s', rfl, yields.1 a s' ran⟩
  | error e s' => exact .inr ⟨e, s', rfl, yields.2 e s' ran⟩

/-- Where the computation goes along a relation, both ends are related to the first state. -/
theorem Yields.moved {x : Tracked σ α} (yields : Yields P Q x s) (moves : Moves rel x s) :
    Yields (fun a s' => P a s' ∧ rel s s') (fun e s' => Q e s' ∧ rel s s') x s :=
  ⟨fun a s' ran => ⟨yields.1 a s' ran, moves.of_ok ran⟩,
    fun e s' failed => ⟨yields.2 e s' failed, moves.of_error failed⟩⟩

theorem Moves.yields {x : Tracked σ α} (moves : Moves rel x s) :
    Yields (fun _ s' => rel s s') (fun _ s' => rel s s') x s :=
  ⟨fun _ _ ran => moves.of_ok ran, fun _ _ failed => moves.of_error failed⟩

theorem Yields.moves {x : Tracked σ α} (yields : Yields (fun _ s' => rel s s') (fun _ s' => rel s s') x s) :
    Moves rel x s := by
  rcases yields.cases with ⟨a, s', ran, h⟩ | ⟨e, s', failed, h⟩
  · rwa [Moves, ran]
  · rwa [Moves, failed]

theorem Yields.imp {P' : α → σ → Prop} {Q' : Error → σ → Prop} {x : Tracked σ α} (yields : Yields P Q x s)
    (ends : ∀ a s', P a s' → P' a s') (failures : ∀ e s', Q e s' → Q' e s') : Yields P' Q' x s :=
  ⟨fun a s' ran => ends a s' (yields.1 a s' ran), fun e s' failed => failures e s' (yields.2 e s' failed)⟩

theorem yields_pure {a : α} (h : P a s) : Yields P Q (pure a : Tracked σ α) s := ⟨gives_pure h, fails_pure a⟩

theorem yields_bind {x : Tracked σ β} {f : β → Tracked σ α} (first : Fails Q x s)
    (later : ∀ b s', x s = .ok b s' → Yields P Q (f b) s') : Yields P Q (x >>= f) s :=
  ⟨gives_bind fun b s' ran => (later b s' ran).1, fails_bind first fun b s' ran => (later b s' ran).2⟩

/-- A computation of which the result is known. -/
theorem yields_bind_of_ok {x : Tracked σ β} {f : β → Tracked σ α} {b : β} {s' : σ} (ran : x s = .ok b s')
    (later : Yields P Q (f b) s') : Yields P Q (x >>= f) s := by
  have same := bind_of_ok (f := f) ran
  exact ⟨fun a t ok => later.1 a t (same.symm.trans ok), fun e t failed => later.2 e t (same.symm.trans failed)⟩

theorem yields_get_bind {f : σ → Tracked σ α} (later : Yields P Q (f s) s) : Yields P Q (get >>= f) s := later

theorem yields_lift_bind {x : Except Error β} {f : β → Tracked σ α} {b : β} (taken : x = .ok b)
    (later : Yields P Q (f b) s) : Yields P Q (liftM x >>= f) s := by
  rw [taken]
  exact later

theorem yields_lift {x : Except Error α} {a : α} (taken : x = .ok a) (h : P a s) :
    Yields P Q (liftM x : Tracked σ α) s := by
  rw [taken]
  exact yields_pure h

theorem yields_of_ok {x : Tracked σ α} {a : α} {s' : σ} (ran : x s = .ok a s') (h : P a s') : Yields P Q x s := by
  refine ⟨fun b t again => ?_, fails_of_ok ran⟩
  obtain ⟨rfl, rfl⟩ := EStateM.Result.ok.inj (ran.symm.trans again)
  exact h

theorem yields_of_error {x : Tracked σ α} {e : Error} {s' : σ} (failed : x s = .error e s') (h : Q e s') :
    Yields P Q x s := by
  refine ⟨fun a t ok => ?_, fun e' t again => ?_⟩
  · cases failed.symm.trans ok
  · obtain ⟨rfl, rfl⟩ := EStateM.Result.error.inj (failed.symm.trans again)
    exact h

/-- A value from outside the state that may not be there. -/
theorem yields_asked_bind {x : Except Error β} {f : β → Tracked σ α} (refused : ∀ e, x = .error e → Q e s)
    (later : ∀ b, x = .ok b → Yields P Q (f b) s) : Yields P Q (liftM x >>= f) s := by
  cases x with
  | ok b => exact later b rfl
  | error e => exact yields_of_error rfl (refused e rfl)

theorem yields_throw {e : Error} (h : Q e s) : Yields P Q (throw e : Tracked σ α) s := yields_of_error rfl h

theorem yields_map {P : β → σ → Prop} {x : Tracked σ α} {f : α → β} (yields : Yields (fun a => P (f a)) Q x s) :
    Yields P Q (f <$> x) s := by
  rcases yields.cases with ⟨a, s', ran, h⟩ | ⟨e, s', failed, h⟩
  · exact yields_of_ok (map_eq_ok_iff.mpr ⟨a, ran, rfl⟩) h
  · have mapped : (f <$> x) s = .error e s' := by simp only [Functor.map, EStateM.map, failed]
    exact yields_of_error mapped h

/-- A computation whose failures are handled. -/
theorem yields_tryCatch {R : Error → σ → Prop} {x : Tracked σ α} {f : Error → Tracked σ α}
    (first : Yields P R x s) (handled : ∀ e s', R e s' → Yields P Q (f e) s') :
    Yields P Q (tryCatch x f) s := by
  rcases first.cases with ⟨a, s', ran, h⟩ | ⟨e, s', failed, left⟩
  · exact yields_of_ok (tryCatch_of_ok ran) h
  · have same := tryCatch_of_error (f := f) failed
    have onward := handled e s' left
    exact ⟨fun b t ok => onward.1 b t (same.symm.trans ok), fun e' t again => onward.2 e' t (same.symm.trans again)⟩

end WeakSubscription.Tracked
