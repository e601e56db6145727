import WeakSubscription.Proofs.Weaving.Growth

/-!
# Code that is made again

Making code for an accessor interns what the code refers to, and asks the module for the method, the field and the
local. All of this is found again in whatever the module has become, so that the same code is made there, and
nothing is added for it.
-/

open WeakSubscription.Module

namespace WeakSubscription

open Tracked

variable {α β : Type} {m m' m₁ : Module} {t : Token} {refs : HelperRefs}

/-! ### What growth retains -/

/-- Where the method that is touched was not there, nothing that was there has changed. -/
theorem Module.Evolves.retained_of_free (evolves : Evolves (· = t) m m') (free : ∀ row, m.method t ≠ .ok row) :
    Retained m m' := by
  refine ⟨evolves.grows, @fun u row found => ?_⟩
  have other : u ≠ t := by
    rintro rfl
    exact free row found
  exact ⟨row, (evolves.keeps other).row found, .refl row⟩

theorem retained_addUnsubscribe (event : Event) (m : Module) : Moves Retained event.addUnsubscribe m := by
  have same : Retained m m := Std.Refl.refl m
  apply Yields.moves
  apply yields_get_bind
  dsimp only
  split
  · exact yields_asked_bind (fun _ _ => same) fun _ _ => yields_throw same
  refine yields_bind (fun e m₁ failed => ?_) fun method m₁ declared => ?_
  · rwa [(performs_addMethod _ m).2 e m₁ failed]
  obtain ⟨-, -, free⟩ := addMethod_gives _ m _ _ declared
  have adds : Evolves (· = method) m m₁ := (moves_addMethod _ m).of_ok declared
  -- behind its declaration only the new method is touched, also when it is taken back
  have implements : Moves (Evolves (· = method)) (event.implementUnsubscribe method) m₁ :=
    moves_implementUnsubscribe event (fun code m₂ => moves_insertCode method code 0 m₂) m₁
  have behind : Moves (Evolves (· = method)) (do
      tryCatch (event.implementUnsubscribe method) fun e => do
        let _ ← rollbackMethod method
        throw e
      return method : Edit Token) m₁ := by
    refine moves_bind (moves_tryCatch implements fun e m₂ => ?_) fun _ _ _ => moves_pure _
    exact moves_bind (moves_rollbackMethod method m₂) fun _ _ _ => moves_throw e
  exact behind.yields.imp (fun _ _ later => (trans_of _ adds later).retained_of_free free)
    fun _ _ later => (trans_of _ adds later).retained_of_free free

theorem Addition.retained (a : Addition) (m : Module) : Retained m (a.apply m) := by
  by_cases adds : ∃ event, a = addUnsubscribe event
  · obtain ⟨event, rfl⟩ := adds
    exact moves_map (retained_addUnsubscribe event m)
  · exact ((a.within (not_exists.mp adds) m).imp fun _ within => within.adds).retained

theorem retained_of_additions (additions : List Addition) (m : Module) :
    Retained m (additions.foldl (fun m a => a.apply m) m) := by
  induction additions generalizing m with
  | nil => exact Std.Refl.refl m
  | cons a rest ih => exact trans_of Retained (a.retained m) (ih (a.apply m))

/-! ### Repeatable computations -/

/-- What is read here is read in all that the module may become. -/
def Stays (read : Module → Except Error α) (m : Module) : Prop :=
  ∀ a, read m = .ok a → ∀ m', Retained m m' → read m' = .ok a

/-- What the computation gives, it gives again in all that the module may become behind it, and changes nothing. -/
def Repeatable (x : Edit α) (m : Module) : Prop :=
  Gives (fun a m₁ => Retained m m₁ ∧ ∀ m₂, Retained m₁ m₂ → x m₂ = .ok a m₂) x m

theorem repeatable_pure (a : α) : Repeatable (pure a) m := gives_pure ⟨Std.Refl.refl m, fun _ _ => rfl⟩

theorem repeatable_throw (e : Error) : Repeatable (throw e : Edit α) m := gives_throw e

theorem repeatable_bind {x : Edit α} {f : α → Edit β} (first : Repeatable x m)
    (later : ∀ a m', x m = .ok a m' → Repeatable (f a) m') : Repeatable (x >>= f) m := by
  intro b m₂ ran
  obtain ⟨a, m₁, ran₁, ran₂⟩ := bind_eq_ok_iff.mp ran
  obtain ⟨kept₁, again₁⟩ := first a m₁ ran₁
  obtain ⟨kept₂, again₂⟩ := later a m₁ ran₁ b m₂ ran₂
  refine ⟨trans_of Retained kept₁ kept₂, fun m₃ kept₃ => ?_⟩
  exact bind_eq_ok_iff.mpr ⟨a, m₃, again₁ m₃ (trans_of Retained kept₂ kept₃), again₂ m₃ kept₃⟩

theorem repeatable_lift_bind {x : Except Error α} {f : α → Edit β} (later : ∀ a, x = .ok a → Repeatable (f a) m) :
    Repeatable (liftM x >>= f) m := by
  cases x with
  | ok a => exact later a rfl
  | error e => exact gives_throw_bind e f

theorem repeatable_read {read : Module → Except Error α} (stays : Stays read m) :
    Repeatable (get >>= fun m => liftM (read m)) m := by
  intro a m₁ ran
  obtain ⟨here, rfl⟩ := lift_eq_ok_iff.mp ran
  exact ⟨Std.Refl.refl _, fun m₂ kept => lift_eq_ok_iff.mpr ⟨stays a here m₂ kept, rfl⟩⟩

theorem repeatable_read_bind {read : Module → Except Error α} {f : α → Edit β} (stays : Stays read m)
    (later : ∀ a, read m = .ok a → Repeatable (f a) m) :
    Repeatable (get >>= fun m => liftM (read m) >>= f) m := by
  show Repeatable ((get >>= fun m => liftM (read m)) >>= f) m
  refine repeatable_bind (repeatable_read stays) fun a m' ran => ?_
  obtain ⟨here, rfl⟩ := lift_eq_ok_iff.mp ran
  exact later a here

/-! ### Interning -/

namespace Module

theorem addMethodSpec_repeatable (method : Token) (args : List Ty) (m : Module) :
    Repeatable (addMethodSpec method args) m := by
  intro t m₁ ran
  have kept := (evolves_of_ok (moves_addMethodSpec method args m) ran).retained
  obtain ⟨ref, row, known, arity, found, rfl⟩ := addMethodSpec_finds method args m t m₁ ran
  refine ⟨kept, fun m₂ later => ?_⟩
  exact addMethodSpec_of_row (later.grows.memberRef known) arity (later.grows.methodSpecs.find?_eq_some found)

theorem addMemberRef_repeatable (parent : Ty) (name : String) (signature : Signature) (m : Module) :
    Repeatable (addMemberRef parent name signature) m := by
  intro t m₁ ran
  have kept := (evolves_of_ok (moves_addMemberRef parent name signature m) ran).retained
  obtain ⟨row, found, rfl⟩ := addMemberRef_finds parent name signature m t m₁ ran
  exact ⟨kept, fun m₂ later => addMemberRef_of_row (later.grows.memberRefs.find?_eq_some found)⟩

end Module

/-! ### Readings -/

namespace Site

variable {site : Site}

theorem ofMethod_stays (method : Token) (m : Module) : Stays (Site.ofMethod · method) m := by
  intro site made m' kept
  obtain ⟨row, found, built⟩ := except_bind_eq_ok_iff.mp made
  obtain ⟨row', found', grows⟩ := kept.methods found
  refine except_bind_eq_ok_iff.mpr ⟨row', found', ?_⟩
  rw [← built, grows.1]
  rfl

theorem loadField_stays (field : Token) (m : Module) : Stays (site.loadField · field) m := by
  intro f loaded m' kept
  obtain ⟨row, found, built⟩ := except_bind_eq_ok_iff.mp loaded
  exact except_bind_eq_ok_iff.mpr ⟨row, kept.grows.field found, built⟩

theorem newDelegate_stays (constructor method : Token) (m : Module) :
    Stays (site.newDelegate · constructor method) m := by
  intro f made m' kept
  obtain ⟨row, found, rest⟩ := except_bind_eq_ok_iff.mp made
  obtain ⟨row', found', grows⟩ := kept.methods found
  have kind : row'.isStatic = row.isStatic := by
    rw [grows.1]
    rfl
  refine except_bind_eq_ok_iff.mpr ⟨row', found', ?_⟩
  dsimp only at rest ⊢
  rw [kind]
  by_cases static : row.isStatic = true
  all_goals
    simp only [static, if_true] at rest ⊢
    obtain ⟨target, chosen, rest⟩ := except_bind_eq_ok_iff.mp rest
    obtain ⟨created, calls, built⟩ := except_bind_eq_ok_iff.mp rest
    refine except_bind_eq_ok_iff.mpr ⟨target, chosen, ?_⟩
    exact except_bind_eq_ok_iff.mpr ⟨created, kept.callTarget calls, built⟩

theorem localIndex_stays (v : Variable) (m : Module) : Stays (site.localIndex · v) m := by
  intro i chosen m' kept
  obtain ⟨row, found, tested⟩ := except_bind_eq_ok_iff.mp chosen
  obtain ⟨row', found', grows⟩ := kept.methods found
  refine except_bind_eq_ok_iff.mpr ⟨row', found', ?_⟩
  split at tested
  · rename_i inside
    rw [if_pos ⟨Nat.lt_of_lt_of_le inside.1 grows.2.length_le, inside.2⟩]
    exact tested
  · cases tested

theorem storeLocal_stays (v : Variable) (f : Fragment) (m : Module) : Stays (site.storeLocal · v f) m := by
  intro code stored m' kept
  obtain ⟨i, chosen, built⟩ := except_bind_eq_ok_iff.mp stored
  exact except_bind_eq_ok_iff.mpr ⟨i, localIndex_stays v m i chosen m' kept, built⟩

end Site

/-! ### Fragments -/

theorem Fragment.convert_repeatable (f : Fragment) (target : Ty) (m : Module) :
    Repeatable (f.convert refs target) m :=
  repeatable_bind (addMethodSpec_repeatable _ _ m) fun _ _ _ => repeatable_pure _

theorem Fragment.instantiateHelper_repeatable (helper : Token) (closed : Ty) (m : Module) :
    Repeatable (instantiateHelper helper closed) m := by
  unfold instantiateHelper
  split
  · exact addMethodSpec_repeatable _ _ m
  · exact repeatable_throw _

theorem converted_repeatable (event : Event) (f : Fragment) (target : Ty) (m : Module) :
    Repeatable (event.converted f target) m := by
  unfold Event.converted
  split
  · exact repeatable_pure f
  · exact f.convert_repeatable target m

theorem HelperRefs.closeActionConstructor_repeatable (closed : Ty) (m : Module) :
    Repeatable (refs.closeActionConstructor closed) m := by
  refine repeatable_read_bind (fun ref known m' kept => kept.grows.memberRef known) fun ref _ => ?_
  split
  · exact addMemberRef_repeatable _ _ _ m
  · exact repeatable_throw _

/-! ### What is interned -/

/-- The second module is the first one with more instantiations. -/
structure Module.Instantiated (m m' : Module) : Prop where
  same : m' = { m with methodSpecs := m'.methodSpecs }
  methodSpecs : m.methodSpecs <+: m'.methodSpecs

instance : Std.Refl Instantiated where
  refl _ := ⟨rfl, List.prefix_refl _⟩

instance : IsTrans Module Instantiated where
  trans _ _ _ first later := by
    refine ⟨?_, first.methodSpecs.trans later.methodSpecs⟩
    rw [later.same, first.same]

instance : Instantiates Instantiated where
  methodSpec method args m := by
    apply (performs_addMethodSpec method args m).moves
    intro m' effect
    cases effect with
    | found => exact Std.Refl.refl m
    | addMethodSpec => exact ⟨rfl, List.prefix_append _ _⟩

/-- The second module is the first one with at most one more reference. -/
def Module.RefersOnce (m m' : Module) : Prop :=
  ∃ more, more.length ≤ 1 ∧ m' = { m with memberRefs := m.memberRefs ++ more }

instance : Std.Refl RefersOnce where
  refl m := ⟨[], Nat.zero_le 1, by rw [List.append_nil]⟩

instance : References RefersOnce where
  memberRef parent name signature m := by
    apply (performs_addMemberRef parent name signature m).moves
    intro m' effect
    cases effect with
    | found => exact Std.Refl.refl m
    | addMemberRef => exact ⟨[_], Nat.le_refl 1, rfl⟩

/-- Besides instantiations, the code for an adding accessor needs the constructor of its callback. -/
theorem makeWeakCode_interns (event : Event) (method unsubscribe : Token) (v : Variable) (m : Module) :
    ∃ m₁, RefersOnce m m₁ ∧ Instantiated m₁ (endState (event.makeWeakCode method unsubscribe v m)) := by
  have closes : Moves RefersOnce (event.refs.closeActionConstructor event.closed) m :=
    event.refs.moves_closeActionConstructor event.closed m
  unfold Event.makeWeakCode
  cases ran : event.refs.closeActionConstructor event.closed m with
  | error e m₁ =>
    rw [bind_of_error ran]
    exact ⟨m₁, closes.of_error ran, Std.Refl.refl m₁⟩
  | ok constructor m₁ =>
    rw [bind_of_ok ran]
    refine ⟨m₁, closes.of_ok ran, ?_⟩
    apply moves_get_bind
    refine moves_lift_bind fun site _ => moves_get_bind (moves_lift_bind fun callback _ => ?_)
    refine moves_lift_bind fun first _ => moves_bind (moves_converted _ _ _ _) fun handler m₂ _ => ?_
    refine moves_bind (Fragment.moves_makeWeak _ _ _ _) fun weak m₃ _ => ?_
    exact moves_bind (moves_converted _ _ _ _) fun stored m₄ _ => moves_get_bind (moves_lift _)

/-! ### The code for the accessors -/

theorem findWeakCode_repeatable (event : Event) (method : Token) (v : Variable) (m : Module) :
    Repeatable (event.findWeakCode method v) m := by
  refine repeatable_read_bind (Site.ofMethod_stays method m) fun site _ => repeatable_lift_bind fun first _ => ?_
  refine repeatable_bind (converted_repeatable event first event.closed m) fun handler m₁ _ => ?_
  refine repeatable_read_bind (Site.loadField_stays event.field m₁) fun source _ => ?_
  refine repeatable_bind (repeatable_bind (Fragment.instantiateHelper_repeatable _ _ m₁) fun _ _ _ =>
    repeatable_pure _) fun found m₂ _ => ?_
  refine repeatable_bind (converted_repeatable event found event.handler m₂) fun stored m₃ _ => ?_
  exact repeatable_read (Site.storeLocal_stays v stored m₃)

theorem makeWeakCode_repeatable (event : Event) (method unsubscribe : Token) (v : Variable) (m : Module) :
    Repeatable (event.makeWeakCode method unsubscribe v) m := by
  refine repeatable_bind (HelperRefs.closeActionConstructor_repeatable _ m) fun constructor m₁ _ => ?_
  refine repeatable_read_bind (Site.ofMethod_stays method m₁) fun site _ => ?_
  refine repeatable_read_bind (Site.newDelegate_stays constructor unsubscribe m₁) fun callback _ => ?_
  refine repeatable_lift_bind fun first _ => ?_
  refine repeatable_bind (converted_repeatable event first event.closed m₁) fun handler m₂ _ => ?_
  refine repeatable_bind (repeatable_bind (Fragment.instantiateHelper_repeatable _ _ m₂) fun _ _ _ =>
    repeatable_pure _) fun weak m₃ _ => ?_
  refine repeatable_bind (converted_repeatable event weak event.handler m₃) fun stored m₄ _ => ?_
  exact repeatable_read (Site.storeLocal_stays v stored m₄)

/-- What making code does to a module, and what it does when it is repeated behind any additions to it. -/
structure Interning (x : Edit Code) (interned : Module → Module → Prop) (m : Module) : Prop where
  interns : interned m (endState (x m))
  repeats : ∀ code m₁, x m = .ok code m₁ → ∀ additions : List Addition,
    x (additions.foldl (fun m a => a.apply m) m₁) = .ok code (additions.foldl (fun m a => a.apply m) m₁)

/-- Code for an accessor only interns, also where it is not made, and once made it is there for good. -/
theorem accessorCode_repeatable (event : Event) (method unsubscribe : Token) (v : Variable) (m : Module) :
    Interning (event.findWeakCode method v) Instantiated m ∧
      Interning (event.makeWeakCode method unsubscribe v)
        (fun m m' => ∃ m₁, RefersOnce m m₁ ∧ Instantiated m₁ m') m := by
  refine ⟨⟨moves_findWeakCode event method v m, ?_⟩, ⟨makeWeakCode_interns event method unsubscribe v m, ?_⟩⟩
  · intro code m₁ made additions
    obtain ⟨-, again⟩ := findWeakCode_repeatable event method v m code m₁ made
    exact again _ (retained_of_additions additions m₁)
  · intro code m₁ made additions
    obtain ⟨-, again⟩ := makeWeakCode_repeatable event method unsubscribe v m code m₁ made
    exact again _ (retained_of_additions additions m₁)

namespace Ticker

/-- The module of the ticker with an unsubscribing method and a variable. -/
def readied : Module :=
  endState (Ticker.event.event.addVariable Ticker.event.add (endState (Ticker.event.event.addUnsubscribe declared)))

def wrapping : Edit Code :=
  Ticker.event.event.makeWeakCode Ticker.event.add Ticker.event.unsubscribe ⟨0, .named .eventHandler⟩

/-- Whoever makes the code again finds all of it there, though the module has gained methods and a type since. -/
theorem ticker_code_repeatable :
    ∃ code m₁, wrapping readied = .ok code m₁ ∧ m₁ ≠ readied ∧ additions.foldl (fun m a => a.apply m) m₁ ≠ m₁ ∧
      wrapping (additions.foldl (fun m a => a.apply m) m₁) = .ok code (additions.foldl (fun m a => a.apply m) m₁) := by
  have succeeds : (value? (wrapping readied)).isSome = true := by decide +kernel
  have changed : endState (wrapping readied) ≠ readied := by decide +kernel
  have grew : additions.foldl (fun m a => a.apply m) (endState (wrapping readied)) ≠ endState (wrapping readied) := by
    decide +kernel
  obtain ⟨code, valued⟩ := Option.isSome_iff_exists.mp succeeds
  have ran := eq_ok_of_value? valued
  obtain ⟨-, makes⟩ := accessorCode_repeatable Ticker.event.event Ticker.event.add Ticker.event.unsubscribe
    ⟨0, .named .eventHandler⟩ readied
  exact ⟨code, _, ran, changed, grew, makes.repeats code _ ran additions⟩

end Ticker

end WeakSubscription
