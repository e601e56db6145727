import WeakSubscription.Proofs.Weaving.Verified

/-!
# What woven code computes

The code of a fragment does to a frame and a machine what a computation of one value says, and it fails where the
computation fails. So the code that is made for an event is read as an expression over the event's operations on
delegates, for every argument and every value of the field.
-/

open WeakSubscription.Module

namespace WeakSubscription

open Execution Tracked

variable {event : Event} {c : Context} {refs : HelperRefs} {m m' m₁ : Module} {f g k : Fragment} {code : Code}
  {x y : Run Value} {s : Machine} {v : Value} {p : Option ObjectRef} {h a : Value} {site : Site}
  {field method t : Token} {row : Method} {fieldRow : Field} {ty : Ty}

/-- Running the fragment is this computation, with its value pushed onto the stack. -/
def Means (c : Context) (f : Fragment) (x : Run Value) : Prop :=
  ∀ stack, runSteps c.program c.caller f.code (c.frame stack) = do
    let v ← x
    return c.frame (v :: stack)

theorem means_of_computes (computes : ∀ s, Computes c f s v s) : Means c f (pure v) := by
  intro stack
  funext s
  exact (computes s stack).ran

/-! ### Fields and locals -/

theorem Site.loadField_means (loaded : site.loadField m field = .ok f) (found : m.field field = .ok fieldRow)
    (kind : fieldRow.isStatic = p.isNone) (serves : c.Serves site p h) :
    Means c f (do liftM ((← get).fieldValue c.program.module field p)) := by
  intro stack
  obtain ⟨fieldRow', found', built⟩ := except_bind_eq_ok_iff.mp loaded
  obtain rfl : fieldRow = fieldRow' := Except.ok.inj (found.symm.trans found')
  cases p with
  | none =>
    rw [Option.isNone_none] at kind
    simp only [kind, if_true] at built
    obtain rfl := Except.ok.inj built
    rw [runSteps_singleton]
    exact step_ldsfld
  | some r =>
    rw [Option.isNone_some] at kind
    simp only [kind, Bool.false_eq_true, if_false] at built
    obtain ⟨-, -, last⟩ := except_bind_eq_ok_iff.mp built
    obtain rfl := Except.ok.inj last
    funext s
    have this : Leads c.program c.caller [.loadArg 0] (c.frame stack) s (c.frame (.object r :: stack)) s :=
      leads_loadArg serves.this
    show runSteps c.program c.caller ([.loadArg 0] ++ [.onToken .ldfld field]) (c.frame stack) s = _
    rw [runSteps_append_of_ok _ this.ran, runSteps_singleton]
    exact congrFun step_ldfld s

theorem Site.storeLocal_means {w : Variable} (stored : site.storeLocal m w f = .ok code) (means : Means c f x)
    (inside : w.index < c.locals.length) (stack : List Value) :
    runSteps c.program c.caller code (c.frame stack) = do
      let v ← x
      return ({ c with locals := c.locals.set w.index v } : Context).frame stack := by
  obtain ⟨i, found, built⟩ := except_bind_eq_ok_iff.mp stored
  obtain rfl := Except.ok.inj built
  rw [← Site.localIndex_ok found] at inside ⊢
  rw [runSteps_append, means, bind_assoc]
  refine bind_congr fun v => ?_
  rw [pure_bind]
  funext s
  exact (leads_storeLocal inside).ran

theorem Site.storeField_means (stored : site.storeField m field f = .ok code)
    (found : m.field field = .ok fieldRow) (kind : fieldRow.isStatic = p.isNone) (serves : c.Serves site p h)
    (means : Means c f x) (stack : List Value) :
    runSteps c.program c.caller code (c.frame stack) = do
      let v ← x
      Machine.setField c.program.module field p v
      return c.frame stack := by
  obtain ⟨fieldRow', found', built⟩ := except_bind_eq_ok_iff.mp stored
  obtain rfl : fieldRow = fieldRow' := Except.ok.inj (found.symm.trans found')
  cases p with
  | none =>
    rw [Option.isNone_none] at kind
    simp only [kind, if_true] at built
    obtain rfl := Except.ok.inj built
    rw [runSteps_append, means, bind_assoc]
    refine bind_congr fun v => ?_
    rw [pure_bind, runSteps_singleton]
    exact step_stsfld
  | some r =>
    rw [Option.isNone_some] at kind
    simp only [kind, Bool.false_eq_true, if_false] at built
    obtain ⟨-, -, last⟩ := except_bind_eq_ok_iff.mp built
    obtain rfl := Except.ok.inj last
    funext s
    have this : Leads c.program c.caller [.loadArg 0] (c.frame stack) s (c.frame (.object r :: stack)) s :=
      leads_loadArg serves.this
    show runSteps c.program c.caller ([.loadArg 0] ++ (f.code ++ [.onToken .stfld field])) (c.frame stack) s = _
    rw [runSteps_append_of_ok _ this.ran, runSteps_append, means, bind_assoc]
    refine congrFun (bind_congr fun v => ?_) s
    rw [pure_bind, runSteps_singleton]
    exact step_stfld

/-! ### Calls of helpers -/

namespace Fragment

variable {helper : Token} {methodArgs : List Ty}

theorem calling_means_one {h : Helper} (ty : Ty) (means : Means c f x)
    (calls : CallsHelper c.program.module c.program.helperNamespace helper h methodArgs)
    (static : h.signature.hasThis = false) (count : 1 = h.signature.params.length) :
    Means c (calling helper [f] ty) (do
      callHelper h (c.program.module.displayName helper) (h.signature.result.instantiate [] methodArgs) [← x]) := by
  intro stack
  have code : (calling helper [f] ty).code = f.code ++ [.onToken .call helper] := by
    simp only [calling, List.flatMap_cons, List.flatMap_nil, List.append_nil]
  rw [code, runSteps_append, means, bind_assoc, bind_assoc]
  refine bind_congr fun v => ?_
  rw [pure_bind, runSteps_singleton]
  have called : step c.program c.caller (.onToken .call helper) ⟨c.args, c.locals, [v].reverse ++ stack⟩ = _ :=
    step_callHelper calls static count
  exact called

theorem calling_means_two {h : Helper} (ty : Ty) (first : Means c f x) (second : Means c g y)
    (calls : CallsHelper c.program.module c.program.helperNamespace helper h methodArgs)
    (static : h.signature.hasThis = false) (count : 2 = h.signature.params.length) :
    Means c (calling helper [f, g] ty) (do
      callHelper h (c.program.module.displayName helper) (h.signature.result.instantiate [] methodArgs)
        [← x, ← y]) := by
  intro stack
  have code : (calling helper [f, g] ty).code = f.code ++ (g.code ++ [.onToken .call helper]) := by
    simp only [calling, List.flatMap_cons, List.flatMap_nil, List.append_nil, List.append_assoc]
  rw [code, runSteps_append, first, bind_assoc, bind_assoc]
  refine bind_congr fun v => ?_
  rw [pure_bind, runSteps_append, second, bind_assoc, bind_assoc]
  refine bind_congr fun w => ?_
  rw [pure_bind, runSteps_singleton]
  have called : step c.program c.caller (.onToken .call helper) ⟨c.args, c.locals, [v, w].reverse ++ stack⟩ = _ :=
    step_callHelper calls static count
  exact called

theorem convert_means (f : Fragment) (target : Ty) (placed : m.Placed) (names : refs.Name m) :
    Gives (fun g m' => ∀ {c : Context} {x : Run Value}, c.Over refs m' → Means c f x →
      Means c g (do liftM (Delegate.changeType (← x) target))) (f.convert refs target) m := by
  refine gives_bind fun helper m' made => gives_pure ?_
  intro c x upon means
  have spec := Module.addMethodSpec_gives _ _ placed _ _ made
  have grows := (Module.evolves_of_ok (Module.moves_addMethodSpec _ _ m) made).grows
  have calls := callsHelper_of_spec (h := .changeType) (names.grow grows) upon (by decide) spec
  exact calling_means_one target means calls rfl rfl

theorem findWeak_means (a : Ty) (f g : Fragment) (placed : m.Placed) (names : refs.Name m) :
    Gives (fun k m' => ∀ {c : Context} {x y : Run Value}, c.Over refs m' → Means c f x → Means c g y →
      Means c k (do liftM (Delegate.findWeak (← x) (← y) (Ty.closedHandler a))))
      (findWeak refs (Ty.closedHandler a) f g) m := by
  refine gives_bind fun helper m' made => gives_pure ?_
  intro c x y upon first second
  have spec := instantiateHelper_gives _ _ placed _ _ made
  have grows := (Module.evolves_of_ok (moves_instantiateHelper _ _ m) made).grows
  have calls := callsHelper_of_spec (h := .findWeak) (names.grow grows) upon nofun spec
  exact calling_means_two _ first second calls rfl rfl

theorem makeWeak_means (a : Ty) (f g : Fragment) (placed : m.Placed) (names : refs.Name m) :
    Gives (fun k m' => ∀ {c : Context} {x y : Run Value}, c.Over refs m' → Means c f x → Means c g y →
      Means c k (do
        let v ← x
        let w ← y
        let (u, last) ← liftM (Delegate.makeWeak v w (Ty.closedHandler a) (← get).lastWeakId)
        modify fun s => { s with lastWeakId := last }
        return u))
      (makeWeak refs (Ty.closedHandler a) f g) m := by
  refine gives_bind fun helper m' made => gives_pure ?_
  intro c x y upon first second
  have spec := instantiateHelper_gives _ _ placed _ _ made
  have grows := (Module.evolves_of_ok (moves_instantiateHelper _ _ m) made).grows
  have calls := callsHelper_of_spec (h := .makeWeak) (names.grow grows) upon nofun spec
  exact calling_means_two _ first second calls rfl rfl

theorem remove_means (f g : Fragment) (placed : m.Placed) (names : refs.Name m) :
    Gives (fun k m' => ∀ {c : Context} {x y : Run Value}, c.Over refs m' → Means c f x → Means c g y →
      Means c k (do
        let u ← liftM (Delegate.remove (← x) (← y))
        liftM (cast (← get) u f.ty)))
      (remove refs f g) m := by
  refine gives_bind fun castToken m' imported => gives_pure ?_
  intro c x y upon first second stack
  have resolved := upon.grows.resolveType (Module.importType_gives _ placed _ _ imported)
  have grows := (Module.evolves_of_ok (Module.moves_importType _ m) imported).grows
  have calls := callsHelper_of_name (h := .remove) (names.grow grows) upon nofun
  have removes := calling_means_two f.ty first second calls rfl rfl
  show runSteps c.program c.caller ((calling (refs.token .remove) [f, g] f.ty).code ++
    [.onToken .castclass castToken]) (c.frame stack) = _
  rw [runSteps_append, removes]
  simp only [bind_assoc, pure_bind]
  refine bind_congr fun v => bind_congr fun w => ?_
  show (liftM (Delegate.remove v w) >>= _ : Run Activation) = _
  refine bind_congr fun u => ?_
  rw [runSteps_singleton]
  exact step_castclass resolved

end Fragment

/-! ### Conversions -/

/-- The value as a delegate of the type, unless the event needs no conversions. -/
def Event.convertTo (event : Event) (target : Ty) (v : Value) : Except Error Value :=
  if event.isGeneric then .ok v else Delegate.changeType v target

/-- A value of the field's type as the weak event helpers take it. -/
def Event.incoming (event : Event) (v : Value) : Except Error Value := event.convertTo event.closed v

/-- A value of the weak event helpers as the field takes it. -/
def Event.outgoing (event : Event) (v : Value) : Except Error Value := event.convertTo event.handler v

theorem converted_means (f : Fragment) (target : Ty) (placed : m.Placed) (names : event.refs.Name m) :
    Gives (fun g m' => ∀ {c : Context} {x : Run Value}, c.Over event.refs m' → Means c f x →
      Means c g (do liftM (event.convertTo target (← x)))) (event.converted f target) m := by
  unfold Event.converted Event.convertTo
  split
  · refine gives_pure ?_
    intro c x _ means
    have same : (do liftM (Except.ok (← x) : Except Error Value) : Run Value) = x := bind_pure x
    rw [same]
    exact means
  · exact Fragment.convert_means f target placed names

/-! ### Code in a call -/

/-- Null, or a delegate of the type. -/
def Value.IsOf (v : Value) (t : Ty) : Prop := v = .null ∨ ∃ d, v = .delegate d ∧ d.type.SameName t

/-- The context is a call of a method of the event on an argument, for a publisher that is there and whose field
has a value of its type. -/
structure Event.Runs (event : Event) (c : Context) (s : Machine) (p : Option ObjectRef) (a f : Value) : Prop where
  helperNamespace : c.program.helperNamespace = event.refs.helperNamespace
  kind : event.isStatic = p.isNone
  args : c.args = p.toList.map .object ++ [a]
  holds : s.Holds p
  field : s.fieldValue c.program.module event.field p = .ok f
  fits : f.IsOf event.handler

def Context.withLocal (c : Context) (var : Variable) (v : Value) : Context :=
  { c with locals := c.locals.set var.index v }

/-- What the finding code comes to: the wrapper of the argument in the field. -/
def Event.found (event : Event) (f a : Value) : Except Error Value := do
  event.outgoing (← Delegate.findWeak f (← event.incoming a) event.closed)

/-- What the wrapping code comes to, with the last number of a wrapper: the argument made weak, with the
unsubscribing method of the publisher as the callback. -/
def Event.wrapped (event : Event) (unsubscribe : Token) (p : Option ObjectRef) (a : Value) (last : UInt32) :
    Except Error (Value × UInt32) := do
  let callback := Value.delegate (event.callback unsubscribe p)
  let (w, last) ← Delegate.makeWeak (← event.incoming a) callback event.closed last
  return (← event.outgoing w, last)

/-- What the unsubscribing method leaves in the field. -/
def Event.without (event : Event) (f h : Value) : Except Error Value := do
  event.outgoing (← Delegate.remove f (← event.outgoing h))

theorem findWeakCode_means (var : Variable) (placed : m.Placed) (backed : event.Backed m)
    (found : m.method method = .ok row) (kind : row.isStatic = event.isStatic) :
    Gives (fun code m' => ∀ {c : Context} {s : Machine} {p : Option ObjectRef} {a f : Value},
        Grows m' c.program.module → event.Runs c s p a f → var.index < c.locals.length → ∀ stack,
        runSteps c.program c.caller code (c.frame stack) s = (do
          let v ← liftM (event.found f a)
          return (c.withLocal var v).frame stack : Run Activation) s)
      (event.findWeakCode method var) m := by
  obtain ⟨args, isClosed⟩ := backed.closed
  refine gives_get_bind (gives_lift_bind fun site sited => gives_lift_bind fun first loaded => ?_)
  refine gives_bind fun handler m₁ handlerMade => ?_
  have ev₁ := evolves_of_ok (moves_converted _ _ _ _) handlerMade
  have placed₁ := ev₁.placed placed
  have backed₁ := backed.grow ev₁.grows
  refine gives_get_bind (gives_lift_bind fun source sourceLoaded => ?_)
  obtain ⟨fieldRow, fieldFound, -, fieldStatic, -, -⟩ := backed₁.field
  refine gives_bind fun wrapped m₂ wrappedMade => ?_
  have ev₂ := evolves_of_ok (Fragment.moves_findWeak _ _ _ _) wrappedMade
  refine gives_bind fun stored m₃ storedMade => ?_
  have ev₃ := evolves_of_ok (moves_converted _ _ _ _) storedMade
  refine gives_get_bind fun code m' storing => ?_
  obtain ⟨storing, rfl⟩ := lift_eq_ok_iff.mp storing
  intro c s p a f later runs inside stack
  have upon : c.Over event.refs m' := ⟨later, runs.helperNamespace⟩
  have upon₂ := upon.earlier ev₃.grows
  have upon₁ := upon₂.earlier ev₂.grows
  have serves := Context.serves_of_method sited found (kind.trans runs.kind) runs.args
  have argument : Means c first (pure a) := means_of_computes fun s => Site.firstArgument_computes loaded serves
  have incoming := converted_means first _ placed backed.refs handler m₁ handlerMade upon₁ argument
  have read := Site.loadField_means sourceLoaded fieldFound (fieldStatic.trans runs.kind) serves
  rw [isClosed] at wrappedMade
  have finds := Fragment.findWeak_means args source handler placed₁ backed₁.refs wrapped m₂ wrappedMade upon₂ read
    incoming
  rw [← isClosed] at finds
  have outgoing := converted_means wrapped _ (ev₂.placed placed₁) (backed₁.refs.grow ev₂.grows) stored m' storedMade
    upon finds
  rw [Site.storeLocal_means storing outgoing inside]
  simp only [bind_assoc, pure_bind, get_bind, runs.field, lift_ok_bind, Event.found, Event.incoming, Event.outgoing,
    lift_bind]
  rfl

theorem Event.outgoing_makeWeak {v w u : Value} {last last' : UInt32} {closed : Ty} (event : Event)
    (made : Delegate.makeWeak v w closed last = .ok (u, last')) : ∃ u', event.outgoing u = .ok u' := by
  obtain ⟨d, -, h₁⟩ := except_bind_eq_ok_iff.mp made
  cases d with
  | none => cases h₁
  | some d =>
    obtain ⟨e, -, h₂⟩ := except_bind_eq_ok_iff.mp h₁
    cases e with
    | none => cases h₂
    | some e =>
      obtain ⟨rfl, -⟩ := Prod.mk.inj (Except.ok.inj h₂)
      unfold outgoing convertTo
      split
      · exact ⟨_, rfl⟩
      · exact ⟨_, rfl⟩

theorem makeWeakCode_means {unsubscribe : Token} {unsubscribeRow : Method} (var : Variable) (placed : m.Placed)
    (backed : event.Backed m) (found : m.method method = .ok row) (kind : row.isStatic = event.isStatic)
    (declared : m.method unsubscribe = .ok unsubscribeRow)
    (declaredKind : unsubscribeRow.isStatic = event.isStatic) :
    Gives (fun code m' => ∀ {c : Context} {s : Machine} {p : Option ObjectRef} {a f : Value},
        Grows m' c.program.module → event.Runs c s p a f → var.index < c.locals.length → ∀ stack,
        runSteps c.program c.caller code (c.frame stack) s = (do
          let (v, last) ← liftM (event.wrapped unsubscribe p a s.lastWeakId)
          modify fun s => { s with lastWeakId := last }
          return (c.withLocal var v).frame stack : Run Activation) s)
      (event.makeWeakCode method unsubscribe var) m := by
  obtain ⟨args, isClosed⟩ := backed.closed
  refine gives_bind fun constructor m₁ closing => ?_
  have ev₁ := evolves_of_ok (HelperRefs.moves_closeActionConstructor _ _ _) closing
  have placed₁ := ev₁.placed placed
  have backed₁ := backed.grow ev₁.grows
  have closes := HelperRefs.closeActionConstructor_gives _ placed backed.refs _ _ closing
  refine gives_get_bind (gives_lift_bind fun site sited => ?_)
  refine gives_get_bind (gives_lift_bind fun callback callbackMade => ?_)
  refine gives_lift_bind fun first loaded => gives_bind fun handler m₂ handlerMade => ?_
  have ev₂ := evolves_of_ok (moves_converted _ _ _ _) handlerMade
  have placed₂ := ev₂.placed placed₁
  have backed₂ := backed₁.grow ev₂.grows
  refine gives_bind fun weak m₃ weakMade => ?_
  have ev₃ := evolves_of_ok (Fragment.moves_makeWeak _ _ _ _) weakMade
  refine gives_bind fun stored m₄ storedMade => ?_
  have ev₄ := evolves_of_ok (moves_converted _ _ _ _) storedMade
  refine gives_get_bind fun code m' storing => ?_
  obtain ⟨storing, rfl⟩ := lift_eq_ok_iff.mp storing
  intro c s p a f later runs inside stack
  have upon : c.Over event.refs m' := ⟨later, runs.helperNamespace⟩
  have upon₃ := upon.earlier ev₄.grows
  have upon₂ := upon₃.earlier ev₃.grows
  have upon₁ := upon₂.earlier ev₂.grows
  have found₁ := (ev₁.keeps id).row found
  have serves := Context.serves_of_method sited found₁ (kind.trans runs.kind) runs.args
  have makes : Means c callback (pure (.delegate (event.callback unsubscribe p))) :=
    means_of_computes fun s => Site.newDelegate_computes callbackMade ((ev₁.keeps id).row declared)
      (declaredKind.trans runs.kind) serves (upon₁.grows.memberRef closes)
  have argument : Means c first (pure a) := means_of_computes fun s => Site.firstArgument_computes loaded serves
  have incoming := converted_means first _ placed₁ backed₁.refs handler m₂ handlerMade upon₂ argument
  rw [isClosed] at weakMade
  have wraps := Fragment.makeWeak_means args handler callback placed₂ backed₂.refs weak m₃ weakMade upon₃ incoming makes
  rw [← isClosed] at wraps
  have outgoing := converted_means weak _ (ev₃.placed placed₂) (backed₂.refs.grow ev₃.grows) stored m' storedMade
    upon wraps
  rw [Site.storeLocal_means storing outgoing inside]
  simp only [bind_assoc, pure_bind, Event.wrapped, Event.incoming, Event.outgoing, lift_bind]
  cases taken : event.convertTo event.closed a with
  | error e => rfl
  | ok h =>
    rw [lift_ok_bind, lift_ok_bind, get_bind]
    cases wrapped : Delegate.makeWeak h (.delegate (event.callback unsubscribe p)) event.closed s.lastWeakId with
    | error e => rfl
    | ok made =>
      obtain ⟨u, last⟩ := made
      obtain ⟨v, given⟩ := event.outgoing_makeWeak wrapped
      have given : event.convertTo event.handler u = .ok v := given
      simp only [lift_ok_bind, given]
      rfl

/-! ### The unsubscribing method -/

theorem Delegate.remove_isOf {f h u : Value} {t : Ty} (fits : f.IsOf t) (removed : Delegate.remove f h = .ok u) :
    u.IsOf t := by
  rcases fits with rfl | ⟨d, rfl, same⟩
  · obtain rfl := Except.ok.inj removed
    exact .inl rfl
  · obtain ⟨source, isSource, rest⟩ := except_bind_eq_ok_iff.mp removed
    obtain rfl : some d = source := Except.ok.inj isSource
    obtain ⟨operand, -, rest⟩ := except_bind_eq_ok_iff.mp rest
    cases operand with
    | none =>
      obtain rfl := Except.ok.inj rest
      exact .inr ⟨d, rfl, same⟩
    | some e =>
      obtain ⟨-, -, last⟩ := except_bind_eq_ok_iff.mp rest
      split at last
      · rename_i entries _
        obtain rfl := Except.ok.inj last
        cases entries with
        | nil => exact .inl rfl
        | cons e es => exact .inr ⟨⟨d.type, e :: es⟩, rfl, same⟩
      · obtain rfl := Except.ok.inj last
        exact .inr ⟨d, rfl, same⟩

theorem cast_of_isOf {u : Value} {t : Ty} (s : Machine) (fits : u.IsOf t) : cast s u t = .ok u := by
  rcases fits with rfl | ⟨d, rfl, same⟩
  · rfl
  · exact if_pos (.inl same)

theorem unsubscribeCode_means (placed : m.Placed) (backed : event.Backed m) (found : m.method method = .ok row)
    (kind : row.isStatic = event.isStatic) :
    Gives (fun code m' => ∃ pre, code = Code.thenReturn pre ∧
        ∀ {c : Context} {s : Machine} {p : Option ObjectRef} {h f : Value},
          Grows m' c.program.module → event.Runs c s p h f → ∀ stack,
          runSteps c.program c.caller pre (c.frame stack) s = (do
            Machine.setField c.program.module event.field p (← liftM (event.without f h))
            return c.frame stack : Run Activation) s)
      (event.unsubscribeCode method) m := by
  refine gives_get_bind (gives_lift_bind fun site sited => gives_lift_bind fun first loaded => ?_)
  refine gives_bind fun handler m₁ handlerMade => ?_
  have ev₁ := evolves_of_ok (moves_converted _ _ _ _) handlerMade
  have placed₁ := ev₁.placed placed
  have backed₁ := backed.grow ev₁.grows
  refine gives_get_bind (gives_lift_bind fun source sourceLoaded => ?_)
  obtain ⟨fieldRow, fieldFound, fieldTy, fieldStatic, -, -⟩ := backed₁.field
  have sourceTy : source.ty = event.handler := (loadField_ty sourceLoaded fieldFound).trans fieldTy
  refine gives_bind fun removed m₂ removedMade => ?_
  have ev₂ := evolves_of_ok (Fragment.moves_arithmetic _ _ _ _) removedMade
  refine gives_bind fun remaining m₃ remainingMade => ?_
  have ev₃ := evolves_of_ok (moves_converted _ _ _ _) remainingMade
  refine gives_get_bind (gives_lift_bind fun stored storing => gives_pure ⟨stored, rfl, ?_⟩)
  intro c s p h f later runs stack
  have upon : c.Over event.refs m₃ := ⟨later, runs.helperNamespace⟩
  have upon₂ := upon.earlier ev₃.grows
  have upon₁ := upon₂.earlier ev₂.grows
  have serves := Context.serves_of_method sited found (kind.trans runs.kind) runs.args
  have argument : Means c first (pure h) := means_of_computes fun s => Site.firstArgument_computes loaded serves
  have outgoing := converted_means first _ placed backed.refs handler m₁ handlerMade upon₁ argument
  have read := Site.loadField_means sourceLoaded fieldFound (fieldStatic.trans runs.kind) serves
  have removes := Fragment.remove_means source handler placed₁ backed₁.refs removed m₂ removedMade upon₂ read outgoing
  have remains := converted_means removed _ (ev₂.placed placed₁) (backed₁.refs.grow ev₂.grows) remaining m₃
    remainingMade upon removes
  have fieldFound₃ := ev₃.grows.field (ev₂.grows.field fieldFound)
  rw [Site.storeField_means storing fieldFound₃ (fieldStatic.trans runs.kind) serves remains]
  simp only [bind_assoc, pure_bind, get_bind, runs.field, lift_ok_bind, Event.without, Event.outgoing, lift_bind]
  cases taken : event.convertTo event.handler h with
  | error e => rfl
  | ok h' =>
    rw [lift_ok_bind, lift_ok_bind]
    cases without : Delegate.remove f h' with
    | error e => rfl
    | ok u =>
      -- the cast of what was removed does nothing: it has the type of the source already
      have uncast := cast_of_isOf s (sourceTy ▸ Delegate.remove_isOf runs.fits without : u.IsOf source.ty)
      rw [lift_ok_bind, lift_ok_bind, get_bind, uncast, lift_ok_bind]

theorem Event.convertTo_isOf {v : Value} {t target : Ty} (fits : v.IsOf t)
    (same : event.isGeneric = true → t.SameName target) : ∃ u, event.convertTo target v = .ok u ∧ u.IsOf target := by
  unfold convertTo
  split
  · rename_i generic
    refine ⟨v, rfl, ?_⟩
    rcases fits with rfl | ⟨d, rfl, fits⟩
    · exact .inl rfl
    · exact .inr ⟨d, rfl, fits.trans (same generic)⟩
  · rcases fits with rfl | ⟨d, rfl, -⟩
    · exact ⟨.null, rfl, .inl rfl⟩
    · exact ⟨_, rfl, .inr ⟨⟨target, d.entries⟩, rfl, rfl⟩⟩

theorem Delegate.remove_of_isOf {f h : Value} {t : Ty} (fits : f.IsOf t) (fits' : h.IsOf t) :
    ∃ u, Delegate.remove f h = .ok u := by
  rcases fits with rfl | ⟨d, rfl, same⟩
  · exact ⟨.null, rfl⟩
  rcases fits' with rfl | ⟨e, rfl, same'⟩
  · exact ⟨.delegate d, rfl⟩
  have agree : requireSameType d e = .ok () := if_pos (same.trans same'.symm)
  unfold remove Value.asOperand
  simp only [bind, Except.bind, agree]
  split
  · exact ⟨_, rfl⟩
  · exact ⟨_, rfl⟩

/-- A handler of the generic type can be removed, and the field keeps a value of its type. -/
theorem Event.without_isOf {f h : Value} (backed : event.Backed m) (fits : f.IsOf event.handler)
    (fits' : h.IsOf event.closed) : ∃ u, event.without f h = .ok u ∧ u.IsOf event.handler := by
  obtain ⟨h', converted, fits''⟩ := convertTo_isOf fits' backed.generic
  obtain ⟨w, removed⟩ := Delegate.remove_of_isOf fits fits''
  have same : event.isGeneric = true → event.handler.SameName event.handler := fun _ => rfl
  obtain ⟨u, given, result⟩ := convertTo_isOf (Delegate.remove_isOf fits removed) same
  refine ⟨u, ?_, result⟩
  exact except_bind_eq_ok_iff.mpr ⟨h', converted, except_bind_eq_ok_iff.mpr ⟨w, removed, given⟩⟩

/-- The unsubscribing method leaves the field without the handler, and gives nothing back. -/
theorem unsubscribe_runs {f : Value} (is : event.IsUnsubscribing row) (made : event.MadeFor t row.body.code m)
    (later : Grows m c.program.module) (runs : event.Runs c s p h f) :
    runBody c.program c.caller t row c.args s = (do
      Machine.setField c.program.module event.field p (← liftM (event.without f h))
      return none : Run (Option Value)) s := by
  obtain ⟨m₀, m₁, row₀, placed, typed, found₀, is₀, ran, grows⟩ := made
  obtain ⟨pre, split, computes⟩ := unsubscribeCode_means placed typed.backed found₀ is₀.isStatic _ _ ran
  -- running a body stops at its first return, so the code in front of the last instruction must have none
  have noReturn : ∀ i ∈ pre, i.opcode ≠ .ret := by
    obtain ⟨pre', split', leaves⟩ := (unsubscribeCode_yields placed typed found₀ is₀.accepts).1 _ _ ran
    obtain rfl : pre = pre' := List.append_cancel_right (split.symm.trans split')
    have ev := evolves_of_ok (moves_unsubscribeCode _ _ _) ran
    obtain ⟨d, owner⟩ := (typed.grow ev.grows).owner
    obtain ⟨frame, built⟩ := frameOf_of_owner (is₀.owner ▸ owner)
    obtain ⟨same, -⟩ := frameOf_ok built
    have here : Retained m₁ frame.module := by
      rw [same]
      exact Std.Refl.refl m₁
    exact (leaves ⟨row₀, same ▸ (ev.keeps id).row found₀, same ▸ built⟩ here).noReturn
  let entry : Context := { c with locals := row.body.locals.map fun _ => .null }
  have runs' : event.Runs entry s p h f :=
    ⟨runs.helperNamespace, runs.kind, runs.args, runs.holds, runs.field, runs.fits⟩
  have body := computes (c := entry) (grows.trans later) runs' []
  rw [runBody_eq split noReturn rfl]
  refine (bind_congr_at body).trans ?_
  have returns : returned row.result (entry.frame []) = .ok none := if_pos is.result
  simp only [bind_assoc, pure_bind, returns]
  rfl

/-! ### Everything that is woven for an event -/

/-- In any later module, the code leaves the wrapper of the argument that is in the field in the variable and changes
nothing else, or fails where finding it does. -/
def Event.LeavesFound (event : Event) (var : Variable) (code : Code) (m : Module) : Prop :=
  ∀ ⦃P : Op → Prop⦄ ⦃c : Context⦄ ⦃s : Machine⦄ ⦃p : Option ObjectRef⦄ ⦃a f : Value⦄,
    Along P m c.program.module → event.Runs c s p a f → var.index < c.locals.length → ∀ stack,
    runSteps c.program c.caller code (c.frame stack) s = (do
      let v ← liftM (event.found f a)
      return (c.withLocal var v).frame stack : Run Activation) s

/-- In any later module, the code leaves the argument made weak in the variable and counts the wrappers, or fails
where making it weak does. -/
def Event.LeavesWrapped (event : Event) (unsubscribe : Token) (var : Variable) (code : Code) (m : Module) : Prop :=
  ∀ ⦃P : Op → Prop⦄ ⦃c : Context⦄ ⦃s : Machine⦄ ⦃p : Option ObjectRef⦄ ⦃a f : Value⦄,
    Along P m c.program.module → event.Runs c s p a f → var.index < c.locals.length → ∀ stack,
    runSteps c.program c.caller code (c.frame stack) s = (do
      let (v, last) ← liftM (event.wrapped unsubscribe p a s.lastWeakId)
      modify fun s => { s with lastWeakId := last }
      return (c.withLocal var v).frame stack : Run Activation) s

/-- While the method is left alone, its body takes the handler out of the field, or fails where that does. Handlers of
the generic type can be taken out. -/
def Event.TakesOut (event : Event) (t : Token) (m : Module) : Prop :=
  ∀ ⦃c : Context⦄ ⦃s : Machine⦄ ⦃p : Option ObjectRef⦄ ⦃h f : Value⦄,
    Along (¬ ·.Touches t) m c.program.module → event.Runs c s p h f →
    ∃ row, c.program.module.method t = .ok row ∧
      runBody c.program c.caller t row c.args s = (do
        Machine.setField c.program.module event.field p (← liftM (event.without f h))
        return none : Run (Option Value)) s ∧
      (h.IsOf event.closed → ∃ u, event.without f h = .ok u ∧ u.IsOf event.handler)

/-- The code that is made for an event computes what it is documented to, in the methods of the event's type. All
of it is made, unless a table is full. -/
theorem woven_code_computes {P Q : Op → Prop} {field : Token} {settings : Settings} (imported : Imported P refs m)
    (made : Event.ofField m field refs settings = .ok event) (later : Along Q m m₁) :
    (∀ {method : Token} {row : Method} {var : Variable}, m₁.method method = .ok row →
      event.Accepts event.handler row → event.Holds row var →
      (∃ code m₂, event.findWeakCode method var m₁ = .ok code m₂ ∧ event.LeavesFound var code m₂) ∨
        ∃ e m₂, event.findWeakCode method var m₁ = .error e m₂ ∧ OutOfRows e m₂) ∧
    (∀ {method unsubscribe : Token} {row : Method} {var : Variable}, m₁.method method = .ok row →
      event.Accepts event.handler row → event.Holds row var → event.Binds m₁ unsubscribe →
      (∃ code m₂, event.makeWeakCode method unsubscribe var m₁ = .ok code m₂ ∧
        event.LeavesWrapped unsubscribe var code m₂) ∨
        ∃ e m₂, event.makeWeakCode method unsubscribe var m₁ = .error e m₂ ∧ OutOfRows e m₂) ∧
    ((m₁.findMethod? event.owner (unsubscribeName event.name)).isSome = false →
      (∃ t m₂, event.addUnsubscribe m₁ = .ok t m₂ ∧ event.TakesOut t m₂) ∨
        ∃ e m₂, event.addUnsubscribe m₁ = .error e m₂ ∧ OutOfRows e m₂) := by
  have imported₁ := (imported.imp (Q := fun _ => True) fun _ _ => trivial).along (later.imp fun _ _ => trivial)
  obtain ⟨placed, names, owned⟩ := imported.facts
  obtain ⟨placed₁, -, -⟩ := imported₁.facts
  have typed := (Event.typed_of_ofField names owned made).grow later.grows
  refine ⟨?_, ?_, ?_⟩
  · intro method row var found accepts holds
    rcases (findWeakCode_yields placed₁ typed found accepts holds).cases with
      ⟨code, m₂, ran, -⟩ | ⟨e, m₂, failed, out⟩
    · refine .inl ⟨code, m₂, ran, ?_⟩
      intro P c s p a f along
      exact findWeakCode_means var placed₁ typed.backed found accepts.isStatic _ _ ran along.grows
    · exact .inr ⟨e, m₂, failed, out.outOfRows⟩
  · intro method unsubscribe row var found accepts holds binds
    rcases (makeWeakCode_yields placed₁ typed found accepts holds binds).cases with
      ⟨code, m₂, ran, -⟩ | ⟨e, m₂, failed, out⟩
    · obtain ⟨unsubscribeRow, -, declared, kind, -⟩ := binds
      refine .inl ⟨code, m₂, ran, ?_⟩
      intro P c s p a f along
      exact makeWeakCode_means var placed₁ typed.backed found accepts.isStatic declared kind _ _ ran along.grows
    · exact .inr ⟨e, m₂, failed, out.outOfRows⟩
  · intro free
    rcases (addUnsubscribe_yields placed₁ typed free).cases with ⟨t, m₂, ran, row, found, is, -, body⟩ | failed
    · refine .inl ⟨t, m₂, ran, ?_⟩
      intro c s p h f along runs
      have ev : Evolves (· ≠ t) m₂ c.program.module :=
        along.evolves fun _ spares u touched same => spares (same ▸ touched)
      have keeps : Keeps t m₂ c.program.module := ev.keeps fun other => other rfl
      exact ⟨row, keeps.row found, unsubscribe_runs is body ev.grows runs, Event.without_isOf typed.backed runs.fits⟩
    · exact .inr failed

namespace Ticker

/-! The unsubscribing method of the ticker, called with the handler that is in the field. -/

def publisherRef : ObjectRef := ⟨0⟩

/-- A ticker whose event has this handler. -/
def subscribed : Machine :=
  { Machine.initial with objects := [⟨.named ⟨"Sample", "Ticker"⟩, true,
      [(ticked, .delegate ⟨.named .eventHandler, [.strong (hears 1)]⟩)]⟩] }

/-- The same handler, as the weak event helpers hand it over. -/
def lost : Value := .delegate ⟨.closedHandler (.named .eventArgs), [.strong (hears 1)]⟩

def unsubscribing : Context where
  program := ⟨withUnsubscribe, helpers.helperNamespace⟩
  caller _ _ := Run.fault .nullReference
  args := [.object publisherRef, lost]
  locals := []

theorem unsubscribing_runs : Ticker.event.event.Runs unsubscribing subscribed (some publisherRef) lost
    (.delegate ⟨.named .eventHandler, [.strong (hears 1)]⟩) where
  helperNamespace := rfl
  kind := rfl
  args := rfl
  holds := by decide
  field := eq_ok_of_toOption (by decide +kernel)
  fits := .inr ⟨_, rfl, rfl⟩

theorem ticker_code_computes :
    Imported Op.KeepsOwners helpers declared ∧ Event.ofField declared ticked helpers {} = .ok Ticker.event.event ∧
      ∃ row, withUnsubscribe.method Ticker.event.unsubscribe = .ok row ∧
        runBody unsubscribing.program unsubscribing.caller Ticker.event.unsubscribe row unsubscribing.args subscribed =
          .ok none (subscribed.withField ticked (some publisherRef) .null) := by
  refine ⟨declared_imported, made, ?_⟩
  have runs : Ticker.event.event.addUnsubscribe declared = .ok Ticker.event.unsubscribe withUnsubscribe :=
    eq_ok_of_value? (by decide +kernel)
  obtain ⟨-, -, adds⟩ := woven_code_computes declared_imported made (.refl : Along (fun _ => True) declared declared)
  rcases adds (by decide +kernel) with ⟨t, m₂, ran, takes⟩ | ⟨e, m₂, failed, -⟩
  · obtain ⟨rfl, rfl⟩ := EStateM.Result.ok.inj (runs.symm.trans ran)
    obtain ⟨row, found, body, -⟩ := takes .refl unsubscribing_runs
    refine ⟨row, found, body.trans ?_⟩
    have without : Ticker.event.event.without (.delegate ⟨.named .eventHandler, [.strong (hears 1)]⟩) lost =
        .ok .null := rfl
    have field : withUnsubscribe.field ticked = .ok tickedRow := eq_ok_of_toOption (by decide +kernel)
    rw [without, lift_ok_bind]
    exact bind_of_ok (Machine.setField_eq field rfl (by decide))
  · cases runs.symm.trans failed

end Ticker

end WeakSubscription
