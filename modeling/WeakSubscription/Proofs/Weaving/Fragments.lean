import WeakSubscription.Proofs.Delegate.Carried
import WeakSubscription.Proofs.Execution.Fields
import WeakSubscription.Proofs.Execution.Leads
import WeakSubscription.Proofs.Module.Interning
import WeakSubscription.Weaving.Fragment

/-!
# What fragments compute

A fragment computes a value in a context if its code leads to a frame with just that value pushed,
whatever is on the stack. Each way of putting fragments together computes what its name says, in every
program whose module grew out of the one for which the code was made.
-/

namespace WeakSubscription

open Execution Delegate Tracked

/-- The program and the frame, without its stack, in which a fragment runs. -/
structure Context where
  program : Program
  caller : Caller
  args : List Value
  locals : List Value

namespace Context

def frame (c : Context) (stack : List Value) : Activation := ⟨c.args, c.locals, stack⟩

/-- The program of the context runs what the module has become, with the helpers of its references. -/
structure Over (c : Context) (refs : HelperRefs) (m : Module) : Prop where
  grows : Module.Grows m c.program.module
  helperNamespace : c.program.helperNamespace = refs.helperNamespace

/-- The context is a call of a method with one parameter: on an instance unless the method is static. -/
structure Serves (c : Context) (site : Site) (p : Option ObjectRef) (h : Value) : Prop where
  args : c.args = p.toList.map .object ++ [h]
  isStatic : site.isStatic = p.isNone
  firstParamIndex : site.firstParamIndex = if p.isNone then 0 else 1

end Context

/-- The helper references name the helpers of the module, with their signatures. -/
def HelperRefs.Name (refs : HelperRefs) (m : Module) : Prop :=
  ∀ h, m.memberRef (refs.token h) =
    .ok ⟨refs.token h, h.parent refs.helperNamespace, h.member, h.signature⟩

variable {c : Context} {refs : HelperRefs} {m m' : Module} {f g : Fragment} {code : Code}
  {s s' s₁ s₂ : Machine} {v w x h : Value} {t : Ty} {xs ys : List Entry} {stack : List Value}
  {p : Option ObjectRef} {site : Site} {field method : Token} {row : Field}

theorem HelperRefs.Name.grow (names : refs.Name m) (grows : Module.Grows m m') : refs.Name m' :=
  fun h => grows.memberRef (names h)

theorem Context.Over.earlier (upon : c.Over refs m') (grows : Module.Grows m m') : c.Over refs m :=
  ⟨grows.trans upon.grows, upon.helperNamespace⟩

/-- The fragment leaves this value on the stack, and the machine in the second state. -/
def Computes (c : Context) (f : Fragment) (s : Machine) (v : Value) (s' : Machine) : Prop :=
  ∀ stack, Leads c.program c.caller f.code (c.frame stack) s (c.frame (v :: stack)) s'

/-- The fragment leaves a value on the stack that carries this invocation list as this type. -/
def Produces (c : Context) (f : Fragment) (s : Machine) (t : Ty) (xs : List Entry) (s' : Machine) :
    Prop :=
  ∃ v, Carries t xs v ∧ Computes c f s v s'

/-! ### Values of a frame -/

theorem Site.ofMethod_ok {row : Method} (made : Site.ofMethod m method = .ok site)
    (found : m.method method = .ok row) :
    site = ⟨method, row.isStatic, row.firstParamIndex, row.params.head?.map (·.ty)⟩ := by
  obtain ⟨row', found', built⟩ := except_bind_eq_ok_iff.mp made
  obtain rfl : row = row' := Except.ok.inj (found.symm.trans found')
  exact (Except.ok.inj built).symm

theorem Site.ofMethod_of_first {row : Method} {param : Ty} (found : m.method method = .ok row)
    (first : row.params.head?.map (·.ty) = some param) :
    Site.ofMethod m method = .ok ⟨method, row.isStatic, row.firstParamIndex, some param⟩ := by
  rw [← first]
  exact except_bind_eq_ok_iff.mpr ⟨row, found, rfl⟩

/-- A method with the staticness of the publisher, called with one argument, is served. -/
theorem Context.serves_of_method {row : Method} (made : Site.ofMethod m method = .ok site)
    (found : m.method method = .ok row) (kind : row.isStatic = p.isNone)
    (args : c.args = p.toList.map .object ++ [h]) : c.Serves site p h := by
  obtain rfl := Site.ofMethod_ok made found
  refine ⟨args, kind, ?_⟩
  show row.firstParamIndex = _
  rw [Method.firstParamIndex, kind]

theorem Context.Serves.this {r : ObjectRef} (serves : c.Serves site (some r) h) :
    c.args[(0 : UInt8).toNat]? = some (.object r) := by
  rw [serves.args]
  rfl

theorem Site.firstArgument_computes (loaded : site.firstArgument = .ok f) (serves : c.Serves site p h) :
    Computes c f s h s := by
  intro stack
  unfold Site.firstArgument at loaded
  split at loaded
  · obtain rfl := Except.ok.inj loaded
    refine leads_loadArg ?_
    rw [serves.firstParamIndex, serves.args]
    cases p with
    | none => rfl
    | some r => rfl
  · cases loaded

theorem Site.localIndex_ok {v : Variable} {i : UInt8} (found : site.localIndex m v = .ok i) :
    i.toNat = v.index := by
  obtain ⟨row, -, tested⟩ := except_bind_eq_ok_iff.mp found
  split at tested
  · rename_i inside
    obtain rfl := Except.ok.inj tested
    exact UInt8.toNat_ofNat_of_lt' inside.2
  · cases tested

theorem Site.loadLocal_computes {v : Variable} (loaded : site.loadLocal m v = .ok f)
    (read : c.locals[v.index]? = some w) : Computes c f s w s := by
  intro stack
  obtain ⟨i, found, built⟩ := except_bind_eq_ok_iff.mp loaded
  obtain rfl := Except.ok.inj built
  refine leads_loadLocal ?_
  rw [Site.localIndex_ok found, read]

theorem Site.storeLocal_leads {v : Variable} (stored : site.storeLocal m v f = .ok code)
    (computes : Computes c f s w s') (inside : v.index < c.locals.length) :
    Leads c.program c.caller code (c.frame stack) s
      (({ c with locals := c.locals.set v.index w } : Context).frame stack) s' := by
  obtain ⟨i, found, built⟩ := except_bind_eq_ok_iff.mp stored
  obtain rfl := Except.ok.inj built
  rw [← Site.localIndex_ok found] at inside ⊢
  exact (computes stack).append (leads_storeLocal inside)

/-! ### Fields -/

theorem Site.loadField_computes (loaded : site.loadField m field = .ok f)
    (found : m.field field = .ok row) (kind : row.isStatic = p.isNone) (serves : c.Serves site p h)
    (value : s.fieldValue c.program.module field p = .ok v) : Computes c f s v s := by
  intro stack
  obtain ⟨row', found', built⟩ := except_bind_eq_ok_iff.mp loaded
  obtain rfl : row = row' := Except.ok.inj (found.symm.trans found')
  cases p with
  | none =>
    rw [Option.isNone_none] at kind
    simp only [kind, if_true] at built
    obtain rfl := Except.ok.inj built
    exact leads_ldsfld value
  | some r =>
    rw [Option.isNone_some] at kind
    simp only [kind, Bool.false_eq_true, if_false] at built
    obtain ⟨-, -, last⟩ := except_bind_eq_ok_iff.mp built
    obtain rfl := Except.ok.inj last
    exact (leads_loadArg serves.this).cons (leads_ldfld value)

theorem Site.storeField_leads (stored : site.storeField m field f = .ok code)
    (found : m.field field = .ok row) (kind : row.isStatic = p.isNone) (serves : c.Serves site p h)
    (computes : Computes c f s v s₁)
    (set : Machine.setField c.program.module field p v s₁ = .ok () s₂) :
    Leads c.program c.caller code (c.frame stack) s (c.frame stack) s₂ := by
  obtain ⟨row', found', built⟩ := except_bind_eq_ok_iff.mp stored
  obtain rfl : row = row' := Except.ok.inj (found.symm.trans found')
  cases p with
  | none =>
    rw [Option.isNone_none] at kind
    simp only [kind, if_true] at built
    obtain rfl := Except.ok.inj built
    exact (computes stack).append (leads_stsfld set)
  | some r =>
    rw [Option.isNone_some] at kind
    simp only [kind, Bool.false_eq_true, if_false] at built
    obtain ⟨-, -, last⟩ := except_bind_eq_ok_iff.mp built
    obtain rfl := Except.ok.inj last
    exact (leads_loadArg serves.this).cons ((computes _).append (leads_stfld set))

theorem Site.storeField_ne_nil (stored : site.storeField m field f = .ok code) : code ≠ [] := by
  obtain ⟨row', -, built⟩ := except_bind_eq_ok_iff.mp stored
  split at built
  · obtain rfl := Except.ok.inj built
    exact List.append_ne_nil_of_right_ne_nil _ (List.cons_ne_nil _ _)
  · obtain ⟨-, -, last⟩ := except_bind_eq_ok_iff.mp built
    obtain rfl := Except.ok.inj last
    exact List.cons_ne_nil _ _

/-! ### New delegates -/

theorem Site.newDelegate_computes {constructor : Token} {closed : Ty} {row : Method}
    (made : site.newDelegate m constructor method = .ok f) (found : m.method method = .ok row)
    (kind : row.isStatic = p.isNone) (serves : c.Serves site p h)
    (closes : c.program.module.memberRef constructor =
      .ok ⟨constructor, .inst .action [closed], ".ctor", .ofInstance [.object, .intPtr] .void⟩) :
    Computes c f s (.delegate (.bound (.inst .action [closed]) p method)) s := by
  intro stack
  obtain ⟨row', found', built⟩ := except_bind_eq_ok_iff.mp made
  obtain rfl : row = row' := Except.ok.inj (found.symm.trans found')
  cases p with
  | none =>
    rw [Option.isNone_none] at kind
    simp only [kind, if_true] at built
    obtain ⟨target, pushed, rest⟩ := except_bind_eq_ok_iff.mp built
    obtain rfl := except_pure_eq_ok_iff.mp pushed
    obtain ⟨created, -, last⟩ := except_bind_eq_ok_iff.mp rest
    obtain rfl := Except.ok.inj last
    exact leads_ldnull.cons (leads_ldftn.cons (leads_newobj_callback closes rfl))
  | some r =>
    rw [Option.isNone_some] at kind
    simp only [kind, Bool.false_eq_true, if_false] at built
    obtain ⟨target, pushed, rest⟩ := except_bind_eq_ok_iff.mp built
    obtain ⟨-, -, rfl⟩ := except_map_eq_ok_iff.mp pushed
    obtain ⟨created, -, last⟩ := except_bind_eq_ok_iff.mp rest
    obtain rfl := Except.ok.inj last
    exact (leads_loadArg serves.this).cons (leads_ldftn.cons (leads_newobj_callback closes rfl))

/-! ### Calls of helpers -/

namespace Fragment

variable {rel : Module → Module → Prop} {helper : Token} {methodArgs : List Ty} {a : Ty}

theorem moves_arithmetic [Module.Specifies rel] (helper : Token) (f g : Fragment) (m : Module) :
    Moves rel (arithmetic helper f g) m :=
  moves_bind (Module.Specifies.importType _ m) fun _ _ _ => moves_pure _

section Instantiating

variable [Module.Instantiates rel]

theorem moves_convert (f : Fragment) (target : Ty) (m : Module) : Moves rel (f.convert refs target) m :=
  moves_bind (Module.Instantiates.methodSpec _ _ m) fun _ _ _ => moves_pure _

theorem moves_instantiateHelper (helper : Token) (closed : Ty) (m : Module) :
    Moves rel (instantiateHelper helper closed) m := by
  unfold instantiateHelper
  split
  · exact Module.Instantiates.methodSpec _ _ m
  · exact moves_throw _

theorem moves_findWeak (closed : Ty) (f g : Fragment) (m : Module) :
    Moves rel (findWeak refs closed f g) m :=
  moves_bind (moves_instantiateHelper _ _ m) fun _ _ _ => moves_pure _

theorem moves_makeWeak (closed : Ty) (f g : Fragment) (m : Module) :
    Moves rel (makeWeak refs closed f g) m :=
  moves_bind (moves_instantiateHelper _ _ m) fun _ _ _ => moves_pure _

end Instantiating

theorem calling_computes_one {h : Helper} (ty : Ty) (computes : Computes c f s v s₁)
    (calls : CallsHelper c.program.module c.program.helperNamespace helper h methodArgs)
    (static : h.signature.hasThis = false) (count : [v].length = h.signature.params.length)
    (computed : ∀ name, callHelper h name (h.signature.result.instantiate [] methodArgs) [v] s₁ =
      .ok x s₂) :
    Computes c (calling helper [f] ty) s x s₂ := by
  intro stack
  have code : (calling helper [f] ty).code = f.code ++ [.onToken .call helper] := by
    simp only [calling, List.flatMap_cons, List.flatMap_nil, List.append_nil]
  rw [code]
  exact (computes stack).append (leads_callHelper calls static count computed)

theorem calling_computes_two {h : Helper} (ty : Ty) (first : Computes c f s v s')
    (second : Computes c g s' w s₁)
    (calls : CallsHelper c.program.module c.program.helperNamespace helper h methodArgs)
    (static : h.signature.hasThis = false) (count : [v, w].length = h.signature.params.length)
    (computed : ∀ name, callHelper h name (h.signature.result.instantiate [] methodArgs) [v, w] s₁ =
      .ok x s₂) :
    Computes c (calling helper [f, g] ty) s x s₂ := by
  intro stack
  have code : (calling helper [f, g] ty).code = f.code ++ (g.code ++ [.onToken .call helper]) := by
    simp only [calling, List.flatMap_cons, List.flatMap_nil, List.append_nil, List.append_assoc]
  rw [code]
  exact (first stack).append ((second _).append (leads_callHelper calls static count computed))

theorem callsHelper_of_name (names : refs.Name m) (upon : c.Over refs m) {h : Helper}
    (other : h ≠ .actionConstructor) :
    CallsHelper c.program.module c.program.helperNamespace (refs.token h) h [] := by
  rw [upon.helperNamespace]
  exact callsHelper_of_memberRef other (names.grow upon.grows h)

theorem callsHelper_of_spec (names : refs.Name m) (upon : c.Over refs m) {h : Helper}
    (other : h ≠ .actionConstructor)
    (spec : m.methodSpec helper = .ok ⟨helper, refs.token h, methodArgs⟩) :
    CallsHelper c.program.module c.program.helperNamespace helper h methodArgs := by
  rw [upon.helperNamespace]
  exact callsHelper_of_methodSpec other (upon.grows.methodSpec spec) (names.grow upon.grows h)

theorem convert_gives (f : Fragment) (target : Ty) (placed : m.Placed) (names : refs.Name m) :
    Gives (fun g m' => ∀ {c : Context} {s s' : Machine} {t : Ty} {xs : List Entry}, c.Over refs m' →
      Produces c f s t xs s' → Produces c g s target xs s') (f.convert refs target) m := by
  refine gives_bind fun helper m' made => gives_pure ?_
  intro c s s' t xs upon produces
  have spec := Module.addMethodSpec_gives _ _ placed _ _ made
  have grows := (Module.evolves_of_ok (Module.moves_addMethodSpec _ _ m) made).grows
  obtain ⟨v, carries, computes⟩ := produces
  obtain ⟨w, changed, carries'⟩ := changeType_carries carries target
  have calls := callsHelper_of_spec (h := .changeType) (names.grow grows) upon (by decide) spec
  refine ⟨w, carries', calling_computes_one target computes calls rfl rfl ?_⟩
  intro name
  show (liftM (changeType v target) : Run Value) s' = .ok w s'
  rw [changed]
  rfl

/-- Delegate arithmetic gives a delegate of the type of its source, to which the result is cast. -/
theorem arithmetic_gives {h : Helper} (f g : Fragment) (placed : m.Placed) (names : refs.Name m)
    (other : h ≠ .actionConstructor) (static : h.signature.hasThis = false)
    (count : 2 = h.signature.params.length) {op : Value → Value → Except Error Value}
    {result : List Entry → List Entry → List Entry}
    (computed : ∀ name ty v w, callHelper h name ty [v, w] = liftM (op v w))
    (carried : ∀ {t : Ty} {xs ys : List Entry} {v w : Value}, Carries t xs v → Carries t ys w →
      ∃ u, op v w = .ok u ∧ Carries t (result xs ys) u) :
    Gives (fun k m' => k.ty = f.ty ∧ ∀ {c : Context} {s s₁ s₂ : Machine} {xs ys : List Entry},
      c.Over refs m' → Produces c f s f.ty xs s₁ → Produces c g s₁ f.ty ys s₂ →
      Produces c k s f.ty (result xs ys) s₂) (arithmetic (refs.token h) f g) m := by
  refine gives_bind fun cast m' imported => gives_pure ⟨rfl, ?_⟩
  intro c s s₁ s₂ xs ys upon first second
  have resolved := upon.grows.resolveType (Module.importType_gives _ placed _ _ imported)
  have grows := (Module.evolves_of_ok (Module.moves_importType _ m) imported).grows
  obtain ⟨v, carries, computes⟩ := first
  obtain ⟨w, carries', computes'⟩ := second
  have calls := callsHelper_of_name (names.grow grows) upon other
  obtain ⟨u, given, holds⟩ := carried carries carries'
  have called : ∀ name, callHelper h name (h.signature.result.instantiate [] []) [v, w] s₂ =
      .ok u s₂ := by
    intro name
    rw [computed, given]
    rfl
  have before := calling_computes_two f.ty computes computes' calls static count called
  exact ⟨u, holds, fun stack => (before stack).append (leads_castclass resolved (holds.cast s₂))⟩

theorem combine_gives (f g : Fragment) (placed : m.Placed) (names : refs.Name m) :
    Gives (fun k m' => k.ty = f.ty ∧ ∀ {c : Context} {s s₁ s₂ : Machine} {xs ys : List Entry},
      c.Over refs m' → Produces c f s f.ty xs s₁ → Produces c g s₁ f.ty ys s₂ →
      Produces c k s f.ty (xs ++ ys) s₂) (combine refs f g) m :=
  arithmetic_gives (h := .combine) f g placed names nofun rfl rfl (fun _ _ _ _ => rfl) combine_carries

/-- Removing takes the last run of the handler's invocation list out. -/
theorem remove_gives (f g : Fragment) (placed : m.Placed) (names : refs.Name m) :
    Gives (fun k m' => k.ty = f.ty ∧ ∀ {c : Context} {s s₁ s₂ : Machine} {xs ys : List Entry},
      c.Over refs m' → Produces c f s f.ty xs s₁ → Produces c g s₁ f.ty ys s₂ →
      Produces c k s f.ty (withoutRun ys xs) s₂) (remove refs f g) m :=
  arithmetic_gives (h := .remove) f g placed names nofun rfl rfl (fun _ _ _ _ => rfl) remove_carries

theorem instantiateHelper_gives (helper : Token) (a : Ty) (placed : m.Placed) :
    Gives (fun t m' => m'.methodSpec t = .ok ⟨t, helper, [a]⟩)
      (instantiateHelper helper (Ty.closedHandler a)) m :=
  Module.addMethodSpec_gives helper [a] placed

/-- The wrapper that is found in the source is the last one around the handler's first call. -/
theorem findWeak_gives (a : Ty) (f g : Fragment) (placed : m.Placed) (names : refs.Name m) :
    Gives (fun k m' => ∀ {c : Context} {s s₁ s₂ : Machine} {t t' : Ty} {callback : Delegate}
        {handlerType : Ty} {l : List (Invocation × UInt32)} {call : Invocation} {rest : List Invocation},
      c.Over refs m' → Produces c f s t (l.map (wrapper callback handlerType)) s₁ →
      Produces c g s₁ t' ((call :: rest).map .strong) s₂ →
      Produces c k s (Ty.closedHandler a)
        ((l.reverse.find? (·.1 == call)).map (wrapper callback handlerType)).toList s₂)
      (findWeak refs (Ty.closedHandler a) f g) m := by
  refine gives_bind fun helper m' made => gives_pure ?_
  intro c s s₁ s₂ t t' callback handlerType l call rest upon first second
  have spec := instantiateHelper_gives _ _ placed _ _ made
  have grows := (Module.evolves_of_ok (moves_instantiateHelper _ _ m) made).grows
  obtain ⟨v, carries, computes⟩ := first
  obtain ⟨w, carries', computes'⟩ := second
  obtain ⟨u, found, holds⟩ := findWeak_carries carries carries' (Ty.closedHandler a)
  have calls := callsHelper_of_spec (h := .findWeak) (names.grow grows) upon nofun spec
  refine ⟨u, holds, calling_computes_two _ computes computes' calls rfl rfl ?_⟩
  intro name
  show (liftM (Delegate.findWeak v w (Ty.closedHandler a)) : Run Value) s₂ = .ok u s₂
  rw [found]
  rfl

/-- A handler made weak has its calls in wrappers with the next numbers. -/
theorem makeWeak_gives (a : Ty) (f g : Fragment) (placed : m.Placed) (names : refs.Name m) :
    Gives (fun k m' => ∀ {c : Context} {s s₁ s₂ : Machine} {t : Ty} {callback : Delegate}
        {calls : List Invocation}, calls ≠ [] →
      c.Over refs m' → Produces c f s t (calls.map .strong) s₁ →
      Computes c g s₁ (.delegate callback) s₂ →
      Produces c k s (Ty.closedHandler a)
        ((numbered s₂.lastWeakId calls).map (wrapper callback (Ty.closedHandler a)))
        { s₂ with lastWeakId := s₂.lastWeakId + .ofNat calls.length })
      (makeWeak refs (Ty.closedHandler a) f g) m := by
  refine gives_bind fun helper m' made => gives_pure ?_
  intro c s s₁ s₂ t callback calls nonempty upon first second
  have spec := instantiateHelper_gives _ _ placed _ _ made
  have grows := (Module.evolves_of_ok (moves_instantiateHelper _ _ m) made).grows
  obtain ⟨v, carries, computes⟩ := first
  obtain ⟨u, wrapped, holds⟩ :=
    makeWeak_carries carries nonempty callback (Ty.closedHandler a) s₂.lastWeakId
  have calls := callsHelper_of_spec (h := .makeWeak) (names.grow grows) upon nofun spec
  refine ⟨u, holds, calling_computes_two _ computes second calls rfl rfl ?_⟩
  intro name
  have both : two [v, .delegate callback] = .ok (v, .delegate callback) := rfl
  have result : Ty.instantiate [] [a] Helper.makeWeak.signature.result = Ty.closedHandler a := rfl
  simp only [callHelper, both, result, Tracked.lift_ok_bind, Tracked.get_bind, wrapped]
  rfl

end Fragment

end WeakSubscription
