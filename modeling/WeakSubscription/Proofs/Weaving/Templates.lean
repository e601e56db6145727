import WeakSubscription.Proofs.Weaving.Plan

/-!
# What woven code looks like

All code for an event has one form: loads, the call of one helper, and a store. Unless the field is of the generic
handler type already, the first argument is converted in front of the call, and its result behind it.
-/

open WeakSubscription.Module

namespace WeakSubscription

open Tracked

variable {m m' : Module} {refs : HelperRefs} {event : Event} {site : Site} {f g : Fragment} {t : Token}
  {method : Token} {h : Helper} {args : List Ty}

/-! ### Calls of helpers -/

/-- The token calls the helper: it is that of the helper, or that of an instantiation at these arguments. -/
inductive HelperRefs.Calls (refs : HelperRefs) (m : Module) : Helper → List Ty → Token → Prop
  | reference (h : Helper) : Calls refs m h [] (refs.token h)
  | instantiation {h : Helper} {args : List Ty} {t : Token} (spec : m.methodSpec t = .ok ⟨t, refs.token h, args⟩) :
      Calls refs m h args t

theorem HelperRefs.Calls.grow (calls : refs.Calls m h args t) (grows : Grows m m') : refs.Calls m' h args t := by
  cases calls with
  | reference => exact .reference h
  | instantiation spec => exact .instantiation (grows.methodSpec spec)

/-! ### Conversions -/

/-- The code that makes a value of the other type of the event one of this type. -/
def Event.Converts (event : Event) (m : Module) (target : Ty) (code : Code) : Prop :=
  if event.isGeneric then code = []
  else ∃ t, code = [.onToken .call t] ∧ event.refs.Calls m .changeType [target] t

theorem Event.Converts.grow {target : Ty} {code : Code} (converts : event.Converts m target code) (grows : Grows m m') :
    event.Converts m' target code := by
  unfold Converts at converts ⊢
  split
  · rename_i generic
    rwa [if_pos generic] at converts
  · rename_i generic
    rw [if_neg generic] at converts
    obtain ⟨t, same, calls⟩ := converts
    exact ⟨t, same, calls.grow grows⟩

theorem converted_appends (f : Fragment) (target : Ty) (placed : m.Placed) :
    Gives (fun g m' => ∃ conversion, g = ⟨f.code ++ conversion, if event.isGeneric then f.ty else target⟩ ∧
      event.Converts m' target conversion) (event.converted f target) m := by
  unfold Event.converted Event.Converts
  split
  · rename_i generic
    refine gives_pure ⟨[], ?_, rfl⟩
    rw [List.append_nil]
  · rename_i generic
    refine gives_bind fun helper m₁ made => gives_pure ?_
    have spec := addMethodSpec_gives _ _ placed _ _ made
    refine ⟨[.onToken .call helper], ?_, helper, rfl, .instantiation spec⟩
    simp only [Fragment.calling, List.flatMap_cons, List.flatMap_nil, List.append_nil]

/-! ### Values and stores -/

namespace Event

/-- The code that loads the field. -/
def sourceCode (event : Event) : Code :=
  if event.isStatic then [.onToken .ldsfld event.field] else [.loadArg 0, .onToken .ldfld event.field]

/-- The code in front of a value that is stored into the field. -/
def receiverCode (event : Event) : Code := if event.isStatic then [] else [.loadArg 0]

def storeInstruction (event : Event) : Instruction :=
  if event.isStatic then .onToken .stsfld event.field else .onToken .stfld event.field

end Event

/-- The code that makes a delegate on the method. -/
def callbackCode (isStatic : Bool) (constructor method : Token) : Code :=
  [if isStatic then .plain .ldnull else .loadArg 0, .onToken .ldftn method, .onToken .newobj constructor]

namespace Site

theorem firstArgument_eq (loaded : site.firstArgument = .ok f) :
    ∃ param, site.firstParam = some param ∧ f = ⟨[.loadArg site.firstParamIndex], param⟩ := by
  unfold firstArgument at loaded
  split at loaded
  · rename_i param first
    exact ⟨param, first, (Except.ok.inj loaded).symm⟩
  · cases loaded

theorem loadField_eq (backed : event.Backed m) (loaded : site.loadField m event.field = .ok f) :
    f = ⟨event.sourceCode, event.handler⟩ ∧ (event.isStatic = true ∨ site.isStatic = false) := by
  obtain ⟨row, found, ty, static, -⟩ := backed.field
  obtain ⟨row', found', built⟩ := except_bind_eq_ok_iff.mp loaded
  obtain rfl := Except.ok.inj (found.symm.trans found')
  rw [← ty, ← static]
  unfold Event.sourceCode
  rw [← static]
  split at built
  · rename_i isStatic
    rw [if_pos isStatic]
    exact ⟨(Except.ok.inj built).symm, .inl isStatic⟩
  · rename_i isStatic
    obtain ⟨_, used, last⟩ := except_bind_eq_ok_iff.mp built
    rw [if_neg isStatic]
    exact ⟨(Except.ok.inj last).symm, .inr (requireThis_ok used)⟩

theorem storeField_eq {code : Code} (backed : event.Backed m) (stored : site.storeField m event.field f = .ok code) :
    code = event.receiverCode ++ f.code ++ [event.storeInstruction] := by
  obtain ⟨row, found, -, static, -⟩ := backed.field
  obtain ⟨row', found', built⟩ := except_bind_eq_ok_iff.mp stored
  obtain rfl := Except.ok.inj (found.symm.trans found')
  unfold Event.receiverCode Event.storeInstruction
  rw [← static]
  split at built
  · rename_i isStatic
    rw [if_pos isStatic, if_pos isStatic]
    exact (Except.ok.inj built).symm
  · rename_i isStatic
    obtain ⟨_, -, last⟩ := except_bind_eq_ok_iff.mp built
    rw [if_neg isStatic, if_neg isStatic]
    exact (Except.ok.inj last).symm

end Site

/-! ### Templates -/

/-- Code with one call of a helper. The first argument goes in as a value of the type that is wanted, and what comes
out is made a value of the type of the field. -/
def Event.Template (event : Event) (m : Module) (index : UInt8) (helper : Token) (wanted : Ty)
    (before between cast behind code : Code) : Prop :=
  ∃ inward outward, event.Converts m wanted inward ∧ event.Converts m event.handler outward ∧
    code = before ++ .loadArg index :: inward ++ between ++ .onToken .call helper :: cast ++ outward ++ behind

theorem Event.Template.grow {index : UInt8} {wanted : Ty} {before between cast behind code : Code}
    (template : event.Template m index t wanted before between cast behind code) (grows : Grows m m') :
    event.Template m' index t wanted before between cast behind code := by
  obtain ⟨inward, outward, into, back, same⟩ := template
  exact ⟨inward, outward, into.grow grows, back.grow grows, same⟩

/-- What is asked of a method and a variable before code is made that takes the first argument of the method and
stores into the variable. -/
structure Method.Offers (row : Method) (v : Variable) (param : Ty) : Prop where
  first : row.params.head?.map (·.ty) = some param
  inside : v.index < row.body.locals.length
  addressable : v.index < Body.maxLocals

theorem Site.storeLocal_eq {row : Method} {v : Variable} {code : Code} (found : m.method site.method = .ok row)
    (stored : site.storeLocal m v f = .ok code) :
    code = f.code ++ [.storeLocal (.ofNat v.index)] ∧ v.index < row.body.locals.length ∧ v.index < Body.maxLocals := by
  obtain ⟨i, chosen, built⟩ := except_bind_eq_ok_iff.mp stored
  obtain ⟨row', found', tested⟩ := except_bind_eq_ok_iff.mp chosen
  obtain rfl := Except.ok.inj (found.symm.trans found')
  split at tested
  · rename_i inside
    obtain rfl := Except.ok.inj tested
    exact ⟨(Except.ok.inj built).symm, inside.1, inside.2⟩
  · cases tested

theorem instantiateHelper_calls (a : Ty) (h : Helper) (placed : m.Placed) :
    Gives (fun t m' => refs.Calls m' h [a] t) (Fragment.instantiateHelper (refs.token h) (.closedHandler a)) m :=
  fun _ _ made => .instantiation (Fragment.instantiateHelper_gives _ _ placed _ _ made)

/-- The code that finds a wrapper takes the field and the first argument. -/
theorem findWeakCode_template {a : Ty} (placed : m.Placed) (backed : event.Backed m)
    (isClosed : event.closed = .closedHandler a) (method : Token) (v : Variable) :
    Gives (fun code m' => ∃ row param helper, m.method method = .ok row ∧ row.Offers v param ∧
        (event.isStatic = true ∨ row.isStatic = false) ∧ event.refs.Calls m' .findWeak [a] helper ∧
        event.Template m' row.firstParamIndex helper event.closed event.sourceCode [] []
          [.storeLocal (.ofNat v.index)] code)
      (event.findWeakCode method v) m := by
  refine gives_get_bind (gives_lift_bind fun site sited => gives_lift_bind fun first loaded => ?_)
  obtain ⟨row, found, built⟩ := except_bind_eq_ok_iff.mp sited
  obtain rfl := Except.ok.inj built
  obtain ⟨param, head, rfl⟩ := Site.firstArgument_eq loaded
  refine gives_bind fun handler m₁ handlerMade => ?_
  have ev₁ := evolves_of_ok (moves_converted _ _ _ _) handlerMade
  obtain ⟨inward, rfl, into⟩ := converted_appends _ _ placed _ _ handlerMade
  refine gives_get_bind (gives_lift_bind fun source sourceLoaded => ?_)
  obtain ⟨rfl, kind⟩ := Site.loadField_eq (backed.grow ev₁.grows) sourceLoaded
  refine gives_bind fun wrapped m₂ wrappedMade => ?_
  have ev₂ := evolves_of_ok (Fragment.moves_findWeak _ _ _ _) wrappedMade
  obtain ⟨helper, m₂', made, rest⟩ := bind_eq_ok_iff.mp wrappedMade
  obtain ⟨rfl, rfl⟩ := EStateM.Result.ok.inj rest
  rw [isClosed] at made
  have calls := instantiateHelper_calls a .findWeak (ev₁.placed placed) _ _ made
  refine gives_bind fun stored m₃ storedMade => ?_
  have ev₃ := evolves_of_ok (moves_converted _ _ _ _) storedMade
  obtain ⟨outward, rfl, back⟩ := converted_appends _ _ (ev₂.placed (ev₁.placed placed)) _ _ storedMade
  refine gives_get_bind fun code m₄ ran => ?_
  obtain ⟨stores, rfl⟩ := lift_eq_ok_iff.mp ran
  have found₃ := (ev₃.keeps id).row ((ev₂.keeps id).row ((ev₁.keeps id).row found))
  obtain ⟨rfl, inside, addressable⟩ := Site.storeLocal_eq found₃ stores
  refine ⟨row, param, helper, found, ⟨head, inside, addressable⟩, kind, calls.grow ev₃.grows, ?_⟩
  exact ⟨inward, outward, into.grow (ev₂.grows.trans ev₃.grows), back, by simp [Fragment.calling]⟩

/-- The code that makes a wrapper takes the first argument and a callback. -/
theorem makeWeakCode_template {a : Ty} (placed : m.Placed) (backed : event.Backed m)
    (isClosed : event.closed = .closedHandler a) (method unsubscribe : Token) (v : Variable) :
    Gives (fun code m' => ∃ row param helper constructor callee, m.method method = .ok row ∧ row.Offers v param ∧
        m.method unsubscribe = .ok callee ∧ (callee.isStatic = true ∨ row.isStatic = false) ∧
        event.refs.Calls m' .makeWeak [a] helper ∧
        m'.memberRef constructor =
          .ok ⟨constructor, .inst .action [event.closed], ".ctor", .ofInstance [.object, .intPtr] .void⟩ ∧
        event.Template m' row.firstParamIndex helper event.closed []
          (callbackCode callee.isStatic constructor unsubscribe) [] [.storeLocal (.ofNat v.index)] code)
      (event.makeWeakCode method unsubscribe v) m := by
  refine gives_bind fun constructor m₀ closing => ?_
  have ev₀ := evolves_of_ok (HelperRefs.moves_closeActionConstructor _ _ _) closing
  have closed : SameMethods m m₀ := (HelperRefs.moves_closeActionConstructor _ _ m).of_ok closing
  have methods : SameMethods m₀ m := Eq.symm closed
  have closes := HelperRefs.closeActionConstructor_gives _ placed backed.refs _ _ closing
  refine gives_get_bind (gives_lift_bind fun site sited => ?_)
  obtain ⟨row, found₀, built⟩ := except_bind_eq_ok_iff.mp sited
  obtain rfl := Except.ok.inj built
  refine gives_get_bind (gives_lift_bind fun callback callbackMade => ?_)
  obtain ⟨callee, foundCallee, -⟩ := except_bind_eq_ok_iff.mp callbackMade
  have kind := Site.kind_of_newDelegate foundCallee callbackMade
  have created := callTarget_of_closedConstructor closes
  obtain rfl := Except.ok.inj ((Site.newDelegate_of_kind foundCallee kind created).symm.trans callbackMade)
  refine gives_lift_bind fun first loaded => ?_
  obtain ⟨param, head, rfl⟩ := Site.firstArgument_eq loaded
  refine gives_bind fun handler m₁ handlerMade => ?_
  have ev₁ := evolves_of_ok (moves_converted _ _ _ _) handlerMade
  have placed₀ := ev₀.placed placed
  obtain ⟨inward, rfl, into⟩ := converted_appends _ _ placed₀ _ _ handlerMade
  refine gives_bind fun weak m₂ weakMade => ?_
  have ev₂ := evolves_of_ok (Fragment.moves_makeWeak _ _ _ _) weakMade
  obtain ⟨helper, m₂', made, rest⟩ := bind_eq_ok_iff.mp weakMade
  obtain ⟨rfl, rfl⟩ := EStateM.Result.ok.inj rest
  rw [isClosed] at made
  have calls := instantiateHelper_calls a .makeWeak (ev₁.placed placed₀) _ _ made
  refine gives_bind fun stored m₃ storedMade => ?_
  have ev₃ := evolves_of_ok (moves_converted _ _ _ _) storedMade
  obtain ⟨outward, rfl, back⟩ := converted_appends _ _ (ev₂.placed (ev₁.placed placed₀)) _ _ storedMade
  refine gives_get_bind fun code m₄ ran => ?_
  obtain ⟨stores, rfl⟩ := lift_eq_ok_iff.mp ran
  have found₃ := (ev₃.keeps id).row ((ev₂.keeps id).row ((ev₁.keeps id).row found₀))
  obtain ⟨rfl, inside, addressable⟩ := Site.storeLocal_eq found₃ stores
  have later := ev₂.grows.trans ev₃.grows
  refine ⟨row, param, helper, constructor, callee, methods.method found₀, ⟨head, inside, addressable⟩,
    methods.method foundCallee, kind, calls.grow ev₃.grows, (ev₁.grows.trans later).memberRef closes, ?_⟩
  exact ⟨inward, outward, into.grow later, back, by simp [Fragment.calling, callbackCode]⟩

/-- The code of the unsubscribing method takes the field and the first argument, and stores into the field. -/
theorem unsubscribeCode_template (placed : m.Placed) (backed : event.Backed m) (method : Token) :
    Gives (fun code m' => ∃ row cast, m.method method = .ok row ∧ m'.resolveType cast = .ok event.handler ∧
        event.Template m' row.firstParamIndex event.refs.remove event.handler
          (event.receiverCode ++ event.sourceCode) [] [.onToken .castclass cast]
          [event.storeInstruction, .plain .ret] code)
      (event.unsubscribeCode method) m := by
  refine gives_get_bind (gives_lift_bind fun site sited => gives_lift_bind fun first loaded => ?_)
  obtain ⟨row, found, built⟩ := except_bind_eq_ok_iff.mp sited
  obtain rfl := Except.ok.inj built
  obtain ⟨param, head, rfl⟩ := Site.firstArgument_eq loaded
  refine gives_bind fun handler m₁ handlerMade => ?_
  have ev₁ := evolves_of_ok (moves_converted _ _ _ _) handlerMade
  have backed₁ := backed.grow ev₁.grows
  obtain ⟨inward, rfl, into⟩ := converted_appends _ _ placed _ _ handlerMade
  refine gives_get_bind (gives_lift_bind fun source sourceLoaded => ?_)
  obtain ⟨rfl, -⟩ := Site.loadField_eq backed₁ sourceLoaded
  refine gives_bind fun removed m₂ removedMade => ?_
  have ev₂ := evolves_of_ok (Fragment.moves_arithmetic _ _ _ _) removedMade
  obtain ⟨cast, m₂', imported, rest⟩ := bind_eq_ok_iff.mp removedMade
  obtain ⟨rfl, rfl⟩ := EStateM.Result.ok.inj rest
  have resolves := importType_gives _ (ev₁.placed placed) _ _ imported
  refine gives_bind fun remaining m₃ remainingMade => ?_
  have ev₃ := evolves_of_ok (moves_converted _ _ _ _) remainingMade
  obtain ⟨outward, rfl, back⟩ := converted_appends _ _ (ev₂.placed (ev₁.placed placed)) _ _ remainingMade
  refine gives_get_bind (gives_lift_bind fun code stored => gives_pure ?_)
  obtain rfl := Site.storeField_eq (backed₁.grow (ev₂.grows.trans ev₃.grows)) stored
  refine ⟨row, cast, found, ev₃.grows.resolveType resolves, inward, outward, ?_, back, ?_⟩
  · exact into.grow (ev₂.grows.trans ev₃.grows)
  · simp [Fragment.calling, Code.thenReturn]

/-- The unsubscribing method comes with that code. -/
theorem addUnsubscribe_template (placed : m.Placed) (backed : event.Backed m) :
    Gives (fun t m' => ∃ row cast, m'.method t = .ok row ∧ event.IsUnsubscribing row ∧
        m'.resolveType cast = .ok event.handler ∧
        event.Template m' row.firstParamIndex event.refs.remove event.handler
          (event.receiverCode ++ event.sourceCode) [] [.onToken .castclass cast]
          [event.storeInstruction, .plain .ret] row.body.code)
      event.addUnsubscribe m := by
  intro t m' added
  obtain ⟨-, body, m₁, m₂, declared, coded, inserted⟩ := addUnsubscribe_steps event m t m' added
  have ev₁ := evolves_of_ok (moves_addMethod _ _) declared
  have ev₂ := evolves_of_ok (moves_unsubscribeCode event t m₁) coded
  have ev₃ : Evolves (· = t) m₂ m' := (moves_insertCode t body 0 m₂).of_ok inserted
  obtain ⟨found₁, -⟩ := addMethod_gives _ m _ _ declared
  obtain ⟨row, cast, found, resolves, template⟩ :=
    unsubscribeCode_template (ev₁.placed placed) (backed.grow ev₁.grows) t body m₂ coded
  obtain rfl := Except.ok.inj (found₁.symm.trans found)
  have found' := insertCode_gives body ((ev₂.keeps id).row found) _ _ inserted
  have whole : body ++ (event.unsubscribeDecl.row event.owner).body.code = body := by
    rw [(unsubscribeDecl_row event event.owner).2.2.2.2, List.append_nil]
  rw [whole] at found'
  have is := Event.IsUnsubscribing.ofDecl event t
  refine ⟨_, cast, found', ⟨is.name, is.owner, is.isPrivate, is.isStatic, is.result, is.params, is.attributes⟩, ?_, ?_⟩
  · exact ev₃.grows.resolveType resolves
  · exact template.grow ev₃.grows

end WeakSubscription
