import WeakSubscription.Proofs.Weaving.Conversions

/-!
# Methods that code is made for

That a method has a first parameter, has the variable, and has the instances that the code needs is looked at where
code for an accessor is made. The types are left to the verifier: for each piece of the code there is the condition on
the types under which it is accepted, and the conditions of the pieces add up to that of the whole.
-/

open WeakSubscription.Module

namespace WeakSubscription

open Verification Tracked

variable {m m' : Module} {refs : HelperRefs} {event : Event} {t : Token} {h : Helper} {args : List Ty}
  {frame : Frame} {code a b : Code} {before after slots : Stack} {slot first second : Slot} {p q ty : Ty}
  {cond cond' : Prop} {row : Method}

/-! ### Exact types of code -/

/-- Where the condition holds, the code takes the first slots off a stack and leaves the second ones in their place.
Where it does not hold, the code is rejected. -/
def Verification.Frame.Exactly (frame : Frame) (code : Code) (cond : Prop) (before after : Stack) : Prop :=
  ∀ stack stack', frame.steps code (before ++ stack) = .ok stack' ↔ cond ∧ stack' = after ++ stack

namespace Verification

theorem popInto_cons_iff {use : SlotUse} {stack stack' : Stack} :
    popInto use ty (slot :: stack) = .ok stack' ↔ slot.assignable ty = true ∧ stack' = stack := by
  refine ⟨fun popped => ?_, ?_⟩
  · obtain ⟨slot', same, fits⟩ := popInto_ok popped
    obtain ⟨rfl, rfl⟩ := List.cons.inj same
    exact ⟨fits, rfl⟩
  · rintro ⟨fits, rfl⟩
    exact popInto_cons fits _

theorem popArguments_one_iff {stack stack' : Stack} :
    popArguments [p] (slot :: stack) = .ok stack' ↔ slot.assignable p = true ∧ stack' = stack := by
  show (popInto (.argument 0) p (slot :: stack) >>= pure) = .ok stack' ↔ _
  rw [bind_pure, popInto_cons_iff]

theorem popArguments_two_iff {stack stack' : Stack} :
    popArguments [p, q] (second :: first :: stack) = .ok stack' ↔
      (first.assignable p = true ∧ second.assignable q = true) ∧ stack' = stack := by
  show (popInto (.argument 1) q (second :: first :: stack) >>= fun rest =>
    popInto (.argument 0) p rest >>= pure) = .ok stack' ↔ _
  rw [except_bind_eq_ok_iff]
  simp only [bind_pure, popInto_cons_iff]
  constructor
  · rintro ⟨rest, ⟨fits, rfl⟩, popped⟩
    obtain ⟨fits', rfl⟩ := popInto_cons_iff.mp popped
    exact ⟨⟨fits', fits⟩, rfl⟩
  · rintro ⟨⟨fits, fits'⟩, rfl⟩
    exact ⟨_, ⟨fits', rfl⟩, popInto_cons fits _⟩

namespace Frame

theorem exactly_of_leaves {n : Nat} (leaves : frame.Leaves code slots n) : frame.Exactly code True [] slots := by
  intro stack stack'
  rw [List.nil_append, leaves.on]
  exact ⟨fun same => ⟨trivial, (Except.ok.inj same).symm⟩, fun same => congrArg _ same.2.symm⟩

theorem exactly_of_step {i : Instruction} (step : ∀ stack stack',
    frame.step i (before ++ stack) = .ok stack' ↔ cond ∧ stack' = after ++ stack) :
    frame.Exactly [i] cond before after := by
  intro stack stack'
  rw [← step]
  show (frame.step i (before ++ stack) >>= pure) = _ ↔ _
  rw [bind_pure]

namespace Exactly

theorem append {middle : Stack} (earlier : frame.Exactly a cond before middle)
    (later : frame.Exactly b cond' middle after) : frame.Exactly (a ++ b) (cond ∧ cond') before after := by
  intro stack stack'
  rw [steps_append, except_bind_eq_ok_iff]
  constructor
  · rintro ⟨between, first, second⟩
    obtain ⟨holds, rfl⟩ := (earlier stack between).mp first
    obtain ⟨holds', rfl⟩ := (later stack stack').mp second
    exact ⟨⟨holds, holds'⟩, rfl⟩
  · rintro ⟨⟨holds, holds'⟩, rfl⟩
    exact ⟨middle ++ stack, (earlier stack _).mpr ⟨holds, rfl⟩, (later stack _).mpr ⟨holds', rfl⟩⟩

theorem above (exactly : frame.Exactly code cond before after) (below : Stack) :
    frame.Exactly code cond (before ++ below) (after ++ below) := by
  intro stack stack'
  rw [List.append_assoc, List.append_assoc]
  exact exactly (below ++ stack) stack'

theorem congr (exactly : frame.Exactly code cond before after) (same : cond ↔ cond') :
    frame.Exactly code cond' before after := by
  intro stack stack'
  rw [exactly, same]

end Exactly

theorem call_exactly {target : CallTarget} (found : frame.module.callTarget t = .ok target)
    (static : target.signature.hasThis = false) (value : target.signature.result ≠ .void)
    (pops : ∀ stack stack' : Stack, popArguments target.signature.params (before ++ stack) = .ok stack' ↔
      cond ∧ stack' = stack) :
    frame.Exactly [.onToken .call t] cond before [.value target.signature.result] := by
  refine exactly_of_step fun stack stack' => ?_
  constructor
  · intro called
    obtain ⟨t', named, h₁⟩ := except_bind_eq_ok_iff.mp called
    obtain rfl : t = t' := Option.some.inj (operand_eq_ok_iff.mp named)
    obtain ⟨target', found', h₂⟩ := except_bind_eq_ok_iff.mp h₁
    obtain rfl := Except.ok.inj (found.symm.trans (resolved_eq_ok_iff.mp found'))
    obtain ⟨rest, popped, -⟩ := except_bind_eq_ok_iff.mp h₂
    obtain ⟨holds, rfl⟩ := (pops stack rest).mp popped
    have again := step_call found static value popped
    exact ⟨holds, Except.ok.inj (called.symm.trans again)⟩
  · rintro ⟨holds, rfl⟩
    exact step_call found static value ((pops stack stack).mpr ⟨holds, rfl⟩)

theorem storeLocal_exactly {index : UInt8} {w : Variable} (read : frame.locals[index.toNat]? = some w) (slot : Slot) :
    frame.Exactly [.storeLocal index] (slot.assignable w.ty = true) [slot] [] := by
  refine exactly_of_step fun stack stack' => ?_
  rw [step_storeLocal_eq read]
  exact popInto_cons_iff

theorem ldfld_exactly {fieldRow : Field} {d : TypeDef} (found : frame.module.field t = .ok fieldRow)
    (kind : fieldRow.isStatic = false) (owner : frame.module.typeDef fieldRow.owner = .ok d) (slot : Slot) :
    frame.Exactly [.onToken .ldfld t] (slot.assignable d.ty = true) [slot] [.value fieldRow.ty] := by
  refine exactly_of_step fun stack stack' => ?_
  have rule : frame.step (.onToken .ldfld t) (slot :: stack) = (do
      return .value fieldRow.ty :: (← popInto .fieldOwner d.ty (slot :: stack))) := by
    show (frame.field (.onToken .ldfld t) false >>= fun r => do
      return .value r.1.ty :: (← popInto .fieldOwner r.2 (slot :: stack))) = _
    rw [field_onToken found kind owner]
    rfl
  rw [List.singleton_append, rule, except_bind_eq_ok_iff]
  constructor
  · rintro ⟨rest, popped, last⟩
    obtain ⟨fits, rfl⟩ := popInto_cons_iff.mp popped
    exact ⟨fits, (except_pure_eq_ok_iff.mp last).symm⟩
  · rintro ⟨fits, rfl⟩
    exact ⟨stack, popInto_cons fits stack, rfl⟩

end Frame

end Verification

/-! ### Calls of helpers -/

/-- What a token that calls a helper calls. -/
theorem HelperRefs.Calls.target (calls : refs.Calls m h args t) (names : refs.Name m)
    (other : h ≠ .actionConstructor) :
    m.callTarget t = .ok ⟨h.parent refs.helperNamespace, h.member, h.signature.instantiate [] args⟩ := by
  cases calls with
  | reference => exact (callsHelper_of_memberRef other (names h)).target
  | instantiation spec => exact (callsHelper_of_methodSpec other spec (names h)).target

section Calls

variable (calls : refs.Calls frame.module h args t) (names : refs.Name frame.module) (other : h ≠ .actionConstructor)
  (static : h.signature.hasThis = false) (result : (h.signature.instantiate [] args).result = ty)
  (notVoid : ty ≠ .void)

include calls names other static result notVoid

theorem exactly_call_one (param : (h.signature.instantiate [] args).params = [p]) (slot : Slot) :
    frame.Exactly [.onToken .call t] (slot.assignable p = true) [slot] [.value ty] := by
  rw [← result]
  refine Frame.call_exactly (calls.target names other) static (by rw [result]; exact notVoid) fun stack stack' => ?_
  rw [param]
  exact popArguments_one_iff

theorem exactly_call_two (params : (h.signature.instantiate [] args).params = [p, q]) (first second : Slot) :
    frame.Exactly [.onToken .call t] (first.assignable p = true ∧ second.assignable q = true) [second, first]
      [.value ty] := by
  rw [← result]
  refine Frame.call_exactly (calls.target names other) static (by rw [result]; exact notVoid) fun stack stack' => ?_
  rw [params]
  exact popArguments_two_iff

end Calls

/-- A conversion takes any delegate. -/
theorem Event.Converts.exactly {target : Ty} (converts : event.Converts frame.module target code)
    (names : event.refs.Name frame.module) (notVoid : target ≠ .void) (ty : Ty) :
    frame.Exactly code (event.isGeneric = true ∨ (Slot.value ty).assignable (.named .delegate) = true) [.value ty]
      [.value (if event.isGeneric then ty else target)] := by
  unfold Converts at converts
  split at converts
  · rename_i generic
    obtain rfl := converts
    intro stack stack'
    rw [if_pos generic]
    exact ⟨fun same => ⟨.inl generic, (Except.ok.inj same).symm⟩, fun same => congrArg _ same.2.symm⟩
  · rename_i generic
    obtain ⟨t, rfl, calls⟩ := converts
    rw [if_neg generic]
    have called := exactly_call_one calls names nofun rfl rfl notVoid rfl (.value ty)
    exact called.congr (or_iff_right generic).symm

/-! ### Parts of the templates -/

theorem sourceCode_exactly (serves : frame.Serves m row) (backed : event.Backed m)
    (kind : event.isStatic = true ∨ row.isStatic = false) {owner fieldOwner : TypeDef}
    (owned : m.typeDef row.owner = .ok owner) (fieldOwned : m.typeDef event.owner = .ok fieldOwner) :
    frame.Exactly event.sourceCode
      (event.isStatic = true ∨ (Slot.value owner.ty).assignable fieldOwner.ty = true) [] [.value event.handler] := by
  obtain ⟨fieldRow, found, ty, static, sameOwner, -⟩ := backed.field
  have found' := serves.kept.grows.field found
  obtain ⟨fieldOwner', fieldOwned', sameName⟩ := serves.kept.typeDef (sameOwner ▸ fieldOwned)
  unfold Event.sourceCode
  cases isStatic : event.isStatic with
  | true =>
    have stepped : frame.step (.onToken .ldsfld event.field) [] = .ok [.value fieldRow.ty] :=
      except_bind_eq_ok_iff.mpr ⟨_, Frame.field_onToken found' (static.trans isStatic) fieldOwned', rfl⟩
    have loads := Frame.exactly_of_leaves ((Frame.Leaves.nil frame).snoc stepped nofun rfl)
    rw [ty] at loads
    exact loads.congr (by simp)
  | false =>
    obtain ⟨d, this, loads⟩ := serves.this (kind.resolve_left (by simp [isStatic]))
    obtain ⟨d', this', same⟩ := serves.kept.typeDef owned
    obtain rfl := Except.ok.inj (this.symm.trans this')
    have reads := Frame.ldfld_exactly found' (static.trans isStatic) fieldOwned' (.value d.ty)
    have both := (Frame.exactly_of_leaves loads).append reads
    rw [ty] at both
    exact both.congr (by simp [same, sameName])

/-- The first argument, as the helpers take it. -/
theorem argument_exactly {param : Ty} (serves : frame.Serves m row) (names : event.refs.Name frame.module)
    (notVoid : event.closed ≠ .void) (head : row.params.head?.map (·.ty) = some param)
    (into : event.Converts frame.module event.closed code) :
    frame.Exactly ([.loadArg row.firstParamIndex] ++ code)
      (event.isGeneric = true ∨ (Slot.value param).assignable (.named .delegate) = true) []
      [.value (if event.isGeneric then param else event.closed)] := by
  obtain ⟨first, found, rfl⟩ := Option.map_eq_some_iff.mp head
  have loads := Frame.exactly_of_leaves (Frame.leaves_loadArg (serves.firstParam found))
  exact (loads.append (into.exactly names notVoid first.ty)).congr (iff_of_eq (true_and _))

theorem Slot.assignable_congr (same : p.SameName q) (reference : p.isReference = q.isReference) (expected : Ty) :
    (Slot.value p).assignable expected = (Slot.value q).assignable expected := by
  have names : p.SameName expected ↔ q.SameName expected := by rw [Ty.SameName, same, Ty.SameName]
  show (decide (p.SameName expected) || _) = (decide (q.SameName expected) || _)
  rw [decide_eq_decide.mpr names, reference]

/-- The result of a helper, as it is stored. -/
theorem storing_exactly {v w : Variable} (typed : event.Typed m) (names : event.refs.Name frame.module)
    (back : event.Converts frame.module event.handler code) (addressable : v.index < Body.maxLocals)
    (read : frame.locals[v.index]? = some w) :
    frame.Exactly (code ++ [.storeLocal (.ofNat v.index)]) ((Slot.value event.handler).assignable w.ty = true)
      [.value event.closed] [] := by
  have notVoid : event.handler ≠ .void := by
    intro void
    have reference := typed.reference
    rw [void] at reference
    cases reference
  have index : (UInt8.ofNat v.index).toNat = v.index := UInt8.toNat_ofNat_of_lt' addressable
  have stores := Frame.storeLocal_exactly (index.symm ▸ read)
    (.value (if event.isGeneric then event.closed else event.handler))
  refine ((back.exactly names notVoid event.closed).append stores).congr ?_
  have delegate := Slot.assignable_delegate typed.closed_reference
  have reference := typed.closed_reference.trans typed.reference.symm
  cases generic : event.isGeneric with
  | true =>
    have same := typed.backed.generic generic
    simp [Slot.assignable_congr same reference]
  | false => simp [delegate]

/-- The first parameter is of a type that code for the event takes. -/
def Event.Takes (event : Event) (param : Ty) : Prop :=
  (Slot.value param).assignable (if event.isGeneric then event.closed else .named .delegate) = true

theorem Event.takes_iff {param : Ty} :
    (event.isGeneric = true ∨ (Slot.value param).assignable (.named .delegate) = true) ∧
        (Slot.value (if event.isGeneric then param else event.closed)).assignable event.closed = true ↔
      event.Takes param := by
  have same : (Slot.value event.closed).assignable event.closed = true := Slot.assignable_of_sameName rfl
  unfold Takes
  cases event.isGeneric <;> simp [same]

/-! ### The code for the accessors -/

section Accessors

variable {param c : Ty} {v w : Variable} {helper : Token}

theorem findWeak_exactly (typed : event.Typed m) (names : event.refs.Name frame.module) (serves : frame.Serves m row)
    (offers : row.Offers v param) (kind : event.isStatic = true ∨ row.isStatic = false) {owner fieldOwner : TypeDef}
    (owned : m.typeDef row.owner = .ok owner) (fieldOwned : m.typeDef event.owner = .ok fieldOwner)
    (closed : event.closed = .closedHandler c) (calls : event.refs.Calls frame.module .findWeak [c] helper)
    (read : frame.locals[v.index]? = some w)
    (template : event.Template frame.module row.firstParamIndex helper event.closed event.sourceCode [] []
      [.storeLocal (.ofNat v.index)] code) :
    frame.Exactly code (event.Takes param ∧
      (event.isStatic = true ∨ (Slot.value owner.ty).assignable fieldOwner.ty = true) ∧
      (Slot.value event.handler).assignable w.ty = true) [] [] := by
  obtain ⟨inward, outward, into, back, same⟩ := template
  have split : code = event.sourceCode ++ ([.loadArg row.firstParamIndex] ++ inward) ++ [.onToken .call helper] ++
      (outward ++ [.storeLocal (.ofNat v.index)]) := by
    rw [same]
    simp
  have source := sourceCode_exactly serves typed.backed kind owned fieldOwned
  have argument := argument_exactly serves names (by rw [closed]; exact nofun) offers.first into
  have finds : ∀ first second, frame.Exactly [.onToken .call helper]
      (first.assignable (.named .delegate) = true ∧ second.assignable event.closed = true) [second, first]
      [.value event.closed] := by
    rw [closed]
    exact exactly_call_two calls names nofun rfl rfl nofun rfl
  have stores := storing_exactly typed names back offers.addressable read
  have whole := ((source.append (argument.above [.value event.handler])).append (finds _ _)).append stores
  rw [split]
  refine whole.congr ?_
  have delegate := Slot.assignable_delegate typed.reference
  rw [← Event.takes_iff, and_iff_right delegate]
  exact iff_of_eq (by ac_rfl)

theorem makeWeak_exactly {constructor unsubscribe : Token} {callee : Method} (typed : event.Typed m)
    (names : event.refs.Name frame.module) (serves : frame.Serves m row) (offers : row.Offers v param)
    (closed : event.closed = .closedHandler c) (calls : event.refs.Calls frame.module .makeWeak [c] helper)
    (callback : frame.Leaves (callbackCode callee.isStatic constructor unsubscribe)
      [.value (.inst .action [event.closed])] 2)
    (read : frame.locals[v.index]? = some w)
    (template : event.Template frame.module row.firstParamIndex helper event.closed []
      (callbackCode callee.isStatic constructor unsubscribe) [] [.storeLocal (.ofNat v.index)] code) :
    frame.Exactly code (event.Takes param ∧ (Slot.value event.handler).assignable w.ty = true) [] [] := by
  obtain ⟨inward, outward, into, back, same⟩ := template
  have split : code = ([.loadArg row.firstParamIndex] ++ inward) ++
      callbackCode callee.isStatic constructor unsubscribe ++ [.onToken .call helper] ++
      (outward ++ [.storeLocal (.ofNat v.index)]) := by
    rw [same]
    simp
  have argument := argument_exactly serves names (by rw [closed]; exact nofun) offers.first into
  have binds := (Frame.exactly_of_leaves callback).above
    [.value (if event.isGeneric then param else event.closed)]
  have makes : ∀ first second, frame.Exactly [.onToken .call helper]
      (first.assignable event.closed = true ∧ second.assignable (.inst .action [event.closed]) = true)
      [second, first] [.value event.closed] := by
    rw [closed]
    exact exactly_call_two calls names nofun rfl rfl nofun rfl
  have stores := storing_exactly typed names back offers.addressable read
  have whole := ((argument.append binds).append (makes _ _)).append stores
  rw [split]
  refine whole.congr ?_
  have action : (Slot.value (.inst .action [event.closed])).assignable (.inst .action [event.closed]) = true :=
    Slot.assignable_of_sameName rfl
  rw [← Event.takes_iff, and_true, and_iff_left action]

end Accessors

/-! ### What is looked at -/

section Made

variable {param c : Ty} {v : Variable} {method unsubscribe : Token}

theorem Method.Offers.ofMethod (offers : row.Offers v param) (found : m.method method = .ok row) :
    ∃ site first, Site.ofMethod m method = .ok site ∧ site.method = method ∧ site.isStatic = row.isStatic ∧
      site.firstArgument = .ok first :=
  ⟨_, ⟨[.loadArg row.firstParamIndex], param⟩, Site.ofMethod_of_first found offers.first, rfl, rfl, rfl⟩

/-- A variable that the method has can be stored into. -/
theorem Method.Offers.storeLocal_fails {site : Site} (offers : row.Offers v param)
    (found : m.method site.method = .ok row) (f : Fragment) :
    Fails OutOfReferences (liftM (site.storeLocal m v f) : Edit Code) m := by
  obtain ⟨code, stored⟩ := Site.storeLocal_of_lt found offers.inside offers.addressable f
  exact fails_of_ok (lift_eq_ok_iff.mpr ⟨stored, rfl⟩)

/-- Of which type the first parameter is makes no difference to whether there is code. -/
theorem findWeakCode_fails (backed : event.Backed m) (closed : event.closed = .closedHandler c)
    (found : m.method method = .ok row) (offers : row.Offers v param)
    (kind : event.isStatic = true ∨ row.isStatic = false) :
    Fails OutOfReferences (event.findWeakCode method v) m := by
  obtain ⟨site, first, sited, sameMethod, sameKind, argued⟩ := offers.ofMethod found
  refine fails_get_bind (fails_lift_bind sited (fails_lift_bind argued ?_))
  refine fails_bind (converted_fails backed.refs _ _) fun handler m₁ handlerMade => ?_
  have ev₁ := evolves_of_ok (moves_converted _ _ _ _) handlerMade
  have backed₁ := backed.grow ev₁.grows
  obtain ⟨fieldRow, foundField, -, static, -⟩ := backed₁.field
  rw [← static, ← sameKind] at kind
  obtain ⟨source, loaded⟩ := Site.loadField_of_kind foundField kind
  refine fails_get_bind (fails_lift_bind loaded ?_)
  rw [closed]
  refine fails_bind (Fragment.findWeak_fails backed₁.refs c _ _) fun wrapped m₂ wrappedMade => ?_
  have ev₂ := evolves_of_ok (Fragment.moves_findWeak _ _ _ _) wrappedMade
  refine fails_bind (converted_fails (backed₁.grow ev₂.grows).refs _ _) fun stored m₃ storedMade => ?_
  have ev₃ := evolves_of_ok (moves_converted _ _ _ _) storedMade
  have found₃ := (ev₃.keeps id).row ((ev₂.keeps id).row ((ev₁.keeps id).row found))
  exact fails_get_bind (offers.storeLocal_fails (sameMethod ▸ found₃) stored)

theorem makeWeakCode_fails {callee : Method} (placed : m.Placed) (backed : event.Backed m)
    (closed : event.closed = .closedHandler c) (found : m.method method = .ok row) (offers : row.Offers v param)
    (foundCallee : m.method unsubscribe = .ok callee) (kind : callee.isStatic = true ∨ row.isStatic = false) :
    Fails OutOfReferences (event.makeWeakCode method unsubscribe v) m := by
  refine fails_bind (HelperRefs.closeActionConstructor_fails backed.refs _) fun constructor m₀ closing => ?_
  have ev₀ := evolves_of_ok (HelperRefs.moves_closeActionConstructor _ _ _) closing
  have closes := HelperRefs.closeActionConstructor_gives _ placed backed.refs _ _ closing
  have found₀ := (ev₀.keeps id).row found
  obtain ⟨site, first, sited, sameMethod, sameKind, argued⟩ := offers.ofMethod found₀
  refine fails_get_bind (fails_lift_bind sited ?_)
  rw [← sameKind] at kind
  have bound := Site.newDelegate_of_kind ((ev₀.keeps id).row foundCallee) kind
    (callTarget_of_closedConstructor closes)
  refine fails_get_bind (fails_lift_bind bound (fails_lift_bind argued ?_))
  have backed₀ := backed.grow ev₀.grows
  refine fails_bind (converted_fails backed₀.refs _ _) fun handler m₁ handlerMade => ?_
  have ev₁ := evolves_of_ok (moves_converted _ _ _ _) handlerMade
  have backed₁ := backed₀.grow ev₁.grows
  rw [closed]
  refine fails_bind (Fragment.makeWeak_fails backed₁.refs c _ _) fun weak m₂ weakMade => ?_
  have ev₂ := evolves_of_ok (Fragment.moves_makeWeak _ _ _ _) weakMade
  refine fails_bind (converted_fails (backed₁.grow ev₂.grows).refs _ _) fun stored m₃ storedMade => ?_
  have ev₃ := evolves_of_ok (moves_converted _ _ _ _) storedMade
  have found₃ := (ev₃.keeps id).row ((ev₂.keeps id).row ((ev₁.keeps id).row found₀))
  exact fails_get_bind (offers.storeLocal_fails (sameMethod ▸ found₃) stored)

end Made

/-! ### Answers -/

/-- The type of the method is that of the field, or one that is assignable to it. A static field has no instance. -/
def Event.OwnedBy (event : Event) (m : Module) (row : Method) : Prop :=
  event.isStatic = true ∨ ∃ owner fieldOwner, m.typeDef row.owner = .ok owner ∧
    m.typeDef event.owner = .ok fieldOwner ∧ (Slot.value owner.ty).assignable fieldOwner.ty = true

/-- How code for a method and a variable is made. That the method is `usable`, has a first parameter and has the local
is looked at. Whether the code is accepted depends on types besides. Among these the type of the first parameter makes
no difference to whether there is code. -/
structure Event.Answers (event : Event) (x : Edit Code) (usable owned : Method → Prop) (m : Module) (method : Token)
    (v : Variable) : Prop where
  looks : ∀ code m', x m = .ok code m' → ∃ row param, m.method method = .ok row ∧ row.Offers v param ∧ usable row
  makes : ∀ row param w, m.method method = .ok row → row.Offers v param → usable row → owned row →
    row.body.locals[v.index]? = some w → (Slot.value event.handler).assignable w.ty = true →
    (∃ code m', x m = .ok code m') ∨ ∃ e m', x m = .error e m' ∧ OutOfReferences e m'
  leads : ∀ code m' m'' row param w, x m = .ok code m' → Along Op.Adds m' m'' → m.method method = .ok row →
    row.Offers v param → row.body.locals[v.index]? = some w →
    ∃ row'' frame, m''.method method = .ok row'' ∧ m''.frameOf row'' = .ok frame ∧
      ∀ stack stack', frame.steps code stack = .ok stack' ↔
        (event.Takes param ∧ owned row ∧ (Slot.value event.handler).assignable w.ty = true) ∧ stack' = stack

theorem Verification.Frame.exists_serving {method : Token} (owned : m'.MethodsOwned) (kept : Retained m m')
    (found : m.method method = .ok row) :
    ∃ row' frame, m'.method method = .ok row' ∧ m'.frameOf row' = .ok frame ∧ frame.module = m' ∧
      frame.Serves m row := by
  obtain ⟨row', found', grows⟩ := kept.methods found
  obtain ⟨d, owner⟩ := owned.owner found'
  obtain ⟨frame, built⟩ := frameOf_of_owner owner
  exact ⟨row', frame, found', built, (frameOf_ok built).1, .of_frameOf built kept grows⟩

/-- Code is made where nothing but a full table can be in the way. -/
theorem made_of_fails {x : Edit Code} (fails : Fails OutOfReferences x m) :
    (∃ code m', x m = .ok code m') ∨ ∃ e m', x m = .error e m' ∧ OutOfReferences e m' := by
  cases ran : x m with
  | ok code m' => exact .inl ⟨code, m', rfl⟩
  | error e m' => exact .inr ⟨e, m', rfl, fails e m' ran⟩

theorem findWeakCode_answers (reached : Imported Op.KeepsOwners refs m) (typed : event.Typed m) (method : Token)
    (v : Variable) :
    event.Answers (event.findWeakCode method v) (fun row => event.isStatic = true ∨ row.isStatic = false)
      (event.OwnedBy m) m method v := by
  obtain ⟨placed, -, -⟩ := reached.facts
  have backed := typed.backed
  obtain ⟨c, closed⟩ := backed.closed
  refine ⟨fun code m' ran => ?_, fun row param w found offers kind _ _ _ => ?_, ?_⟩
  · obtain ⟨row, param, -, found, offers, kind, -⟩ := findWeakCode_template placed backed closed method v code m' ran
    exact ⟨row, param, found, offers, kind⟩
  · exact made_of_fails (findWeakCode_fails backed closed found offers kind)
  · intro code m' m'' row param w ran later found offers read
    obtain ⟨row', -, helper, found', -, kind, calls, template⟩ :=
      findWeakCode_template placed backed closed method v code m' ran
    obtain rfl := Except.ok.inj (found.symm.trans found')
    have on : Along Op.Adds m m' := (moves_findWeakCode event method v m).of_ok ran
    have all := trans_of _ on later
    obtain ⟨row'', frame, found'', built, rfl, serves⟩ :=
      Frame.exists_serving (reached.grown all).methodsOwned all.retained found
    obtain ⟨owner, owned⟩ := reached.methodsOwned.owner found
    obtain ⟨fieldOwner, fieldOwned⟩ := typed.owner
    have names := backed.refs.grow all.retained.grows
    have exactly := findWeak_exactly typed names serves offers kind owned fieldOwned closed
      (calls.grow later.retained.grows) (serves.local_ read) (template.grow later.retained.grows)
    refine ⟨row'', frame, found'', built, exactly.congr ?_⟩
    simp [Event.OwnedBy, owned, fieldOwned]

theorem makeWeakCode_answers (reached : Imported Op.KeepsOwners refs m) (typed : event.Typed m)
    (method unsubscribe : Token) (v : Variable) :
    event.Answers (event.makeWeakCode method unsubscribe v)
      (fun row => ∃ callee, m.method unsubscribe = .ok callee ∧ (callee.isStatic = true ∨ row.isStatic = false))
      (fun _ => True) m method v := by
  obtain ⟨placed, -, -⟩ := reached.facts
  have backed := typed.backed
  obtain ⟨c, closed⟩ := backed.closed
  refine ⟨fun code m' ran => ?_, fun row param w found offers bound _ _ _ => ?_, ?_⟩
  · obtain ⟨row, param, -, -, callee, found, offers, foundCallee, kind, -⟩ :=
      makeWeakCode_template placed backed closed method unsubscribe v code m' ran
    exact ⟨row, param, found, offers, callee, foundCallee, kind⟩
  · obtain ⟨callee, foundCallee, kind⟩ := bound
    exact made_of_fails (makeWeakCode_fails placed backed closed found offers foundCallee kind)
  · intro code m' m'' row param w ran later found offers read
    obtain ⟨row', -, helper, constructor, callee, found', -, foundCallee, kind, calls, closes, template⟩ :=
      makeWeakCode_template placed backed closed method unsubscribe v code m' ran
    obtain rfl := Except.ok.inj (found.symm.trans found')
    have on : Along Op.Adds m m' := (moves_makeWeakCode event method unsubscribe v m).of_ok ran
    have all := trans_of _ on later
    obtain ⟨row'', frame, found'', built, rfl, serves⟩ :=
      Frame.exists_serving (reached.grown all).methodsOwned all.retained found
    have ev := evolves_of_ok (moves_makeWeakCode event method unsubscribe v m) ran
    have foundCallee' := (ev.keeps id).row foundCallee
    obtain ⟨calleeOwner, calleeOwned⟩ := (reached.grown on).methodsOwned.owner foundCallee'
    have site : (⟨method, row.isStatic, row.firstParamIndex, some param⟩ : Site).isStatic = row.isStatic := rfl
    have callback := (Site.newDelegate_pushes serves site closes (callTarget_of_method foundCallee' calleeOwned)
      later.retained (Site.newDelegate_of_kind foundCallee' kind (callTarget_of_closedConstructor closes))).1
    have names := backed.refs.grow all.retained.grows
    have exactly := makeWeak_exactly typed names serves offers closed (calls.grow later.retained.grows) callback
      (serves.local_ read) (template.grow later.retained.grows)
    refine ⟨row'', frame, found'', built, exactly.congr ?_⟩
    simp

/-- Code for an accessor is made or refused without a look at types. Where it is made, these are the types with which
the verifier accepts it. -/
theorem accessorCode_answers {m₀ : Module} {field : Token} {settings : Settings}
    (imported : Imported Op.KeepsOwners refs m₀) (made : Event.ofField m₀ field refs settings = .ok event)
    (grown : Along Op.KeepsOwners m₀ m) (method unsubscribe : Token) (v : Variable) :
    event.Answers (event.findWeakCode method v) (fun row => event.isStatic = true ∨ row.isStatic = false)
        (event.OwnedBy m) m method v ∧
      event.Answers (event.makeWeakCode method unsubscribe v)
        (fun row => ∃ callee, m.method unsubscribe = .ok callee ∧ (callee.isStatic = true ∨ row.isStatic = false))
        (fun _ => True) m method v := by
  obtain ⟨-, names₀, owned₀⟩ := imported.facts
  have reached := imported.along grown
  have ev : Evolves (fun _ => True) m₀ m := grown.evolves fun _ _ _ _ => trivial
  have typed := (Event.typed_of_ofField names₀ owned₀ made).grow ev.grows
  exact ⟨findWeakCode_answers reached typed method v, makeWeakCode_answers reached typed method unsubscribe v⟩

namespace Ticker

def readiedAddRow : Method := { addRow with body := ⟨[.plain .ret], [⟨0, .named .eventHandler⟩], true⟩ }

/-- The adding accessor has the variable, and the removing one has none. -/
theorem ticker_code_answers :
    Imported Op.KeepsOwners helpers declared ∧
      Event.ofField declared ticked helpers {} = .ok Ticker.event.event ∧ Along Op.KeepsOwners declared readied ∧
      (∃ code m' row frame, Ticker.event.event.findWeakCode Ticker.event.add ⟨0, .named .eventHandler⟩ readied =
          .ok code m' ∧ m'.method Ticker.event.add = .ok row ∧ m'.frameOf row = .ok frame ∧
        ∀ stack, frame.steps code stack = .ok stack) ∧
      ∀ code m', Ticker.event.event.findWeakCode Ticker.event.remove ⟨0, .named .eventHandler⟩ readied ≠
        .ok code m' := by
  have answers := accessorCode_answers declared_imported made readied_along
  refine ⟨declared_imported, made, readied_along, ?_, fun code m' ran => ?_⟩
  · obtain ⟨finds, -⟩ := answers Ticker.event.add Ticker.event.unsubscribe ⟨0, .named .eventHandler⟩
    have succeeds : (value? (Ticker.event.event.findWeakCode Ticker.event.add ⟨0, .named .eventHandler⟩
      readied)).isSome = true := by decide +kernel
    obtain ⟨code, valued⟩ := Option.isSome_iff_exists.mp succeeds
    have ran := eq_ok_of_value? valued
    have found : readied.method Ticker.event.add = .ok readiedAddRow := eq_ok_of_toOption (by decide +kernel)
    have offers : readiedAddRow.Offers ⟨0, .named .eventHandler⟩ (.named .eventHandler) :=
      ⟨by decide, by decide, by decide⟩
    obtain ⟨row, frame, found', built, leads⟩ := finds.leads code _ _ _ _ ⟨0, .named .eventHandler⟩ ran .refl found
      offers rfl
    have owner : ((readied.typeDef publisher).toOption).isSome = true := by decide +kernel
    obtain ⟨d, read⟩ := Option.isSome_iff_exists.mp owner
    have owned : Ticker.event.event.OwnedBy readied readiedAddRow :=
      .inr ⟨d, d, eq_ok_of_toOption read, eq_ok_of_toOption read, Slot.assignable_of_sameName rfl⟩
    have takes : Ticker.event.event.Takes (.named .eventHandler) := by
      unfold Event.Takes
      decide
    exact ⟨code, _, row, frame, ran, found', built, fun stack =>
      (leads stack stack).mpr ⟨⟨takes, owned, Slot.assignable_of_sameName rfl⟩, rfl⟩⟩
  · obtain ⟨finds, -⟩ := answers Ticker.event.remove Ticker.event.unsubscribe ⟨0, .named .eventHandler⟩
    obtain ⟨row, param, found, offers, -⟩ := finds.looks code m' ran
    have none : (readied.method Ticker.event.remove).toOption.map (·.body.locals.length) = some 0 := by decide +kernel
    rw [found] at none
    have count : row.body.locals.length = 0 := Option.some.inj none
    exact absurd (count ▸ offers.inside) (Nat.not_lt_zero _)

/-! A method of the ticker that takes a pointer, with a variable of the handler type. -/

def poll : Token := .ofRow .method 4

def pollDecl : MethodDecl := { accessor "Poll" with params := [⟨some "handle", .intPtr⟩] }

def pollRow : Method :=
  { pollDecl.row publisher with token := poll, body := ⟨[.plain .ret], [⟨0, .named .eventHandler⟩], true⟩ }

def polled : Module :=
  [Op.addMethod (pollDecl.row publisher), Op.addLocal poll (.named .eventHandler)].foldl (fun m op => op.apply m)
    declared

theorem polled_along : Along Op.KeepsOwners declared polled := .operated (by simp [Op.KeepsOwners]) declared

/-- What is found for the argument of the method. -/
def pollCode : Code :=
  [.loadArg 0, .onToken .ldfld ticked, .loadArg 1, .onToken .call (.ofRow .methodSpec 1),
    .onToken .call (.ofRow .methodSpec 2), .onToken .call (.ofRow .methodSpec 3), .storeLocal 0]

def pollFound : Module :=
  endState (Ticker.event.event.findWeakCode poll ⟨0, .named .eventHandler⟩ polled)

/-- A pointer is no delegate, but the code is made for it all the same. -/
theorem ticker_pointer_taken :
    Imported Op.KeepsOwners helpers declared ∧
      Event.ofField declared ticked helpers {} = .ok Ticker.event.event ∧ Along Op.KeepsOwners declared polled ∧
      Ticker.event.event.findWeakCode poll ⟨0, .named .eventHandler⟩ polled = .ok pollCode pollFound ∧
      ∃ frame, pollFound.method poll = .ok pollRow ∧ pollFound.frameOf pollRow = .ok frame ∧
        ∀ stack, frame.steps pollCode [] ≠ .ok stack := by
  let frame : Frame :=
    ⟨pollFound, [.named ⟨"Sample", "Ticker"⟩, .intPtr], [⟨0, .named .eventHandler⟩], .void⟩
  have refused : (frame.steps pollCode []).toOption = none := by decide +kernel
  refine ⟨declared_imported, made, polled_along, eq_ok_of_value? (by decide +kernel), frame, ?_, ?_, ?_⟩
  · exact eq_ok_of_toOption (by decide +kernel)
  · exact eq_ok_of_toOption (by decide +kernel)
  · intro stack steps
    rw [steps] at refused
    cases refused

end Ticker

end WeakSubscription
