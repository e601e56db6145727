import WeakSubscription.Proofs.Events.Wrapped
import WeakSubscription.Proofs.Weaving.Imported
import WeakSubscription.Proofs.Weaving.Typing

/-!
# Values of an emitter

An emitter puts values of one method together, operation by operation, while the module grows. Whatever was
added to the module meanwhile and since, the verifier accepts the code of such a value on every stack and sees
one slot of the value's type pushed; storing the value leads back to the same stack.
-/

open WeakSubscription.Module

namespace WeakSubscription

open Verification Tracked

variable {m₀ m m' : Module} {refs : HelperRefs} {site : Site} {row : Method} {f g : Fragment} {frame : Frame}
  {method t : Token} {targets : Ty → Prop}

/-! ### Values -/

/-- A value that an emitter for this method came to, in the module as it is then. The emitter was made in the
first module, and `targets` are the types that values are converted to. -/
inductive Emitted (targets : Ty → Prop) (refs : HelperRefs) (m₀ : Module) (site : Site) (row : Method) :
    Module → Fragment → Prop
  | firstArgument {f : Fragment} (loaded : site.firstArgument = .ok f) : Emitted targets refs m₀ site row m₀ f
  | loadField {m : Module} {f : Fragment} {field : Token} {fieldRow : Field} (grown : Along Op.Adds m₀ m)
      (found : m.field field = .ok fieldRow) (own : fieldRow.isStatic = true ∨ fieldRow.owner = row.owner)
      (loaded : site.loadField m field = .ok f) : Emitted targets refs m₀ site row m f
  | loadLocal {m : Module} {f : Fragment} {v : Variable} {current : Method} (grown : Along Op.Adds m₀ m)
      (found : m.method site.method = .ok current) (own : current.body.locals[v.index]? = some v)
      (loaded : site.loadLocal m v = .ok f) : Emitted targets refs m₀ site row m f
  | convert {m m' : Module} {f g : Fragment} {target : Ty} (value : Emitted targets refs m₀ site row m f)
      (reference : f.ty.isReference = true) (wanted : targets target)
      (made : f.convert refs target m = .ok g m') : Emitted targets refs m₀ site row m' g
  | remove {m m' : Module} {f g k : Fragment} (source : Emitted targets refs m₀ site row m f)
      (handler : Emitted targets refs m₀ site row m g) (reference : f.ty.isReference = true)
      (reference' : g.ty.isReference = true) (made : Fragment.remove refs f g m = .ok k m') :
      Emitted targets refs m₀ site row m' k
  | combine {m m' : Module} {f g k : Fragment} (source : Emitted targets refs m₀ site row m f)
      (handler : Emitted targets refs m₀ site row m g) (reference : f.ty.isReference = true)
      (reference' : g.ty.isReference = true) (made : Fragment.combine refs f g m = .ok k m') :
      Emitted targets refs m₀ site row m' k
  | findWeak {m m' : Module} {f g k : Fragment} {a : Ty} (source : Emitted targets refs m₀ site row m f)
      (handler : Emitted targets refs m₀ site row m g)
      (fits : (Slot.value f.ty).assignable (.named .delegate) = true)
      (fits' : (Slot.value g.ty).assignable (Ty.closedHandler a) = true)
      (made : Fragment.findWeak refs (Ty.closedHandler a) f g m = .ok k m') :
      Emitted targets refs m₀ site row m' k
  | makeWeak {m m' : Module} {f g k : Fragment} {a : Ty} (handler : Emitted targets refs m₀ site row m f)
      (unsubscribe : Emitted targets refs m₀ site row m g)
      (fits : (Slot.value f.ty).assignable (Ty.closedHandler a) = true)
      (fits' : (Slot.value g.ty).assignable (.inst .action [Ty.closedHandler a]) = true)
      (made : Fragment.makeWeak refs (Ty.closedHandler a) f g m = .ok k m') :
      Emitted targets refs m₀ site row m' k
  | newDelegate {m m' m'' : Module} {f : Fragment} {closed : Ty} {constructor method : Token}
      (grown : Along Op.Adds m₀ m) (closes : refs.closeActionConstructor closed m = .ok constructor m')
      (later : Along Op.Adds m' m'') (made : site.newDelegate m'' constructor method = .ok f) :
      Emitted targets refs m₀ site row m'' f
  | later {m m' : Module} {f : Fragment} (value : Emitted targets refs m₀ site row m f)
      (grown : Along Op.Adds m m') : Emitted targets refs m₀ site row m' f

namespace Emitted

/-- Nothing but additions happens while values are emitted. -/
theorem grown (emitted : Emitted targets refs m₀ site row m f) : Along Op.Adds m₀ m := by
  induction emitted with
  | firstArgument _ => exact .refl
  | loadField grown _ _ _ => exact grown
  | loadLocal grown _ _ _ => exact grown
  | convert _ _ _ made ih => exact trans_of _ ih ((Fragment.moves_convert _ _ _).of_ok made)
  | remove _ _ _ _ made ih _ | combine _ _ _ _ made ih _ =>
    exact trans_of _ ih ((Fragment.moves_arithmetic _ _ _ _).of_ok made)
  | findWeak _ _ _ _ made ih _ => exact trans_of _ ih ((Fragment.moves_findWeak _ _ _ _).of_ok made)
  | makeWeak _ _ _ _ made ih _ => exact trans_of _ ih ((Fragment.moves_makeWeak _ _ _ _).of_ok made)
  | newDelegate grown closes later _ =>
    have closing : Along Op.Adds _ _ := (HelperRefs.moves_closeActionConstructor _ _ _).of_ok closes
    exact trans_of _ grown (trans_of _ closing later)
  | later _ grown ih => exact trans_of _ ih grown

variable (imported : Imported Op.KeepsOwners refs m₀) (found : m₀.method method = .ok row)
  (sited : Site.ofMethod m₀ method = .ok site)

include imported found sited

/-- The verifier sees an emitted value pushed, in every frame of its method from then on. -/
theorem pushes (notVoid : ∀ target, targets target → target ≠ .void)
    (emitted : Emitted targets refs m₀ site row m f) (checks : frame.Checks method)
    (kept : Retained m frame.module) : ∃ n, f.Pushes frame n := by
  -- the frame is that of the last module, so what an operation added stays known where its operands are typed
  induction emitted with
  | firstArgument loaded =>
    exact ⟨1, Site.firstArgument_pushes sited found (checks.serves kept found) loaded⟩
  | @loadField m f field fieldRow grown found' own loaded =>
    have kept₀ := trans_of Retained grown.retained kept
    have kind : site.isStatic = row.isStatic := by rw [Site.ofMethod_ok sited found]
    obtain ⟨-, -, owned⟩ := (imported.grown grown).facts
    have reaches : Site.Reaches row field fieldRow m := by
      refine ⟨found', owned.owner found', fun inst => ?_⟩
      rcases own with static | own
      · rw [static] at inst
        cases inst
      · exact own
    exact ⟨1, (Site.loadField_pushes (checks.serves kept₀ found) kind reaches kept loaded).1⟩
  | loadLocal grown found' own loaded =>
    rw [Site.ofMethod_ok sited found] at found'
    exact ⟨1, Site.loadLocal_pushes (checks.serves kept found') own loaded⟩
  | convert value reference wanted made ih =>
    have on : Along Op.Adds _ _ := (Fragment.moves_convert _ _ _).of_ok made
    obtain ⟨placed, names, -⟩ := (imported.grown value.grown).facts
    obtain ⟨n, pushed⟩ := ih (trans_of Retained on.retained kept)
    obtain ⟨-, converts⟩ := Fragment.convert_pushes _ _ placed names _ _ made
    exact ⟨n, converts kept pushed reference (notVoid _ wanted)⟩
  | remove source handler reference reference' made ih ih' =>
    have on : Along Op.Adds _ _ := (Fragment.moves_arithmetic _ _ _ _).of_ok made
    obtain ⟨placed, names, -⟩ := (imported.grown source.grown).facts
    obtain ⟨n, pushed⟩ := ih (trans_of Retained on.retained kept)
    obtain ⟨n', pushed'⟩ := ih' (trans_of Retained on.retained kept)
    obtain ⟨-, removes⟩ := Fragment.arithmetic_pushes (h := .remove) _ _ placed names nofun rfl _ _ made
    exact ⟨_, removes kept pushed reference pushed' reference'⟩
  | combine source handler reference reference' made ih ih' =>
    have on : Along Op.Adds _ _ := (Fragment.moves_arithmetic _ _ _ _).of_ok made
    obtain ⟨placed, names, -⟩ := (imported.grown source.grown).facts
    obtain ⟨n, pushed⟩ := ih (trans_of Retained on.retained kept)
    obtain ⟨n', pushed'⟩ := ih' (trans_of Retained on.retained kept)
    obtain ⟨-, combines⟩ := Fragment.arithmetic_pushes (h := .combine) _ _ placed names nofun rfl _ _ made
    exact ⟨_, combines kept pushed reference pushed' reference'⟩
  | findWeak source handler fits fits' made ih ih' =>
    have on : Along Op.Adds _ _ := (Fragment.moves_findWeak _ _ _ _).of_ok made
    obtain ⟨placed, names, -⟩ := (imported.grown source.grown).facts
    obtain ⟨n, pushed⟩ := ih (trans_of Retained on.retained kept)
    obtain ⟨n', pushed'⟩ := ih' (trans_of Retained on.retained kept)
    obtain ⟨-, finds⟩ := Fragment.findWeak_pushes _ _ _ placed names _ _ made
    exact ⟨_, finds kept pushed fits pushed' fits'⟩
  | makeWeak handler unsubscribe fits fits' made ih ih' =>
    have on : Along Op.Adds _ _ := (Fragment.moves_makeWeak _ _ _ _).of_ok made
    obtain ⟨placed, names, -⟩ := (imported.grown handler.grown).facts
    obtain ⟨n, pushed⟩ := ih (trans_of Retained on.retained kept)
    obtain ⟨n', pushed'⟩ := ih' (trans_of Retained on.retained kept)
    obtain ⟨-, makes⟩ := Fragment.makeWeak_pushes _ _ _ placed names _ _ made
    exact ⟨_, makes kept pushed fits pushed' fits'⟩
  | @newDelegate m m' m'' f closed constructor callee grown closes later made =>
    have on : Along Op.Adds m m' := (HelperRefs.moves_closeActionConstructor _ _ _).of_ok closes
    have grown' := trans_of _ grown (trans_of _ on later)
    have kept₀ := trans_of Retained grown'.retained kept
    have kind : site.isStatic = row.isStatic := by rw [Site.ofMethod_ok sited found]
    obtain ⟨placed, names, -⟩ := (imported.grown grown).facts
    have constructs := later.retained.grows.memberRef
      (HelperRefs.closeActionConstructor_gives closed placed names _ _ closes)
    obtain ⟨calleeRow, foundCallee, -⟩ := except_bind_eq_ok_iff.mp made
    obtain ⟨d, owner⟩ := (imported.grown grown').methodsOwned.owner foundCallee
    have callable := callTarget_of_method foundCallee owner
    exact ⟨2, (Site.newDelegate_pushes (checks.serves kept₀ found) kind constructs callable kept made).1⟩
  | later value grown ih => exact ih (trans_of Retained grown.retained kept)

end Emitted

/-- Whatever was added to the module since a value was emitted, its code is accepted on every stack, pushes one
slot of the value's type, takes nothing from below at any point, and has bytes. Code that stores the value, into
a local or a field of its type, leads from every stack back to it, and has bytes. -/
theorem emitted_typed {m₁ : Module} (imported : Imported Op.KeepsOwners refs m₀)
    (found : m₀.method method = .ok row) (sited : Site.ofMethod m₀ method = .ok site)
    (emitted : Emitted (· ≠ .void) refs m₀ site row m f) (grown : Along Op.Adds m m₁)
    (later : Along Op.Adds m₁ m') :
    ∃ row₁ row' frame, m₁.method method = .ok row₁ ∧ m'.method method = .ok row' ∧
      m'.frameOf row' = .ok frame ∧
      ((∀ stack, frame.steps f.code stack = .ok (.value f.ty :: stack)) ∧
        (∀ pre post, f.code = pre ++ post →
          ∃ slots, ∀ stack, frame.steps pre stack = .ok (slots ++ stack)) ∧
        ∃ bytes, Code.encode f.code = .ok bytes) ∧
      (∀ v, row₁.body.locals[v.index]? = some v → v.index < Body.maxLocals → f.ty.SameName v.ty →
        ∃ code, site.storeLocal m₁ v f = .ok code ∧ (∀ stack, frame.steps code stack = .ok stack) ∧
          ∃ bytes, Code.encode code = .ok bytes) ∧
      ∀ field fieldRow, m₁.field field = .ok fieldRow → f.ty.SameName fieldRow.ty →
        (fieldRow.isStatic = true ∨ fieldRow.owner = row.owner ∧ row.isStatic = false) →
        ∃ code, site.storeField m₁ field f = .ok code ∧ (∀ stack, frame.steps code stack = .ok stack) ∧
          ∃ bytes, Code.encode code = .ok bytes := by
  have along₁ := trans_of _ emitted.grown grown
  have along' := trans_of _ along₁ later
  obtain ⟨row₁, found₁, grows₁⟩ := along₁.retained.methods found
  obtain ⟨row', found', grows'⟩ := later.retained.methods found₁
  obtain ⟨d, owner⟩ := (imported.grown along').methodsOwned.owner found'
  obtain ⟨frame, built⟩ := frameOf_of_owner owner
  obtain ⟨same, -⟩ := frameOf_ok built
  subst same
  have checks : frame.Checks method := ⟨row', found', built⟩
  have serves := checks.serves along'.retained found
  have sameMethod : site.method = method := by rw [Site.ofMethod_ok sited found]
  have sameKind : site.isStatic = row.isStatic := by rw [Site.ofMethod_ok sited found]
  obtain ⟨n, value⟩ := emitted.pushes imported found sited (fun _ h => h) checks
    (trans_of Retained grown.retained later.retained)
  have neutral : ∀ {code : Code} {k : Nat}, frame.Leaves code [] k →
      (∀ stack, frame.steps code stack = .ok stack) ∧ ∃ bytes, Code.encode code = .ok bytes :=
    fun leaves => ⟨leaves.on, leaves.encode⟩
  refine ⟨row₁, row', frame, found₁, found', built, ⟨value.on, ?_, value.encode⟩, ?_, ?_⟩
  · intro pre post split
    have steps := value.steps
    rw [split, Frame.steps_append] at steps
    obtain ⟨slots, reached, -⟩ := except_bind_eq_ok_iff.mp steps
    exact ⟨slots, (Frame.Grows.refl frame).steps reached⟩
  · intro v own addressable fits
    have inside := (List.getElem?_eq_some_iff.mp own).1
    obtain ⟨code, stored⟩ := Site.storeLocal_of_lt (sameMethod ▸ found₁) inside addressable f
    have serves₁ := checks.serves later.retained found₁
    exact ⟨code, stored, neutral (Site.storeLocal_leaves serves₁ own value fits stored)⟩
  · intro field fieldRow foundField fits kind
    have possible := kind.imp_right fun own => sameKind.trans own.2
    obtain ⟨code, stored⟩ := Site.storeField_of_kind foundField possible f
    obtain ⟨-, -, owned⟩ := (imported.grown along₁).facts
    have own : fieldRow.isStatic = false → fieldRow.owner = row.owner := by
      intro inst
      rcases kind with static | ⟨own, -⟩
      · rw [static] at inst
        cases inst
      · exact own
    have reaches : Site.Reaches row field fieldRow m₁ := ⟨foundField, owned.owner foundField, own⟩
    exact ⟨code, stored, neutral (Site.storeField_leaves serves sameKind reaches later.retained value fits stored)⟩

/-! ### Values in an accessor -/

deriving instance DecidableEq for Frame

namespace Ticker

/-! The adding accessor of the ticker, before any event is woven. -/

theorem declared_imported : Imported Op.KeepsOwners helpers declared := by
  have added : HelperRefs.addAll "WeakEvents.Runtime" (.empty "Ticker") = .ok helpers Ticker.imported :=
    eq_ok_of_value? (by decide +kernel)
  have start : Imported Op.KeepsOwners helpers Ticker.imported := .added .refl added
  exact start.operated (by simp [ops, Op.KeepsOwners])

def addRow : Method := { (accessor "add_Ticked").row publisher with token := event.add }

def addSite : Site := ⟨event.add, false, 1, some (.named .eventHandler)⟩

theorem addRow_found : declared.method event.add = .ok addRow := eq_ok_of_toOption (by decide +kernel)

theorem addSite_made : Site.ofMethod declared event.add = .ok addSite := eq_ok_of_toOption (by decide +kernel)

def argument : Fragment := ⟨[.loadArg 1], .named .eventHandler⟩

theorem argument_emitted {targets : Ty → Prop} :
    Emitted targets helpers declared addSite addRow declared argument :=
  .firstArgument rfl

/-- The argument, converted to the closed handler type. -/
def closedArgument : Fragment :=
  ⟨[.loadArg 1, .onToken .call (.ofRow .methodSpec 1)], .closedHandler (.named .eventArgs)⟩

def withClosed : Module := endState (argument.convert helpers closedArgument.ty declared)

/-- The wrapper of the argument that is found in the field. -/
def found : Fragment :=
  ⟨[.loadArg 0, .onToken .ldfld ticked, .loadArg 1, .onToken .call (.ofRow .methodSpec 1),
    .onToken .call (.ofRow .methodSpec 2)], closedArgument.ty⟩

def source : Fragment := ⟨[.loadArg 0, .onToken .ldfld ticked], .named .eventHandler⟩

def withFound : Module := endState (Fragment.findWeak helpers closedArgument.ty source closedArgument withClosed)

theorem found_emitted : Emitted (· ≠ .void) helpers declared addSite addRow withFound found := by
  have converted : argument.convert helpers closedArgument.ty declared = .ok closedArgument withClosed :=
    eq_ok_of_value? (by decide +kernel)
  have value : closedArgument.ty ≠ .void := nofun
  have handler : Emitted (· ≠ .void) helpers declared addSite addRow withClosed closedArgument :=
    .convert argument_emitted rfl value converted
  have field : withClosed.field ticked = .ok ⟨ticked, "Ticked", publisher, .privateFlag, .named .eventHandler⟩ :=
    eq_ok_of_toOption (by decide +kernel)
  have loaded : addSite.loadField withClosed ticked = .ok source := eq_ok_of_toOption (by decide +kernel)
  have read : Emitted (· ≠ .void) helpers declared addSite addRow withClosed source :=
    .loadField handler.grown field (.inr rfl) loaded
  exact .findWeak read handler (by decide) (by decide) (eq_ok_of_value? (by decide +kernel))

theorem ticker_emitted_typed :
    Imported Op.KeepsOwners helpers declared ∧ declared.method event.add = .ok addRow ∧
      Site.ofMethod declared event.add = .ok addSite ∧
      Emitted (· ≠ .void) helpers declared addSite addRow withFound found ∧
      ∃ row frame, withFound.method event.add = .ok row ∧ withFound.frameOf row = .ok frame ∧
        ∀ stack, frame.steps found.code stack = .ok (.value found.ty :: stack) := by
  obtain ⟨-, row, frame, -, foundRow, built, ⟨typed, -⟩, -⟩ :=
    emitted_typed declared_imported addRow_found addSite_made found_emitted .refl .refl
  exact ⟨declared_imported, addRow_found, addSite_made, found_emitted, row, frame, foundRow, built, typed⟩

/-- The argument, converted to no type at all. -/
def voidArgument : Fragment := ⟨[.loadArg 1, .onToken .call (.ofRow .methodSpec 1)], .void⟩

def withVoid : Module := endState (argument.convert helpers .void declared)

/-- A conversion to `void` is emitted as a value, but calls a helper that then has no result: the code takes the
argument and pushes nothing. -/
theorem ticker_void_not_typed :
    Imported Op.KeepsOwners helpers declared ∧ declared.method event.add = .ok addRow ∧
      Site.ofMethod declared event.add = .ok addSite ∧
      Emitted (fun _ => True) helpers declared addSite addRow withVoid voidArgument ∧
      ∃ frame, withVoid.method event.add = .ok addRow ∧ withVoid.frameOf addRow = .ok frame ∧
        frame.steps voidArgument.code [] = .ok [] ∧
        ¬ ∀ stack, frame.steps voidArgument.code stack = .ok (.value voidArgument.ty :: stack) := by
  have emitted : Emitted (fun _ => True) helpers declared addSite addRow withVoid voidArgument :=
    .convert argument_emitted rfl trivial (eq_ok_of_value? (by decide +kernel))
  let frame : Frame := ⟨withVoid, [.named ⟨"Sample", "Ticker"⟩, .named .eventHandler], [], .void⟩
  have steps : frame.steps voidArgument.code [] = .ok [] := eq_ok_of_toOption (by decide +kernel)
  refine ⟨declared_imported, addRow_found, addSite_made, emitted, frame, ?_, ?_, steps, ?_⟩
  · exact eq_ok_of_toOption (by decide +kernel)
  · exact eq_ok_of_toOption (by decide +kernel)
  · intro typed
    cases steps.symm.trans (typed [])

end Ticker

end WeakSubscription
