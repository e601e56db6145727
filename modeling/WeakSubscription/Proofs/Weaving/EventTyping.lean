import WeakSubscription.Proofs.Module.Exhaustion
import WeakSubscription.Proofs.Module.Ownership
import WeakSubscription.Proofs.Weaving.Accessors
import WeakSubscription.Proofs.Weaving.Typing

/-!
# Types of the code of an event

Where the field of an event is in its module and the helpers are, each piece of code for the event is made
unless a table is full, and it leaves the stack as it found it in every frame of its method.
-/

open WeakSubscription.Module

namespace WeakSubscription

open Verification Tracked

variable {event : Event} {m m' : Module} {refs : HelperRefs} {f g : Fragment} {frame : Frame} {n : Nat}
  {method : Token} {row : Method} {site : Site}

/-! ### Failures of single operations -/

namespace Fragment

theorem convert_fails (names : refs.Name m) (f : Fragment) (target : Ty) :
    Fails OutOfReferences (f.convert refs target) m :=
  fails_bind (addMethodSpec_fails (names .changeType) rfl) fun _ _ _ => fails_pure _

theorem arithmetic_fails (helper : Token) (f g : Fragment) (m : Module) :
    Fails OutOfReferences (arithmetic helper f g) m :=
  fails_bind (importType_fails _ m) fun _ _ _ => fails_pure _

theorem findWeak_fails (names : refs.Name m) (a : Ty) (f g : Fragment) :
    Fails OutOfReferences (findWeak refs (Ty.closedHandler a) f g) m :=
  fails_bind (addMethodSpec_fails (names .findWeak) rfl) fun _ _ _ => fails_pure _

theorem makeWeak_fails (names : refs.Name m) (a : Ty) (f g : Fragment) :
    Fails OutOfReferences (makeWeak refs (Ty.closedHandler a) f g) m :=
  fails_bind (addMethodSpec_fails (names .makeWeak) rfl) fun _ _ _ => fails_pure _

end Fragment

theorem HelperRefs.closeActionConstructor_fails (names : refs.Name m) (closed : Ty) :
    Fails OutOfReferences (refs.closeActionConstructor closed) m :=
  fails_get_bind (fails_lift_bind (names .actionConstructor) (addMemberRef_fails _ _ _ m))

theorem converted_fails (names : event.refs.Name m) (f : Fragment) (target : Ty) :
    Fails OutOfReferences (event.converted f target) m := by
  unfold Event.converted
  split
  · exact fails_pure _
  · exact Fragment.convert_fails names f target

/-- A conversion between reference types gives a value of the type that is wanted, as high as the value. -/
theorem converted_pushes (f : Fragment) {target : Ty} (placed : m.Placed) (names : event.refs.Name m)
    (same : event.isGeneric = true → f.ty.SameName target) (reference : f.ty.isReference = true)
    (wanted : target.isReference = true) :
    Gives (fun g m' => g.ty.SameName target ∧ g.ty.isReference = true ∧ ∀ {frame : Frame} {n : Nat},
      Retained m' frame.module → f.Pushes frame n → g.Pushes frame n) (event.converted f target) m := by
  unfold Event.converted
  split
  · rename_i generic
    exact gives_pure ⟨same generic, reference, fun _ value => value⟩
  · intro g m' made
    obtain ⟨ty, pushes⟩ := Fragment.convert_pushes f target placed names g m' made
    have value : target ≠ .void := by
      rintro rfl
      cases wanted
    refine ⟨congrArg Ty.fullName ty, ty ▸ wanted, ?_⟩
    intro frame n kept pushed
    exact pushes kept pushed reference value

/-! ### Events and their methods -/

/-- The event is backed by a field of a reference type whose owner is there. -/
structure Event.Typed (event : Event) (m : Module) : Prop where
  backed : event.Backed m
  reference : event.handler.isReference = true
  owner : ∃ d, m.typeDef event.owner = .ok d

theorem Event.Typed.grow (typed : event.Typed m) (grows : Grows m m') : event.Typed m' := by
  obtain ⟨d, owner⟩ := typed.owner
  obtain ⟨d', owner', -⟩ := grows.typeDef owner
  exact ⟨typed.backed.grow grows, typed.reference, d', owner'⟩

theorem Event.Typed.closed_reference (typed : event.Typed m) : event.closed.isReference = true := by
  obtain ⟨a, same⟩ := typed.backed.closed
  rw [same]
  rfl

/-- A method of the type that declares the event, static exactly if the event is, with one parameter. -/
structure Event.Accepts (event : Event) (param : Ty) (row : Method) : Prop where
  owner : row.owner = event.owner
  isStatic : row.isStatic = event.isStatic
  params : row.params.map (·.ty) = [param]

namespace Event.Accepts

variable {param : Ty}

theorem grow {row' : Method} (accepts : event.Accepts param row) (grows : row.Grows row') :
    event.Accepts param row' := by
  obtain ⟨same, -⟩ := grows
  generalize row'.body = body at same
  subst same
  exact ⟨accepts.owner, accepts.isStatic, accepts.params⟩

theorem ofMethod (accepts : event.Accepts param row) (found : m.method method = .ok row) :
    ∃ site first, Site.ofMethod m method = .ok site ∧ site.method = method ∧
      site.isStatic = event.isStatic ∧ site.firstArgument = .ok first ∧ first.ty = param := by
  have head : row.params.head?.map (·.ty) = some param := by
    rw [← List.head?_map, accepts.params]
    rfl
  exact ⟨_, ⟨[.loadArg row.firstParamIndex], param⟩, Site.ofMethod_of_first found head, rfl, accepts.isStatic, rfl, rfl⟩

end Event.Accepts

namespace Event.Typed

variable {param : Ty} {m₁ : Module}

theorem reaches (typed : event.Typed m) (owner : row.owner = event.owner) :
    ∃ fieldRow, Site.Reaches row event.field fieldRow m ∧ fieldRow.ty = event.handler ∧
      fieldRow.isStatic = event.isStatic := by
  obtain ⟨fieldRow, found, ty, static, fieldOwner, -⟩ := typed.backed.field
  obtain ⟨d, owned⟩ := typed.owner
  exact ⟨fieldRow, ⟨found, ⟨d, fieldOwner ▸ owned⟩, fun _ => fieldOwner.trans owner.symm⟩, ty, static⟩

theorem loads (typed : event.Typed m₁) (accepts : event.Accepts param row)
    (kind : site.isStatic = event.isStatic) :
    ∃ f, site.loadField m₁ event.field = .ok f ∧ f.ty = event.handler ∧ ∀ {frame : Frame} {m : Module},
      frame.Serves m row → Retained m₁ frame.module → f.Pushes frame 1 := by
  obtain ⟨fieldRow, reaches, ty, static⟩ := typed.reaches accepts.owner
  have possible : fieldRow.isStatic = true ∨ site.isStatic = false := by
    rw [static, kind]
    cases event.isStatic <;> simp
  obtain ⟨f, loaded⟩ := Site.loadField_of_kind reaches.found possible
  refine ⟨f, loaded, (loadField_ty loaded reaches.found).trans ty, ?_⟩
  intro frame m serves kept
  exact (Site.loadField_pushes serves (kind.trans accepts.isStatic.symm) reaches kept loaded).1

theorem stores (typed : event.Typed m₁) (accepts : event.Accepts param row)
    (kind : site.isStatic = event.isStatic) (fits : f.ty.SameName event.handler) :
    ∃ code, site.storeField m₁ event.field f = .ok code ∧ ∀ {frame : Frame} {m : Module} {n : Nat},
      frame.Serves m row → Retained m₁ frame.module → f.Pushes frame n →
      frame.Leaves code [] (if event.isStatic then n else n + 1) := by
  obtain ⟨fieldRow, reaches, ty, static⟩ := typed.reaches accepts.owner
  have possible : fieldRow.isStatic = true ∨ site.isStatic = false := by
    rw [static, kind]
    cases event.isStatic <;> simp
  obtain ⟨code, stored⟩ := Site.storeField_of_kind reaches.found possible f
  refine ⟨code, stored, ?_⟩
  intro frame m n serves kept value
  rw [← static]
  exact Site.storeField_leaves serves (kind.trans accepts.isStatic.symm) reaches kept value
    (by rw [ty]; exact fits) stored

end Event.Typed

/-! ### The unsubscribing method -/

/-- The body of the unsubscribing method returns from the stack that it starts with. -/
theorem unsubscribeCode_yields (placed : m.Placed) (typed : event.Typed m)
    (found : m.method method = .ok row) (accepts : event.Accepts event.closed row) :
    Yields (fun code m' => ∃ pre, code = Code.thenReturn pre ∧ ∀ {frame : Frame}, frame.Checks method →
        Retained m' frame.module → frame.Leaves pre [] (if event.isStatic then 2 else 3)) OutOfReferences
      (event.unsubscribeCode method) m := by
  obtain ⟨site, first, sited, -, kind, argued, firstTy⟩ := accepts.ofMethod found
  refine yields_get_bind (yields_lift_bind sited (yields_lift_bind argued ?_))
  have names := typed.backed.refs
  refine yields_bind (converted_fails names _ _) fun handler m₁ handlerMade => ?_
  have ev₁ := evolves_of_ok (moves_converted _ _ _ _) handlerMade
  have typed₁ := typed.grow ev₁.grows
  obtain ⟨-, handlerReference, handlerPushed⟩ := converted_pushes first placed names
    (firstTy ▸ typed.backed.generic) (firstTy ▸ typed.closed_reference) typed.reference _ _ handlerMade
  obtain ⟨source, loaded, sourceTy, sourcePushed⟩ := typed₁.loads accepts kind
  refine yields_get_bind (yields_lift_bind loaded ?_)
  refine yields_bind (Fragment.arithmetic_fails _ _ _ _) fun removed m₂ removedMade => ?_
  have ev₂ := evolves_of_ok (Fragment.moves_arithmetic _ _ _ _) removedMade
  have placed₁ := ev₁.placed placed
  obtain ⟨removedTy, removedPushed⟩ := Fragment.arithmetic_pushes (h := .remove) source handler placed₁
    (names.grow ev₁.grows) nofun rfl _ _ removedMade
  have names₂ := (names.grow ev₁.grows).grow ev₂.grows
  refine yields_bind (converted_fails names₂ _ _) fun remaining m₃ remainingMade => ?_
  have ev₃ := evolves_of_ok (moves_converted _ _ _ _) remainingMade
  have removedTy := removedTy.trans sourceTy
  obtain ⟨fits, -, remainingPushed⟩ := converted_pushes _ (ev₂.placed placed₁) names₂
    (fun _ => congrArg Ty.fullName removedTy) (removedTy ▸ typed.reference) typed.reference _ _ remainingMade
  obtain ⟨stored, storing, leaves⟩ := ((typed₁.grow ev₂.grows).grow ev₃.grows).stores accepts kind fits
  refine yields_get_bind (yields_lift_bind storing (yields_pure ⟨stored, rfl, ?_⟩))
  intro frame checks kept
  have kept₂ := trans_of Retained ev₃.retained kept
  have kept₁ := trans_of Retained ev₂.retained kept₂
  have serves := checks.serves (trans_of Retained ev₁.retained kept₁) found
  have argument := Site.firstArgument_pushes sited found serves argued
  have sourceReference : source.ty.isReference = true := sourceTy ▸ typed.reference
  have removes := removedPushed kept₂ (sourcePushed serves kept₁) sourceReference
    (handlerPushed kept₁ argument) handlerReference
  exact leaves serves kept (remainingPushed kept removes)

/-! ### The code for the accessors -/

/-- The code leaves every stack as it was, in every frame of the method from this module on. -/
def LeavesStack (method : Token) (code : Code) (m : Module) : Prop :=
  ∀ {frame : Frame}, frame.Checks method → Retained m frame.module → ∃ n, frame.Leaves code [] n

/-- A variable of the method that holds a value of the event's handler type. -/
structure Event.Holds (event : Event) (row : Method) (v : Variable) : Prop where
  own : row.body.locals[v.index]? = some v
  addressable : v.index < Body.maxLocals
  ty : v.ty = event.handler

theorem Event.Holds.inside {v : Variable} (holds : event.Holds row v) : v.index < row.body.locals.length :=
  (List.getElem?_eq_some_iff.mp holds.own).1

theorem Event.Holds.stores {v : Variable} (holds : event.Holds row v) (found : m.method method = .ok row)
    (same : site.method = method) (fits : f.ty.SameName event.handler) :
    ∃ code, site.storeLocal m v f = .ok code ∧ ∀ {frame : Frame} {n : Nat}, frame.Serves m row →
      f.Pushes frame n → frame.Leaves code [] n := by
  obtain ⟨code, stored⟩ := Site.storeLocal_of_lt (same ▸ found) holds.inside holds.addressable f
  refine ⟨code, stored, ?_⟩
  intro frame n serves value
  exact Site.storeLocal_leaves serves holds.own value (by rw [holds.ty]; exact fits) stored

theorem findWeakCode_yields {v : Variable} (placed : m.Placed) (typed : event.Typed m)
    (found : m.method method = .ok row) (accepts : event.Accepts event.handler row)
    (holds : event.Holds row v) :
    Yields (fun code m' => LeavesStack method code m') OutOfReferences (event.findWeakCode method v) m := by
  obtain ⟨site, first, sited, sameMethod, kind, argued, firstTy⟩ := accepts.ofMethod found
  refine yields_get_bind (yields_lift_bind sited (yields_lift_bind argued ?_))
  have names := typed.backed.refs
  obtain ⟨a, isClosed⟩ := typed.backed.closed
  refine yields_bind (converted_fails names _ _) fun handler m₁ handlerMade => ?_
  have ev₁ := evolves_of_ok (moves_converted _ _ _ _) handlerMade
  have typed₁ := typed.grow ev₁.grows
  obtain ⟨handlerFits, -, handlerPushed⟩ := converted_pushes first placed names
    (fun generic => firstTy ▸ (typed.backed.generic generic).symm) (firstTy ▸ typed.reference)
    typed.closed_reference _ _ handlerMade
  obtain ⟨source, loaded, sourceTy, sourcePushed⟩ := typed₁.loads accepts kind
  refine yields_get_bind (yields_lift_bind loaded ?_)
  have placed₁ := ev₁.placed placed
  have names₁ := names.grow ev₁.grows
  rw [isClosed] at handlerFits ⊢
  refine yields_bind (Fragment.findWeak_fails names₁ a _ _) fun wrapped m₂ wrappedMade => ?_
  have ev₂ := evolves_of_ok (Fragment.moves_findWeak _ _ _ _) wrappedMade
  obtain ⟨wrappedTy, wrappedPushed⟩ :=
    Fragment.findWeak_pushes a source handler placed₁ names₁ _ _ wrappedMade
  have wrappedTy := wrappedTy.trans isClosed.symm
  have names₂ := names₁.grow ev₂.grows
  refine yields_bind (converted_fails names₂ _ _) fun stored m₃ storedMade => ?_
  have ev₃ := evolves_of_ok (moves_converted _ _ _ _) storedMade
  obtain ⟨fits, -, storedPushed⟩ := converted_pushes wrapped (ev₂.placed placed₁) names₂
    (wrappedTy ▸ typed.backed.generic) (wrappedTy ▸ typed.closed_reference) typed.reference _ _ storedMade
  have found₃ := (ev₃.keeps id).row ((ev₂.keeps id).row ((ev₁.keeps id).row found))
  obtain ⟨code, storing, leaves⟩ := holds.stores found₃ sameMethod fits
  refine yields_get_bind (yields_lift storing ?_)
  intro frame checks kept
  have kept₂ := trans_of Retained ev₃.retained kept
  have kept₁ := trans_of Retained ev₂.retained kept₂
  have serves := checks.serves (trans_of Retained ev₁.retained kept₁) found
  have argument := Site.firstArgument_pushes sited found serves argued
  have finds := wrappedPushed kept₂ (sourcePushed serves kept₁)
    (Slot.assignable_delegate (sourceTy ▸ typed.reference)) (handlerPushed kept₁ argument)
    (Slot.assignable_of_sameName handlerFits)
  exact ⟨_, leaves (checks.serves kept found₃) (storedPushed kept finds)⟩

/-- The method can be bound to the instance of the event: it is static exactly if the event is, and its owner
is there. -/
def Event.Binds (event : Event) (m : Module) (unsubscribe : Token) : Prop :=
  ∃ row d, m.method unsubscribe = .ok row ∧ row.isStatic = event.isStatic ∧ m.typeDef row.owner = .ok d

theorem Event.Binds.keep {unsubscribe : Token} (binds : event.Binds m unsubscribe) (kept : Retained m m') :
    event.Binds m' unsubscribe := by
  obtain ⟨row, d, found, static, owner⟩ := binds
  obtain ⟨row', found', same, -⟩ := kept.methods found
  generalize row'.body = body at same
  subst same
  obtain ⟨d', owner', -⟩ := kept.typeDef owner
  exact ⟨_, d', found', static, owner'⟩

theorem makeWeakCode_yields {unsubscribe : Token} {v : Variable} (placed : m.Placed) (typed : event.Typed m)
    (found : m.method method = .ok row) (accepts : event.Accepts event.handler row)
    (holds : event.Holds row v) (binds : event.Binds m unsubscribe) :
    Yields (fun code m' => LeavesStack method code m') OutOfReferences
      (event.makeWeakCode method unsubscribe v) m := by
  have names := typed.backed.refs
  obtain ⟨a, isClosed⟩ := typed.backed.closed
  refine yields_bind (HelperRefs.closeActionConstructor_fails names _) fun constructor m₁ closing => ?_
  have ev₁ := evolves_of_ok (HelperRefs.moves_closeActionConstructor _ _ _) closing
  have closes := HelperRefs.closeActionConstructor_gives _ placed names _ _ closing
  have placed₁ := ev₁.placed placed
  have names₁ := names.grow ev₁.grows
  have typed₁ := typed.grow ev₁.grows
  have found₁ := (ev₁.keeps id).row found
  obtain ⟨site, first, sited, sameMethod, kind, argued, firstTy⟩ := accepts.ofMethod found₁
  refine yields_get_bind (yields_lift_bind sited ?_)
  obtain ⟨unsubscribeRow, d, foundUnsubscribe, static, owner⟩ := binds.keep ev₁.retained
  have possible : unsubscribeRow.isStatic = true ∨ site.isStatic = false := by
    rw [static, kind]
    cases event.isStatic <;> simp
  obtain ⟨callback, made⟩ : ∃ callback, site.newDelegate m₁ constructor unsubscribe = .ok callback :=
    ⟨_, Site.newDelegate_of_kind foundUnsubscribe possible (callTarget_of_closedConstructor closes)⟩
  refine yields_get_bind (yields_lift_bind made (yields_lift_bind argued ?_))
  refine yields_bind (converted_fails names₁ _ _) fun handler m₂ handlerMade => ?_
  have ev₂ := evolves_of_ok (moves_converted _ _ _ _) handlerMade
  obtain ⟨handlerFits, -, handlerPushed⟩ := converted_pushes first placed₁ names₁
    (fun generic => firstTy ▸ (typed.backed.generic generic).symm) (firstTy ▸ typed.reference)
    typed.closed_reference _ _ handlerMade
  have placed₂ := ev₂.placed placed₁
  have names₂ := names₁.grow ev₂.grows
  rw [isClosed] at handlerFits closes ⊢
  refine yields_bind (Fragment.makeWeak_fails names₂ a _ _) fun weak m₃ weakMade => ?_
  have ev₃ := evolves_of_ok (Fragment.moves_makeWeak _ _ _ _) weakMade
  obtain ⟨weakTy, weakPushed⟩ := Fragment.makeWeak_pushes a handler callback placed₂ names₂ _ _ weakMade
  have weakTy := weakTy.trans isClosed.symm
  have names₃ := names₂.grow ev₃.grows
  refine yields_bind (converted_fails names₃ _ _) fun stored m₄ storedMade => ?_
  have ev₄ := evolves_of_ok (moves_converted _ _ _ _) storedMade
  obtain ⟨fits, -, storedPushed⟩ := converted_pushes weak (ev₃.placed placed₂) names₃
    (weakTy ▸ typed.backed.generic) (weakTy ▸ typed.closed_reference) typed.reference _ _ storedMade
  have found₄ := (ev₄.keeps id).row ((ev₃.keeps id).row ((ev₂.keeps id).row found₁))
  obtain ⟨code, storing, leaves⟩ := holds.stores found₄ sameMethod fits
  refine yields_get_bind (yields_lift storing ?_)
  intro frame checks kept
  have kept₃ := trans_of Retained ev₄.retained kept
  have kept₂ := trans_of Retained ev₃.retained kept₃
  have kept₁ := trans_of Retained ev₂.retained kept₂
  have serves := checks.serves kept₁ found₁
  have argument := Site.firstArgument_pushes sited found₁ serves argued
  obtain ⟨bound, boundTy⟩ := Site.newDelegate_pushes serves (kind.trans accepts.isStatic.symm) closes
    (callTarget_of_method foundUnsubscribe owner) kept₁ made
  have wraps := weakPushed kept₃ (handlerPushed kept₂ argument) (Slot.assignable_of_sameName handlerFits)
    bound (Slot.assignable_of_sameName (congrArg Ty.fullName boundTy))
  exact ⟨_, leaves (checks.serves kept found₄) (storedPushed kept wraps)⟩

theorem assignCode_yields {h : Helper} {v : Variable} (other : h ≠ .actionConstructor)
    (same : h.signature = .ofStatic [.named .delegate, .named .delegate] (.named .delegate))
    (placed : m.Placed) (typed : event.Typed m) (found : m.method method = .ok row)
    (accepts : event.Accepts event.handler row) (holds : event.Holds row v) :
    Yields (fun code m' => LeavesStack method code m') OutOfReferences
      (event.assignCode (fun refs => Fragment.arithmetic (refs.token h)) method
        fun site m => site.loadLocal m v) m := by
  obtain ⟨site, -, sited, sameMethod, kind, -⟩ := accepts.ofMethod found
  have names := typed.backed.refs
  refine yields_get_bind (yields_lift_bind sited ?_)
  obtain ⟨source, loaded, sourceTy, sourcePushed⟩ := typed.loads accepts kind
  refine yields_get_bind (yields_lift_bind loaded ?_)
  obtain ⟨value, read, valueTy⟩ := Site.loadLocal_of_lt (sameMethod ▸ found) holds.inside holds.addressable
  refine yields_get_bind (yields_lift_bind read ?_)
  refine yields_bind (Fragment.arithmetic_fails _ _ _ _) fun assigned m₁ assignedMade => ?_
  have ev₁ := evolves_of_ok (Fragment.moves_arithmetic _ _ _ _) assignedMade
  obtain ⟨assignedTy, assignedPushed⟩ :=
    Fragment.arithmetic_pushes source value placed names other same _ _ assignedMade
  have fits : assigned.ty.SameName event.handler := congrArg Ty.fullName (assignedTy.trans sourceTy)
  obtain ⟨code, storing, leaves⟩ := (typed.grow ev₁.grows).stores accepts kind fits
  refine yields_get_bind (yields_lift storing ?_)
  intro frame checks kept
  have kept₀ := trans_of Retained ev₁.retained kept
  have serves := checks.serves kept₀ found
  have valueReference : value.ty.isReference = true := by
    rw [valueTy, holds.ty]
    exact typed.reference
  have assigns := assignedPushed kept (sourcePushed serves kept₀) (sourceTy ▸ typed.reference)
    (Site.loadLocal_pushes serves holds.own read) valueReference
  exact ⟨_, leaves serves kept assigns⟩

end WeakSubscription
