import WeakSubscription.Proofs.Verification.Splicing
import WeakSubscription.Proofs.Weaving.Emitted
import WeakSubscription.Proofs.Weaving.EventTyping

/-!
# Woven bodies verify

For every field of which the event arguments are known, an event can be woven: the unsubscribing method is added
unless its name is taken, its body verifies, and so does every accessor after code for the event was put into
it. What can still fail is that a table is full.
-/

open WeakSubscription.Module

namespace WeakSubscription

open Verification Tracked

variable {event : Event} {m m' : Module} {refs : HelperRefs} {method t : Token} {row : Method} {summary : Summary}
  {apply : HelperRefs → Fragment → Fragment → Edit Fragment} {piece : Variable → Edit Code} {P : Op → Prop}

/-! ### Events of a field -/

theorem Module.eventArgs_reference {handler args : Ty} (derived : m.eventArgs handler = .ok args) :
    handler.isReference = true := by
  cases handler with
  | named name => rfl
  | inst base params => rfl
  | void | object | intPtr | typeParam index | methodParam index => cases derived

theorem HelperRefs.requireResolved_of_name (names : refs.Name m) : refs.requireResolved m = .ok () := by
  have all : Helper.all.find? (!refs.resolvesIn m ·) = none := by
    apply List.find?_eq_none.mpr
    intro h _
    unfold resolvesIn
    rw [names h]
    cases h <;> simp [Helper.isNamedBy, MemberRef.names, Helper.member, Helper.parent, Helper.owner, Ty.typeName?]
  unfold requireResolved
  rw [all]

/-- A field of which the event arguments are known has an event. -/
theorem Event.ofField_of_args {field : Token} {row : Field} {args : Ty} (names : refs.Name m)
    (found : m.field field = .ok row) (derived : m.eventArgs row.ty = .ok args) (settings : Settings) :
    ∃ event : Event, Event.ofField m field refs settings = .ok event ∧ event.refs = refs ∧
      event.name = row.name ∧ event.owner = row.owner ∧ event.isStatic = row.isStatic ∧
      event.closed = .closedHandler args := by
  unfold Event.ofField
  rw [found, HelperRefs.requireResolved_of_name names]
  show ∃ event, (m.eventArgs row.ty >>= _) = _ ∧ _
  rw [derived]
  exact ⟨_, rfl, rfl, rfl, rfl, rfl, rfl⟩

theorem Event.typed_of_ofField {field : Token} {settings : Settings} (names : refs.Name m) (owned : m.FieldsOwned)
    (made : Event.ofField m field refs settings = .ok event) : event.Typed m := by
  obtain ⟨backed, -, -⟩ := Event.ofField_ok made names
  obtain ⟨row, found, h₁⟩ := except_bind_eq_ok_iff.mp made
  obtain ⟨-, -, h₂⟩ := except_bind_eq_ok_iff.mp h₁
  obtain ⟨args, derived, built⟩ := except_bind_eq_ok_iff.mp h₂
  obtain rfl := Except.ok.inj built
  exact ⟨backed, eventArgs_reference derived, owned.owner found⟩

/-! ### The unsubscribing method -/

/-- The row of an unsubscribing method. -/
structure Event.IsUnsubscribing (event : Event) (row : Method) : Prop where
  name : row.name = unsubscribeName event.name
  owner : row.owner = event.owner
  isPrivate : row.isPrivate = true
  isStatic : row.isStatic = event.isStatic
  result : row.result = .void
  params : row.params = [⟨none, event.closed⟩]
  attributes : row.attributes = [event.refs.compilerGenerated]

namespace Event.IsUnsubscribing

theorem grow {row' : Method} (is : event.IsUnsubscribing row) (grows : row.Grows row') :
    event.IsUnsubscribing row' := by
  obtain ⟨same, -⟩ := grows
  generalize row'.body = body at same
  subst same
  exact ⟨is.name, is.owner, is.isPrivate, is.isStatic, is.result, is.params, is.attributes⟩

theorem accepts (is : event.IsUnsubscribing row) : event.Accepts event.closed row :=
  ⟨is.owner, is.isStatic, by rw [is.params]; rfl⟩

theorem ofDecl (event : Event) (token : Token) :
    event.IsUnsubscribing { event.unsubscribeDecl.row event.owner with token } := by
  obtain ⟨static, name, owner, void, -⟩ := unsubscribeDecl_row event event.owner
  refine ⟨name, owner, ?_, static, void, ?_, ?_⟩
  all_goals
    unfold unsubscribeDecl MethodDecl.staticIf
    cases event.isStatic <;> rfl

end Event.IsUnsubscribing

/-- A body that leaves no slots before its return verifies, with the height of the code before the return. -/
theorem Module.verify_of_leaves {frame : Frame} {pre : Code} {n : Nat} (found : m.method t = .ok row)
    (built : m.frameOf row = .ok frame) (void : row.result = .void) (split : row.body.code = pre.thenReturn)
    (leaves : frame.Leaves pre [] n) : m.verify t = .ok ⟨n, row.body.code.length⟩ := by
  obtain ⟨-, -, result, -⟩ := frameOf_ok built
  have returns : frame.checkCode (0 + pre.length) (max 0 n) [] [.plain .ret] = .ok (max 0 n) := by
    have returned : frame.checkReturn [] = .ok () := by
      unfold Frame.checkReturn
      rw [result, void]
      rfl
    have op : (Instruction.plain .ret).opcode = .ret := rfl
    rw [Frame.checkCode, if_pos op, returned]
    rfl
  have accepted : frame.checkCode 0 0 [] pre.thenReturn = .ok n := by
    unfold Code.thenReturn
    rw [Frame.checkCode_append leaves.noReturn leaves.steps (Nat.le_refl 0), leaves.rise, returns, Nat.zero_max]
  rw [verify_eq found built, split, accepted]

/-- Once its code is made, a new method of the event's type gets it as a body that verifies, whether that is looked
at or not. -/
theorem implementUnsubscribe_of_made {code : Code} {m₁ : Module} (placed : m.Placed) (typed : event.Typed m)
    (found : m.method method = .ok row) (is : event.IsUnsubscribing row) (empty : row.body.code = [])
    (made : event.unsubscribeCode method m = .ok code m₁) :
    ∃ m₂, insertCode method code 0 m₁ = .ok () m₂ ∧ event.implementUnsubscribe method m = .ok () m₂ ∧
      m₂.method method = .ok { row with body := { row.body with code } } ∧ Retained m₁ m₂ ∧
      m₂.verify method = .ok ⟨if event.isStatic then 2 else 3, code.length⟩ := by
  obtain ⟨pre, rfl, leaves⟩ := (unsubscribeCode_yields placed typed found is.accepts).1 _ _ made
  have ev₁ := evolves_of_ok (moves_unsubscribeCode _ _ _) made
  have found₁ := (ev₁.keeps id).row found
  obtain ⟨d, owner⟩ := (typed.grow ev₁.grows).owner
  obtain ⟨frame₁, built₁⟩ := frameOf_of_owner (is.owner ▸ owner)
  obtain ⟨m₂, frame, inserted, kept, found₂, built, -⟩ :=
    insertCode_of_le found₁ built₁ pre.thenReturn (Nat.zero_le _)
  have split : row.body.code.take 0 ++ pre.thenReturn ++ row.body.code.drop 0 = pre.thenReturn := by
    rw [empty]
    exact List.append_nil _
  rw [split] at found₂
  obtain ⟨same, -⟩ := frameOf_ok built
  have verified := verify_of_leaves found₂ built is.result rfl (leaves ⟨_, same ▸ found₂, same ▸ built⟩ (same ▸ kept))
  refine ⟨m₂, inserted, ?_, found₂, kept, verified⟩
  refine bind_eq_ok_iff.mpr ⟨_, m₁, made, bind_eq_ok_iff.mpr ⟨(), m₂, inserted, ?_⟩⟩
  -- the settings only say whether what holds anyway is looked at
  split
  · rw [get_bind, verified]
    rfl
  · rfl

/-- A new method of the event's type gets a body that verifies. Where it does not get one, nothing but
references and types was added. -/
theorem implementUnsubscribe_yields (placed : m.Placed) (typed : event.Typed m)
    (found : m.method method = .ok row) (is : event.IsUnsubscribing row) (empty : row.body.code = []) :
    Yields (fun _ m' => ∃ row' m₁, m'.method method = .ok row' ∧ row.Grows row' ∧
        m'.verify method = .ok ⟨if event.isStatic then 2 else 3, row'.body.code.length⟩ ∧
        event.unsubscribeCode method m = .ok row'.body.code m₁ ∧ Module.Grows m₁ m')
      (fun e m' => OutOfReferences e m' ∧ SameMethods m m') (event.implementUnsubscribe method) m := by
  have makes := (unsubscribeCode_yields placed typed found is.accepts).moved
    (moves_unsubscribeCode event method m : Moves SameMethods _ m)
  rcases makes.cases with ⟨code, m₁, made, -⟩ | ⟨e, m₁, failed, out⟩
  · obtain ⟨m₂, -, ran, found₂, kept, verified⟩ := implementUnsubscribe_of_made placed typed found is empty made
    exact yields_of_ok ran ⟨_, m₁, found₂, ⟨rfl, List.prefix_refl _⟩, verified, made, kept.grows⟩
  · exact yields_of_error (bind_of_error failed) out

/-- The body of an unsubscribing method is the code that was made for it, in a module that this one grew out of. -/
def Event.MadeFor (event : Event) (method : Token) (code : Code) (m : Module) : Prop :=
  ∃ m₀ m₁ row, m₀.Placed ∧ event.Typed m₀ ∧ m₀.method method = .ok row ∧ event.IsUnsubscribing row ∧
    event.unsubscribeCode method m₀ = .ok code m₁ ∧ Module.Grows m₁ m

/-- The unsubscribing method is added and verifies, whatever the settings say, or a table is full. -/
theorem addUnsubscribe_yields (placed : m.Placed) (typed : event.Typed m)
    (free : (m.findMethod? event.owner (unsubscribeName event.name)).isSome = false) :
    Yields (fun t m' => ∃ row, m'.method t = .ok row ∧ event.IsUnsubscribing row ∧
        m'.verify t = .ok ⟨if event.isStatic then 2 else 3, row.body.code.length⟩ ∧
        event.MadeFor t row.body.code m')
      OutOfRows event.addUnsubscribe m := by
  obtain ⟨d, owner⟩ := typed.owner
  obtain ⟨-, -, sameOwner, -, empty⟩ := unsubscribeDecl_row event event.owner
  apply yields_get_bind
  dsimp only
  rw [free]
  refine yields_bind (addMethod_fails (sameOwner ▸ owner)) fun method m₁ declared => ?_
  have ev₁ : Evolves (fun _ => False) m m₁ := evolves_of_ok (moves_addMethod _ _) declared
  obtain ⟨found, -⟩ := addMethod_gives _ m _ _ declared
  have newest := addMethod_newest _ m _ _ declared
  have is := Event.IsUnsubscribing.ofDecl event method
  have placed₁ := ev₁.placed placed
  have typed₁ := typed.grow ev₁.grows
  have implements := implementUnsubscribe_yields placed₁ typed₁ found is empty
  -- the method is still the newest one where its body is not made, so it can be taken back
  have handled := yields_tryCatch implements fun e m₂ ⟨out, same⟩ =>
    takeBack_yields (same.method found) (by rw [same]; exact newest) out
  refine yields_bind handled.2 fun _ m₂ ran => yields_pure ?_
  obtain ⟨row, m₃, found₂, grows, verified, made, later⟩ := handled.1 _ _ ran
  exact ⟨row, found₂, is.grow grows, verified, m₁, m₃, _, placed₁, typed₁, found, is, made, later⟩

theorem addUnsubscribe_taken {d : TypeDef} (owner : m.typeDef event.owner = .ok d)
    (taken : (m.findMethod? event.owner (unsubscribeName event.name)).isSome = true) :
    event.addUnsubscribe m = .error (.malformed (.alreadyDeclares d.name (unsubscribeName event.name))) m := by
  unfold Event.addUnsubscribe
  simp [taken, owner]
  rfl

/-! ### Accessors -/

/-- Puts code for the event in front of an instruction of an accessor: a piece that leaves a delegate in a new
variable, and the store of what the operation makes of the field and the variable. -/
def Event.weaveAt (event : Event) (apply : HelperRefs → Fragment → Fragment → Edit Fragment) (method : Token)
    (piece : Variable → Edit Code) (index : Nat) : Edit Unit := do
  let var ← event.addVariable method
  let code ← piece var
  let store ← event.assignCode apply method fun site m => site.loadLocal m var
  Module.insertCode method (code ++ store) index

/-- An accessor that only returns gets the code in front of its return. -/
theorem weaveAccessor_eq (event : Event) :
    event.weaveAccessor apply method piece = event.weaveAt apply method piece 0 := rfl

theorem addVariable_of_lt (event : Event) (found : m.method method = .ok row)
    (room : row.body.locals.length < Body.maxLocals) :
    ∃ v m' row', event.addVariable method m = .ok v m' ∧ m'.method method = .ok row' ∧ row.Grows row' ∧
      row'.body.code = row.body.code ∧ event.Holds row' v := by
  obtain ⟨m', ran, found'⟩ := addLocal_of_lt found room event.handler
  refine ⟨_, m', _, ran, found', ⟨rfl, List.prefix_append _ _⟩, rfl, ?_, room, rfl⟩
  exact List.getElem?_concat_length

theorem moves_addVariable (event : Event) (method : Token) (m : Module) :
    Moves (Along (Op.AddsTo method)) (event.addVariable method) m :=
  moves_op (.addLocal method event.handler) ⟨trivial, fun _ touched => touched⟩ rfl m

/-- What the pieces for accessors have in common: interning is all that they do to the module, and they make code
that leaves every stack as it was. -/
structure Event.Fills (event : Event) (m : Module) (method : Token) (piece : Variable → Edit Code) : Prop where
  moves : ∀ (rel : Module → Module → Prop) [Interns rel] (v : Variable) (m : Module), Moves rel (piece v) m
  yields : ∀ {m' : Module} {row : Method} {v : Variable}, Retained m m' → m'.Placed → event.Typed m' →
    m'.method method = .ok row → event.Accepts event.handler row → event.Holds row v →
    Yields (fun code m'' => LeavesStack method code m'') OutOfReferences (piece v) m'

theorem Event.findWeakCode_fills (event : Event) (m : Module) (method : Token) :
    event.Fills m method (event.findWeakCode method) where
  moves _ _ v m := moves_findWeakCode event method v m
  yields _ placed typed found accepts holds := findWeakCode_yields placed typed found accepts holds

theorem Event.makeWeakCode_fills {unsubscribe : Token} (binds : event.Binds m unsubscribe) (method : Token) :
    event.Fills m method (event.makeWeakCode method unsubscribe) where
  moves _ _ v m := moves_makeWeakCode event method unsubscribe v m
  yields kept placed typed found accepts holds :=
    makeWeakCode_yields placed typed found accepts holds (binds.keep kept)

theorem moves_weaveAt (helper : Helper) (fills : event.Fills m method piece) (index : Nat) :
    Moves (Along (Op.AddsTo method))
      (event.weaveAt (fun refs => Fragment.arithmetic (refs.token helper)) method piece index) m := by
  refine moves_bind (moves_addVariable _ _ _) fun var m₁ _ => ?_
  refine moves_bind (fills.moves _ _ _) fun code m₂ _ => ?_
  refine moves_bind (moves_assigning (fun _ _ _ _ => Fragment.moves_arithmetic _ _ _ _) _ _ _ _) fun store m₃ _ => ?_
  exact .step .refl (.insertCode method (code ++ store) index) ⟨trivial, fun _ touched => touched⟩

/-- An accessor that verifies goes on verifying with code for the event in front of any of its instructions. -/
theorem weaveAt_yields {helper : Helper} {index : Nat} (other : helper ≠ .actionConstructor)
    (same : helper.signature = .ofStatic [.named .delegate, .named .delegate] (.named .delegate))
    (placed : m.Placed) (typed : event.Typed m) (found : m.method method = .ok row)
    (accepts : event.Accepts event.handler row) (room : row.body.locals.length < Body.maxLocals)
    (verified : m.verify method = .ok summary) (inside : index < summary.instructions)
    (fills : event.Fills m method piece) :
    Yields (fun _ m' => (∃ summary', m'.verify method = .ok summary') ∧ Along (Op.AddsTo method) m m')
      OutOfReferences (event.weaveAt (fun refs => Fragment.arithmetic (refs.token helper)) method piece index) m := by
  suffices verifies : Yields (fun _ m' => ∃ summary', m'.verify method = .ok summary') OutOfReferences _ m from
    (verifies.moved (moves_weaveAt helper fills index)).imp (fun _ _ h => h) fun _ _ h => h.1
  obtain ⟨row', frame, found', built, accepted, count⟩ := verify_ok verified
  obtain rfl : row = row' := Except.ok.inj (found.symm.trans found')
  obtain ⟨v, m₁, row₁, ran, found₁, grew, sameCode, holds⟩ := addVariable_of_lt event found room
  have along₁ : Along (Op.AddsTo method) m m₁ := (moves_addVariable event method m).of_ok ran
  have kept₁ : Retained m m₁ := (along₁.imp fun _ adds => adds.1).retained
  have ev₁ : Evolves (· = method) m m₁ := along₁.evolves fun _ adds => adds.2
  have accepts₁ := accepts.grow grew
  have placed₁ := ev₁.placed placed
  have typed₁ := typed.grow ev₁.grows
  refine yields_bind_of_ok ran ?_
  have pieces := fills.yields kept₁ placed₁ typed₁ found₁ accepts₁ holds
  refine yields_bind pieces.2 fun code m₂ codeMade => ?_
  have ev₂ := evolves_of_ok (fills.moves _ _ _) codeMade
  have found₂ := (ev₂.keeps id).row found₁
  have stores := assignCode_yields other same (ev₂.placed placed₁) (typed₁.grow ev₂.grows) found₂ accepts₁ holds
  refine yields_bind stores.2 fun store m₃ storeMade => ?_
  have ev₃ := evolves_of_ok (moves_assigning (fun _ _ _ _ => Fragment.moves_arithmetic _ _ _ _) _ _ _ _) storeMade
  have found₃ := (ev₃.keeps id).row found₂
  obtain ⟨frame₃, built₃, grows⟩ :=
    frameOf_grows (trans_of _ kept₁ (trans_of _ ev₂.retained ev₃.retained)) grew built
  -- both parts of the code were typed for any frame of the method from then on, and so for the one before the insertion
  obtain ⟨same, -⟩ := frameOf_ok built₃
  have checks : frame₃.Checks method := ⟨_, same ▸ found₃, same ▸ built₃⟩
  obtain ⟨n, pieceLeaves⟩ := pieces.1 _ _ codeMade checks (same ▸ ev₃.retained)
  have here : Retained m₃ frame₃.module := by
    rw [same]
    exact Std.Refl.refl m₃
  obtain ⟨k, storeLeaves⟩ := stores.1 _ _ storeMade checks here
  have both := pieceLeaves.append storeLeaves
  rw [count] at inside
  rw [← sameCode] at accepted inside
  obtain ⟨at_i, m₄, -, inserted, verified'⟩ :=
    insertCode_accepted found₃ built₃ (grows.checkCode accepted) inside both.noReturn both.on
  exact yields_of_ok inserted ⟨_, verified'⟩

/-- What was verified stays so while an accessor is woven that is another method. -/
theorem verify_of_addsTo {other : Token} {verdict : Summary} (along : Along (Op.AddsTo method) m m')
    (apart : other ≠ method) (verified : m.verify other = .ok verdict) : m'.verify other = .ok verdict := by
  have kept : Retained m m' := (along.imp fun _ adds => adds.1).retained
  exact verify_retained verified kept ((along.evolves fun _ adds => adds.2).keeps apart)

/-- Code for the event can be put in front of any instruction of a verified accessor, in either form: the accessor
verifies again, and so does every other method, unless a table is full. -/
def Event.Weaves (event : Event) (unsubscribe : Token) (m : Module) : Prop :=
  ∀ ⦃method : Token⦄ ⦃row : Method⦄ ⦃summary : Summary⦄ ⦃index : Nat⦄
    ⦃apply : HelperRefs → Fragment → Fragment → Edit Fragment⦄ ⦃piece : Variable → Edit Code⦄,
    m.method method = .ok row → event.Accepts event.handler row → row.body.locals.length < Body.maxLocals →
    m.verify method = .ok summary → index < summary.instructions →
    (apply = Fragment.combine ∨ apply = Fragment.remove) →
    (piece = event.makeWeakCode method unsubscribe ∨ piece = event.findWeakCode method) →
    (∃ m' summary', event.weaveAt apply method piece index m = .ok () m' ∧ m'.verify method = .ok summary' ∧
      ∀ other ≠ method, ∀ verdict, m.verify other = .ok verdict → m'.verify other = .ok verdict) ∨
    ∃ e m', event.weaveAt apply method piece index m = .error e m' ∧ OutOfRows e m'

theorem Event.weaves {unsubscribe : Token} (placed : m.Placed) (typed : event.Typed m)
    (binds : event.Binds m unsubscribe) : event.Weaves unsubscribe m := by
  intro method row summary index apply piece found accepts room verified inside applied pieced
  have fills : event.Fills m method piece := by
    rcases pieced with rfl | rfl
    · exact makeWeakCode_fills binds method
    · exact findWeakCode_fills event m method
  obtain ⟨helper, other, same, rfl⟩ : ∃ h : Helper, h ≠ .actionConstructor ∧
      h.signature = .ofStatic [.named .delegate, .named .delegate] (.named .delegate) ∧
      apply = fun refs => Fragment.arithmetic (refs.token h) := by
    rcases applied with rfl | rfl
    · exact ⟨.combine, nofun, rfl, rfl⟩
    · exact ⟨.remove, nofun, rfl, rfl⟩
  have yields := weaveAt_yields other same placed typed found accepts room verified inside fills
  rcases yields.cases with ⟨_, m', ran, ⟨summary', verified'⟩, along⟩ | ⟨e, m', failed, out⟩
  · exact .inl ⟨m', summary', ran, verified', fun other apart verdict => verify_of_addsTo along apart⟩
  · exact .inr ⟨e, m', failed, out.outOfRows⟩

/-! ### Both accessors -/

/-- An accessor that code for the event can be put into: it verifies, and it has room for a variable. -/
def Event.Ready (event : Event) (m : Module) (method : Token) : Prop :=
  ∃ row summary, m.method method = .ok row ∧ event.Accepts event.handler row ∧
    row.body.locals.length < Body.maxLocals ∧ m.verify method = .ok summary ∧ 0 < summary.instructions

theorem Event.Ready.keep (ready : event.Ready m method) (kept : Retained m m') (keeps : Keeps method m m') :
    event.Ready m' method := by
  obtain ⟨row, summary, found, accepts, room, verified, inside⟩ := ready
  exact ⟨row, summary, keeps.row found, accepts, room, verify_retained verified kept keeps, inside⟩

theorem weaveAccessor_yields {h : Helper} (other : h ≠ .actionConstructor)
    (same : h.signature = .ofStatic [.named .delegate, .named .delegate] (.named .delegate))
    (placed : m.Placed) (typed : event.Typed m) (ready : event.Ready m method) (fills : event.Fills m method piece) :
    Yields (fun _ m' => (∃ summary, m'.verify method = .ok summary) ∧ Along (Op.AddsTo method) m m')
      OutOfRows (event.weaveAccessor (fun refs => Fragment.arithmetic (refs.token h)) method piece) m := by
  obtain ⟨row, summary, found, accepts, room, verified, inside⟩ := ready
  rw [weaveAccessor_eq]
  exact (weaveAt_yields other same placed typed found accepts room verified inside fills).imp
    (fun _ _ woven => woven) fun _ _ out => out.outOfRows

/-- Weaving an event leaves all three of its methods verified, unless a table is full. -/
theorem weave_yields {add remove : Token} (placed : m.Placed) (typed : event.Typed m)
    (free : (m.findMethod? event.owner (unsubscribeName event.name)).isSome = false) (adds : event.Ready m add)
    (removes : event.Ready m remove) (apart : add ≠ remove) :
    Yields (fun t m' => ∀ method ∈ [add, remove, t], ∃ summary, m'.verify method = .ok summary) OutOfRows
      (event.weave add remove) m := by
  have unsubscribes := addUnsubscribe_yields placed typed free
  refine yields_bind unsubscribes.2 fun t m₁ declared => ?_
  obtain ⟨row, found, is, verified, -⟩ := unsubscribes.1 _ _ declared
  have declares := addUnsubscribe_gives placed typed.backed _ _ declared
  have ev₁ := declares.evolves
  have other : ∀ {u old}, m.method u = .ok old → u ≠ t := by
    rintro u old before rfl
    exact declares.fresh old before
  have otherAdd : add ≠ t := by
    obtain ⟨old, -, before, -⟩ := adds
    exact other before
  have otherRemove : remove ≠ t := by
    obtain ⟨old, -, before, -⟩ := removes
    exact other before
  have kept₁ : Retained m m₁ :=
    ⟨ev₁.grows, @fun u old before => ⟨old, (ev₁.keeps (other before)).row before, .refl old⟩⟩
  have typed₁ := typed.grow ev₁.grows
  obtain ⟨d, owner⟩ := typed₁.owner
  have binds : event.Binds m₁ t := ⟨row, d, found, is.isStatic, is.owner ▸ owner⟩
  have wrapping := weaveAccessor_yields (h := .combine) nofun rfl (ev₁.placed placed) typed₁
    (adds.keep kept₁ (ev₁.keeps otherAdd)) (Event.makeWeakCode_fills binds add)
  refine yields_bind wrapping.2 fun _ m₂ addMade => ?_
  obtain ⟨⟨addSummary, addVerified⟩, along₂⟩ := wrapping.1 _ _ addMade
  have kept₂ : Retained m₁ m₂ := (along₂.imp fun _ adds => adds.1).retained
  have ev₂ : Evolves (· = add) m₁ m₂ := along₂.evolves fun _ adds => adds.2
  have removes₂ := (removes.keep kept₁ (ev₁.keeps otherRemove)).keep kept₂ (ev₂.keeps apart.symm)
  have finding := weaveAccessor_yields (h := .remove) nofun rfl (ev₂.placed (ev₁.placed placed))
    (typed₁.grow ev₂.grows) removes₂ (event.findWeakCode_fills m₂ remove)
  refine yields_bind finding.2 fun _ m₃ removeMade => yields_pure ?_
  obtain ⟨⟨removeSummary, removeVerified⟩, along₃⟩ := finding.1 _ _ removeMade
  intro method member
  simp only [List.mem_cons, List.not_mem_nil, or_false] at member
  rcases member with rfl | rfl | rfl
  · exact ⟨addSummary, verify_of_addsTo along₃ apart addVerified⟩
  · exact ⟨removeSummary, removeVerified⟩
  · exact ⟨_, verify_of_addsTo along₃ otherRemove.symm (verify_of_addsTo along₂ otherAdd.symm verified)⟩

/-! ### Every field of a delegate type -/

/-- For every field of which the event arguments are known there is an event, and its unsubscribing method is added
with a body that verifies unless the name is taken. From then on, whatever is done to other methods, the code for
the event can be put into the accessors, and they verify. All of it needs place in the tables. -/
theorem woven_bodies_verify {field : Token} {fieldRow : Field} {args : Ty} (imported : Imported P refs m)
    (found : m.field field = .ok fieldRow) (derived : m.eventArgs fieldRow.ty = .ok args) (settings : Settings) :
    ∃ event d, Event.ofField m field refs settings = .ok event ∧ m.typeDef fieldRow.owner = .ok d ∧
      ((m.findMethod? fieldRow.owner (unsubscribeName fieldRow.name)).isSome = true →
        event.addUnsubscribe m =
          .error (.malformed (.alreadyDeclares d.name (unsubscribeName fieldRow.name))) m) ∧
      ((m.findMethod? fieldRow.owner (unsubscribeName fieldRow.name)).isSome = false →
        (∃ t m' row, event.addUnsubscribe m = .ok t m' ∧ m'.method t = .ok row ∧ m'.Lists fieldRow.owner t ∧
          row.name = unsubscribeName fieldRow.name ∧ row.isPrivate = true ∧ row.isStatic = fieldRow.isStatic ∧
          row.result = .void ∧ row.params = [⟨none, .closedHandler args⟩] ∧
          row.attributes = [refs.compilerGenerated] ∧
          m'.verify t = .ok ⟨if fieldRow.isStatic then 2 else 3, row.body.code.length⟩ ∧
          ∀ m₁, Along (¬ ·.Touches t) m' m₁ → event.Weaves t m₁) ∨
        ∃ e m', event.addUnsubscribe m = .error e m' ∧ OutOfRows e m') := by
  obtain ⟨placed, names, owned⟩ := imported.facts
  obtain ⟨d, owner⟩ := owned.owner found
  obtain ⟨event, made, rfl, sameName, sameOwner, sameKind, closed⟩ :=
    Event.ofField_of_args names found derived settings
  have typed := Event.typed_of_ofField names owned made
  rw [← sameOwner] at owner
  rw [← sameName, ← sameOwner, ← sameKind, ← closed]
  refine ⟨event, d, made, owner, addUnsubscribe_taken owner, ?_⟩
  intro free
  rcases (addUnsubscribe_yields placed typed free).cases with ⟨t, m', ran, row, found', is, verified, -⟩ | failed
  · have adds := addUnsubscribe_gives placed typed.backed t m' ran
    refine .inl ⟨t, m', row, ran, found', adds.listed, is.name, is.isPrivate, is.isStatic, is.result, is.params,
      is.attributes, verified, ?_⟩
    intro m₁ along
    have ev : Evolves (· ≠ t) m' m₁ := along.evolves fun _ spares u touched same => spares (same ▸ touched)
    have grows := adds.evolves.grows.trans ev.grows
    have keeps : Keeps t m' m₁ := ev.keeps fun other => other rfl
    obtain ⟨d₁, owner₁, -⟩ := grows.typeDef owner
    have binds : event.Binds m₁ t := ⟨row, d₁, keeps.row found', is.isStatic, is.owner ▸ owner₁⟩
    exact Event.weaves (ev.placed (adds.evolves.placed placed)) (typed.grow grows) binds
  · exact .inr failed

namespace Ticker

/-! The field of the ticker, before its event is woven. -/

def tickedRow : Field := ⟨ticked, "Ticked", publisher, .privateFlag, .named .eventHandler⟩

def withUnsubscribe : Module := endState (Ticker.event.event.addUnsubscribe declared)

theorem ticker_bodies_verify :
    Imported Op.KeepsOwners helpers declared ∧ declared.field ticked = .ok tickedRow ∧
      declared.eventArgs tickedRow.ty = .ok (.named .eventArgs) ∧
      (∃ row, withUnsubscribe.method Ticker.event.unsubscribe = .ok row ∧ row.isPrivate = true ∧
        withUnsubscribe.verify Ticker.event.unsubscribe = .ok ⟨3, row.body.code.length⟩) ∧
      Ticker.event.event.Weaves Ticker.event.unsubscribe withUnsubscribe := by
  have found : declared.field ticked = .ok tickedRow := eq_ok_of_toOption (by decide +kernel)
  have derived : declared.eventArgs tickedRow.ty = .ok (.named .eventArgs) := eq_ok_of_toOption (by decide +kernel)
  have runs : Ticker.event.event.addUnsubscribe declared = .ok Ticker.event.unsubscribe withUnsubscribe :=
    eq_ok_of_value? (by decide +kernel)
  refine ⟨declared_imported, found, derived, ?_⟩
  obtain ⟨e, d, made', -, -, adds⟩ := woven_bodies_verify declared_imported found derived {}
  obtain rfl : Ticker.event.event = e := Except.ok.inj (made.symm.trans made')
  rcases adds (by decide +kernel) with ⟨t, m', row, ran, found', -, -, isPrivate, -, -, -, -, verified, later⟩ | failed
  · obtain ⟨rfl, rfl⟩ := EStateM.Result.ok.inj (runs.symm.trans ran)
    exact ⟨⟨row, found', isPrivate, verified⟩, later withUnsubscribe .refl⟩
  · obtain ⟨e, m', failed, -⟩ := failed
    cases runs.symm.trans failed

end Ticker

end WeakSubscription
