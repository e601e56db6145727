import WeakSubscription.Proofs.Weaving.Fragments
import WeakSubscription.Weaving.Event

/-!
# What the code of an event does

Each piece of code that is made for an event is run here on invocation lists: the unsubscribing method
takes a run out of the field, and the code for the accessors leaves the found wrapper or the wrapped
handler in a local variable.
-/

open WeakSubscription.Module

namespace WeakSubscription

open Execution Delegate Tracked

variable {event : Event} {c : Context} {refs : HelperRefs} {m m' : Module} {f g : Fragment} {code : Code}
  {s s' : Machine} {v w : Value} {t : Ty} {xs ys : List Entry} {stack : List Value}
  {p : Option ObjectRef} {method : Token} {row : Method} {rel : Module → Module → Prop}

/-! ### Events -/

/-- What an event says of its field is so in the module, and its helper references name the helpers. -/
structure Event.Backed (event : Event) (m : Module) : Prop where
  field : ∃ row, m.field event.field = .ok row ∧ row.ty = event.handler ∧
    row.isStatic = event.isStatic ∧ row.owner = event.owner ∧ row.name = event.name
  closed : ∃ args, event.closed = Ty.closedHandler args
  generic : event.isGeneric = true → event.closed.SameName event.handler
  refs : event.refs.Name m

theorem Event.Backed.grow (backed : event.Backed m) (grows : Grows m m') : event.Backed m' := by
  obtain ⟨row, found, same⟩ := backed.field
  exact ⟨⟨row, grows.field found, same⟩, backed.closed, backed.generic, backed.refs.grow grows⟩

theorem Event.ofField_ok {field : Token} {settings : Settings}
    (made : Event.ofField m field refs settings = .ok event) (names : refs.Name m) :
    event.Backed m ∧ event.field = field ∧ event.refs = refs := by
  obtain ⟨row, found, h₁⟩ := except_bind_eq_ok_iff.mp made
  obtain ⟨-, -, h₂⟩ := except_bind_eq_ok_iff.mp h₁
  obtain ⟨args, -, built⟩ := except_bind_eq_ok_iff.mp h₂
  obtain rfl := Except.ok.inj built
  exact ⟨⟨⟨row, found, rfl, rfl, rfl, rfl⟩, ⟨args, rfl⟩, of_decide_eq_true, names⟩, rfl, rfl⟩

/-! ### Rules -/

/-- What a piece of code does for a publisher and an argument: from a machine to the invocation list that
it comes to, and to the last number of a wrapper. -/
abbrev Rule := Program → Machine → Option ObjectRef → Value → List Entry → UInt32 → Prop

/-- The field of the event carries this invocation list for the publisher. -/
def Event.Reads (event : Event) (m : Module) (s : Machine) (p : Option ObjectRef) (xs : List Entry) :
    Prop :=
  ∃ v, s.fieldValue m event.field p = .ok v ∧ Carries event.handler xs v

/-- The list of the argument, as a value of this type. -/
def taking (t : Ty) : Rule := fun _ s _ h ys n => Carries t ys h ∧ n = s.lastWeakId

/-- The callback of the wrappers that an event makes for a publisher. -/
def Event.callback (event : Event) (unsubscribe : Token) (p : Option ObjectRef) : Delegate :=
  .bound (.inst .action [event.closed]) p unsubscribe

def Event.wrapper (event : Event) (unsubscribe : Token) (p : Option ObjectRef) :
    Invocation × UInt32 → Entry :=
  Delegate.wrapper (event.callback unsubscribe p) event.closed

/-- The calls of the argument in wrappers with the next numbers. -/
def Event.wrapping (event : Event) (unsubscribe : Token) : Rule := fun _ s p h ys n =>
  ∃ calls : List Invocation, calls ≠ [] ∧ Carries event.handler (calls.map .strong) h ∧
    ys = (numbered s.lastWeakId calls).map (event.wrapper unsubscribe p) ∧
    n = s.lastWeakId + .ofNat calls.length

/-- The last wrapper in the field around the first call of the argument. -/
def Event.finding (event : Event) (unsubscribe : Token) : Rule := fun program s p h ys n =>
  ∃ (l : List (Invocation × UInt32)) (call : Invocation) (rest : List Invocation),
    event.Reads program.module s p (l.map (event.wrapper unsubscribe p)) ∧
    Carries event.handler ((call :: rest).map .strong) h ∧
    ys = ((l.reverse.find? (·.1 == call)).map (event.wrapper unsubscribe p)).toList ∧ n = s.lastWeakId

/-- The list of the field together with the list that another rule comes to. -/
def Event.updating (event : Event) (result : List Entry → List Entry → List Entry) (rule : Rule) :
    Rule := fun program s p h zs n =>
  ∃ xs ys, event.Reads program.module s p xs ∧ rule program s p h ys n ∧ zs = result xs ys

/-- The list of the field with, or without, what another rule comes to. -/
def Event.appending (event : Event) (rule : Rule) : Rule := event.updating (· ++ ·) rule

def Event.dropping (event : Event) (rule : Rule) : Rule :=
  event.updating (fun xs ys => withoutRun ys xs) rule

/-! ### Conversions -/

theorem moves_converted [Instantiates rel] (event : Event) (f : Fragment) (target : Ty) (m : Module) :
    Moves rel (event.converted f target) m := by
  unfold Event.converted
  split
  · exact moves_pure _
  · exact Fragment.moves_convert f target m

/-- A conversion between the two types of an event keeps the invocation list. -/
theorem converted_gives {source target : Ty} (f : Fragment) (placed : m.Placed)
    (names : event.refs.Name m) (same : event.isGeneric = true → source.SameName target) :
    Gives (fun g m' => ∀ {c : Context} {s s' : Machine} {xs : List Entry}, c.Over event.refs m' →
      Produces c f s source xs s' → Produces c g s target xs s') (event.converted f target) m := by
  unfold Event.converted
  split
  · rename_i generic
    refine gives_pure ?_
    rintro c s s' xs - ⟨v, carries, computes⟩
    exact ⟨v, carries.retyped (same generic), computes⟩
  · intro g m' made c s s' xs upon produces
    exact Fragment.convert_gives f target placed names g m' made upon produces

/-! ### The unsubscribing method -/

theorem loadField_ty {site : Site} {field : Token} {row : Field}
    (loaded : site.loadField m field = .ok f) (found : m.field field = .ok row) : f.ty = row.ty := by
  obtain ⟨row', found', built⟩ := except_bind_eq_ok_iff.mp loaded
  obtain rfl : row = row' := Except.ok.inj (found.symm.trans found')
  split at built
  · obtain rfl := Except.ok.inj built
    rfl
  · obtain ⟨-, -, last⟩ := except_bind_eq_ok_iff.mp built
    obtain rfl := Except.ok.inj last
    rfl

theorem moves_unsubscribeCode [Specifies rel] (event : Event) (method : Token) (m : Module) :
    Moves rel (event.unsubscribeCode method) m := by
  refine moves_get_bind (moves_lift_bind fun site _ => moves_lift_bind fun first _ => ?_)
  refine moves_bind (moves_converted _ _ _ _) fun handler m₁ _ => ?_
  refine moves_get_bind (moves_lift_bind fun source _ => ?_)
  refine moves_bind (Fragment.moves_arithmetic _ _ _ _) fun removed m₂ _ => ?_
  refine moves_bind (moves_converted _ _ _ _) fun remaining m₃ _ => ?_
  exact moves_get_bind (moves_lift_bind fun stored _ => moves_pure _)

/-- The unsubscribing method takes the invocation list of its argument out of the field. -/
theorem unsubscribeCode_gives (placed : m.Placed) (backed : event.Backed m)
    (found : m.method method = .ok row) :
    Gives (fun code m' => ∃ pre, code = Code.thenReturn pre ∧ pre ≠ [] ∧
      ∀ {c : Context} {s : Machine} {p : Option ObjectRef} {h : Value} {zs : List Entry} {n : UInt32},
        c.Over event.refs m' → row.isStatic = p.isNone → event.isStatic = p.isNone → s.Holds p →
        c.args = p.toList.map .object ++ [h] →
        event.dropping (taking event.closed) c.program s p h zs n →
        ∃ u, Carries event.handler zs u ∧ ∀ stack,
          Leads c.program c.caller pre (c.frame stack) s (c.frame stack)
            (({ s with lastWeakId := n } : Machine).withField event.field p u))
      (event.unsubscribeCode method) m := by
  refine gives_get_bind (gives_lift_bind fun site sited => gives_lift_bind fun first loaded => ?_)
  refine gives_bind fun handler m₁ handlerMade => ?_
  have ev₁ := evolves_of_ok (moves_converted _ _ _ _) handlerMade
  have backed₁ := backed.grow ev₁.grows
  refine gives_get_bind (gives_lift_bind fun source sourceLoaded => ?_)
  obtain ⟨fieldRow, fieldFound, fieldTy, fieldStatic, -, -⟩ := backed₁.field
  have sourceTy : source.ty = event.handler := (loadField_ty sourceLoaded fieldFound).trans fieldTy
  refine gives_bind fun removed m₂ removedMade => ?_
  have ev₂ := evolves_of_ok (Fragment.moves_arithmetic _ _ _ _) removedMade
  have placed₂ := ev₂.placed (ev₁.placed placed)
  refine gives_bind fun remaining m₃ remainingMade => ?_
  have ev₃ := evolves_of_ok (moves_converted _ _ _ _) remainingMade
  refine gives_get_bind (gives_lift_bind fun stored storing => gives_pure ?_)
  refine ⟨stored, rfl, Site.storeField_ne_nil storing, ?_⟩
  intro c s p h zs n upon kind eventKind holds args rule
  obtain ⟨xs, ys, ⟨v, value, carries⟩, ⟨carries', rfl⟩, rfl⟩ := rule
  -- the context runs the last module, which grew out of those that the fragments were made in
  have upon₂ := upon.earlier ev₃.grows
  have upon₁ := upon₂.earlier ev₂.grows
  have serves := Context.serves_of_method sited found kind args
  have fieldKind : fieldRow.isStatic = p.isNone := fieldStatic.trans eventKind
  have fieldFound₃ := ev₃.grows.field (ev₂.grows.field fieldFound)
  have argument : Produces c first s event.closed ys s :=
    ⟨h, carries', Site.firstArgument_computes loaded serves⟩
  have handlers : Produces c handler s event.handler ys s :=
    converted_gives first placed backed.refs backed.generic handler m₁ handlerMade upon₁ argument
  have sources : Produces c source s source.ty xs s :=
    ⟨v, sourceTy ▸ carries, Site.loadField_computes sourceLoaded fieldFound fieldKind serves value⟩
  obtain ⟨removedTy, removes⟩ :=
    Fragment.remove_gives source handler (ev₁.placed placed) backed₁.refs removed m₂ removedMade
  have without : Produces c removed s event.handler (withoutRun ys xs) s :=
    sourceTy ▸ removes upon₂ sources (sourceTy ▸ handlers)
  have same : event.isGeneric = true → event.handler.SameName event.handler := fun _ => rfl
  obtain ⟨u, carried, computes⟩ := converted_gives removed placed₂ (backed₁.refs.grow ev₂.grows) same
    remaining m₃ remainingMade upon without
  refine ⟨u, carried, fun stack => ?_⟩
  exact Site.storeField_leads storing fieldFound₃ fieldKind serves computes
    (Machine.setField_eq (upon.grows.field fieldFound₃) fieldKind holds)

/-! ### The code for the accessors -/

theorem HelperRefs.moves_closeActionConstructor [References rel] (refs : HelperRefs) (closed : Ty) (m : Module) :
    Moves rel (refs.closeActionConstructor closed) m := by
  refine moves_get_bind (moves_lift_bind fun ref _ => ?_)
  split
  · exact References.memberRef _ _ _ m
  · exact moves_throw _

/-- The closed constructor is that of callbacks on handlers of the closed type. -/
theorem HelperRefs.closeActionConstructor_gives (closed : Ty) (placed : m.Placed) (names : refs.Name m) :
    Gives (fun t m' => m'.memberRef t =
        .ok ⟨t, .inst .action [closed], ".ctor", .ofInstance [.object, .intPtr] .void⟩)
      (refs.closeActionConstructor closed) m := by
  refine gives_get_bind (gives_lift_bind fun ref found => ?_)
  obtain rfl := Except.ok.inj ((names .actionConstructor).symm.trans found)
  exact addMemberRef_gives _ _ _ placed

theorem moves_makeWeakCode [Interns rel] (event : Event) (method unsubscribe : Token) (var : Variable)
    (m : Module) : Moves rel (event.makeWeakCode method unsubscribe var) m := by
  refine moves_bind (HelperRefs.moves_closeActionConstructor _ _ m) fun constructor m₁ _ => ?_
  refine moves_get_bind (moves_lift_bind fun site _ => ?_)
  refine moves_get_bind (moves_lift_bind fun callback _ => moves_lift_bind fun first _ => ?_)
  refine moves_bind (moves_converted _ _ _ _) fun handler m₂ _ => ?_
  refine moves_bind (Fragment.moves_makeWeak _ _ _ _) fun weak m₃ _ => ?_
  refine moves_bind (moves_converted _ _ _ _) fun weak m₄ _ => ?_
  exact moves_get_bind (moves_lift _)

theorem moves_findWeakCode [Instantiates rel] (event : Event) (method : Token) (var : Variable) (m : Module) :
    Moves rel (event.findWeakCode method var) m := by
  refine moves_get_bind (moves_lift_bind fun site _ => moves_lift_bind fun first _ => ?_)
  refine moves_bind (moves_converted _ _ _ _) fun handler m₁ _ => ?_
  refine moves_get_bind (moves_lift_bind fun source _ => ?_)
  refine moves_bind (Fragment.moves_findWeak _ _ _ _) fun found m₂ _ => ?_
  refine moves_bind (moves_converted _ _ _ _) fun found m₃ _ => ?_
  exact moves_get_bind (moves_lift _)

/-- The code leaves a value in the variable that carries what the rule comes to. -/
def Event.Leaves (event : Event) (m : Module) (row : Method) (var : Variable) (code : Code)
    (rule : Rule) : Prop :=
  ∀ ⦃c : Context⦄ ⦃s : Machine⦄ ⦃p : Option ObjectRef⦄ ⦃h : Value⦄ ⦃ys : List Entry⦄ ⦃n : UInt32⦄,
    c.Over event.refs m → row.isStatic = p.isNone → event.isStatic = p.isNone →
    c.args = p.toList.map .object ++ [h] → var.index < c.locals.length →
    rule c.program s p h ys n →
    ∃ u, Carries event.handler ys u ∧ ∀ stack, Leads c.program c.caller code (c.frame stack) s
      (({ c with locals := c.locals.set var.index u } : Context).frame stack) { s with lastWeakId := n }

/-- The first piece of the adding accessor leaves the argument in the variable, with its calls in
wrappers. -/
theorem makeWeakCode_gives {unsubscribe : Token} {unsubscribeRow : Method} (var : Variable)
    (placed : m.Placed) (backed : event.Backed m) (found : m.method method = .ok row)
    (declared : m.method unsubscribe = .ok unsubscribeRow)
    (declaredKind : unsubscribeRow.isStatic = event.isStatic) :
    Gives (fun code m' => event.Leaves m' row var code (event.wrapping unsubscribe))
      (event.makeWeakCode method unsubscribe var) m := by
  obtain ⟨a, isClosed⟩ := backed.closed
  refine gives_bind fun constructor m₁ closing => ?_
  have ev₁ := evolves_of_ok (HelperRefs.moves_closeActionConstructor _ _ _) closing
  have placed₁ := ev₁.placed placed
  have closes := HelperRefs.closeActionConstructor_gives _ placed backed.refs _ _ closing
  refine gives_get_bind (gives_lift_bind fun site sited => ?_)
  refine gives_get_bind (gives_lift_bind fun callback callbackMade => ?_)
  refine gives_lift_bind fun first loaded => gives_bind fun handler m₂ handlerMade => ?_
  have ev₂ := evolves_of_ok (moves_converted _ _ _ _) handlerMade
  have placed₂ := ev₂.placed placed₁
  have backed₁ := backed.grow ev₁.grows
  have backed₂ := backed₁.grow ev₂.grows
  refine gives_bind fun weak m₃ weakMade => ?_
  have ev₃ := evolves_of_ok (Fragment.moves_makeWeak _ _ _ _) weakMade
  refine gives_bind fun stored m₄ storedMade => ?_
  have ev₄ := evolves_of_ok (moves_converted _ _ _ _) storedMade
  refine gives_get_bind fun code m' storing => ?_
  obtain ⟨storing, rfl⟩ := lift_eq_ok_iff.mp storing
  intro c s p h ys n upon kind eventKind args inside rule
  obtain ⟨calls, nonempty, carries, rfl, rfl⟩ := rule
  have upon₃ := upon.earlier ev₄.grows
  have upon₂ := upon₃.earlier ev₃.grows
  have upon₁ := upon₂.earlier ev₂.grows
  have found₁ := (ev₁.keeps id).row found
  have serves := Context.serves_of_method sited found₁ kind args
  have makes : Computes c callback s (.delegate (event.callback unsubscribe p)) s :=
    Site.newDelegate_computes callbackMade ((ev₁.keeps id).row declared)
      (declaredKind.trans eventKind) serves
      (upon₁.grows.memberRef closes)
  have argument : Produces c first s event.handler (calls.map .strong) s :=
    ⟨h, carries, Site.firstArgument_computes loaded serves⟩
  have handlers : Produces c handler s event.closed (calls.map .strong) s :=
    converted_gives first placed₁ backed₁.refs (fun generic => (backed.generic generic).symm)
      handler m₂ handlerMade upon₂ argument
  rw [isClosed] at weakMade
  have wraps := Fragment.makeWeak_gives a handler callback placed₂ backed₂.refs weak m₃ weakMade
    nonempty upon₃ handlers makes
  rw [← isClosed] at wraps
  obtain ⟨u, carried, computes⟩ := converted_gives weak (ev₃.placed placed₂)
    (backed₂.refs.grow ev₃.grows) backed.generic stored _ storedMade upon wraps
  exact ⟨u, carried, fun stack => Site.storeLocal_leads storing computes inside⟩

/-- The first piece of the removing accessor leaves the last wrapper around the first call of the argument
in the variable. -/
theorem findWeakCode_gives {unsubscribe : Token} (var : Variable) (placed : m.Placed)
    (backed : event.Backed m) (found : m.method method = .ok row) :
    Gives (fun code m' => event.Leaves m' row var code (event.finding unsubscribe))
      (event.findWeakCode method var) m := by
  obtain ⟨a, isClosed⟩ := backed.closed
  refine gives_get_bind (gives_lift_bind fun site sited => gives_lift_bind fun first loaded => ?_)
  refine gives_bind fun handler m₁ handlerMade => ?_
  have ev₁ := evolves_of_ok (moves_converted _ _ _ _) handlerMade
  have placed₁ := ev₁.placed placed
  have backed₁ := backed.grow ev₁.grows
  refine gives_get_bind (gives_lift_bind fun source sourceLoaded => ?_)
  obtain ⟨fieldRow, fieldFound, fieldTy, fieldStatic, -, -⟩ := backed₁.field
  refine gives_bind fun wrapped m₂ wrappedMade => ?_
  have ev₂ := evolves_of_ok (Fragment.moves_findWeak _ _ _ _) wrappedMade
  refine gives_bind fun stored m₃ storedMade => ?_
  have ev₃ := evolves_of_ok (moves_converted _ _ _ _) storedMade
  refine gives_get_bind fun code m' storing => ?_
  obtain ⟨storing, rfl⟩ := lift_eq_ok_iff.mp storing
  intro c s p h ys n upon kind eventKind args inside rule
  obtain ⟨l, call, rest, ⟨v, value, carries⟩, carries', rfl, rfl⟩ := rule
  have upon₂ := upon.earlier ev₃.grows
  have upon₁ := upon₂.earlier ev₂.grows
  have serves := Context.serves_of_method sited found kind args
  have argument : Produces c first s event.handler ((call :: rest).map .strong) s :=
    ⟨h, carries', Site.firstArgument_computes loaded serves⟩
  have handlers : Produces c handler s event.closed ((call :: rest).map .strong) s :=
    converted_gives first placed backed.refs (fun generic => (backed.generic generic).symm)
      handler m₁ handlerMade upon₁ argument
  have sources : Produces c source s event.handler (l.map (event.wrapper unsubscribe p)) s :=
    ⟨v, carries, Site.loadField_computes sourceLoaded fieldFound (fieldStatic.trans eventKind) serves value⟩
  rw [isClosed] at wrappedMade
  have finds := Fragment.findWeak_gives a source handler placed₁ backed₁.refs wrapped m₂ wrappedMade
    upon₂ sources handlers
  rw [← isClosed] at finds
  obtain ⟨u, carried, computes⟩ := converted_gives wrapped (ev₂.placed placed₁)
    (backed₁.refs.grow ev₂.grows) backed.generic stored _ storedMade upon finds
  exact ⟨u, carried, fun stack => Site.storeLocal_leads storing computes inside⟩

end WeakSubscription
