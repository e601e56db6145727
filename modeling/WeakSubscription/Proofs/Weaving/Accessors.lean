import WeakSubscription.Proofs.Execution.Calls
import WeakSubscription.Proofs.Weaving.EventCode

/-!
# Accessors

An accessor is woven by code in front of its return: a piece that leaves a delegate in a local variable, and
the store of what delegate arithmetic makes of the field and of that variable. Every method of a woven
event implements a rule for the list in the field, and goes on doing so in modules that keep the method.
-/

open WeakSubscription.Module

namespace WeakSubscription

open Execution Delegate Tracked

variable {event : Event} {refs : HelperRefs} {m m' : Module} {code pre : Code} {method : Token}
  {row : Method} {rule : Rule} {program : Program} {caller : Caller} {s : Machine}
  {p : Option ObjectRef} {h : Value} {xs ys zs : List Entry} {n : UInt32} {touched : Token → Prop}
  {apply : HelperRefs → Fragment → Fragment → Edit Fragment}
  {result : List Entry → List Entry → List Entry}

/-! ### Methods that implement a rule -/

/-- The method does more than return, and calling it for a publisher makes the field carry what the rule comes
to, in every program whose module grew out of this one. -/
def Event.Implements (event : Event) (m : Module) (method : Token) (rule : Rule) : Prop :=
  ∃ row, m.method method = .ok row ∧ row.isStatic = event.isStatic ∧
    row.body.code ≠ [.plain .ret] ∧ ∀ {program : Program} {caller : Caller} {s : Machine}
      {p : Option ObjectRef} {h : Value} {zs : List Entry} {n : UInt32},
      Grows m program.module → program.helperNamespace = event.refs.helperNamespace →
      event.isStatic = p.isNone → s.Holds p → rule program s p h zs n →
      ∃ u, Carries event.handler zs u ∧
        runBody program caller method row (p.toList.map .object ++ [h]) s =
          .ok none (({ s with lastWeakId := n } : Machine).withField event.field p u)

theorem Event.Implements.grow (implements : event.Implements m method rule) (grows : Grows m m')
    (keeps : Keeps method m m') : event.Implements m' method rule := by
  obtain ⟨row, found, static, busy, runs⟩ := implements
  refine ⟨row, keeps.row found, static, busy, ?_⟩
  intro program caller s p h zs n later
  exact runs (grows.trans later)

theorem Event.implements_of_leads (found : m.method method = .ok row)
    (static : row.isStatic = event.isStatic) (void : row.result = .void)
    (split : row.body.code = pre.thenReturn) (nonempty : pre ≠ [])
    (leads : ∀ {c : Context} {s : Machine} {p : Option ObjectRef} {h : Value} {zs : List Entry} {n : UInt32},
      c.Over event.refs m → row.isStatic = p.isNone → event.isStatic = p.isNone → s.Holds p →
      c.args = p.toList.map .object ++ [h] → c.locals = row.body.locals.map (fun _ => .null) →
      rule c.program s p h zs n →
      ∃ u locals, Carries event.handler zs u ∧
        Leads c.program c.caller pre (c.frame []) s ⟨c.args, locals, []⟩
          (({ s with lastWeakId := n } : Machine).withField event.field p u)) :
    event.Implements m method rule := by
  have busy : row.body.code ≠ [.plain .ret] := by
    rw [split]
    intro single
    exact nonempty (List.append_left_eq_self.mp single)
  refine ⟨row, found, static, busy, ?_⟩
  intro program caller s p h zs n grows ns kind holds applies
  let c : Context :=
    ⟨program, caller, p.toList.map .object ++ [h], row.body.locals.map fun _ => .null⟩
  have upon : c.Over event.refs m := ⟨grows, ns⟩
  obtain ⟨u, locals, carries, runs⟩ := leads upon (static.trans kind) kind holds rfl rfl applies
  exact ⟨u, carries, runs.runBody split void⟩

/-- A call from outside every frame enters the method and leaves the machine as its rule says. -/
theorem Event.Implements.called (implements : event.Implements m method rule)
    (grows : Grows m program.module) (keeps : Keeps method m program.module)
    (ns : program.helperNamespace = event.refs.helperNamespace) (kind : event.isStatic = p.isNone)
    (holds : s.Holds p)
    (applies : rule program { entered method p s with depth := s.depth + 1 } p h zs n)
    (levels : Nat) :
    ∃ u, Carries event.handler zs u ∧
      callWithin program (levels + 1) method (p.toList.map .object ++ [h]) s =
        .ok none (({ entered method p s with lastWeakId := n } : Machine).withField
          event.field p u) := by
  obtain ⟨row, found, static, -, runs⟩ := implements
  have inner : ∃ u, Carries event.handler zs u ∧
      runBody program (callWithin program levels) method row (p.toList.map .object ++ [h])
        { entered method p s with depth := s.depth + 1 } =
        .ok none (({ entered method p s with depth := s.depth + 1, lastWeakId := n } : Machine).withField
          event.field p u) :=
    runs grows ns kind holds applies
  obtain ⟨u, carries, ran⟩ := inner
  refine ⟨u, carries, ?_⟩
  have publisher := entryInstance_publisher (static.trans kind) [h]
  refine (callWithin_of_runBody (keeps.row found) (by rw [publisher]; exact ran)).trans ?_
  cases p <;> rfl

/-! ### Assignments to the field -/

/-- The operation on fragments computes this operation on invocation lists. -/
structure Fragment.Applies (apply : HelperRefs → Fragment → Fragment → Edit Fragment)
    (result : List Entry → List Entry → List Entry) : Prop where
  moves : ∀ (refs : HelperRefs) (f g : Fragment) (m : Module),
    Moves (Evolves fun _ => False) (apply refs f g) m
  gives : ∀ {refs : HelperRefs} {m : Module} (f g : Fragment), m.Placed → refs.Name m →
    Gives (fun k m' => k.ty = f.ty ∧ ∀ {c : Context} {s s₁ s₂ : Machine} {xs ys : List Entry},
      c.Over refs m' → Produces c f s f.ty xs s₁ → Produces c g s₁ f.ty ys s₂ →
      Produces c k s f.ty (result xs ys) s₂) (apply refs f g) m

theorem Fragment.combine_applies : Applies combine (· ++ ·) :=
  ⟨fun _ _ _ _ => moves_arithmetic _ _ _ _, fun f g placed names => combine_gives f g placed names⟩

theorem Fragment.remove_applies : Applies remove fun xs ys => withoutRun ys xs :=
  ⟨fun _ _ _ _ => moves_arithmetic _ _ _ _, fun f g placed names => remove_gives f g placed names⟩

/-- Code that stores into the field what an operation makes of the field and of an operand. -/
def Event.assignCode (event : Event) (apply : HelperRefs → Fragment → Fragment → Edit Fragment)
    (method : Token) (operand : Site → Module → Except Error Fragment) : Edit Code := do
  let site ← Site.ofMethod (← get) method
  let source ← site.loadField (← get) event.field
  let handler ← operand site (← get)
  let assigned ← apply event.refs source handler
  site.storeField (← get) event.field assigned

theorem moves_assigning {rel : Module → Module → Prop} [Interns rel]
    (moves : ∀ (refs : HelperRefs) (f g : Fragment) (m : Module), Moves rel (apply refs f g) m) (event : Event)
    (method : Token) (operand : Site → Module → Except Error Fragment) (m : Module) :
    Moves rel (event.assignCode apply method operand) m := by
  refine moves_get_bind (moves_lift_bind fun site _ => ?_)
  refine moves_get_bind (moves_lift_bind fun source _ => ?_)
  refine moves_get_bind (moves_lift_bind fun handler _ => ?_)
  refine moves_bind (moves _ _ _ _) fun assigned m₁ _ => ?_
  exact moves_get_bind (moves_lift _)

theorem moves_assignCode (applies : Fragment.Applies apply result) (event : Event) (method : Token)
    (operand : Site → Module → Except Error Fragment) (m : Module) :
    Moves (Evolves fun _ => False) (event.assignCode apply method operand) m :=
  moves_assigning applies.moves event method operand m

theorem assignCode_gives (applies : Fragment.Applies apply result)
    (operand : Site → Module → Except Error Fragment) (placed : m.Placed) (backed : event.Backed m)
    (found : m.method method = .ok row) :
    Gives (fun code m' => code ≠ [] ∧ ∀ ⦃c : Context⦄ ⦃s : Machine⦄ ⦃p : Option ObjectRef⦄
        ⦃h w : Value⦄ ⦃xs ys : List Entry⦄, c.Over event.refs m' → row.isStatic = p.isNone →
      event.isStatic = p.isNone → s.Holds p → c.args = p.toList.map .object ++ [h] →
      event.Reads c.program.module s p xs → Carries event.handler ys w →
      (∀ {site : Site} {f : Fragment}, operand site m = .ok f → c.Serves site p h →
        Computes c f s w s) →
      ∃ u, Carries event.handler (result xs ys) u ∧ ∀ stack,
        Leads c.program c.caller code (c.frame stack) s (c.frame stack) (s.withField event.field p u))
      (event.assignCode apply method operand) m := by
  refine gives_get_bind (gives_lift_bind fun site sited => ?_)
  refine gives_get_bind (gives_lift_bind fun source sourceLoaded => ?_)
  refine gives_get_bind (gives_lift_bind fun handler handlerLoaded => ?_)
  obtain ⟨fieldRow, fieldFound, fieldTy, fieldStatic, -, -⟩ := backed.field
  have sourceTy : source.ty = event.handler := (loadField_ty sourceLoaded fieldFound).trans fieldTy
  refine gives_bind fun assigned m₁ assignedMade => ?_
  have ev₁ := evolves_of_ok (applies.moves _ _ _ _) assignedMade
  refine gives_get_bind fun code m' storing => ?_
  obtain ⟨storing, rfl⟩ := lift_eq_ok_iff.mp storing
  refine ⟨Site.storeField_ne_nil storing, ?_⟩
  intro c s p h w xs ys upon kind eventKind holds args reads carries computed
  obtain ⟨v, value, carried⟩ := reads
  have serves := Context.serves_of_method sited found kind args
  have fieldKind : fieldRow.isStatic = p.isNone := fieldStatic.trans eventKind
  have fieldFound₁ := ev₁.grows.field fieldFound
  have sources : Produces c source s source.ty xs s :=
    ⟨v, sourceTy ▸ carried, Site.loadField_computes sourceLoaded fieldFound fieldKind serves value⟩
  have handlers : Produces c handler s source.ty ys s :=
    ⟨w, sourceTy ▸ carries, computed handlerLoaded serves⟩
  obtain ⟨-, assigns⟩ := applies.gives source handler placed backed.refs assigned _ assignedMade
  obtain ⟨u, holding, computes⟩ := assigns upon sources handlers
  refine ⟨u, sourceTy ▸ holding, fun stack => ?_⟩
  exact Site.storeField_leads storing fieldFound₁ fieldKind serves computes
    (Machine.setField_eq (upon.grows.field fieldFound₁) fieldKind holds)

/-! ### Woven accessors -/

/-- An accessor of the event that only returns so far. -/
def Event.Accessor (event : Event) (m : Module) (method : Token) : Prop :=
  ∃ row, m.method method = .ok row ∧ row.owner = event.owner ∧ row.isStatic = event.isStatic ∧
    row.params.map (·.ty) = [event.handler] ∧ row.result = .void ∧ row.body.code = [.plain .ret]

/-- Puts code in front of the return of an accessor: a piece that leaves a delegate in a new variable, and
the store of what the operation makes of the field and the variable. -/
def Event.weaveAccessor (event : Event) (apply : HelperRefs → Fragment → Fragment → Edit Fragment)
    (method : Token) (piece : Variable → Edit Code) : Edit Unit := do
  let var ← event.addVariable method
  let code ← piece var
  let store ← event.assignCode apply method fun site m => site.loadLocal m var
  Module.insertCode method (code ++ store) 0

theorem moves_weaveAccessor (applies : Fragment.Applies apply result) (event : Event) (method : Token)
    {piece : Variable → Edit Code} (moves : ∀ var m, Moves (Evolves fun _ => False) (piece var) m)
    (m : Module) : Moves (Evolves (· = method)) (event.weaveAccessor apply method piece) m := by
  have quiet : ∀ {α : Type} {x : Edit α} {m : Module}, Moves (Evolves fun _ => False) x m →
      Moves (Evolves (· = method)) x m := fun moves => Evolves.imp moves fun _ => False.elim
  refine moves_bind (moves_addLocal _ _ m) fun var m₁ _ => ?_
  refine moves_bind (quiet (moves var m₁)) fun code m₂ _ => ?_
  refine moves_bind (quiet (moves_assignCode applies _ _ _ m₂)) fun store m₃ _ => ?_
  exact moves_insertCode _ _ _ m₃

/-- A woven accessor updates the field with what its piece leaves in the variable. -/
theorem weaveAccessor_gives (applies : Fragment.Applies apply result) (placed : m.Placed)
    (backed : event.Backed m) (accessor : event.Accessor m method) {piece : Variable → Edit Code}
    (moves : ∀ var m, Moves (Evolves fun _ => False) (piece var) m)
    (gives : ∀ {var : Variable} {m' : Module} {row : Method}, Evolves (· = method) m m' →
      m'.method method = .ok row → Gives (fun code m'' => event.Leaves m'' row var code rule)
        (piece var) m') :
    Gives (fun _ m' => event.Implements m' method (event.updating result rule))
      (event.weaveAccessor apply method piece) m := by
  obtain ⟨row, found, -, static, -, void, code⟩ := accessor
  refine gives_bind fun var m₁ varMade => ?_
  have ev₁ : Evolves (· = method) m m₁ := (moves_addLocal _ _ m).of_ok varMade
  obtain ⟨isVar, -, found₁⟩ := addLocal_gives _ found _ _ varMade
  refine gives_bind fun piece' m₂ pieceMade => ?_
  have ev₂ := evolves_of_ok (moves var m₁) pieceMade
  have found₂ := (ev₂.keeps id).row found₁
  have leaves := gives ev₁ found₁ _ _ pieceMade
  refine gives_bind fun store m₃ storeMade => ?_
  have ev₃ := evolves_of_ok (moves_assignCode applies _ _ _ m₂) storeMade
  have found₃ := (ev₃.keeps id).row found₂
  obtain ⟨nonempty, stores⟩ := assignCode_gives applies _ (ev₂.placed (ev₁.placed placed))
    ((backed.grow ev₁.grows).grow ev₂.grows) found₂ _ _ storeMade
  intro _ m₄ inserted
  have ev₄ : Evolves (· = method) m₃ m₄ := (moves_insertCode _ _ _ m₃).of_ok inserted
  have found₄ := insertCode_gives _ found₃ _ _ inserted
  have split : (piece' ++ store) ++ row.body.code = (piece' ++ store).thenReturn := by rw [code]; rfl
  refine Event.implements_of_leads found₄ static void split
    (List.append_ne_nil_of_right_ne_nil _ nonempty) ?_
  intro c s p h zs n upon kind eventKind holds args locals rule
  obtain ⟨xs, ys, reads, applied, rfl⟩ := rule
  have upon₃ := upon.earlier ev₄.grows
  have inside : var.index < c.locals.length := by
    rw [locals, isVar]
    simp
  obtain ⟨w, carries, first⟩ := leaves (upon₃.earlier ev₃.grows) kind eventKind args inside applied
  have second := stores (c := { c with locals := c.locals.set var.index w })
    (s := { s with lastWeakId := n }) ⟨upon₃.grows, upon₃.helperNamespace⟩ kind eventKind holds args reads
    carries fun loaded _ => Site.loadLocal_computes loaded (List.getElem?_set_self inside)
  obtain ⟨u, carried, second⟩ := second
  exact ⟨u, _, carried, (first []).append (second [])⟩

end WeakSubscription
