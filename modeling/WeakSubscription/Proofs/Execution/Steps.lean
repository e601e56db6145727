import WeakSubscription.Execution.Call

/-!
# Runs of straight-line code

`runSteps` runs code that has no return in it and keeps the frame behind its last instruction. A body
runs as its prefix does and then goes on with the rest, so what a piece of code does to a frame can be
said without the code around it. Calls are split into what the frame does for them and the call itself.
-/

namespace WeakSubscription.Execution

variable {program : Program} {caller : Caller} {i : Instruction} {code pre rest : Code}
  {frame frame' : Activation} {s s' : Machine} {e : Error}

/-- The frame in which the body of a method starts: no local is set and nothing is on the stack. -/
def entryFrame (row : Method) (args : List Value) : Activation :=
  ⟨args, row.body.locals.map fun _ => .null, []⟩

/-- Runs code that has no return in it, one instruction after the other. -/
def runSteps (program : Program) (caller : Caller) : Code → Activation → Run Activation
  | [], frame => pure frame
  | i :: rest, frame => do
    let frame ← step program caller i frame
    runSteps program caller rest frame

theorem runSteps_append (a b : Code) (frame : Activation) :
    runSteps program caller (a ++ b) frame =
      runSteps program caller a frame >>= runSteps program caller b := by
  induction a generalizing frame with
  | nil => rw [List.nil_append, runSteps, pure_bind]
  | cons i a ih => simp only [List.cons_append, runSteps, bind_assoc, ih]

theorem runSteps_singleton (i : Instruction) (frame : Activation) :
    runSteps program caller [i] frame = step program caller i frame := by
  simp only [runSteps, bind_pure]

theorem runSteps_append_of_ok (b : Code) (first : runSteps program caller pre frame s = .ok frame' s') :
    runSteps program caller (pre ++ b) frame s = runSteps program caller b frame' s' := by
  rw [runSteps_append, Tracked.bind_of_ok first]

/-- A run that fails comes to an instruction that does. -/
theorem runSteps_error (failed : runSteps program caller code frame s = .error e s') :
    ∃ pre i rest frame₁ s₁, code = pre ++ i :: rest ∧
      runSteps program caller pre frame s = .ok frame₁ s₁ ∧
      step program caller i frame₁ s₁ = .error e s' := by
  induction code generalizing frame s with
  | nil => cases failed
  | cons i rest ih =>
    obtain here | ⟨frame₁, s₁, stepped, later⟩ := Tracked.bind_eq_error_iff.mp failed
    · exact ⟨[], i, rest, frame, s, rfl, rfl, here⟩
    · obtain ⟨pre, j, rest, frame₂, s₂, rfl, ran, stopped⟩ := ih later
      exact ⟨i :: pre, j, rest, frame₂, s₂, rfl, Tracked.bind_eq_ok_iff.mpr ⟨frame₁, s₁, stepped, ran⟩,
        stopped⟩

/-- What holds of every instruction that a run of the code executes, with the frame and the machine that
it finds. -/
def Throughout (program : Program) (caller : Caller) (P : Instruction → Activation → Machine → Prop) :
    Code → Activation → Machine → Prop
  | [], _, _ => True
  | i :: rest, frame, s =>
    P i frame s ∧
      match step program caller i frame s with
      | .ok frame' s' => Throughout program caller P rest frame' s'
      | .error _ _ => True

theorem Throughout.split {P : Instruction → Activation → Machine → Prop}
    (all : Throughout program caller P (pre ++ rest) frame s)
    (ran : runSteps program caller pre frame s = .ok frame' s') :
    Throughout program caller P pre frame s ∧ Throughout program caller P rest frame' s' := by
  induction pre generalizing frame s with
  | nil =>
    obtain ⟨rfl, rfl⟩ := EStateM.Result.ok.inj ran
    exact ⟨trivial, all⟩
  | cons i pre ih =>
    obtain ⟨frame₁, s₁, stepped, onward⟩ := Tracked.bind_eq_ok_iff.mp ran
    obtain ⟨first, later⟩ := all
    simp only [stepped] at later
    obtain ⟨before, behind⟩ := ih later onward
    refine ⟨⟨first, ?_⟩, behind⟩
    simpa only [stepped] using before

theorem Throughout.imp {P Q : Instruction → Activation → Machine → Prop}
    (all : Throughout program caller P code frame s) (h : ∀ i frame s, P i frame s → Q i frame s) :
    Throughout program caller Q code frame s := by
  induction code generalizing frame s with
  | nil => trivial
  | cons i rest ih =>
    obtain ⟨first, later⟩ := all
    refine ⟨h i frame s first, ?_⟩
    cases stepped : step program caller i frame s with
    | ok frame' s' =>
      simp only [stepped] at later
      exact ih later
    | error e s' => trivial

/-! ### Bodies -/

/-- Code without a return is run through before what follows it. -/
theorem runCode_append (result : Ty) (noReturn : ∀ i ∈ pre, i.opcode ≠ .ret) (rest : Code)
    (frame : Activation) :
    runCode program caller result (pre ++ rest) frame =
      runSteps program caller pre frame >>= runCode program caller result rest := by
  induction pre generalizing frame with
  | nil => rw [List.nil_append, runSteps, pure_bind]
  | cons i pre ih =>
    have goesOn : i.opcode ≠ .ret := noReturn i List.mem_cons_self
    have later := fun frame => ih (fun j member => noReturn j (List.mem_cons_of_mem _ member)) frame
    simp only [List.cons_append, runCode, goesOn, if_false, runSteps, bind_assoc, later]

theorem runCode_return (result : Ty) (h : i.opcode = .ret) :
    runCode program caller result (i :: rest) frame =
      Outcome.left <$> (liftM (returned result frame) : Run (Option Value)) := by
  rw [runCode, if_pos h]

/-- A body that ends with its only return gives what is returned behind the code before it. -/
theorem runBody_eq {method : Token} {row : Method} {args : List Value}
    (split : row.body.code = pre ++ [i]) (noReturn : ∀ j ∈ pre, j.opcode ≠ .ret)
    (last : i.opcode = .ret) :
    runBody program caller method row args =
      runSteps program caller pre (entryFrame row args) >>= fun frame =>
        liftM (returned row.result frame) := by
  have full : row.body.isEmpty = false := by simp [Body.isEmpty, split]
  simp only [runBody, full, Bool.false_eq_true, if_false, split, runCode_append _ noReturn, bind_assoc,
    runCode_return _ last, map_eq_pure_bind, pure_bind, bind_pure]
  rfl

/-! ### Calls -/

/-- A call that a frame is about to make: what is called on which values, and the stack below them. -/
structure CallSite where
  token : Token
  target : CallTarget
  this : Option Value
  args : List Value
  below : List Value

/-- What a frame does for a call: it resolves the target and pops the arguments, and the instance if
the target has one. -/
def callSite (program : Program) (i : Instruction) (frame : Activation) : Except Error CallSite := do
  let token ← operand i
  let target ← program.module.callTarget token
  let (args, stack) ← popMany target.signature.params.length frame.stack
  let (this, below) ←
    if target.signature.hasThis then (fun (v, stack) => (some v, stack)) <$> pop stack
    else pure (none, stack)
  return { token, target, this, args, below }

/-- What a frame does for a construction, which pops no instance. -/
def constructSite (program : Program) (i : Instruction) (frame : Activation) :
    Except Error CallSite := do
  let token ← operand i
  let target ← program.module.callTarget token
  let (args, below) ← popMany target.signature.params.length frame.stack
  return { token, target, this := none, args, below }

namespace CallSite

/-- The call itself, of a method of the module or of one outside. -/
def perform (site : CallSite) (program : Program) (caller : Caller) : Run (Option Value) :=
  if site.token.inTable .method then caller site.token (site.this.toList ++ site.args)
  else callOutside program caller site.token site.target site.this site.args

/-- The construction itself. -/
def build (site : CallSite) (program : Program) (caller : Caller) : Run Value :=
  construct program caller site.token site.target site.args

end CallSite

@[simp] theorem pop_cons (v : Value) (stack : List Value) : pop (v :: stack) = .ok (v, stack) := rfl

theorem popMany_of_le {n : Nat} {stack : List Value} (enough : n ≤ stack.length) :
    popMany n stack = .ok ((stack.take n).reverse, stack.drop n) := by
  rw [popMany, if_neg (by omega)]

/-- A call pushes what it gives back onto the stack below its arguments. -/
theorem callRule_eq (i : Instruction) (frame : Activation) :
    callRule program caller i frame = do
      let site ← callSite program i frame
      let result ← site.perform program caller
      return { frame with stack := result.toList ++ site.below } := by
  simp only [callRule, callSite, CallSite.perform, Tracked.lift_bind, bind_assoc]
  refine bind_congr fun token => bind_congr fun target => bind_congr fun popped => ?_
  cases target.signature.hasThis
  · cases inside : token.inTable .method <;>
      simp only [inside, Bool.false_eq_true, if_true, if_false, pure_bind, Tracked.lift_pure]
  · simp only [if_true, map_eq_pure_bind, bind_assoc, pure_bind, Tracked.lift_bind, Tracked.lift_pure]
    refine bind_congr fun below => ?_
    cases token.inTable .method <;> simp only [Bool.false_eq_true, if_true, if_false]

/-- A construction pushes the new value onto the stack below its arguments. -/
theorem constructRule_eq (i : Instruction) (frame : Activation) :
    constructRule program caller i frame = do
      let site ← constructSite program i frame
      let created ← site.build program caller
      return { frame with stack := created :: site.below } := by
  simp only [constructRule, constructSite, CallSite.build, Tracked.lift_bind, bind_assoc,
    Tracked.lift_pure, pure_bind]

theorem step_eq_callRule (op : i.opcode = .call ∨ i.opcode = .callvirt) :
    step program caller i frame = callRule program caller i frame := by
  obtain op | op := op <;> simp only [step, op]

theorem step_eq_constructRule (op : i.opcode = .newobj) :
    step program caller i frame = constructRule program caller i frame := by
  simp only [step, op]

/-- An executed call pushes what it gave back. -/
theorem step_call_ok {site : CallSite} (op : i.opcode = .call ∨ i.opcode = .callvirt)
    (found : callSite program i frame = .ok site)
    (stepped : step program caller i frame s = .ok frame' s') :
    ∃ result, site.perform program caller s = .ok result s' ∧
      frame' = { frame with stack := result.toList ++ site.below } := by
  rw [step_eq_callRule op, callRule_eq, found, Tracked.lift_ok_bind] at stepped
  obtain ⟨result, s₁, performed, last⟩ := Tracked.bind_eq_ok_iff.mp stepped
  obtain ⟨rfl, rfl⟩ := EStateM.Result.ok.inj last
  exact ⟨result, performed, rfl⟩

/-- An executed construction pushes the new value. -/
theorem step_newobj_ok {site : CallSite} (op : i.opcode = .newobj)
    (found : constructSite program i frame = .ok site)
    (stepped : step program caller i frame s = .ok frame' s') :
    ∃ created, site.build program caller s = .ok created s' ∧
      frame' = { frame with stack := created :: site.below } := by
  rw [step_eq_constructRule op, constructRule_eq, found, Tracked.lift_ok_bind] at stepped
  obtain ⟨created, s₁, built, last⟩ := Tracked.bind_eq_ok_iff.mp stepped
  obtain ⟨rfl, rfl⟩ := EStateM.Result.ok.inj last
  exact ⟨created, built, rfl⟩

/-! ### Calls out of the module -/

/-- The helper that a token goes by the name of, through the member reference behind it. -/
def helperOf? (program : Program) (token : Token) : Option Helper := do
  let ref ← (referenceOf program.module token).toOption
  Helper.all.find? (·.isNamedBy program.helperNamespace ref)

/-- The call of the helper that the member reference goes by the name of. -/
def callByName (program : Program) (token : Token) (target : CallTarget) (args : List Value) :
    Run (Option Value) := do
  let ref ← referenceOf program.module token
  let name := program.module.displayName token
  match Helper.all.find? (·.isNamedBy program.helperNamespace ref) with
  | some h => some <$> callHelper h name target.signature.result args
  | none => Run.fault (.unsupportedCall name)

/-- Whether a call out of the module runs the entries of a delegate. -/
def entersDelegate (target : CallTarget) (this : Option Value) : Bool :=
  target.name == "Invoke" && (this.bind Value.delegate?).isSome

section

variable {token : Token} {target : CallTarget} {this : Option Value} {args : List Value}

theorem callOutside_of_entersDelegate (enters : entersDelegate target this = true) :
    ∃ d, target.name = "Invoke" ∧ this = some (.delegate d) ∧
      callOutside program caller token target this args = do
        runEntries caller d.entries args
        return none := by
  obtain ⟨named, held⟩ := Bool.and_eq_true_iff.mp enters
  obtain ⟨d, held⟩ := Option.isSome_iff_exists.mp held
  obtain ⟨v, rfl, isDelegate⟩ := Option.bind_eq_some_iff.mp held
  obtain rfl := Value.eq_of_delegate? isDelegate
  refine ⟨d, beq_iff_eq.mp named, rfl, ?_⟩
  unfold callOutside
  rw [named, held]

theorem callOutside_of_not_entersDelegate (other : entersDelegate target this = false) :
    callOutside program caller token target this args = callByName program token target args := by
  unfold callOutside entersDelegate at *
  cases named : target.name == "Invoke" <;> cases held : this.bind Value.delegate?
  case true.some d => simp [named, held] at other
  all_goals rfl

/-- A call by name asks the helper, or is refused without a change. -/
theorem callByName_cases (program : Program) (token : Token) (target : CallTarget) (args : List Value) :
    (∃ h, helperOf? program token = some h ∧ callByName program token target args =
      some <$> callHelper h (program.module.displayName token) target.signature.result args) ∨
    helperOf? program token = none ∧ ∃ e, callByName program token target args = throw e := by
  unfold helperOf? callByName
  cases referenceOf program.module token with
  | error e => exact .inr ⟨rfl, e, rfl⟩
  | ok ref =>
    cases known : Helper.all.find? (·.isNamedBy program.helperNamespace ref) with
    | some h => exact .inl ⟨h, known, by rw [Tracked.lift_ok_bind, known]⟩
    | none => exact .inr ⟨known, _, by rw [Tracked.lift_ok_bind, known]; rfl⟩

end

end WeakSubscription.Execution
