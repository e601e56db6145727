import WeakSubscription.Proofs.Execution.Termination

/-!
# The limit of calls

A request is refused for its depth exactly if it comes to start a method while as many frames are open as may be:
no other failure looks like that one, and none is lost on the way out. However a request ends, the frames that it
opened are closed behind it. So every request finds all levels free, whatever failed before it, and what it comes
to depends only on what a machine holds.
-/

namespace WeakSubscription

open Execution Tracked Machine Stepwise

variable {α β : Type} {program : Program} {m m' : Machine}

/-! ### Failures for other causes -/

theorem except_bind_ne_error {ε : Type} {e : ε} {x : Except ε α} {f : α → Except ε β} (first : x ≠ .error e)
    (later : ∀ a, f a ≠ .error e) : x >>= f ≠ .error e := by
  cases x with
  | error e' => exact fun same => first (congrArg Except.error (Except.error.inj same))
  | ok a => exact later a

theorem except_map_ne_error {ε : Type} {e : ε} {x : Except ε α} {f : α → β} (first : x ≠ .error e) :
    f <$> x ≠ .error e := by
  cases x with
  | error e' => exact fun same => first (congrArg Except.error (Except.error.inj same))
  | ok a => exact nofun

/-- The failure of a call for which no level is left. -/
def tooDeep : Error := .fault (.callDepthExceeded maxCallDepth)

namespace Module

variable {module : Module} {t : Token}

theorem lookup_ne_tooDeep {table : Table} {rows : List α} {e : Error} (other : e ≠ tooDeep) :
    (lookup table rows t).elim (.error e) .ok ≠ (.error tooDeep : Except Error α) := by
  cases lookup table rows t with
  | none => exact fun same => other (Except.error.inj same)
  | some row => exact nofun

theorem typeDef_ne_tooDeep : module.typeDef t ≠ .error tooDeep := lookup_ne_tooDeep nofun

theorem method_ne_tooDeep : module.method t ≠ .error tooDeep := lookup_ne_tooDeep nofun

theorem memberRef_ne_tooDeep : module.memberRef t ≠ .error tooDeep := lookup_ne_tooDeep nofun

theorem resolveType_ne_tooDeep : module.resolveType t ≠ .error tooDeep := by
  unfold resolveType
  split
  · exact except_map_ne_error typeDef_ne_tooDeep
  · exact except_map_ne_error (lookup_ne_tooDeep nofun)
  · exact lookup_ne_tooDeep nofun
  all_goals exact nofun

theorem callTarget_ne_tooDeep : module.callTarget t ≠ .error tooDeep := by
  unfold callTarget
  split
  · exact except_bind_ne_error method_ne_tooDeep fun _ => except_bind_ne_error typeDef_ne_tooDeep fun _ => nofun
  · exact except_bind_ne_error memberRef_ne_tooDeep fun _ => nofun
  · exact except_bind_ne_error (lookup_ne_tooDeep nofun) fun _ =>
      except_bind_ne_error memberRef_ne_tooDeep fun _ => nofun
  all_goals exact nofun

end Module

namespace Delegate

variable {a b : Value} {t : Ty}

theorem asOperand_ne_tooDeep {use : ValueUse} : a.asOperand use ≠ .error tooDeep := by
  cases a <;> exact nofun

theorem requireSameType_ne_tooDeep {d e : Delegate} : requireSameType d e ≠ .error tooDeep := by
  unfold requireSameType
  split <;> exact nofun

theorem combine_ne_tooDeep : combine a b ≠ .error tooDeep := by
  refine except_bind_ne_error asOperand_ne_tooDeep fun left => ?_
  refine except_bind_ne_error asOperand_ne_tooDeep fun right => ?_
  cases left <;> cases right
  case some.some d e => exact except_bind_ne_error requireSameType_ne_tooDeep fun _ => nofun
  all_goals exact nofun

theorem remove_ne_tooDeep : remove a b ≠ .error tooDeep := by
  refine except_bind_ne_error asOperand_ne_tooDeep fun source => ?_
  cases source with
  | none => exact nofun
  | some d =>
    refine except_bind_ne_error asOperand_ne_tooDeep fun value => ?_
    cases value with
    | none => exact nofun
    | some e =>
      refine except_bind_ne_error requireSameType_ne_tooDeep fun _ => ?_
      split <;> exact nofun

theorem changeType_ne_tooDeep : changeType a t ≠ .error tooDeep := by
  cases a <;> exact nofun

theorem makeWeak_ne_tooDeep {last : UInt32} : makeWeak a b t last ≠ .error tooDeep := by
  cases a <;> cases b <;> exact nofun

theorem findWeak_ne_tooDeep : findWeak a b t ≠ .error tooDeep := by
  cases a <;> cases b <;> exact nofun

end Delegate

namespace Machine

theorem object_ne_tooDeep {r : ObjectRef} : m.object r ≠ .error tooDeep := by
  unfold object
  split
  · split <;> exact nofun
  · exact nofun

theorem fieldValue_ne_tooDeep {module : Module} {field : Token} {target? : Option ObjectRef} :
    m.fieldValue module field target? ≠ .error tooDeep := by
  refine except_bind_ne_error (Module.lookup_ne_tooDeep nofun) fun row => ?_
  split
  · exact nofun
  · cases target? with
    | none => exact nofun
    | some r => exact except_bind_ne_error object_ne_tooDeep fun _ => nofun

end Machine

namespace Execution

variable {i : Instruction} {frame : Activation} {stack args : List Value} {v w : Value} {t : Ty}

theorem operand_ne_tooDeep : operand i ≠ .error tooDeep := by
  unfold operand
  cases i.token? <;> simp [tooDeep]

theorem pop_ne_tooDeep : pop stack ≠ .error tooDeep := by
  cases stack <;> exact nofun

theorem popMany_ne_tooDeep {n : Nat} : popMany n stack ≠ .error tooDeep := by
  unfold popMany
  split <;> exact nofun

theorem receiver_ne_tooDeep : receiver v ≠ .error tooDeep := by
  cases v <;> exact nofun

theorem two_ne_tooDeep : two args ≠ .error tooDeep := by
  unfold two
  split <;> exact nofun

theorem argument_ne_tooDeep : argument i frame ≠ .error tooDeep := by
  unfold argument
  dsimp only
  split <;> exact nofun

theorem localValue_ne_tooDeep : localValue i frame ≠ .error tooDeep := by
  unfold localValue
  dsimp only
  split <;> exact nofun

theorem moveToLocal_ne_tooDeep : moveToLocal i frame ≠ .error tooDeep := by
  refine except_bind_ne_error pop_ne_tooDeep fun popped => ?_
  dsimp only
  split <;> exact nofun

theorem returned_ne_tooDeep : returned t frame ≠ .error tooDeep := by
  unfold returned
  split
  · exact nofun
  · exact except_map_ne_error pop_ne_tooDeep

theorem cast_ne_tooDeep : cast m v t ≠ .error tooDeep := by
  have compared : ∀ actual : Ty, (if actual.SameName t ∨ t.isUniversalBase = true then pure v
      else throw (.fault (.invalidCast actual t)) : Except Error Value) ≠ .error tooDeep := by
    intro actual
    split <;> exact nofun
  cases v with
  | null | methodPointer _ => exact nofun
  | delegate d => exact compared d.type
  | object r =>
    refine except_bind_ne_error (except_map_ne_error object_ne_tooDeep) fun actual? => ?_
    cases actual? with
    | none => exact nofun
    | some actual => exact compared actual

theorem bindDelegate_ne_tooDeep : bindDelegate t v w ≠ .error tooDeep := by
  cases v <;> cases w <;> exact nofun

theorem callSite_ne_tooDeep : callSite program i frame ≠ .error tooDeep := by
  refine except_bind_ne_error operand_ne_tooDeep fun token => ?_
  refine except_bind_ne_error Module.callTarget_ne_tooDeep fun target => ?_
  refine except_bind_ne_error popMany_ne_tooDeep fun popped => ?_
  dsimp only
  split
  · exact except_bind_ne_error (except_map_ne_error pop_ne_tooDeep) fun _ => nofun
  · exact nofun

theorem constructSite_ne_tooDeep : constructSite program i frame ≠ .error tooDeep := by
  refine except_bind_ne_error operand_ne_tooDeep fun token => ?_
  refine except_bind_ne_error Module.callTarget_ne_tooDeep fun target => ?_
  exact except_bind_ne_error popMany_ne_tooDeep fun _ => nofun

theorem referenceOf_ne_tooDeep {module : Module} {token : Token} : referenceOf module token ≠ .error tooDeep := by
  unfold referenceOf
  split
  · exact except_bind_ne_error (Module.lookup_ne_tooDeep nofun) fun _ => Module.memberRef_ne_tooDeep
  · exact Module.memberRef_ne_tooDeep

/-! ### Instructions without calls -/

/-- Wherever the computation starts, it does not fail for the depth of calls. -/
def NeverTooDeep (x : Run α) : Prop := ∀ m, Fails (fun e _ => e ≠ tooDeep) x m

namespace NeverTooDeep

theorem pure (a : α) : NeverTooDeep (Pure.pure a) := fun _ => fails_pure a

theorem throw {e : Error} (other : e ≠ tooDeep) : NeverTooDeep (MonadExcept.throw e : Run α) :=
  fun _ _ _ failed => (EStateM.Result.error.inj failed).1 ▸ other

theorem lift {x : Except Error α} (never : x ≠ .error tooDeep) : NeverTooDeep (liftM x) :=
  fun _ => fails_lift fun _ failed same => never (same ▸ failed)

theorem bind {x : Run α} {f : α → Run β} (first : NeverTooDeep x) (later : ∀ a, NeverTooDeep (f a)) :
    NeverTooDeep (x >>= f) :=
  fun m => fails_bind (first m) fun a m' _ => later a m'

theorem lift_bind {x : Except Error α} {f : α → Run β} (never : x ≠ .error tooDeep)
    (later : ∀ a, NeverTooDeep (f a)) : NeverTooDeep (liftM x >>= f) :=
  bind (lift never) later

theorem get_bind {f : Machine → Run β} (later : ∀ m, NeverTooDeep (f m)) : NeverTooDeep (get >>= f) :=
  fun m => fails_get_bind (later m m)

theorem map {x : Run α} {f : α → β} (first : NeverTooDeep x) : NeverTooDeep (f <$> x) := by
  rw [map_eq_pure_bind]
  exact bind first fun _ => .pure _

end NeverTooDeep

theorem alloc_neverTooDeep (t : Ty) : NeverTooDeep (alloc t) := by
  refine .get_bind fun m => ?_
  split
  · exact fun _ => fails_of_ok rfl
  · exact .throw nofun

theorem setField_neverTooDeep (module : Module) (field : Token) (target? : Option ObjectRef) (v : Value) :
    NeverTooDeep (setField module field target? v) := by
  refine .get_bind fun m => .lift_bind (Module.lookup_ne_tooDeep nofun) fun row => ?_
  split
  · exact fun _ => fails_of_ok rfl
  · cases target? with
    | none => exact .throw nofun
    | some r => exact .lift_bind object_ne_tooDeep fun _ _ => fails_of_ok rfl

theorem callHelper_neverTooDeep (h : Helper) (name : String) (result : Ty) (args : List Value) :
    NeverTooDeep (callHelper h name result args) := by
  cases h with
  | combine => exact .lift_bind two_ne_tooDeep fun _ => .lift Delegate.combine_ne_tooDeep
  | remove => exact .lift_bind two_ne_tooDeep fun _ => .lift Delegate.remove_ne_tooDeep
  | findWeak => exact .lift_bind two_ne_tooDeep fun _ => .lift Delegate.findWeak_ne_tooDeep
  | changeType =>
    cases args with
    | nil => exact .throw nofun
    | cons a rest => exact .lift Delegate.changeType_ne_tooDeep
  | makeWeak =>
    refine .lift_bind two_ne_tooDeep fun _ => .get_bind fun m => ?_
    exact .lift_bind Delegate.makeWeak_ne_tooDeep fun _ _ => fails_of_ok rfl
  | compilerGenerated | actionConstructor => exact .throw nofun

mutual

/-- By recursion on the entry, along with the callback inside it. -/
theorem runEntry_noCaller : ∀ (e : Entry) (args : List Value), runEntry noCaller e args = pure ()
  | .strong _, _ => rfl
  | .weak id call callbackType callback handlerType, args => by
    rw [runEntry, runEntries_noCaller callback]
    funext m
    show (if call.target.all m.isAlive = true then (pure () : Run Unit) else pure ()) m = _
    rw [ite_self]
termination_by structural e => e

theorem runEntries_noCaller :
    ∀ (entries : List Entry) (args : List Value), runEntries noCaller entries args = pure ()
  | [], _ => rfl
  | e :: entries, args => by
    rw [runEntries, runEntry_noCaller e args, runEntries_noCaller entries args]
    rfl
termination_by structural entries => entries

end

theorem perform_neverTooDeep (site : CallSite) : NeverTooDeep (site.perform program noCaller) := by
  unfold CallSite.perform
  split
  · exact .pure _
  · unfold callOutside
    split
    · rw [runEntries_noCaller]
      exact .pure _
    · refine .lift_bind referenceOf_ne_tooDeep fun ref => ?_
      dsimp only
      split
      · exact (callHelper_neverTooDeep _ _ _ _).map
      · exact .throw nofun

theorem build_neverTooDeep (site : CallSite) : NeverTooDeep (site.build program noCaller) := by
  unfold CallSite.build construct
  split
  · exact .lift_bind two_ne_tooDeep fun _ => .lift_bind bindDelegate_ne_tooDeep fun _ => .pure _
  · split
    · exact .bind (alloc_neverTooDeep _) fun _ => .bind (.pure _) fun _ => .pure _
    · exact .throw nofun

/-- An instruction that calls nothing does not fail for the depth of calls. -/
theorem step_neverTooDeep (i : Instruction) (frame : Activation) : NeverTooDeep (step program noCaller i frame) := by
  unfold step
  cases i.opcode with
  | nop | ret | ldnull => exact .pure _
  | ldarg0 | ldarg1 | ldarg2 | ldarg3 | ldargS => exact .lift_bind argument_ne_tooDeep fun _ => .pure _
  | ldloc0 | ldloc1 | ldloc2 | ldloc3 | ldlocS => exact .lift_bind localValue_ne_tooDeep fun _ => .pure _
  | stloc0 | stloc1 | stloc2 | stloc3 | stlocS => exact .lift moveToLocal_ne_tooDeep
  | dup | pop => exact .lift_bind pop_ne_tooDeep fun _ => .pure _
  | ldftn => exact .lift_bind operand_ne_tooDeep fun _ => .pure _
  | ldfld =>
    refine .lift_bind operand_ne_tooDeep fun _ => .lift_bind pop_ne_tooDeep fun _ => ?_
    refine .lift_bind receiver_ne_tooDeep fun _ => .get_bind fun m => ?_
    exact .lift_bind fieldValue_ne_tooDeep fun _ => .pure _
  | ldsfld =>
    refine .lift_bind operand_ne_tooDeep fun _ => .get_bind fun m => ?_
    exact .lift_bind fieldValue_ne_tooDeep fun _ => .pure _
  | stfld =>
    refine .lift_bind operand_ne_tooDeep fun _ => .lift_bind pop_ne_tooDeep fun _ => ?_
    refine .lift_bind pop_ne_tooDeep fun _ => .lift_bind receiver_ne_tooDeep fun _ => ?_
    exact .bind (setField_neverTooDeep _ _ _ _) fun _ => .pure _
  | stsfld =>
    refine .lift_bind operand_ne_tooDeep fun _ => .lift_bind pop_ne_tooDeep fun _ => ?_
    exact .bind (setField_neverTooDeep _ _ _ _) fun _ => .pure _
  | castclass =>
    refine .lift_bind operand_ne_tooDeep fun _ => .lift_bind Module.resolveType_ne_tooDeep fun _ => ?_
    refine .lift_bind pop_ne_tooDeep fun _ => .get_bind fun m => ?_
    exact .lift_bind cast_ne_tooDeep fun _ => .pure _
  | call | callvirt =>
    rw [callRule_eq]
    exact .lift_bind callSite_ne_tooDeep fun site => .bind (perform_neverTooDeep site) fun _ => .pure _
  | newobj =>
    rw [constructRule_eq]
    exact .lift_bind constructSite_ne_tooDeep fun site => .bind (build_neverTooDeep site) fun _ => .pure _

end Execution

/-! ### Refusals in a run -/

namespace Stepwise

variable {c c' : Config} {pending : List Pending} {n : Nat}

/-- The outcome that is handed on is the failure for the depth of calls. -/
def Config.Refused (c : Config) : Prop := c.control = .done (.error tooDeep)

/-- A method is about to be started; whether there is one by that token is not asked before its frame is. -/
def Config.StartsMethod (c : Config) : Prop := ∃ token args, c.control = .starting (.method token args)

/-- What has failed stays so: a failure closes what waits for an outcome, and changes nothing else. -/
theorem next_failed {e : Error} (failed : c.control = .done (.error e)) (stepped : next program c = some c') :
    c'.control = .done (.error e) ∧ ∃ depth, c'.machine = { c.machine with depth } := by
  obtain ⟨m, control, pending⟩ := c
  obtain rfl : control = .done (.error e) := failed
  cases pending with
  | nil => cases stepped
  | cons p pending =>
    obtain rfl := Option.some.inj stepped
    cases p <;> exact ⟨rfl, _, rfl⟩

theorem after_failed {e : Error} (failed : c.control = .done (.error e)) (n : Nat) :
    (after program n c).control = .done (.error e) ∧
      ∃ depth, (after program n c).machine = { c.machine with depth } := by
  induction n generalizing c with
  | zero => exact ⟨failed, _, rfl⟩
  | succ n ih =>
    rw [after]
    cases stepped : next program c with
    | none => exact ih failed
    | some c' =>
      obtain ⟨stillFailed, depth, same⟩ := next_failed failed stepped
      obtain ⟨failed', depth', same'⟩ := ih stillFailed
      exact ⟨failed', depth', by rw [Option.getD_some, same', same]⟩

theorem after_of_ended (ended : next program c = none) (n : Nat) : after program n c = c := by
  induction n with
  | zero => rfl
  | succ n ih => rw [after, ended, Option.getD_none, ih]

/-- A refusal of a start is one for a machine that is too deep for another frame. -/
theorem deep_of_start_refused {task : Task} (refused : (start program m pending task).Refused) :
    ∃ token args, task = .method token args ∧ maxCallDepth ≤ m.depth := by
  cases task with
  | method token args =>
    refine ⟨token, args, rfl, Nat.not_lt.mp fun free => ?_⟩
    simp only [start, if_neg (Nat.not_le.mpr free)] at refused
    cases found : program.module.method token with
    | error e =>
      rw [found] at refused
      obtain rfl : e = tooDeep := Except.error.inj (Control.done.inj refused)
      exact Module.method_ne_tooDeep found
    | ok row =>
      rw [found] at refused
      cases refused
  | entries todo args => cases todo <;> cases refused

theorem not_refused_close {x : Except Error (Option Value)} (other : x ≠ .error tooDeep) :
    ¬ (close m x pending).Refused :=
  fun refused => other (Control.done.inj refused)

theorem not_refused_proceed (f : OpenFrame) : ¬ (proceed program m pending f).Refused := by
  unfold proceed
  split
  · refine not_refused_close ?_
    unfold OpenFrame.atEnd
    split <;> exact nofun
  · split
    · exact not_refused_close returned_ne_tooDeep
    · split
      · exact nofun
      · split
        · exact nofun
        · rename_i failed
          exact not_refused_close fun same => step_neverTooDeep _ _ _ _ _ failed (Except.error.inj same)

theorem refused_of_resume {p : Pending} {outcome : Except Error (Option Value)}
    (refused : (resume m pending p outcome).Refused) : outcome = .error tooDeep := by
  cases p <;> cases outcome
  case frame.error | entries.error => exact Control.done.inj refused
  all_goals cases refused

/-- A refusal comes from the start of a method in a machine that is too deep, or from a refusal before. -/
theorem refused_of_next (stepped : next program c = some c') (refused : c'.Refused) :
    c.Refused ∨ c.StartsMethod ∧ maxCallDepth ≤ c.machine.depth := by
  obtain ⟨m, control, pending⟩ := c
  cases control with
  | starting task =>
    obtain rfl := Option.some.inj stepped
    obtain ⟨token, args, rfl, deep⟩ := deep_of_start_refused refused
    exact .inr ⟨⟨token, args, rfl⟩, deep⟩
  | running f =>
    obtain rfl := Option.some.inj stepped
    exact absurd refused (not_refused_proceed f)
  | done outcome =>
    cases pending with
    | nil => cases stepped
    | cons p pending =>
      obtain rfl := Option.some.inj stepped
      exact .inl (congrArg Control.done (refused_of_resume refused))

/-- By induction on the steps: the first refusal is behind the start of a method. -/
theorem exists_start_of_refused (fresh : ¬ c.Refused) (refused : (after program n c).Refused) :
    ∃ k, (after program k c).StartsMethod ∧ maxCallDepth ≤ (after program k c).machine.depth := by
  induction n generalizing c with
  | zero => exact absurd refused fresh
  | succ n ih =>
    rw [after] at refused
    cases stepped : next program c with
    | none =>
      rw [stepped] at refused
      exact ih fresh refused
    | some c' =>
      rw [stepped, Option.getD_some] at refused
      by_cases early : c'.Refused
      · rcases refused_of_next stepped early with before | starts
        · exact absurd before fresh
        · exact ⟨0, starts⟩
      · obtain ⟨k, starts⟩ := ih early refused
        refine ⟨k + 1, ?_⟩
        rwa [after, stepped, Option.getD_some]

theorem after_refused_of_deep (starts : c.StartsMethod) (deep : maxCallDepth ≤ c.machine.depth) (n : Nat) :
    (after program (n + 1) c).Refused := by
  obtain ⟨m, control, pending⟩ := c
  obtain ⟨token, args, rfl⟩ := starts
  refine (after_failed ?_ n).1
  show (start program m pending (.method token args)).control = _
  rw [start, if_pos deep]
  rfl

/-! ### Requests -/

/-- Whatever a request looks up before it starts something, it is not refused for its depth there. -/
theorem opening_not_refused (request : Request) (m : Machine) :
    Yields (fun control _ => control ≠ .done (.error tooDeep)) (fun e _ => e ≠ tooDeep)
      (request.opening program) m := by
  have atOnce : ∀ {α : Type} {x : Run α} (f : α → Option Value), NeverTooDeep x →
      Yields (fun control _ => control ≠ .done (.error tooDeep)) (fun e _ => e ≠ tooDeep)
        ((fun a => Control.done (.ok (f a))) <$> x) m :=
    fun f never => yields_map ⟨fun _ _ _ => nofun, never m⟩
  cases request with
  | alloc type => exact atOnce _ (alloc_neverTooDeep type)
  | collect ref =>
    exact atOnce _ (.get_bind fun m => .lift_bind object_ne_tooDeep fun _ _ => fails_of_ok rfl)
  | setField field target? v => exact atOnce _ (setField_neverTooDeep _ field target? v)
  | invokeDelegate d args => exact yields_pure nofun
  | invoke method this args =>
    refine yields_asked_bind (fun e failed same => Module.method_ne_tooDeep (same ▸ failed)) fun row _ => ?_
    split
    · exact yields_pure nofun
    · cases this with
      | none => exact yields_throw nofun
      | some r => exact yields_pure nofun
  | raise field target? sender args =>
    refine yields_get_bind (yields_asked_bind (fun e failed same => fieldValue_ne_tooDeep (same ▸ failed)) ?_)
    intro v _
    cases v with
    | null | delegate _ => exact yields_pure nofun
    | object _ | methodPointer _ => exact yields_throw nofun

theorem not_refused_started (request : Request) (m : Machine) : ¬ (request.started program m).Refused := by
  unfold Request.started
  rcases (opening_not_refused request m).cases with ⟨control, m', ran, other⟩ | ⟨e, m', failed, other⟩
  · rw [ran]
    exact other
  · rw [failed]
    exact fun refused => other (Except.error.inj (Control.done.inj refused))

theorem refused_settle_iff {r : EStateM.Result Error Machine (Option Value)} :
    (settle pending r).Refused ↔ error? r = some tooDeep := by
  cases r with
  | ok result m => exact ⟨nofun, nofun⟩
  | error e m =>
    constructor
    · exact fun refused => congrArg some (Except.error.inj (Control.done.inj refused))
    · exact fun same => congrArg (fun e => Control.done (.error e)) (Option.some.inj same)

/-- From wherever a request has come to, its run goes on to the same outcome. -/
theorem settles (program : Program) (request : Request) (m : Machine) (n : Nat) : ∃ last,
    after program last (after program n (request.started program m)) = settle [] (request.run program m) := by
  obtain ⟨last, ends⟩ := started_reaches program request m
  refine ⟨last, ?_⟩
  rw [← after_add, Nat.add_comm, after_add, ends, after_of_ended (next_settle _)]

/-- Where a request has no further step, it has come to its outcome. -/
theorem settle_of_ended {request : Request}
    (ended : next program (after program n (request.started program m)) = none) :
    after program n (request.started program m) = settle [] (request.run program m) := by
  obtain ⟨last, settled⟩ := settles program request m n
  rwa [after_of_ended ended] at settled

/-- A request is refused for its depth exactly if it comes to start a method in a machine that is too deep. -/
theorem run_tooDeep_iff (request : Request) (m : Machine) : error? (request.run program m) = some tooDeep ↔
    ∃ n, (after program n (request.started program m)).StartsMethod ∧
      maxCallDepth ≤ (after program n (request.started program m)).machine.depth := by
  have settled : (settle [] (request.run program m)).Refused ↔ error? (request.run program m) = some tooDeep :=
    refused_settle_iff
  rw [← settled]
  constructor
  · obtain ⟨last, ends⟩ := started_reaches program request m
    rw [← ends]
    exact exists_start_of_refused (not_refused_started request m)
  · rintro ⟨n, starts, deep⟩
    obtain ⟨last, ends⟩ := settles program request m n
    -- the run has ended by the last step, so that a refusal further on is one there
    have later : (after program (last + 1) (after program n (request.started program m))).Refused :=
      after_refused_of_deep starts deep last
    rwa [after_add, ends, after_of_ended (next_settle _)] at later

theorem run_depth (request : Request) (m : Machine) : (endState (request.run program m)).depth = m.depth := by
  obtain ⟨n, ends⟩ := started_reaches program request m
  exact depth_of_counted (ends ▸ counted_after (counted_started request m) n)

end Stepwise

/-- The machines that a program comes to by requests, failed ones among them, and by forgetting its trace. -/
inductive Machine.Reached (program : Program) : Machine → Prop
  | start : Reached program .initial
  | asked {m : Machine} (before : Reached program m) (request : Request) :
      Reached program (endState (request.run program m))
  | forgot {m : Machine} (before : Reached program m) : Reached program (endState (clearTrace m))

/-- Between requests no frame is open. -/
theorem Machine.Reached.depth (reached : m.Reached program) : m.depth = 0 := by
  induction reached with
  | start => rfl
  | asked before request ih => rw [run_depth, ih]
  | forgot before ih => exact ih

theorem Machine.Reached.eq_of_contents (reached : m.Reached program) (reached' : m'.Reached program)
    (objects : m.objects = m'.objects) (statics : m.statics = m'.statics) (trace : m.trace = m'.trace)
    (numbers : m.lastWeakId = m'.lastWeakId) : m = m' := by
  have depth : m.depth = m'.depth := reached.depth.trans reached'.depth.symm
  cases m
  cases m'
  cases objects
  cases statics
  cases trace
  cases numbers
  cases depth
  rfl

/-- Whether a request succeeds or fails, it leaves the depth that it found, and so it finds the same depth as any
other. What it comes to depends only on the objects, the statics, the trace and the last number given out. It is
refused for its depth exactly if it comes to start a method while as many frames are open as may be. -/
theorem requests_balance_depth (reached : m.Reached program) (request : Request) :
    m.depth = 0 ∧ (endState (request.run program m)).depth = m.depth ∧
      (∀ m', m'.Reached program → m'.objects = m.objects → m'.statics = m.statics → m'.trace = m.trace →
        m'.lastWeakId = m.lastWeakId → request.run program m' = request.run program m) ∧
      (error? (request.run program m) = some (.fault (.callDepthExceeded maxCallDepth)) ↔
        ∃ n, (after program n (request.started program m)).StartsMethod ∧
          (after program n (request.started program m)).openFrames = maxCallDepth) := by
  have outside := reached.depth
  refine ⟨outside, run_depth request m, fun m' reached' objects statics trace numbers => ?_, ?_⟩
  · rw [reached'.eq_of_contents reached objects statics trace numbers]
  · refine (run_tooDeep_iff request m).trans (exists_congr fun n => and_congr_right fun _ => ?_)
    have counted : Counted m.depth (after program n (request.started program m)) :=
      counted_after (counted_started request m) n
    have depth := counted.depth
    have bound := counted.bound
    omega

/-! ### A callback that calls without end -/

namespace Stepwise

/-- The method of the program that calls itself. -/
def again : Token := .ofRow .method 1

/-- A wrapper that lost its target, with a callback that calls without end. -/
def abandonedEntry : Entry := .weak 1 ⟨some ⟨7⟩, again⟩ .object [.strong ⟨none, again⟩] .object

/-- The machine behind a delegate with the wrapper and behind an event that there is none of, which both fail. -/
def exhausted : Machine :=
  endState ((Request.raise (.ofRow .field 1) none .null .null).run endless
    (endState ((Request.invokeDelegate ⟨.object, [abandonedEntry]⟩ []).run endless .initial)))

theorem exhausted_reached : exhausted.Reached endless := (Reached.start.asked _).asked _

/-- As many methods were entered before as may be open, but the next call finds all levels free again. -/
theorem requests_balance_depth_endless :
    exhausted.Reached endless ∧ exhausted.trace.length = maxCallDepth ∧ exhausted.depth = 0 ∧
      (∃ n, (after endless n ((Request.invoke again none []).started endless exhausted)).StartsMethod ∧
        (after endless n ((Request.invoke again none []).started endless exhausted)).openFrames = maxCallDepth) ∧
      (endState ((Request.invoke again none []).run endless exhausted)).trace.length = 2 * maxCallDepth ∧
      (endState ((Request.invoke again none []).run endless exhausted)).depth = 0 := by
  obtain ⟨outside, closed, -, refused⟩ := requests_balance_depth exhausted_reached (.invoke again none [])
  have entered : exhausted.trace.length = maxCallDepth := by decide +kernel
  have enteredAgain : (endState ((Request.invoke again none []).run endless exhausted)).trace.length =
      2 * maxCallDepth := by decide +kernel
  exact ⟨exhausted_reached, entered, outside, refused.mp (by decide +kernel), enteredAgain, closed.trans outside⟩

end Stepwise

end WeakSubscription
