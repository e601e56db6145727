import WeakSubscription.Module.Declare
import WeakSubscription.Proofs.Execution.Stepwise

/-!
# Runs end

What is started step by step comes to what the call of it gives, in finitely many steps. Two recursions carry this:
one on the levels that are left to calls, and inside a level one on the entries of delegates, where the callback of a
lost wrapper is a part of the wrapper. Callbacks open no frame, so the levels say nothing about how deep they are
nested.
-/

namespace WeakSubscription

open Execution Tracked Machine

namespace Stepwise

variable {program : Program} {caller : Caller} {m m' : Machine} {pending : List Pending} {c c' c'' : Config}
  {depth : Nat} {task : Task}

/-! ### Finitely many steps -/

def Reaches (program : Program) (c c' : Config) : Prop := ∃ n, after program n c = c'

theorem after_add (a b : Nat) (c : Config) : after program (a + b) c = after program b (after program a c) := by
  induction a generalizing c with
  | zero => rw [Nat.zero_add, after]
  | succ a ih => rw [Nat.succ_add, after, ih, after]

namespace Reaches

theorem refl (c : Config) : Reaches program c c := ⟨0, rfl⟩

theorem trans (first : Reaches program c c') (later : Reaches program c' c'') : Reaches program c c'' := by
  obtain ⟨a, rfl⟩ := first
  obtain ⟨b, rfl⟩ := later
  exact ⟨a + b, after_add a b c⟩

theorem of_next (stepped : next program c = some c') : Reaches program c c' :=
  ⟨1, by rw [after, after, stepped, Option.getD_some]⟩

theorem head (stepped : next program c = some c') (later : Reaches program c' c'') : Reaches program c c'' :=
  (of_next stepped).trans later

end Reaches

/-! ### Tasks -/

/-- What a task does when a caller does it at once. -/
def Task.run (caller : Caller) : Task → Run (Option Value)
  | .method token args => caller token args
  | .entries todo args => do
    runEntries caller todo args
    return none

/-- In frames of this depth, the task is run step by step to the outcome that the caller gives. -/
def Performs (program : Program) (depth : Nat) (caller : Caller) (task : Task) : Prop :=
  ∀ pending m, m.depth = depth →
    Reaches program ⟨m, .starting task, pending⟩ (settle pending (task.run caller m))

/-- A caller whose calls are run step by step from frames of this depth, and end at the depth at which they start. -/
structure Walks (program : Program) (depth : Nat) (caller : Caller) : Prop where
  calls : ∀ token args, Performs program depth caller (.method token args)
  sameDepth : CallsMove SameDepth caller

/-! ### Entries of delegates -/

theorem runEntry_eq (e : Entry) (args : List Value) :
    runEntry caller e args m = (discard ((Task.ofEntry m e args).run caller) : Run Unit) m := by
  cases e with
  | strong call =>
    rw [runEntry]
    rfl
  | weak id call callbackType callback handlerType =>
    dsimp only [Task.ofEntry]
    cases live : call.target.all m.isAlive with
    | true =>
      rw [runEntry_live live]
      rfl
    | false =>
      let wrapper : Value := .delegate ⟨handlerType, [.weak id call callbackType callback handlerType]⟩
      rw [runEntry_lost live]
      cases ran : runEntries caller callback [wrapper] m with
      | ok u m' =>
        have given : (Task.entries callback [wrapper]).run caller m = .ok none m' := bind_of_ok ran
        exact (discard_of_ok given).symm
      | error e m' =>
        have given : (Task.entries callback [wrapper]).run caller m = .error e m' := bind_of_error ran
        exact (discard_of_error given).symm

theorem run_entries_of_ok {e : Entry} {rest : List Entry} {args : List Value} {result : Option Value}
    (ran : (Task.ofEntry m e args).run caller m = .ok result m') :
    (Task.entries (e :: rest) args).run caller m = (Task.entries rest args).run caller m' := by
  have entry : runEntry caller e args m = .ok () m' := by rw [runEntry_eq, discard_of_ok ran]
  simp only [Task.run, runEntries, bind_assoc]
  exact bind_of_ok entry

theorem run_entries_of_error {e : Entry} {rest : List Entry} {args : List Value} {error : Error}
    (failed : (Task.ofEntry m e args).run caller m = .error error m') :
    (Task.entries (e :: rest) args).run caller m = .error error m' := by
  have entry : runEntry caller e args m = .error error m' := by rw [runEntry_eq, discard_of_error failed]
  simp only [Task.run, runEntries, bind_assoc]
  exact bind_of_error entry

theorem Walks.task_sameDepth (walks : Walks program depth caller) (task : Task) (m : Machine) :
    Moves SameDepth (task.run caller) m := by
  cases task with
  | method token args => exact walks.sameDepth token args m
  | entries todo args =>
    exact moves_bind (walks.sameDepth.runEntries todo args m) fun _ _ _ => moves_pure none

mutual

/-- By recursion on the entry, along with `performs_entries` on the callback inside it. -/
theorem performs_ofEntry (walks : Walks program depth caller) :
    ∀ (e : Entry) (args : List Value) (m : Machine), Performs program depth caller (.ofEntry m e args)
  | .strong call, args, _ => walks.calls call.method _
  | .weak id call callbackType callback handlerType, args, m => by
    dsimp only [Task.ofEntry]
    split
    · exact walks.calls call.method _
    · exact performs_entries walks callback _
termination_by structural e => e

theorem performs_entries (walks : Walks program depth caller) :
    ∀ (todo : List Entry) (args : List Value), Performs program depth caller (.entries todo args)
  | [], _, _, _, _ => .of_next rfl
  | e :: rest, args, pending, m, h => by
    -- the entries that are left wait for the first one, and are started once it succeeded
    have first := performs_ofEntry walks e args m (.entries rest args :: pending) m h
    refine .head rfl (first.trans ?_)
    have stays := walks.task_sameDepth (.ofEntry m e args) m
    cases ran : (Task.ofEntry m e args).run caller m with
    | ok result m' =>
      rw [run_entries_of_ok ran]
      exact .head rfl (performs_entries walks rest args pending m' ((stays.of_ok ran).trans h))
    | error e' m' =>
      rw [run_entries_of_error ran]
      exact .of_next rfl
termination_by structural todo => todo

end

theorem Walks.performs (walks : Walks program depth caller) : ∀ task, Performs program depth caller task
  | .method token args => walks.calls token args
  | .entries todo args => performs_entries walks todo args

/-! ### Instructions -/

/-- A call runs what it starts. One that starts nothing is the same for every caller. -/
theorem perform_eq (site : CallSite) :
    site.perform program caller =
      match callTask site with
      | some task => task.run caller
      | none => site.perform program noCaller := by
  unfold callTask CallSite.perform
  split
  · rfl
  · unfold callOutside
    cases site.target.name == "Invoke" with
    | false => rfl
    | true => cases site.this.bind Value.delegate? <;> rfl

variable {i : Instruction} {frame : Activation}

theorem step_of_departure {d : Departure} (departs : departure program m i frame = some d) :
    step program caller i frame m = (do
      let result ← d.task.run caller
      return { frame with stack := (d.created.or result).toList ++ d.below } : Run Activation) d.machine := by
  rcases departure_cases departs with
    ⟨site, task, op, found, starts, rfl⟩ | ⟨site, r, m', op, found, other, inside, made, rfl⟩
  · rw [step_eq_callRule op, callRule_eq, found, lift_ok_bind, perform_eq, starts]
    rfl
  · rw [step_eq_constructRule op, constructRule_eq, found, lift_ok_bind, CallSite.build, construct, if_neg other,
      if_pos inside]
    simp only [bind_assoc, pure_bind]
    exact bind_of_ok made

theorem callRule_of_stays (op : i.opcode = .call ∨ i.opcode = .callvirt)
    (stays : departure program m i frame = none) :
    callRule program caller i frame = callRule program noCaller i frame := by
  rw [callRule_eq, callRule_eq]
  cases found : callSite program i frame with
  | error e => rfl
  | ok site =>
    have computes : callTask site = none := by
      obtain op | op := op <;> simpa only [departure, op, found, Option.map_eq_none_iff] using stays
    rw [lift_ok_bind, lift_ok_bind, perform_eq, computes]

theorem constructRule_of_stays (op : i.opcode = .newobj) (stays : departure program m i frame = none) :
    constructRule program caller i frame m = constructRule program noCaller i frame m := by
  rw [constructRule_eq, constructRule_eq]
  cases found : constructSite program i frame with
  | error e => rfl
  | ok site =>
    rw [lift_ok_bind, lift_ok_bind]
    refine bind_congr_at ?_
    simp only [departure, op, found] at stays
    unfold CallSite.build construct
    split at stays
    · rename_i delegate
      rw [if_pos delegate, if_pos delegate]
    · rename_i other
      rw [if_neg other, if_neg other]
      split at stays
      · rename_i inside
        rw [if_pos inside, if_pos inside]
        rcases Nat.lt_or_ge m.objects.length UInt32.size with room | full
        · simp only [alloc_of_room room, reduceCtorEq] at stays
        · rw [bind_of_error (alloc_of_full full _), bind_of_error (alloc_of_full full _)]
      · rename_i outside
        rw [if_neg outside, if_neg outside]

/-- An instruction that stays in its frame calls nothing. -/
theorem step_of_stays (stays : departure program m i frame = none) :
    step program caller i frame m = step program noCaller i frame m := by
  cases op : i.opcode with
  | call =>
    rw [step_eq_callRule (.inl op), step_eq_callRule (.inl op), callRule_of_stays (.inl op) stays]
  | callvirt =>
    rw [step_eq_callRule (.inr op), step_eq_callRule (.inr op), callRule_of_stays (.inr op) stays]
  | newobj =>
    rw [step_eq_constructRule op, step_eq_constructRule op, constructRule_of_stays op stays]
  | _ => simp only [step, op]

/-! ### Frames -/

/-- What an open frame still does when a caller does its calls at once. -/
def OpenFrame.run (program : Program) (caller : Caller) (f : OpenFrame) : Run (Option Value) := do
  match ← runCode program caller f.row.result f.rest f.frame with
  | .left result => return result
  | .next _ => f.atEnd program

def closing (pending : List Pending) : EStateM.Result Error Machine (Option Value) → Config
  | .ok result m => close m (.ok result) pending
  | .error e m => close m (.error e) pending

theorem closing_lift (x : Except Error (Option Value)) :
    closing pending ((liftM x : Run (Option Value)) m) = close m x pending := by
  cases x <;> rfl

namespace OpenFrame

variable {f : OpenFrame} {rest : Code}

theorem run_at_end (split : f.rest = []) : f.run program caller = liftM (f.atEnd program) := by
  simp only [run, split, runCode, pure_bind]

theorem run_returning (split : f.rest = i :: rest) (op : i.opcode = .ret) :
    f.run program caller = liftM (returned f.row.result f.frame) := by
  simp only [run, split, runCode_return _ op, map_eq_pure_bind, bind_assoc, pure_bind, bind_pure]

theorem run_of_ok (split : f.rest = i :: rest) (goesOn : i.opcode ≠ .ret)
    (stepped : step program caller i f.frame m = .ok frame m') :
    f.run program caller m = { f with rest, frame }.run program caller m' := by
  simp only [run, split, runCode, if_neg goesOn, bind_assoc]
  exact bind_of_ok stepped

theorem run_of_error {e : Error} (split : f.rest = i :: rest) (goesOn : i.opcode ≠ .ret)
    (failed : step program caller i f.frame m = .error e m') : f.run program caller m = .error e m' := by
  simp only [run, split, runCode, if_neg goesOn, bind_assoc]
  exact bind_of_error failed

end OpenFrame

/-- The frame behind an instruction, or closed if the instruction failed. -/
def behind (f : OpenFrame) (rest : Code) (pending : List Pending) : EStateM.Result Error Machine Activation → Config
  | .ok frame m => ⟨m, .running { f with rest, frame }, pending⟩
  | .error e m => close m (.error e) pending

/-- An instruction is executed to the frame that it gives when its calls are done at once. -/
theorem reaches_behind (walks : Walks program depth caller) {f : OpenFrame} {rest : Code} (h : m.depth = depth)
    (split : f.rest = i :: rest) (goesOn : i.opcode ≠ .ret) :
    Reaches program ⟨m, .running f, pending⟩ (behind f rest pending (step program caller i f.frame m)) := by
  cases departs : departure program m i f.frame with
  | none =>
    refine .of_next (congrArg some ?_)
    rw [step_of_stays departs]
    simp only [proceed, split, if_neg goesOn, departs]
    cases step program noCaller i f.frame m <;> rfl
  | some d =>
    let waiting : OpenFrame := { f with rest, frame := { f.frame with stack := d.below } }
    have started : next program ⟨m, .running f, pending⟩ =
        some ⟨d.machine, .starting d.task, .frame waiting d.created :: pending⟩ := by
      simp only [next, proceed, split, if_neg goesOn, departs, waiting]
    -- the frame waits for what the instruction starts, and gets its result
    have performed := walks.performs d.task (.frame waiting d.created :: pending) d.machine
      ((departure_depth departs).trans h)
    refine .head started (performed.trans ?_)
    rw [step_of_departure departs]
    cases ran : d.task.run caller d.machine with
    | ok result m' =>
      rw [bind_of_ok ran]
      exact .of_next rfl
    | error e m' =>
      rw [bind_of_error ran]
      exact .of_next rfl

/-- A frame is run step by step to the end that it has when its calls are done at once. By induction on the code that
is left in it. -/
theorem reaches_closing (walks : Walks program depth caller) {f : OpenFrame} (h : m.depth = depth) :
    Reaches program ⟨m, .running f, pending⟩ (closing pending (f.run program caller m)) := by
  induction split : f.rest generalizing f m with
  | nil =>
    refine .of_next (congrArg some ?_)
    rw [OpenFrame.run_at_end split, closing_lift]
    simp only [proceed, split]
  | cons i rest ih =>
    by_cases op : i.opcode = .ret
    · refine .of_next (congrArg some ?_)
      rw [OpenFrame.run_returning split op, closing_lift]
      simp only [proceed, split, if_pos op]
    · have stays : Moves SameDepth (step program caller i f.frame) m :=
        lasting_sameDepth.step walks.sameDepth i f.frame m
      refine (reaches_behind walks h split op).trans ?_
      cases stepped : step program caller i f.frame m with
      | ok frame m' =>
        rw [OpenFrame.run_of_ok split op stepped]
        exact ih ((stays.of_ok stepped).trans h) rfl
      | error e m' =>
        rw [OpenFrame.run_of_error split op stepped]
        exact .refl _

/-! ### Calls -/

theorem runBody_eq_run (caller : Caller) (method : Token) (row : Method) (args : List Value) :
    runBody program caller method row args =
      (⟨method, row, row.body.code, entryFrame row args⟩ : OpenFrame).run program caller := by
  unfold runBody
  split
  · rename_i empty
    have none : row.body.code = [] := List.isEmpty_iff.mp empty
    rw [OpenFrame.run_at_end none, OpenFrame.atEnd, if_pos empty]
    rfl
  · rename_i full
    refine bind_congr fun outcome => ?_
    cases outcome with
    | left result => rfl
    | next frame =>
      dsimp only
      rw [OpenFrame.atEnd, if_neg full]
      rfl

theorem settle_framed (x : Run (Option Value)) (m : Machine) :
    settle pending (framed x m) = closing pending (x { m with depth := m.depth + 1 }) := by
  unfold framed
  cases x { m with depth := m.depth + 1 } <;> rfl

/-- Calls with the levels that frames of a depth leave are run step by step from there. By induction on the levels:
the frame of a called method leaves one level less. -/
theorem walks_callWithin (program : Program) {levels : Nat} (left : maxCallDepth - depth = levels) :
    Walks program depth (callWithin program levels) := by
  induction levels generalizing depth with
  | zero =>
    refine ⟨fun token args pending m h => .of_next (congrArg some ?_), lasting_sameDepth.callWithin program 0⟩
    have full : maxCallDepth ≤ m.depth := by omega
    simp only [start, if_pos full]
    rfl
  | succ levels ih =>
    refine ⟨fun token args pending m h => ?_, lasting_sameDepth.callWithin program (levels + 1)⟩
    have free : ¬ maxCallDepth ≤ m.depth := by omega
    show Reaches program _ (settle pending (callWithin program (levels + 1) token args m))
    cases found : program.module.method token with
    | error e =>
      refine .of_next (congrArg some ?_)
      simp only [start, if_neg free, found]
      rw [callWithin, found]
      rfl
    | ok row =>
      rw [callWithin_eq found, settle_framed, runBody_eq_run]
      refine .head (congrArg some ?_) (reaches_closing (ih (by omega)) (congrArg (· + 1) h))
      simp only [start, if_neg free, found]
      rfl

theorem walks_call (program : Program) (depth : Nat) : Walks program depth (call program) := by
  refine ⟨fun token args pending m h => ?_, fun token args m => ?_⟩
  · subst h
    exact (walks_callWithin program rfl).calls token args pending m rfl
  · exact lasting_sameDepth.callWithin program (maxCallDepth - m.depth) token args m

/-! ### Requests -/

theorem next_settle (r : EStateM.Result Error Machine (Option Value)) : next program (settle [] r) = none := by
  cases r <;> rfl

theorem started_map {α : Type} {request : Request} {x : Run α} {f : α → Option Value}
    (opens : request.opening program = (fun a => .done (.ok (f a))) <$> x) :
    request.started program m = settle [] ((f <$> x) m) := by
  rw [Request.started, opens]
  simp only [Functor.map, EStateM.map]
  cases x m <;> rfl

theorem run_entries (todo : List Entry) (args : List Value) :
    (Task.entries todo args).run caller = (fun _ => none) <$> runEntries caller todo args :=
  (map_eq_pure_bind _ _).symm

theorem started_reaches (program : Program) (request : Request) (m : Machine) :
    Reaches program (request.started program m) (settle [] (request.run program m)) := by
  have walks := walks_call program m.depth
  have delegates : ∀ todo args, Reaches program ⟨m, .starting (.entries todo args), []⟩
      (settle [] (((fun _ => none) <$> runEntries (call program) todo args : Run (Option Value)) m)) := by
    intro todo args
    rw [← run_entries]
    exact performs_entries walks todo args [] m rfl
  cases request with
  | alloc type =>
    rw [started_map rfl]
    exact .refl _
  | collect ref =>
    rw [started_map rfl]
    exact .refl _
  | setField field target? v =>
    rw [started_map rfl]
    exact .refl _
  | invokeDelegate d args => exact delegates d.entries args
  | invoke method this args =>
    simp only [Request.started, Request.opening, Request.run, Machine.invoke]
    cases program.module.method method with
    | error e => exact .refl _
    | ok row =>
      simp only [lift_ok_bind]
      by_cases static : row.isStatic = true
      · simp only [if_pos static]
        exact walks.calls method args [] m rfl
      · simp only [if_neg static]
        cases this with
        | none => exact .refl _
        | some r => exact walks.calls method (.object r :: args) [] m rfl
  | raise field target? sender args =>
    simp only [Request.started, Request.opening, Request.run, map_eq_pure_bind, Machine.raise, bind_assoc, get_bind]
    cases m.fieldValue program.module field target? with
    | error e => exact .refl _
    | ok v =>
      simp only [lift_ok_bind]
      cases v with
      | null => exact .refl _
      | object r => exact .refl _
      | methodPointer method => exact .refl _
      | delegate d =>
        rw [← map_eq_pure_bind]
        exact delegates d.entries [sender, args]

/-! ### Open frames -/

/-- No request starts inside a frame, and what it looks up or does at once opens none. -/
theorem opening_yields (request : Request) (m : Machine) :
    Yields (fun control m' => control.isRunning = false ∧ SameDepth m m') (fun _ m' => SameDepth m m')
      (request.opening program) m := by
  have atOnce : ∀ {α : Type} {x : Run α} (f : α → Option Value), Moves SameDepth x m →
      Yields (fun control m' => Control.isRunning control = false ∧ SameDepth m m') (fun _ m' => SameDepth m m')
        ((fun a => Control.done (.ok (f a))) <$> x) m :=
    fun f moves => yields_map (moves.yields.imp (fun _ _ same => ⟨rfl, same⟩) fun _ _ same => same)
  cases request with
  | alloc type => exact atOnce _ (lasting_sameDepth.alloc type m)
  | collect ref => exact atOnce _ (sameDepth_collect ref m)
  | setField field target? v => exact atOnce _ (sameDepth_setField _ field target? v m)
  | invokeDelegate d args => exact yields_pure ⟨rfl, rfl⟩
  | invoke method this args =>
    refine yields_asked_bind (fun _ _ => rfl) fun row _ => ?_
    split
    · exact yields_pure ⟨rfl, rfl⟩
    · cases this with
      | none => exact yields_throw rfl
      | some r => exact yields_pure ⟨rfl, rfl⟩
  | raise field target? sender args =>
    refine yields_get_bind (yields_asked_bind (fun _ _ => rfl) fun v _ => ?_)
    cases v with
    | null | delegate _ => exact yields_pure ⟨rfl, rfl⟩
    | object _ | methodPointer _ => exact yields_throw rfl

theorem counted_started (request : Request) (m : Machine) : Counted m.depth (request.started program m) := by
  unfold Request.started
  rcases (opening_yields request m).cases with
    ⟨control, m', ran, idle, same⟩ | ⟨e, m', failed, same⟩
  · rw [ran]
    have none : (⟨m', control, []⟩ : Config).openFrames = 0 := by simp [Config.openFrames, idle]
    exact ⟨by rw [none]; exact same, by rw [none]; exact Nat.zero_le _⟩
  · rw [failed]
    exact ⟨same, Nat.zero_le _⟩

/-- All frames are closed behind an outcome, so that the next request has as many levels as this one. -/
theorem depth_of_counted {r : EStateM.Result Error Machine (Option Value)} (counted : Counted m.depth (settle [] r)) :
    (endState r).depth = m.depth := by
  cases r with
  | ok result m' => exact counted.depth
  | error e m' => exact counted.depth

/-! ### Nested callbacks -/

/-- Wrappers of a call, each with the one before as its callback. -/
def nested (call : Invocation) : Nat → Entry
  | 0 => .strong call
  | k + 1 => .weak (.ofNat k) call .object [nested call k] .object

/-- Once the target is lost, every wrapper starts the one inside it, and no frame is opened for that. -/
theorem after_nested (program : Program) {call : Invocation} (lost : call.target.all m.isAlive = false) (k : Nat)
    (args : List Value) (pending : List Pending) :
    ∃ args' pending', after program k ⟨m, .starting (.entries [nested call k] args), pending⟩ =
        ⟨m, .starting (.entries [.strong call] args'), pending'⟩ ∧
      pending'.countP (!·.isFrame) = pending.countP (!·.isFrame) + k ∧
      pending'.countP (·.isFrame) = pending.countP (·.isFrame) := by
  induction k generalizing args pending with
  | zero => exact ⟨args, pending, rfl, rfl, rfl⟩
  | succ k ih =>
    have stepped : next program ⟨m, .starting (.entries [nested call (k + 1)] args), pending⟩ =
        some ⟨m, .starting (.entries [nested call k] [.delegate ⟨.object, [nested call (k + 1)]⟩]),
          .entries [] args :: pending⟩ := by
      simp only [next, start, nested, Task.ofEntry, lost, Bool.false_eq_true, if_false]
    obtain ⟨args', pending', ran, deliveries, frames⟩ :=
      ih [.delegate ⟨.object, [nested call (k + 1)]⟩] (.entries [] args :: pending)
    refine ⟨args', pending', ?_, ?_, ?_⟩
    · rw [after, stepped, Option.getD_some, ran]
    · rw [deliveries, List.countP_cons_of_pos rfl, Nat.add_right_comm, Nat.add_assoc]
    · rw [frames, List.countP_cons_of_neg Bool.false_ne_true]

end Stepwise

open Stepwise

/-- Every request ends: run step by step it comes to its outcome, a result or an error, behind which there is no
further step, and the machine is at its old depth. On the way no more method frames are open than levels were left,
while callbacks of wrappers whose target is lost may be nested to any depth without a frame. -/
theorem requests_end (program : Program) (m : Machine) :
    (∀ request : Request,
      (∃ n, after program n (request.started program m) = settle [] (request.run program m) ∧
        next program (after program n (request.started program m)) = none) ∧
      (∀ n, (after program n (request.started program m)).openFrames ≤ maxCallDepth - m.depth) ∧
      (endState (request.run program m)).depth = m.depth) ∧
    ∀ r, m.isAlive r = false → ∀ k, ∃ d args n,
      (after program n ((Request.invokeDelegate d args).started program m)).deliveries = k ∧
      (after program n ((Request.invokeDelegate d args).started program m)).openFrames = 0 := by
  refine ⟨fun request => ?_, fun r dead k => ?_⟩
  · obtain ⟨n, ends⟩ := started_reaches program request m
    have counted : ∀ n, Counted m.depth (after program n (request.started program m)) :=
      counted_after (counted_started request m)
    exact ⟨⟨n, ends, by rw [ends, next_settle]⟩, fun n => (counted n).bound, depth_of_counted (ends ▸ counted n)⟩
  · let call : Invocation := ⟨some r, .ofParts 6 1⟩
    have lost : call.target.all m.isAlive = false := dead
    obtain ⟨args, pending, ran, deliveries, frames⟩ := after_nested program lost k [] []
    refine ⟨⟨.object, [nested call k]⟩, [], k, ?_, ?_⟩
    · show (after program k ⟨m, .starting (.entries [nested call k] []), []⟩).deliveries = k
      rw [ran, Config.deliveries, deliveries, List.countP_nil, Nat.zero_add]
    · show (after program k ⟨m, .starting (.entries [nested call k] []), []⟩).openFrames = 0
      rw [ran, openFrames_starting, frames, List.countP_nil]

def Stepwise.endless : Program :=
  let owner : Token := .ofRow .typeDef 1
  let method : Token := .ofRow .method 1
  let again : MethodDecl := { name := "again", modifiers := .static, code := [.onToken .call method, .plain .ret] }
  { module := { Module.empty "Sample" with
      types := [⟨owner, ⟨"Sample", "Endless"⟩, .publicFlag, some .object, [], [method]⟩]
      methods := [{ again.row owner with token := method }] }
    helperNamespace := "" }

/-- The method that calls itself comes to an end, and more callbacks than frames may be nested. -/
theorem Stepwise.requests_end_endless :
    let request : Request := .invoke (.ofRow .method 1) none []
    (∃ n, next endless (after endless n (request.started endless .initial)) = none) ∧
      Machine.initial.isAlive ⟨0⟩ = false ∧ ∃ d args n,
        (after endless n ((Request.invokeDelegate d args).started endless .initial)).deliveries = 2 * maxCallDepth ∧
        (after endless n ((Request.invokeDelegate d args).started endless .initial)).openFrames = 0 := by
  intro request
  have lost : Machine.initial.isAlive ⟨0⟩ = false := by decide
  obtain ⟨ends, nests⟩ := requests_end endless .initial
  obtain ⟨⟨n, -, ended⟩, -, -⟩ := ends request
  exact ⟨⟨n, ended⟩, lost, nests ⟨0⟩ lost (2 * maxCallDepth)⟩

example : (after endless 127 ((Request.invoke (.ofRow .method 1) none []).started endless .initial)).openFrames =
    maxCallDepth := by
  decide +kernel

end WeakSubscription
