import WeakSubscription.Proofs.Execution.Calls
import WeakSubscription.Proofs.Execution.Lasting
import WeakSubscription.Proofs.Execution.Requests

/-!
# Programs that run step by step

The same program, with the calls that are under way written out as a list: open frames wait for what they called,
and delegates wait with the entries that are left. A step starts a method or an entry, executes one instruction, or
hands a result on to what waits for it. No step calls anything, so that each is short, and that there are only
finitely many has to be shown.
-/

namespace WeakSubscription

open Execution Tracked

namespace Stepwise

/-! ### Configurations -/

/-- What can be started: a method on arguments, or the entries of a delegate. -/
inductive Task where
  | method (token : Token) (args : List Value)
  | entries (entries : List Entry) (args : List Value)

namespace Task

def ofInvocation (call : Invocation) (args : List Value) : Task :=
  .method call.method (call.target.toList.map .object ++ args)

/-- What an entry of a delegate comes to: its call, or the callback of a wrapper that lost its target. -/
def ofEntry (m : Machine) : Entry → List Value → Task
  | .strong call, args => ofInvocation call args
  | .weak id call callbackType callback handlerType, args =>
    if call.target.all m.isAlive then ofInvocation call args
    else .entries callback [.delegate ⟨handlerType, [.weak id call callbackType callback handlerType]⟩]

end Task

/-- The open frame of a method, with the code that is left in it. -/
structure OpenFrame where
  method : Token
  row : Method
  rest : Code
  frame : Activation

/-- What waits for a result: a frame, with the object that it is making if it runs a constructor, or the other entries
of a delegate. -/
inductive Pending where
  | frame (f : OpenFrame) (created : Option Value)
  | entries (entries : List Entry) (args : List Value)

inductive Control where
  | starting (task : Task)
  | running (f : OpenFrame)
  | done (outcome : Except Error (Option Value))

/-- A machine, what it does at the moment, and what waits for that, innermost first. -/
structure Config where
  machine : Machine
  control : Control
  pending : List Pending

/-- The machine behind a computation, with its outcome for what waits. -/
def settle (pending : List Pending) : EStateM.Result Error Machine (Option Value) → Config
  | .ok result m => ⟨m, .done (.ok result), pending⟩
  | .error e m => ⟨m, .done (.error e), pending⟩

def close (m : Machine) (outcome : Except Error (Option Value)) (pending : List Pending) : Config :=
  ⟨{ m with depth := m.depth - 1 }, .done outcome, pending⟩

/-! ### Instructions -/

/-- What a call starts, unless it is one of a helper. -/
def callTask (site : CallSite) : Option Task :=
  if site.token.inTable .method then some (.method site.token (site.this.toList ++ site.args))
  else
    match site.target.name == "Invoke", site.this.bind Value.delegate? with
    | true, some d => some (.entries d.entries site.args)
    | _, _ => none

/-- How an instruction leaves its frame: what it starts and in which machine, the object that it has made before, and
the stack without its operands. -/
structure Departure where
  task : Task
  machine : Machine
  created : Option Value
  below : List Value

/-- The departure of a call or of a construction. Helpers are computed and delegates are made in the frame. -/
def departure (program : Program) (m : Machine) (i : Instruction) (frame : Activation) : Option Departure :=
  match i.opcode with
  | .call | .callvirt =>
    match callSite program i frame with
    | .ok site => (callTask site).map fun task => ⟨task, m, none, site.below⟩
    | .error _ => none
  | .newobj =>
    match constructSite program i frame with
    | .ok site =>
      if site.target.signature.params = [.object, .intPtr] then none
      else if site.token.inTable .method then
        match Machine.alloc site.target.declaringType m with
        | .ok r m => some ⟨.method site.token (.object r :: site.args), m, some (.object r), site.below⟩
        | .error _ _ => none
      else none
    | .error _ => none
  | _ => none

/-- Stands for the way of calling where nothing is called. -/
def noCaller : Caller := fun _ _ => pure none

def OpenFrame.atEnd (program : Program) (f : OpenFrame) : Except Error (Option Value) :=
  if f.row.body.isEmpty then .ok (if f.row.result = .void then none else some .null)
  else .error (.fault (.missingReturn (program.module.displayName f.method)))

/-! ### Steps -/

def start (program : Program) (m : Machine) (pending : List Pending) : Task → Config
  | .method method args =>
    if maxCallDepth ≤ m.depth then ⟨m, .done (.error (.fault (.callDepthExceeded maxCallDepth))), pending⟩
    else
      match program.module.method method with
      | .error e => ⟨m, .done (.error e), pending⟩
      | .ok row =>
        ⟨{ entered method (entryInstance row.isStatic args) m with depth := m.depth + 1 },
          .running ⟨method, row, row.body.code, entryFrame row args⟩, pending⟩
  | .entries [] _ => ⟨m, .done (.ok none), pending⟩
  | .entries (e :: rest) args => ⟨m, .starting (.ofEntry m e args), .entries rest args :: pending⟩

def proceed (program : Program) (m : Machine) (pending : List Pending) (f : OpenFrame) : Config :=
  match f.rest with
  | [] => close m (f.atEnd program) pending
  | i :: rest =>
    if i.opcode = .ret then close m (returned f.row.result f.frame) pending
    else
      match departure program m i f.frame with
      | some d =>
        ⟨d.machine, .starting d.task,
          .frame { f with rest, frame := { f.frame with stack := d.below } } d.created :: pending⟩
      | none =>
        match step program noCaller i f.frame m with
        | .ok frame m => ⟨m, .running { f with rest, frame }, pending⟩
        | .error e m => close m (.error e) pending

/-- The outcome of a call goes to what waits for it. A failure closes frames and leaves entries undone. -/
def resume (m : Machine) (pending : List Pending) : Pending → Except Error (Option Value) → Config
  | .frame f created, .ok result =>
    ⟨m, .running { f with frame := { f.frame with stack := (created.or result).toList ++ f.frame.stack } }, pending⟩
  | .frame _ _, .error e => close m (.error e) pending
  | .entries rest args, .ok _ => ⟨m, .starting (.entries rest args), pending⟩
  | .entries _ _, .error e => ⟨m, .done (.error e), pending⟩

def next (program : Program) : Config → Option Config
  | ⟨m, .starting task, pending⟩ => some (start program m pending task)
  | ⟨m, .running f, pending⟩ => some (proceed program m pending f)
  | ⟨m, .done outcome, p :: pending⟩ => some (resume m pending p outcome)
  | ⟨_, .done _, []⟩ => none

/-- The configuration so many steps later, or the last one if there are fewer. -/
def after (program : Program) : Nat → Config → Config
  | 0, c => c
  | n + 1, c => after program n ((next program c).getD c)

/-! ### Frames and deliveries -/

def Pending.isFrame : Pending → Bool
  | .frame _ _ => true
  | .entries _ _ => false

def Control.isRunning : Control → Bool
  | .running _ => true
  | .starting _ | .done _ => false

/-- The number of method frames that are open. -/
def Config.openFrames (c : Config) : Nat := c.pending.countP (·.isFrame) + c.control.isRunning.toNat

/-- The number of delegates that are under way, each in the middle of one of its entries. -/
def Config.deliveries (c : Config) : Nat := c.pending.countP (!·.isFrame)

end Stepwise

/-! ### Requests -/

open Stepwise

/-- What a request comes to, once it has looked up what it names: something to start, or its outcome. -/
def Machine.Request.opening (program : Program) : Request → Run Control
  | alloc type => (fun r => .done (.ok (some (.object r)))) <$> Machine.alloc type
  | collect ref => (fun _ => .done (.ok none)) <$> Machine.collect ref
  | setField field target? v => (fun _ => .done (.ok none)) <$> Machine.setField program.module field target? v
  | invoke method this args => do
    let row ← program.module.method method
    if row.isStatic then return .starting (.method method args)
    else
      match this with
      | some r => return .starting (.method method (.object r :: args))
      | none => Run.fault .nullReference
  | invokeDelegate d args => return .starting (.entries d.entries args)
  | raise field target? sender args => do
    match ← (← get).fieldValue program.module field target? with
    | .null => return .done (.ok none)
    | .delegate d => return .starting (.entries d.entries [sender, args])
    | v@(.object _) | v@(.methodPointer _) => Run.fault (.typeMismatch .raise v)

def Machine.Request.started (program : Program) (request : Request) (m : Machine) : Config :=
  match request.opening program m with
  | .ok control m => ⟨m, control, []⟩
  | .error e m => ⟨m, .done (.error e), []⟩

/-! ### The depth of calls -/

namespace Machine

def SameDepth (m m' : Machine) : Prop := m'.depth = m.depth

instance : Std.Refl SameDepth := ⟨fun _ => rfl⟩

instance : IsTrans Machine SameDepth := ⟨fun _ _ _ first later => later.trans first⟩

theorem sameDepth_collect (r : ObjectRef) (m : Machine) : Moves SameDepth (collect r) m :=
  moves_get_bind (moves_lift_bind fun _ _ => moves_put rfl)

theorem sameDepth_setField (module : Module) (field : Token) (target? : Option ObjectRef) (v : Value)
    (m : Machine) : Moves SameDepth (setField module field target? v) m := by
  refine moves_get_bind (moves_lift_bind fun row _ => ?_)
  split
  · exact moves_put rfl
  · cases target? with
    | none => exact moves_throw _
    | some r => exact moves_lift_bind fun _ _ => moves_put rfl

theorem lasting_sameDepth : Lasting SameDepth where
  grows _ _ := rfl
  setField := sameDepth_setField
  numbers _ _ := rfl
  enters _ _ := rfl
  framed := by
    intro m m' inside
    show m'.depth - 1 = m.depth
    rw [inside, Nat.add_sub_cancel]

end Machine

namespace Stepwise

open Machine

variable {program : Program} {m : Machine} {pending : List Pending} {c c' : Config} {base : Nat}

/-- The machine's depth counts the open frames, above those that were open when the run started, and there are no
more of them than levels were left. -/
structure Counted (base : Nat) (c : Config) : Prop where
  depth : c.machine.depth = base + c.openFrames
  bound : c.openFrames ≤ maxCallDepth - base

theorem noCaller_moves {rel : Machine → Machine → Prop} [Std.Refl rel] : CallsMove rel noCaller :=
  fun _ _ _ => moves_pure none

/-- An instruction leaves its frame for a call or for a constructor of the module. -/
theorem departure_cases {i : Instruction} {frame : Activation} {d : Departure}
    (departs : departure program m i frame = some d) :
    (∃ site task, (i.opcode = .call ∨ i.opcode = .callvirt) ∧ callSite program i frame = .ok site ∧
      callTask site = some task ∧ d = ⟨task, m, none, site.below⟩) ∨
    ∃ site r m', i.opcode = .newobj ∧ constructSite program i frame = .ok site ∧
      site.target.signature.params ≠ [.object, .intPtr] ∧ site.token.inTable .method = true ∧
      Machine.alloc site.target.declaringType m = .ok r m' ∧
      d = ⟨.method site.token (.object r :: site.args), m', some (.object r), site.below⟩ := by
  have called : ∀ site? : Except Error CallSite,
      (match site? with
        | .ok site => (callTask site).map fun task => (⟨task, m, none, site.below⟩ : Departure)
        | .error _ => none) = some d →
      ∃ site task, site? = .ok site ∧ callTask site = some task ∧ d = ⟨task, m, none, site.below⟩ := by
    rintro (e | site) found
    · cases found
    · obtain ⟨task, starts, rfl⟩ := Option.map_eq_some_iff.mp found
      exact ⟨site, task, rfl, starts, rfl⟩
  cases op : i.opcode with
  | call =>
    simp only [departure, op] at departs
    obtain ⟨site, task, found⟩ := called _ departs
    exact .inl ⟨site, task, .inl rfl, found⟩
  | callvirt =>
    simp only [departure, op] at departs
    obtain ⟨site, task, found⟩ := called _ departs
    exact .inl ⟨site, task, .inr rfl, found⟩
  | newobj =>
    simp only [departure, op] at departs
    cases found : constructSite program i frame with
    | error e => simp only [found, reduceCtorEq] at departs
    | ok site =>
      simp only [found] at departs
      split at departs
      · cases departs
      · rename_i other
        split at departs
        · rename_i inside
          cases made : Machine.alloc site.target.declaringType m with
          | error e m' => simp only [made, reduceCtorEq] at departs
          | ok r m' =>
            simp only [made] at departs
            exact .inr ⟨site, r, m', rfl, rfl, other, inside, made, (Option.some.inj departs).symm⟩
        · cases departs
  | _ => simp only [departure, op, reduceCtorEq] at departs

theorem departure_depth {i : Instruction} {frame : Activation} {d : Departure}
    (departs : departure program m i frame = some d) : d.machine.depth = m.depth := by
  rcases departure_cases departs with ⟨site, task, -, -, -, rfl⟩ | ⟨site, r, m', -, -, -, -, made, rfl⟩
  · rfl
  · have same : Moves SameDepth (Machine.alloc site.target.declaringType) m := lasting_sameDepth.alloc _ m
    exact same.of_ok made

/-! ### What a step does to the machine -/

/-- The object that the next step makes, with its type: the one that a constructor is about to run on. -/
def Config.makes (program : Program) (c : Config) : Option (ObjectRef × Ty) :=
  match c.control with
  | .running f => do
    let i ← f.rest.head?
    let d ← departure program c.machine i f.frame
    let r ← d.created.bind Value.object?
    let site ← (constructSite program i f.frame).toOption
    return (r, site.target.declaringType)
  | .starting _ | .done _ => none

/-- A computation that makes this object or none, and otherwise goes along the relation. -/
def Makes (rel : Machine → Machine → Prop) (made : Option (ObjectRef × Ty)) (m m' : Machine) : Prop :=
  match made with
  | none => rel m m'
  | some (r, t) => Machine.alloc t m = .ok r m'

section Along

variable {rel : Machine → Machine → Prop} [Std.Refl rel] [IsTrans Machine rel]

/-- An instruction that stays in its frame makes no object. -/
theorem step_moves_of_stays (steady : Steady rel) {i : Instruction} {frame : Activation}
    (stays : departure program m i frame = none) : Moves rel (step program noCaller i frame) m := by
  by_cases op : i.opcode = .newobj
  · rw [step_eq_constructRule op, constructRule_eq]
    refine moves_lift_bind fun site found => moves_bind ?_ fun _ _ _ => moves_pure _
    simp only [departure, op, found] at stays
    unfold CallSite.build construct
    split at stays
    · rename_i delegate
      rw [if_pos delegate]
      exact moves_lift_bind fun _ _ => moves_lift_bind fun _ _ => moves_pure _
    · rename_i other
      rw [if_neg other]
      split at stays
      · rename_i inside
        rw [if_pos inside]
        -- a constructor whose object does not fit into the heap is not started
        rcases Nat.lt_or_ge m.objects.length UInt32.size with room | full
        · simp only [alloc_of_room room, reduceCtorEq] at stays
        · exact moves_bind_of_error (alloc_of_full full _) (Std.Refl.refl m)
      · rename_i outside
        rw [if_neg outside]
        exact moves_throw _
  · exact steady.step noCaller_moves op frame m

variable (steady : Steady rel) (depths : ∀ m depth, rel m { m with depth })
include steady depths

theorem start_moves (task : Task) : rel m (start program m pending task).machine := by
  cases task with
  | entries entries args => cases entries <;> exact Std.Refl.refl m
  | method method args =>
    simp only [start]
    split
    · exact Std.Refl.refl m
    · cases program.module.method method with
      | error e => exact Std.Refl.refl m
      | ok row => exact trans_of rel (steady.enters m _) (depths _ _)

omit steady [IsTrans Machine rel] in
theorem resume_moves (p : Pending) (outcome : Except Error (Option Value)) :
    rel m (resume m pending p outcome).machine := by
  cases p <;> cases outcome
  case frame.error => exact depths m _
  all_goals exact Std.Refl.refl m

theorem proceed_makes (f : OpenFrame) : Makes rel (Config.makes program ⟨m, .running f, pending⟩) m
    (proceed program m pending f).machine := by
  cases split : f.rest with
  | nil =>
    simp only [Config.makes, proceed, split, List.head?_nil, bind, Option.bind]
    exact depths m _
  | cons i rest =>
    by_cases op : i.opcode = .ret
    · simp only [Config.makes, proceed, departure, split, op, List.head?_cons, bind, Option.bind, if_true]
      exact depths m _
    · cases departs : departure program m i f.frame with
      | none =>
        have moves := step_moves_of_stays steady departs
        simp only [Config.makes, proceed, split, departs, if_neg op, List.head?_cons, bind, Option.bind]
        cases stepped : step program noCaller i f.frame m with
        | ok frame m' => exact moves.of_ok stepped
        | error e m' => exact trans_of rel (moves.of_error stepped) (depths m' _)
      | some d =>
        simp only [Config.makes, proceed, split, departs, if_neg op, List.head?_cons, bind, Option.bind]
        -- only a constructor's departure has made an object before it
        rcases departure_cases departs with ⟨site, task, -, -, -, rfl⟩ | ⟨site, r, m', -, found, -, -, made, rfl⟩
        · show rel m m
          exact Std.Refl.refl m
        · rw [found]
          exact made

/-- All that one step does to the machine. -/
theorem next_makes (stepped : next program c = some c') : Makes rel (c.makes program) c.machine c'.machine := by
  obtain ⟨m, control, pending⟩ := c
  cases control with
  | starting task =>
    obtain rfl := Option.some.inj stepped
    exact start_moves steady depths task
  | running f =>
    obtain rfl := Option.some.inj stepped
    exact proceed_makes steady depths f
  | done outcome =>
    cases pending with
    | nil => cases stepped
    | cons p pending =>
      obtain rfl := Option.some.inj stepped
      exact resume_moves depths p outcome

end Along

/-! ### What steps preserve -/

@[simp] theorem openFrames_starting (task : Task) :
    (⟨m, .starting task, pending⟩ : Config).openFrames = pending.countP (·.isFrame) := rfl

@[simp] theorem openFrames_running (f : OpenFrame) :
    (⟨m, .running f, pending⟩ : Config).openFrames = pending.countP (·.isFrame) + 1 := rfl

@[simp] theorem openFrames_done (outcome : Except Error (Option Value)) :
    (⟨m, .done outcome, pending⟩ : Config).openFrames = pending.countP (·.isFrame) := rfl

theorem counted_start {task : Task} (counted : Counted base ⟨m, .starting task, pending⟩) :
    Counted base (start program m pending task) := by
  obtain ⟨depth, bound⟩ := counted
  cases task with
  | method method args =>
    simp only [start]
    split
    · exact ⟨depth, bound⟩
    · rename_i free
      cases found : program.module.method method with
      | error e => exact ⟨depth, bound⟩
      | ok row =>
        simp only [openFrames_starting] at depth
        refine ⟨?_, ?_⟩
        · simp only [openFrames_running]
          omega
        · simp only [openFrames_running]
          omega
  | entries entries args =>
    cases entries with
    | nil => exact ⟨depth, bound⟩
    | cons e rest => exact ⟨depth, bound⟩

theorem counted_close (outcome : Except Error (Option Value))
    (depth : m.depth = base + (pending.countP (·.isFrame) + 1))
    (bound : pending.countP (·.isFrame) + 1 ≤ maxCallDepth - base) : Counted base (close m outcome pending) := by
  refine ⟨?_, ?_⟩
  · show m.depth - 1 = base + pending.countP (·.isFrame)
    omega
  · simp only [close, openFrames_done]
    omega

theorem counted_proceed {f : OpenFrame} (counted : Counted base ⟨m, .running f, pending⟩) :
    Counted base (proceed program m pending f) := by
  obtain ⟨depth, bound⟩ := counted
  unfold proceed
  split
  · exact counted_close _ depth bound
  · rename_i i rest _
    split
    · exact counted_close _ depth bound
    · split
      · -- The frame now waits, and counts as it did before.
        rename_i d departs
        have same := departure_depth departs
        refine ⟨?_, ?_⟩
        · simpa [same, Pending.isFrame] using depth
        · simpa [Pending.isFrame] using bound
      · have same : Moves SameDepth (step program noCaller i f.frame) m :=
          lasting_sameDepth.step noCaller_moves i f.frame m
        cases stepped : step program noCaller i f.frame m with
        | ok frame m' => exact ⟨(same.of_ok stepped).trans depth, bound⟩
        | error e m' => exact counted_close _ ((same.of_error stepped).trans depth) bound

theorem counted_resume {p : Pending} {outcome : Except Error (Option Value)}
    (counted : Counted base ⟨m, .done outcome, p :: pending⟩) : Counted base (resume m pending p outcome) := by
  obtain ⟨depth, bound⟩ := counted
  cases p with
  | frame f created =>
    simp only [openFrames_done, List.countP_cons, Pending.isFrame, if_true] at depth bound
    cases outcome with
    | ok result => exact ⟨depth, bound⟩
    | error e => exact counted_close _ depth bound
  | entries rest args =>
    simp only [openFrames_done, List.countP_cons, Pending.isFrame, Bool.false_eq_true, if_false] at depth bound
    cases outcome with
    | ok result => exact ⟨depth, bound⟩
    | error e => exact ⟨depth, bound⟩

theorem counted_next (counted : Counted base c) (stepped : next program c = some c') : Counted base c' := by
  obtain ⟨m, control, pending⟩ := c
  cases control with
  | starting task =>
    obtain rfl := Option.some.inj stepped
    exact counted_start counted
  | running f =>
    obtain rfl := Option.some.inj stepped
    exact counted_proceed counted
  | done outcome =>
    cases pending with
    | nil => cases stepped
    | cons p pending =>
      obtain rfl := Option.some.inj stepped
      exact counted_resume counted

/-- However long a run is, no more frames are open than levels were left when it started. -/
theorem counted_after (counted : Counted base c) (n : Nat) : Counted base (after program n c) := by
  induction n generalizing c with
  | zero => exact counted
  | succ n ih =>
    rw [after]
    cases stepped : next program c with
    | none => exact ih counted
    | some c' => exact ih (counted_next counted stepped)

end Stepwise

end WeakSubscription
