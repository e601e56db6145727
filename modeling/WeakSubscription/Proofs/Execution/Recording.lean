import WeakSubscription.Proofs.Execution.CallLimit
import WeakSubscription.Proofs.Execution.Ledger

/-!
# Runs write the ledger

In a configuration values stand in fields, in the frame that goes on and in all that waits for an outcome. A step
keeps all of them recorded on the ledger and writes the wrappers that it makes at its end. So behind any number of
steps, and whether the request fails or not, the ledger has become longer by the wrappers that were made.
-/

namespace WeakSubscription.Stepwise

open Execution Machine

variable {program : Program} {m : Machine} {pending : List Pending} {c c' : Config} {ledger : List Entry}

/-! ### Configurations -/

def Task.RecordedIn (ledger : List Entry) : Task → Prop
  | .method _ args => ValuesRecorded ledger args
  | .entries todo args => AllRecorded ledger todo ∧ ValuesRecorded ledger args

def Control.RecordedIn (ledger : List Entry) : Control → Prop
  | .starting task => task.RecordedIn ledger
  | .running f => FrameRecorded ledger f.frame
  | .done (.ok result) => ValuesRecorded ledger result.toList
  | .done (.error _) => True

def Pending.RecordedIn (ledger : List Entry) : Pending → Prop
  | .frame f created => FrameRecorded ledger f.frame ∧ ValuesRecorded ledger created.toList
  | .entries todo args => AllRecorded ledger todo ∧ ValuesRecorded ledger args

theorem Pending.RecordedIn.grow {p : Pending} (recorded : p.RecordedIn ledger) (more : List Entry) :
    p.RecordedIn (ledger ++ more) := by
  cases p with
  | frame f created => exact ⟨recorded.1.grow more, recorded.2.grow more⟩
  | entries entries args => exact ⟨recorded.1.grow (List.prefix_append _ _), recorded.2.grow more⟩

/-- All values of a configuration are recorded: in fields, in what goes on, and in what waits. -/
structure Config.RecordedIn (ledger : List Entry) (c : Config) : Prop where
  machine : c.machine.Accounted ledger
  control : c.control.RecordedIn ledger
  pending : ∀ p ∈ c.pending, p.RecordedIn ledger

/-- The wrappers that the next step makes. -/
def Config.wraps (program : Program) (c : Config) : Nat :=
  match c.control with
  | .running f => f.rest.head?.elim 0 fun i => wrapsAt program i f.frame
  | .starting _ | .done _ => 0

/-- The number of wrappers that are made in so many steps. -/
def wrappers (program : Program) : Nat → Config → Nat
  | 0, _ => 0
  | n + 1, c =>
    match next program c with
    | none => 0
    | some c' => c.wraps program + wrappers program n c'

/-! ### Steps -/

theorem recorded_ofInvocation (call : Invocation) {args : List Value} (recorded : ValuesRecorded ledger args) :
    (Task.ofInvocation call args).RecordedIn ledger := by
  intro v member
  rcases List.mem_append.mp member with target | argument
  · obtain ⟨r, -, rfl⟩ := List.mem_map.mp target
    trivial
  · exact recorded v argument

theorem recorded_ofEntry (m : Machine) {e : Entry} {args : List Value} (entry : AllRecorded ledger [e])
    (recorded : ValuesRecorded ledger args) : (Task.ofEntry m e args).RecordedIn ledger := by
  cases e with
  | strong call => exact recorded_ofInvocation call recorded
  | weak id call callbackType callback handlerType =>
    by_cases live : call.target.all m.isAlive = true
    · rw [Task.ofEntry, if_pos live]
      exact recorded_ofInvocation call recorded
    · rw [Task.ofEntry, if_neg live]
      refine ⟨(entry.callback List.mem_cons_self).2, fun v member => ?_⟩
      obtain rfl := List.mem_singleton.mp member
      exact ⟨List.cons_ne_nil _ _, entry⟩

theorem recorded_done {outcome : Except Error (Option Value)}
    (given : ∀ result, outcome = .ok result → ValuesRecorded ledger result.toList) :
    Control.RecordedIn ledger (.done outcome) := by
  cases outcome with
  | ok result => exact given result rfl
  | error e => trivial

theorem recorded_close {outcome : Except Error (Option Value)} (machine : m.Accounted ledger)
    (given : Control.RecordedIn ledger (.done outcome)) (waiting : ∀ p ∈ pending, p.RecordedIn ledger) :
    (close m outcome pending).RecordedIn ledger :=
  ⟨⟨machine.count, machine.statics, machine.objects⟩, given, waiting⟩

theorem recorded_start {task : Task} (recorded : Config.RecordedIn ledger ⟨m, .starting task, pending⟩) :
    (start program m pending task).RecordedIn ledger := by
  obtain ⟨machine, given, waiting⟩ := recorded
  cases task with
  | method method args =>
    simp only [start]
    split
    · exact ⟨machine, trivial, waiting⟩
    · cases program.module.method method with
      | error e => exact ⟨machine, trivial, waiting⟩
      | ok row =>
        refine ⟨⟨machine.count, machine.statics, machine.objects⟩,
          ⟨given, fun v member => ?_, List.forall_mem_nil _⟩, waiting⟩
        obtain ⟨_, -, rfl⟩ := List.mem_map.mp member
        trivial
  | entries entries args =>
    obtain ⟨all, handed⟩ := given
    cases entries with
    | nil => exact ⟨machine, List.forall_mem_nil _, waiting⟩
    | cons e rest =>
      have first : AllRecorded ledger [e] := all.mono (List.cons_subset_cons _ (List.nil_subset _))
      have later : AllRecorded ledger rest := all.mono (List.subset_cons_self _ _)
      exact ⟨machine, recorded_ofEntry m first handed, List.forall_mem_cons.mpr ⟨⟨later, handed⟩, waiting⟩⟩

theorem recorded_resume {p : Pending} {outcome : Except Error (Option Value)}
    (recorded : Config.RecordedIn ledger ⟨m, .done outcome, p :: pending⟩) :
    (resume m pending p outcome).RecordedIn ledger := by
  obtain ⟨machine, given, waiting⟩ := recorded
  obtain ⟨first, behind⟩ : p.RecordedIn ledger ∧ ∀ q ∈ pending, q.RecordedIn ledger :=
    List.forall_mem_cons.mp waiting
  cases p with
  | frame f created =>
    cases outcome with
    | error e => exact recorded_close machine trivial behind
    | ok result =>
      refine ⟨machine, { first.1 with stack := fun v member => ?_ }, behind⟩
      rcases List.mem_append.mp member with new | old
      · cases created with
        | none => exact given v new
        | some w => exact first.2 v new
      · exact first.1.stack v old
  | entries rest args =>
    cases outcome with
    | error e => exact ⟨machine, trivial, behind⟩
    | ok result => exact ⟨machine, first, behind⟩

/-- What a call starts takes its values from the frame. -/
theorem recorded_callTask {site : CallSite} {task : Task} (starts : callTask site = some task)
    (instance_ : ValuesRecorded ledger site.this.toList) (args : ValuesRecorded ledger site.args) :
    task.RecordedIn ledger := by
  unfold callTask at starts
  split at starts
  · obtain rfl := Option.some.inj starts
    exact fun v member => (List.mem_append.mp member).elim (instance_ v) (args v)
  · split at starts
    · rename_i d _ held
      obtain rfl := Option.some.inj starts
      obtain ⟨v, bound, isDelegate⟩ := Option.bind_eq_some_iff.mp held
      obtain rfl := Value.eq_of_delegate? isDelegate
      exact ⟨(instance_ (.delegate d) (by rw [bound]; exact List.mem_cons_self)).2, args⟩
    · cases starts

/-- An instruction that leaves its frame makes no wrapper, and takes what it starts from the frame. -/
theorem recorded_departure {i : Instruction} {frame : Activation} {d : Departure}
    (departs : departure program m i frame = some d) (machine : m.Accounted ledger)
    (recorded : FrameRecorded ledger frame) :
    wrapsAt program i frame = 0 ∧ d.machine.Accounted ledger ∧ d.task.RecordedIn ledger ∧
      ValuesRecorded ledger d.created.toList ∧ ValuesRecorded ledger d.below := by
  rcases departure_cases departs with
    ⟨site, task, op, found, starts, rfl⟩ | ⟨site, r, m', op, found, -, -, made, rfl⟩
  · obtain ⟨instance_, args, below⟩ := callSite_recorded recorded found
    refine ⟨?_, machine, recorded_callTask starts instance_ args, List.forall_mem_nil _, below⟩
    rw [wrapsAt_of_call op found, CallSite.wraps, starts]
  · obtain ⟨args, below⟩ := constructSite_recorded recorded found
    refine ⟨wrapsAt_of_other ⟨by rw [op]; decide, by rw [op]; decide⟩, ?_, ?_, ?_, below⟩
    · exact ((keeps_alloc _ m machine).1 r m' made).1
    · exact List.forall_mem_cons.mpr ⟨trivial, args⟩
    · exact List.forall_mem_singleton.mpr trivial

theorem recorded_proceed {f : OpenFrame} (recorded : Config.RecordedIn ledger ⟨m, .running f, pending⟩) :
    ∃ more, more.length = Config.wraps program ⟨m, .running f, pending⟩ ∧
      (proceed program m pending f).RecordedIn (ledger ++ more) := by
  obtain ⟨machine, frame, waiting⟩ := recorded
  -- a frame that ends makes no wrapper, whatever it ends with
  have ends : ∀ {outcome : Except Error (Option Value)},
      Control.RecordedIn ledger (.done outcome) →
      ∃ more, more.length = 0 ∧ (close m outcome pending).RecordedIn (ledger ++ more) := by
    intro outcome given
    refine ⟨[], rfl, ?_⟩
    rw [List.append_nil]
    exact recorded_close machine given waiting
  cases split : f.rest with
  | nil =>
    simp only [Config.wraps, proceed, split, List.head?_nil, Option.elim_none]
    refine ends (recorded_done fun result last => ?_)
    unfold OpenFrame.atEnd at last
    split at last
    · obtain rfl := Except.ok.inj last
      split
      · exact List.forall_mem_nil _
      · exact List.forall_mem_singleton.mpr trivial
    · cases last
  | cons i rest =>
    simp only [Config.wraps, proceed, split, List.head?_cons, Option.elim_some]
    by_cases op : i.opcode = .ret
    · rw [if_pos op, wrapsAt_of_other ⟨by rw [op]; decide, by rw [op]; decide⟩]
      exact ends (recorded_done fun result last => returned_recorded frame last)
    · rw [if_neg op]
      cases departs : departure program m i f.frame with
      | some d =>
        obtain ⟨none_made, machine', task, created, below⟩ := recorded_departure departs machine frame
        refine ⟨[], none_made.symm, ?_⟩
        rw [List.append_nil]
        exact ⟨machine', task, List.forall_mem_cons.mpr ⟨⟨{ frame with stack := below }, created⟩, waiting⟩⟩
      | none =>
        obtain ⟨more, count, yields⟩ := records_step departs frame machine
        refine ⟨more, count, ?_⟩
        have waiting' : ∀ p ∈ pending, p.RecordedIn (ledger ++ more) := fun p member => (waiting p member).grow more
        rcases yields.cases with ⟨frame', m', ran, machine', frame_⟩ | ⟨e, m', failed, machine'⟩
        · simp only [ran]
          exact ⟨machine', frame_, waiting'⟩
        · simp only [failed]
          exact recorded_close machine' trivial waiting'

theorem recorded_next (recorded : c.RecordedIn ledger) (stepped : next program c = some c') :
    ∃ more, more.length = c.wraps program ∧ c'.RecordedIn (ledger ++ more) := by
  obtain ⟨m, control, pending⟩ := c
  cases control with
  | starting task =>
    obtain rfl := Option.some.inj stepped
    exact ⟨[], rfl, by rw [List.append_nil]; exact recorded_start recorded⟩
  | running f =>
    obtain rfl := Option.some.inj stepped
    exact recorded_proceed recorded
  | done outcome =>
    cases pending with
    | nil => cases stepped
    | cons p pending =>
      obtain rfl := Option.some.inj stepped
      exact ⟨[], rfl, by rw [List.append_nil]; exact recorded_resume recorded⟩

/-- However long a run is, the ledger gets longer by the wrappers that are made. -/
theorem recorded_after (recorded : c.RecordedIn ledger) (n : Nat) :
    ∃ more, more.length = wrappers program n c ∧ (after program n c).RecordedIn (ledger ++ more) := by
  induction n generalizing c ledger with
  | zero => exact ⟨[], rfl, by rwa [List.append_nil]⟩
  | succ n ih =>
    cases stepped : next program c with
    | none =>
      rw [after_of_ended stepped, wrappers, stepped]
      exact ⟨[], rfl, by rwa [List.append_nil]⟩
    | some c' =>
      -- the steps behind this one start with its wrappers on the ledger
      obtain ⟨first, count, recorded'⟩ := recorded_next recorded stepped
      obtain ⟨later, count', recorded''⟩ := ih recorded'
      refine ⟨first ++ later, ?_, ?_⟩
      · rw [List.length_append, count, count', wrappers, stepped]
      · rw [after, stepped, Option.getD_some, ← List.append_assoc]
        exact recorded''

/-- A request starts with recorded values if those are that come in with it. -/
theorem recorded_started (request : Request) (machine : m.Accounted ledger)
    (incoming : ValuesRecorded ledger request.incoming) : (request.started program m).RecordedIn ledger := by
  have opens : KeepsLedger ledger (Control.RecordedIn ledger) (request.opening program) m := by
    have nothing : Control.RecordedIn ledger (.done (.ok none)) := List.forall_mem_nil _
    cases request with
    | alloc type =>
      exact keeps_map (keeps_alloc type m) fun r _ => List.forall_mem_singleton.mpr trivial
    | collect ref => exact keeps_map (keeps_collect ref m) fun _ _ => nothing
    | setField field target? v =>
      exact keeps_map (keeps_setField _ field target? (incoming v List.mem_cons_self) m) fun _ _ => nothing
    | invoke method this args =>
      refine keeps_lift_bind fun row _ => ?_
      split
      · exact keeps_pure incoming
      · cases this with
        | none => exact keeps_throw _
        | some r => exact keeps_pure (List.forall_mem_cons.mpr ⟨trivial, incoming⟩)
    | invokeDelegate d args =>
      obtain ⟨entries, args⟩ := List.forall_mem_cons.mp incoming
      exact keeps_pure ⟨entries.2, args⟩
    | raise field target? sender args =>
      refine keeps_get_bind fun accounted => keeps_lift_bind fun v read => ?_
      cases v with
      | null => exact keeps_pure nothing
      | delegate d => exact keeps_pure ⟨(accounted.fieldValue read).2, incoming⟩
      | object _ | methodPointer _ => exact keeps_throw _
  unfold Request.started
  rcases (opens machine).cases with ⟨control, m', ran, machine', given⟩ | ⟨e, m', failed, machine'⟩
  · rw [ran]
    exact ⟨machine', given, List.forall_mem_nil _⟩
  · rw [failed]
    exact ⟨machine', trivial, List.forall_mem_nil _⟩

end WeakSubscription.Stepwise
