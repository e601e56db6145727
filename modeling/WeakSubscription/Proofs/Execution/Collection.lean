import WeakSubscription.Proofs.Execution.CallLimit
import WeakSubscription.Proofs.Execution.Fields
import WeakSubscription.Proofs.Execution.HeapTypes
import WeakSubscription.Proofs.Module.Extension

/-!
# Objects are collected for good

A machine numbers its objects in the order in which they are made, by a request or by an instruction, and takes no
number back. Where no number is left no object is made. A collected object keeps its number and its type and nothing
else. No later step makes it live again or gives it a field value, whatever fails in between, since every access finds
its object by the one lookup that passes over collected ones.
-/

namespace WeakSubscription

open Execution Tracked Machine Stepwise

variable {program : Program} {m m' : Machine} {r : ObjectRef} {t : Ty}

/-! ### Objects that age -/

/-- What may become of an object. Its type stays, and once it is not alive, it stays as it is. -/
structure HeapObject.Ages (o o' : HeapObject) : Prop where
  type : o'.type = o.type
  dead : o.alive = false → o' = o

instance : Std.Refl HeapObject.Ages := ⟨fun _ => ⟨rfl, fun _ => rfl⟩⟩

instance : IsTrans HeapObject HeapObject.Ages where
  trans o o' o'' first later := by
    refine ⟨later.type.trans first.type, fun dead => ?_⟩
    obtain rfl := first.dead dead
    exact later.dead dead

namespace Machine

def Ages (m m' : Machine) : Prop := Continues HeapObject.Ages m.objects m'.objects

instance : Std.Refl Ages := ⟨fun m => Continues.refl m.objects⟩

instance : IsTrans Machine Ages := ⟨fun _ _ _ first later => Continues.trans first later⟩

theorem ages_alloc (made : alloc t m = .ok r m') : Ages m m' := by
  obtain ⟨-, -, rfl⟩ := alloc_eq_ok_iff.mp made
  exact Continues.concat _ _

def SameTypes (m m' : Machine) : Prop := m'.objects.map (·.type) = m.objects.map (·.type)

instance : Std.Refl SameTypes := ⟨fun _ => rfl⟩

instance : IsTrans Machine SameTypes := ⟨fun _ _ _ first later => later.trans first⟩

/-- A relation along which live objects are replaced by others of the same type. It is all that setting a field and
collecting an object do to the heap. -/
structure Replaces (rel : Machine → Machine → Prop) : Prop where
  set : ∀ {m r o o'}, m.object r = .ok o → o'.type = o.type → rel m { m with objects := m.objects.set r.slot o' }
  same : ∀ {m m'}, m'.objects = m.objects → rel m m'

theorem replaces_ages : Replaces Ages where
  set living same := by
    obtain ⟨read, alive⟩ := object_eq_ok_iff.mp living
    exact Continues.set read ⟨same, fun dead => nomatch alive.symm.trans dead⟩
  same := by
    intro m m' same
    show Continues HeapObject.Ages m.objects m'.objects
    rw [same]
    exact Continues.refl _

theorem replaces_sameTypes : Replaces SameTypes where
  set {m r o o'} living same := by
    have read := (object_eq_ok_iff.mp living).1
    refine List.ext_getElem? fun i => ?_
    rw [List.getElem?_map, List.getElem?_map]
    by_cases here : r.slot = i
    · subst here
      rw [List.getElem?_set_self (List.getElem?_eq_some_iff.mp read).1, read, Option.map_some, Option.map_some, same]
    · rw [List.getElem?_set_ne here]
  same same := congrArg (List.map HeapObject.type) same

namespace Replaces

variable {rel : Machine → Machine → Prop} [Std.Refl rel] (replaces : Replaces rel)
include replaces

theorem steady : Steady rel where
  setField module field target? v m := by
    refine moves_get_bind (moves_lift_bind fun row _ => ?_)
    split
    · exact moves_put (replaces.same rfl)
    · cases target? with
      | none => exact moves_throw _
      | some r => exact moves_lift_bind fun o living => moves_put (replaces.set living rfl)
  numbers _ _ := replaces.same rfl
  enters _ _ := replaces.same rfl

theorem collect (r : ObjectRef) (m : Machine) : Moves rel (Machine.collect r) m :=
  moves_get_bind (moves_lift_bind fun _ living => moves_put (replaces.set living rfl))

end Replaces

/-! ### What is made -/

/-- The object that is made for a request before anything is run for it. -/
def Request.makes (m : Machine) : Request → Option (ObjectRef × Ty)
  | alloc type => (value? (Machine.alloc type m)).map (·, type)
  | collect _ | setField _ _ _ | invoke _ _ _ | invokeDelegate _ _ | raise _ _ _ _ => none

end Machine

namespace Stepwise

/-- The objects that are made in so many steps, each with its type. -/
def made (program : Program) : Nat → Config → List (ObjectRef × Ty)
  | 0, _ => []
  | n + 1, c =>
    match next program c with
    | none => []
    | some c' => (c.makes program).toList ++ made program n c'

section Along

variable {rel : Machine → Machine → Prop} [Std.Refl rel] (replaces : Replaces rel)
include replaces

theorem started_makes (program : Program) (request : Request) (m : Machine) :
    Makes rel (request.makes m) m (request.started program m).machine := by
  have opens : (request.started program m).machine = endState (request.opening program m) := by
    unfold Request.started
    cases request.opening program m <;> rfl
  rw [opens]
  cases request with
  | alloc type =>
    rcases Nat.lt_or_ge m.objects.length UInt32.size with room | full
    · simp only [Request.opening, Request.makes, Functor.map, EStateM.map, alloc_of_room room, value?, endState,
        Option.map_some]
      exact alloc_of_room room type
    · simp only [Request.opening, Request.makes, Functor.map, EStateM.map, alloc_of_full full, value?, endState,
        Option.map_none]
      exact Std.Refl.refl (r := rel) m
  | collect ref => exact moves_map (replaces.collect ref m)
  | setField field target? v => exact moves_map (replaces.steady.setField _ field target? v m)
  | invokeDelegate d args => exact Std.Refl.refl (r := rel) m
  | invoke method this args =>
    show Moves rel (Request.opening program (.invoke method this args)) m
    refine moves_lift_bind fun row _ => ?_
    split
    · exact moves_pure _
    · cases this with
      | none => exact moves_throw _
      | some r => exact moves_pure _
  | raise field target? sender args =>
    show Moves rel (Request.opening program (.raise field target? sender args)) m
    refine moves_get_bind (moves_lift_bind fun v _ => ?_)
    cases v with
    | null | delegate _ => exact moves_pure _
    | object _ | methodPointer _ => exact moves_throw _

end Along

end Stepwise

/-! ### Numbers -/

namespace Machine

/-- The objects of the machine, each with the number of its place and with its type. -/
def inventory (m : Machine) : List (ObjectRef × Ty) := (m.objects.map (·.type)).mapIdx fun i t => (.ofSlot i, t)

/-- There is a reference to every object of the machine. -/
def Fits (m : Machine) : Prop := m.objects.length ≤ UInt32.size

/-- The objects that were handed out, in this order, are those of the machine. They are numbered from zero on, and
have the types with which they were handed out. The next object gets the next number, and where all numbers were
given away none can be made and nothing changes. -/
structure Registers (m : Machine) (log : List (ObjectRef × Ty)) : Prop where
  ids : log.map (·.1.slot) = List.range m.objects.length
  types : ∀ r t, (r, t) ∈ log ↔ m.typeOf? r = some t
  next : ∀ t, log.length < UInt32.size → alloc t m = .ok (.ofSlot log.length) (m.withObject t)
  full : ∀ t, UInt32.size ≤ log.length → alloc t m = .error (.fault (.heapObjectLimitExceeded heapObjectLimit)) m

theorem length_inventory (m : Machine) : m.inventory.length = m.objects.length := by
  rw [inventory, List.length_mapIdx, List.length_map]

theorem registers_inventory (fits : m.Fits) : m.Registers m.inventory where
  ids := by
    refine List.ext_getElem? fun i => ?_
    simp only [inventory, List.getElem?_map, List.getElem?_mapIdx, Option.map_map]
    cases read : m.objects[i]? with
    | none =>
      have outside := List.getElem?_eq_none_iff.mp read
      rw [List.getElem?_eq_none_iff.mpr (by rwa [List.length_range])]
      rfl
    | some o =>
      have inside := (List.getElem?_eq_some_iff.mp read).1
      rw [List.getElem?_range inside]
      exact congrArg some (ObjectRef.slot_ofSlot (inside.trans_le fits))
  types r t := by
    rw [inventory, List.mem_mapIdx, typeOf?, ← List.getElem?_map, List.getElem?_eq_some_iff]
    constructor
    · rintro ⟨i, inside, same⟩
      obtain ⟨rfl, rfl⟩ := Prod.mk.inj same
      have count : i < m.objects.length := by rwa [List.length_map] at inside
      have place : (ObjectRef.ofSlot i).slot = i := ObjectRef.slot_ofSlot (count.trans_le fits)
      exact ⟨by rwa [place], by simp only [place]⟩
    · rintro ⟨inside, rfl⟩
      exact ⟨r.slot, inside, by rw [ObjectRef.ofSlot_slot]⟩
  next t room := by
    rw [length_inventory] at room ⊢
    exact alloc_of_room room t
  full t none_left := by
    rw [length_inventory] at none_left
    exact alloc_of_full none_left t

/-- The second machine has the objects of the first one and those that were handed out in between. A heap that fits
still does. -/
structure Adds (log : List (ObjectRef × Ty)) (m m' : Machine) : Prop where
  inventory : m'.inventory = m.inventory ++ log
  fits : m.Fits → m'.Fits

theorem Adds.of_types (same : m'.objects.map (·.type) = m.objects.map (·.type)) : Adds [] m m' where
  inventory := by rw [Machine.inventory, same, List.append_nil, Machine.inventory]
  fits fits := by
    have count := congrArg List.length same
    rw [List.length_map, List.length_map] at count
    rwa [Fits, count]

theorem Adds.refl (m : Machine) : Adds [] m m := .of_types rfl

theorem Adds.trans {log more : List (ObjectRef × Ty)} {m'' : Machine} (first : Adds log m m')
    (later : Adds more m' m'') : Adds (log ++ more) m m'' where
  inventory := by rw [later.inventory, first.inventory, List.append_assoc]
  fits fits := later.fits (first.fits fits)

theorem Adds.alloc (made : alloc t m = .ok r m') : Adds [(r, t)] m m' := by
  obtain ⟨room, rfl, rfl⟩ := alloc_eq_ok_iff.mp made
  refine ⟨?_, fun _ => ?_⟩
  · simp only [Machine.inventory, withObject, List.map_append, List.map_cons, List.map_nil, List.mapIdx_concat,
      List.length_map]
  · rw [Fits, withObject, List.length_append, List.length_singleton]
    exact room

end Machine

namespace Stepwise

variable {made? : Option (ObjectRef × Ty)} {c c' : Config}

theorem Makes.ages (makes : Makes Ages made? m m') : Ages m m' := by
  cases made? with
  | none => exact makes
  | some new => exact ages_alloc makes

theorem Makes.adds (makes : Makes SameTypes made? m m') : Adds made?.toList m m' := by
  cases made? with
  | none => exact .of_types makes
  | some new => exact .alloc makes

theorem ages_next (stepped : next program c = some c') : Ages c.machine c'.machine :=
  (next_makes replaces_ages.steady (fun _ _ => replaces_ages.same rfl) stepped).ages

theorem adds_next (stepped : next program c = some c') : Adds (c.makes program).toList c.machine c'.machine :=
  (next_makes replaces_sameTypes.steady (fun _ _ => replaces_sameTypes.same rfl) stepped).adds

theorem ages_after (n : Nat) (c : Config) : Ages c.machine (after program n c).machine := by
  induction n generalizing c with
  | zero => exact Std.Refl.refl c.machine
  | succ n ih =>
    rw [after]
    cases stepped : next program c with
    | none => exact ih c
    | some c' => exact trans_of Ages (ages_next stepped) (ih c')

theorem adds_after (n : Nat) (c : Config) : Adds (made program n c) c.machine (after program n c).machine := by
  induction n generalizing c with
  | zero => exact .refl c.machine
  | succ n ih =>
    cases stepped : next program c with
    | none =>
      rw [after_of_ended stepped, made, stepped]
      exact .refl c.machine
    | some c' =>
      rw [after, made, stepped, Option.getD_some]
      exact (adds_next stepped).trans (ih c')

end Stepwise

/-! ### Requests one after the other -/

namespace Machine

/-- The objects that are handed out in the first steps of a request. -/
def Request.handed (program : Program) (request : Request) (m : Machine) (n : Nat) : List (ObjectRef × Ty) :=
  (request.makes m).toList ++ made program n (request.started program m)

theorem ages_during (program : Program) (request : Request) (m : Machine) (n : Nat) :
    Ages m (after program n (request.started program m)).machine :=
  trans_of Ages (started_makes replaces_ages program request m).ages (ages_after n _)

theorem adds_during (request : Request) (m : Machine) (n : Nat) :
    Adds (request.handed program m n) m (after program n (request.started program m)).machine :=
  (started_makes replaces_sameTypes program request m).adds.trans (adds_after n _)

/-- What requests make of a machine, failed ones among them, with the objects that are handed out on the way. -/
inductive History (program : Program) (m : Machine) : List (ObjectRef × Ty) → Machine → Prop
  | start : History program m [] m
  | asked {log : List (ObjectRef × Ty)} {m' : Machine} (before : History program m log m') (request : Request)
      (n : Nat) (ended : next program (after program n (request.started program m')) = none) :
      History program m (log ++ request.handed program m' n) (endState (request.run program m'))
  | forgot {log : List (ObjectRef × Ty)} {m' : Machine} (before : History program m log m') :
      History program m log (endState (clearTrace m'))

/-- Where a request has no further step, the machine is the one that the request leaves. -/
theorem endState_of_ended {request : Request} {n : Nat}
    (ended : next program (after program n (request.started program m)) = none) :
    endState (request.run program m) = (after program n (request.started program m)).machine := by
  rw [settle_of_ended ended]
  cases request.run program m <;> rfl

namespace History

variable {log more : List (ObjectRef × Ty)} {m'' : Machine}

theorem ages (history : History program m log m') : Ages m m' := by
  induction history with
  | start => exact Std.Refl.refl m
  | asked before request n ended ih =>
    rw [endState_of_ended ended]
    exact trans_of Ages ih (ages_during program request _ _)
  | forgot before ih => exact ih

theorem adds (history : History program m log m') : Adds log m m' := by
  induction history with
  | start => exact .refl m
  | asked before request n ended ih =>
    rw [endState_of_ended ended]
    exact ih.trans (adds_during request _ n)
  | forgot before ih => exact ⟨ih.inventory, ih.fits⟩

theorem trans (first : History program m log m') (later : History program m' more m'') :
    History program m (log ++ more) m'' := by
  induction later with
  | start => rwa [List.append_nil]
  | asked before request n ended ih =>
    rw [← List.append_assoc]
    exact ih.asked request n ended
  | forgot before ih => exact ih.forgot

/-- Since every request ends, every machine that is reached has a history. -/
theorem of_reached (reached : m.Reached program) : ∃ log, History program .initial log m := by
  induction reached with
  | start => exact ⟨[], .start⟩
  | @asked m before request ih =>
    obtain ⟨log, history⟩ := ih
    obtain ⟨n, ended⟩ := started_reaches program request m
    exact ⟨_, history.asked request n (by rw [ended, next_settle])⟩
  | forgot before ih =>
    obtain ⟨log, history⟩ := ih
    exact ⟨log, history.forgot⟩

end History

end Machine

/-! ### Accesses to fields -/

namespace Execution

/-- The object of which an instruction is about to read or to write an instance field. -/
def accessed? (module : Module) (i : Instruction) (stack : List Value) : Option ObjectRef := do
  let field ← i.token?
  let row ← (module.field field).toOption
  if row.isStatic then none
  else
    match i.opcode, stack with
    | .ldfld, .object r :: _ => some r
    | .stfld, _ :: .object r :: _ => some r
    | _, _ => none

variable {i : Instruction} {stack : List Value} {module : Module}

theorem accessed?_eq_some (accessed : accessed? module i stack = some r) :
    ∃ field row, i.token? = some field ∧ module.field field = .ok row ∧ row.isStatic = false ∧
      ((i.opcode = .ldfld ∧ ∃ below, stack = .object r :: below) ∨
        i.opcode = .stfld ∧ ∃ v below, stack = v :: .object r :: below) := by
  obtain ⟨field, named, accessed⟩ := Option.bind_eq_some_iff.mp accessed
  obtain ⟨row, found, accessed⟩ := Option.bind_eq_some_iff.mp accessed
  have found := eq_ok_of_toOption found
  split at accessed
  · cases accessed
  · rename_i inst
    refine ⟨field, row, named, found, Bool.eq_false_iff.mpr inst, ?_⟩
    split at accessed
    · obtain rfl := Option.some.inj accessed
      exact .inl ⟨‹_›, _, rfl⟩
    · obtain rfl := Option.some.inj accessed
      exact .inr ⟨‹_›, _, _, rfl⟩
    · cases accessed

end Execution

def Stepwise.Config.accessed? (program : Program) (c : Config) : Option ObjectRef :=
  match c.control with
  | .running f => f.rest.head?.bind fun i => Execution.accessed? program.module i f.frame.stack
  | .starting _ | .done _ => none

/-! ### Collected objects -/

/-- A collected object of this type. It is not alive and has no field values. Its instance fields can be neither read
nor written, and an event behind one of them is not raised. -/
structure Machine.Collected (program : Program) (r : ObjectRef) (t : Ty) (m : Machine) : Prop where
  dead : m.isAlive r = false
  type : m.typeOf? r = some t
  empty : m.objects[r.slot]?.map (·.fields) = some []
  unread : ∀ field row, program.module.field field = .ok row → row.isStatic = false →
    m.fieldValue program.module field (some r) = .error (.fault (.invalidHeapReference r))
  unwritten : ∀ field row v, program.module.field field = .ok row → row.isStatic = false →
    setField program.module field (some r) v m = .error (.fault (.invalidHeapReference r)) m
  unraised : ∀ field row sender args, program.module.field field = .ok row → row.isStatic = false →
    raise program field (some r) sender args m = .error (.fault (.invalidHeapReference r)) m

theorem Machine.collected_of_row (program : Program) (row : m.objects[r.slot]? = some ⟨t, false, []⟩) :
    m.Collected program r t := by
  have missing : m.object r = .error (.fault (.invalidHeapReference r)) := by
    rw [object, row]
    rfl
  have unread : ∀ field row, program.module.field field = .ok row → row.isStatic = false →
      m.fieldValue program.module field (some r) = .error (.fault (.invalidHeapReference r)) := by
    intro field f found inst
    rw [fieldValue_instance found inst, missing]
    rfl
  refine ⟨?_, ?_, ?_, unread, fun field f v found inst => ?_, fun field f sender args found inst => ?_⟩
  · rw [isAlive, row]
    rfl
  · rw [typeOf?, row]
    rfl
  · rw [row]
    rfl
  · rw [setField, get_bind, found, lift_ok_bind, inst, if_neg Bool.false_ne_true]
    simp only [missing]
    rfl
  · rw [raise, get_bind, unread field f found inst]
    rfl

theorem Machine.collected_of_ages (program : Program) (collects : collect r m = .ok () m') :
    ∃ t, m.typeOf? r = some t ∧ ∀ m'', Ages m' m'' → m''.Collected program r t := by
  cases living : m.object r with
  | error e =>
    rw [collect, get_bind, living] at collects
    cases collects
  | ok o =>
    obtain ⟨-, rfl⟩ := EStateM.Result.ok.inj ((collect_eq living).symm.trans collects)
    have inside := (List.getElem?_eq_some_iff.mp (object_eq_ok_iff.mp living).1).1
    refine ⟨o.type, typeOf?_of_object living, fun m'' ages => ?_⟩
    -- what is put in its place is not alive, and so ages into itself
    obtain ⟨o', read, aged⟩ := ages r.slot ⟨o.type, false, []⟩ (List.getElem?_set_self inside)
    obtain rfl := aged.dead rfl
    exact collected_of_row program read

namespace Stepwise

variable {c : Config}

/-- An instruction that accesses a field of a collected object fails and leaves the machine as it was. -/
theorem step_of_accessed (caller : Caller) {i : Instruction} {frame : Activation}
    (collected : m.Collected program r t) (accessed : accessed? program.module i frame.stack = some r) :
    step program caller i frame m = .error (.fault (.invalidHeapReference r)) m := by
  obtain ⟨field, row, named, found, inst, here⟩ := accessed?_eq_some accessed
  have operand : operand i = .ok field := by rw [operand, named]
  rcases here with ⟨op, below, stack⟩ | ⟨op, v, below, stack⟩
  · simp only [step, op, operand, stack, pop_cons, receiver, lift_ok_bind, get_bind,
      collected.unread field row found inst]
    rfl
  · simp only [step, op, operand, stack, pop_cons, receiver, lift_ok_bind]
    exact bind_of_error (collected.unwritten field row v found inst)

theorem next_of_accessed (collected : c.machine.Collected program r t) (accessed : c.accessed? program = some r) :
    next program c = some (close c.machine (.error (.fault (.invalidHeapReference r))) c.pending) := by
  obtain ⟨m, control, pending⟩ := c
  cases control with
  | starting task => cases accessed
  | done outcome => cases accessed
  | running f =>
    obtain ⟨i, head, accessed⟩ := Option.bind_eq_some_iff.mp accessed
    obtain ⟨rest, split⟩ := List.head?_eq_some_iff.mp head
    have failed := step_of_accessed noCaller collected accessed
    obtain ⟨-, -, -, -, -, ⟨op, -⟩ | ⟨op, -⟩⟩ := accessed?_eq_some accessed
    all_goals simp only [next, proceed, departure, split, op, failed, reduceCtorEq, if_false]

theorem after_succ_of_next {c' : Config} {n : Nat} (stepped : next program (after program n c) = some c') :
    after program (n + 1) c = c' := by
  rw [after_add, after, after, stepped, Option.getD_some]

/-- A request in which something has failed fails with that, and with the machine as it was then, apart from the open
frames. -/
theorem run_of_failed {request : Request} {n : Nat} {e : Error}
    (failed : (after program n (request.started program m)).control = .done (.error e)) :
    request.run program m =
      .error e { (after program n (request.started program m)).machine with depth := m.depth } := by
  obtain ⟨last, settled⟩ := settles program request m n
  obtain ⟨stillFailed, depth, same⟩ := after_failed failed last
  have closed : (endState (request.run program m)).depth = m.depth := run_depth request m
  rw [settled] at stillFailed same
  cases ran : request.run program m with
  | ok result m' =>
    rw [ran] at stillFailed
    cases stillFailed
  | error e' m' =>
    rw [ran] at stillFailed same closed
    obtain rfl := Except.error.inj (Control.done.inj stillFailed)
    obtain rfl : m' = _ := same
    obtain rfl : depth = m.depth := closed
    rfl

end Stepwise

/-- Collection is permanent, in every run of requests, whether they succeed or fail. The objects that requests and
instructions make are numbered one after the other, no number is given twice, and each object keeps its type. When
all numbers are given away, no further object is made. An object that was collected is never alive again and never
has a field value again, also not in the middle of a request. Every later access to an instance field of it is
refused, from outside and by running code. Code that tries fails its whole request with that, and no field of any
object is changed from then on. -/
theorem collection_permanent (program : Program) :
    (∀ m, m.Reached program → ∃ log, History program .initial log m) ∧
    (∀ log m, History program .initial log m → m.Registers log ∧
      (∀ (request : Request) (n : Nat), (after program n (request.started program m)).machine.Registers
        (log ++ request.handed program m n)) ∧
      ∀ more m', History program m more m' → History program .initial (log ++ more) m') ∧
    ∀ r m₀ m₁, collect r m₀ = .ok () m₁ → ∃ t, m₀.typeOf? r = some t ∧
      ∀ log m, History program m₁ log m → m.Collected program r t ∧
        ∀ (request : Request) (n : Nat) (c : Config), after program n (request.started program m) = c →
          c.machine.Collected program r t ∧ (c.accessed? program = some r →
            next program c = some (close c.machine (.error (.fault (.invalidHeapReference r))) c.pending) ∧
            request.run program m =
              .error (.fault (.invalidHeapReference r)) { c.machine with depth := m.depth }) := by
  refine ⟨fun m => History.of_reached, fun log m history => ?_, fun r m₀ m₁ collects => ?_⟩
  · have registers : ∀ {log m}, Adds log .initial m → m.Registers log := by
      intro log m adds
      have inventory : m.inventory = log := adds.inventory
      exact inventory ▸ registers_inventory (adds.fits (Nat.zero_le _))
    refine ⟨registers history.adds, fun request n => ?_, fun more m' later => history.trans later⟩
    exact registers (history.adds.trans (adds_during request m n))
  · obtain ⟨t, type, collected⟩ := collected_of_ages program collects
    refine ⟨t, type, fun log m history => ⟨collected m history.ages, ?_⟩⟩
    rintro request n c rfl
    have during := collected _ (trans_of Ages history.ages (ages_during program request m n))
    refine ⟨during, fun accessed => ?_⟩
    have stepped := next_of_accessed during accessed
    have later := after_succ_of_next stepped
    refine ⟨stepped, ?_⟩
    rw [run_of_failed (congrArg Config.control later), later]
    rfl

/-! ### A box that is collected -/

namespace Boxes

def boxType : Token := .ofRow .typeDef 1

def content : Token := .ofRow .field 1

def constructor : Token := .ofRow .method 1

def make : MethodDecl :=
  { name := "Make", modifiers := .static, result := .object, code := [.onToken .newobj constructor, .plain .ret] }

def look : MethodDecl :=
  { name := "Look", modifiers := .static, result := .object, params := [⟨some "box", .object⟩]
    code := [.plain .ldarg0, .onToken .ldfld content, .plain .ret] }

def boxes : Program :=
  let decls : List MethodDecl := [{ name := ".ctor", code := [.plain .ret] }, make, look]
  let methods := decls.mapIdx fun i d => { d.row boxType with token := .ofRow .method (i + 1) }
  { module := { Module.empty "Sample" with
      types := [⟨boxType, ⟨"Sample", "Box"⟩, .publicFlag, some .object, [content], methods.map (·.token)⟩]
      fields := [⟨content, "content", boxType, .privateFlag, .object⟩]
      methods }
    helperNamespace := "" }

def making : Request := .invoke (.ofRow .method 2) none []

def looking : Request := .invoke (.ofRow .method 3) none [.object ⟨0⟩]

def asks (request : Request) (m : Machine) : Machine := endState (request.run boxes m)

/-- A machine with a box, which the program made, and another object. -/
def stocked : Machine := asks (.alloc .object) (asks making .initial)

def emptied : Machine := asks (.collect ⟨0⟩) stocked

/-- Behind a request that looked for the box, and failed, and one that made a new box. -/
def restocked : Machine := asks making (asks looking emptied)

def box : Ty := .named ⟨"Sample", "Box"⟩

theorem asks_history {log : List (ObjectRef × Ty)} (before : History boxes m log m') (request : Request) (n : Nat)
    (ended : (next boxes (after boxes n (request.started boxes m'))).isNone = true) :
    History boxes m (log ++ request.handed boxes m' n) (asks request m') :=
  before.asked request n (Option.isNone_iff_eq_none.mp ended)

theorem emptied_history : History boxes .initial [(⟨0⟩, box), (⟨1⟩, .object)] emptied := by
  have fresh : History boxes .initial [] .initial := .start
  have made := asks_history fresh making 8 (by decide +kernel)
  have filled := asks_history made (.alloc .object) 0 (by decide +kernel)
  have history := asks_history filled (.collect ⟨0⟩) 0 (by decide +kernel)
  have log : [] ++ making.handed boxes .initial 8 ++
      (Request.alloc .object).handed boxes (asks making .initial) 0 ++
      (Request.collect ⟨0⟩).handed boxes stocked 0 = [(⟨0⟩, box), (⟨1⟩, .object)] := by
    decide +kernel
  exact log ▸ history

theorem restocked_history : History boxes emptied [(⟨2⟩, box)] restocked := by
  have fresh : History boxes emptied [] emptied := .start
  have looked := asks_history fresh looking 8 (by decide +kernel)
  have history := asks_history looked making 8 (by decide +kernel)
  have log : [] ++ looking.handed boxes emptied 8 ++ making.handed boxes (asks looking emptied) 8 =
      [(⟨2⟩, box)] := by
    decide +kernel
  exact log ▸ history

/-- The box gets the number zero and keeps it, and the next one gets another number. Code that looks into the box
after it was collected is refused. -/
theorem collection_permanent_boxes :
    restocked.Reached boxes ∧ (∃ log, History boxes .initial log restocked) ∧
      History boxes .initial [(⟨0⟩, box), (⟨1⟩, .object)] emptied ∧ History boxes emptied [(⟨2⟩, box)] restocked ∧
      restocked.Registers [(⟨0⟩, box), (⟨1⟩, .object), (⟨2⟩, box)] ∧ collect ⟨0⟩ stocked = .ok () emptied ∧
      restocked.Collected boxes ⟨0⟩ box ∧
      (after boxes 2 (looking.started boxes restocked)).accessed? boxes = some ⟨0⟩ ∧
      looking.run boxes restocked = .error (.fault (.invalidHeapReference ⟨0⟩))
        { (after boxes 2 (looking.started boxes restocked)).machine with depth := restocked.depth } := by
  have reached : restocked.Reached boxes :=
    ((((Reached.start.asked making).asked (.alloc .object)).asked (.collect ⟨0⟩)).asked looking).asked making
  have collects : collect ⟨0⟩ stocked = .ok () emptied := eq_ok_of_parts (by decide +kernel)
  have accessed : (after boxes 2 (looking.started boxes restocked)).accessed? boxes = some ⟨0⟩ := by decide +kernel
  have type : stocked.typeOf? ⟨0⟩ = some box := by decide +kernel
  obtain ⟨histories, numbered, gone⟩ := collection_permanent boxes
  obtain ⟨-, -, onward⟩ := numbered _ _ emptied_history
  obtain ⟨registers, -, -⟩ := numbered _ _ (onward _ _ restocked_history)
  obtain ⟨t, same, later⟩ := gone _ _ _ collects
  obtain rfl := Option.some.inj (type.symm.trans same)
  obtain ⟨collected, during⟩ := later _ _ restocked_history
  obtain ⟨-, refused⟩ := during looking 2 _ rfl
  exact ⟨reached, histories _ reached, emptied_history, restocked_history, registers, collects, collected, accessed,
    (refused accessed).2⟩

end Boxes

end WeakSubscription
