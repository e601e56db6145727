import WeakSubscription.Module.Basic
import WeakSubscription.Tracked

/-!
The state of a running program: a heap of objects that can be collected, static fields, the methods
entered so far, and the number of the last weak wrapper. Objects keep their place in the heap when
they are collected, so a reference never comes to mean another object. The heap is full when there is
no reference left for one more object.
-/

namespace WeakSubscription

/-- Field values by field token. A field that was never set is null. -/
abbrev FieldValues := List (Token × Value)

namespace FieldValues

def get (values : FieldValues) (field : Token) : Value := (values.lookup field).getD .null

def set : FieldValues → Token → Value → FieldValues
  | [], field, v => [(field, v)]
  | (f, w) :: values, field, v =>
    if f = field then (f, v) :: values else (f, w) :: set values field v

@[simp] theorem get_set_self (values : FieldValues) (field : Token) (v : Value) :
    (values.set field v).get field = v := by
  induction values with
  | nil => simp [set, get]
  | cons p values ih =>
    obtain ⟨f, w⟩ := p
    by_cases h : f = field
    · simp [set, h, get]
    · have h' : (field == f) = false := by simp [Ne.symm h]
      simpa [set, h, get, List.lookup_cons, h'] using ih

theorem get_set_of_ne {values : FieldValues} {field other : Token} {v : Value}
    (h : other ≠ field) : (values.set field v).get other = values.get other := by
  have other_field : (other == field) = false := beq_false_of_ne h
  induction values with
  | nil => simp [set, get, List.lookup_cons, other_field]
  | cons p values ih =>
    obtain ⟨f, w⟩ := p
    by_cases hf : f = field
    · subst hf
      simp [set, get, List.lookup_cons, other_field]
    · simp only [set, hf, if_false, get, List.lookup_cons]
      split
      · rfl
      · exact ih

end FieldValues

structure HeapObject where
  type : Ty
  alive : Bool
  fields : FieldValues
  deriving DecidableEq

/-- A method that was entered, and the instance it was entered on. -/
structure TraceEntry where
  method : Token
  this : Option ObjectRef
  deriving DecidableEq

/-- The limit that a full heap is reported with. -/
def heapObjectLimit : UInt32 := 4294967295

structure Machine where
  objects : List HeapObject
  statics : FieldValues
  trace : List TraceEntry
  /-- The number of the last weak wrapper made. -/
  lastWeakId : UInt32
  depth : Nat
  deriving DecidableEq

abbrev Run := Tracked Machine

/-- The program that a machine runs: a module, and the namespace of the weak event helpers. -/
structure Program where
  module : Module
  helperNamespace : String

def Run.fault {α : Type} (cause : Fault) : Run α := throw (.fault cause)

namespace Machine

def initial : Machine := ⟨[], [], [], 0, 0⟩

/-! ### Objects -/

def object (m : Machine) (r : ObjectRef) : Except Error HeapObject :=
  match m.objects[r.slot]? with
  | some o => if o.alive then .ok o else .error (.fault (.invalidHeapReference r))
  | none => .error (.fault (.invalidHeapReference r))

def isAlive (m : Machine) (r : ObjectRef) : Bool := (m.objects[r.slot]?).any (·.alive)

/-- The machine with one more object, which has no field set. -/
def withObject (m : Machine) (type : Ty) : Machine :=
  { m with objects := m.objects ++ [⟨type, true, []⟩] }

/-- Makes an object in the next place of the heap, if there is a reference to that place. -/
def alloc (type : Ty) : Run ObjectRef := do
  let m ← get
  if m.objects.length < UInt32.size then
    Tracked.put (m.withObject type)
    return .ofSlot m.objects.length
  else Run.fault (.heapObjectLimitExceeded heapObjectLimit)

theorem alloc_of_room {m : Machine} (room : m.objects.length < UInt32.size) (type : Ty) :
    alloc type m = .ok (.ofSlot m.objects.length) (m.withObject type) := by
  simp only [alloc, Tracked.get_bind, room, if_true]
  rfl

/-- A full heap takes no object, and nothing changes in it. -/
theorem alloc_of_full {m : Machine} (full : UInt32.size ≤ m.objects.length) (type : Ty) :
    alloc type m = .error (.fault (.heapObjectLimitExceeded heapObjectLimit)) m := by
  simp only [alloc, Tracked.get_bind, Nat.not_lt.mpr full, if_false]
  rfl

theorem alloc_eq_ok_iff {m m' : Machine} {type : Ty} {r : ObjectRef} :
    alloc type m = .ok r m' ↔
      m.objects.length < UInt32.size ∧ r = .ofSlot m.objects.length ∧ m' = m.withObject type := by
  rcases Nat.lt_or_ge m.objects.length UInt32.size with room | full
  · rw [alloc_of_room room, EStateM.Result.ok.injEq]
    exact ⟨fun ⟨h, h'⟩ => ⟨room, h.symm, h'.symm⟩, fun ⟨_, h, h'⟩ => ⟨h.symm, h'.symm⟩⟩
  · rw [alloc_of_full full]
    exact ⟨fun h => (nomatch h), fun ⟨room, _⟩ => absurd room (Nat.not_lt.mpr full)⟩

/-- Collects a live object. Its field values are gone. -/
def collect (r : ObjectRef) : Run Unit := do
  let m ← get
  let o ← m.object r
  Tracked.put { m with objects := m.objects.set r.slot { o with alive := false, fields := [] } }

/-! ### Fields -/

/-- The value of a field: of the static, or of the given live instance. -/
def fieldValue (m : Machine) (module : Module) (field : Token) (target? : Option ObjectRef) :
    Except Error Value := do
  let row ← module.field field
  if row.isStatic then return m.statics.get field
  match target? with
  | some r => return (← m.object r).fields.get field
  | none => throw (.fault .nullReference)

/-- Sets a field: the static, or that of the given live instance. -/
def setField (module : Module) (field : Token) (target? : Option ObjectRef) (v : Value) :
    Run Unit := do
  let m ← get
  let row ← module.field field
  if row.isStatic then
    Tracked.put { m with statics := m.statics.set field v }
  else
    match target? with
    | some r =>
      let o ← m.object r
      Tracked.put { m with objects := m.objects.set r.slot { o with fields := o.fields.set field v } }
    | none => Run.fault .nullReference

/-! ### The trace -/

def invocationsOf (m : Machine) (method : Token) : Nat := m.trace.countP (·.method == method)

def clearTrace : Run Unit := modify fun m => { m with trace := [] }

end Machine

end WeakSubscription
