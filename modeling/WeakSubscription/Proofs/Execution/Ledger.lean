import WeakSubscription.Proofs.Delegate.Recorded
import WeakSubscription.Proofs.Execution.Stepwise

/-!
# Wrappers have numbers of their own

A machine numbers the wrappers that it makes. The ledger of these wrappers is not part of the machine; every
instruction keeps that there is one, on which all values are recorded, and writes new wrappers at its end, as many as
it makes. So a number tells which wrapper it is, wherever code puts it and also when code fails, as long as the count
of the wrappers fits into a number.
-/

namespace WeakSubscription

open Tracked

variable {ledger : List Entry}

/-! ### Machines with a ledger -/

theorem FieldValues.get_recorded {values : FieldValues} (recorded : ∀ p ∈ values, p.2.RecordedIn ledger)
    (field : Token) : (values.get field).RecordedIn ledger := by
  unfold get
  cases found : values.lookup field with
  | none => trivial
  | some v =>
    obtain ⟨front, back, rfl, -⟩ := List.lookup_eq_some_iff.mp found
    exact recorded (field, v) (List.mem_append_right _ List.mem_cons_self)

theorem FieldValues.mem_set {values : FieldValues} {field : Token} {v : Value} {p : Token × Value}
    (member : p ∈ values.set field v) : p ∈ values ∨ p.2 = v := by
  induction values with
  | nil =>
    obtain rfl := List.mem_singleton.mp member
    exact .inr rfl
  | cons q values ih =>
    obtain ⟨f, w⟩ := q
    rw [set] at member
    split at member
    · rcases List.mem_cons.mp member with rfl | rest
      · exact .inr rfl
      · exact .inl (List.mem_cons_of_mem _ rest)
    · rcases List.mem_cons.mp member with rfl | rest
      · exact .inl List.mem_cons_self
      · exact (ih rest).imp_left (List.mem_cons_of_mem _)

namespace Machine

/-- The ledger lists the wrappers that the machine made, and all values of fields are recorded on it. -/
structure Accounted (ledger : List Entry) (m : Machine) : Prop where
  count : m.lastWeakId = .ofNat ledger.length
  statics : ∀ p ∈ m.statics, p.2.RecordedIn ledger
  objects : ∀ o ∈ m.objects, ∀ p ∈ o.fields, p.2.RecordedIn ledger

theorem Accounted.grow {m : Machine} (accounted : m.Accounted ledger) (more : List Entry) :
    Accounted (ledger ++ more) { m with lastWeakId := .ofNat (ledger ++ more).length } where
  count := rfl
  statics p member := (accounted.statics p member).grow (List.prefix_append _ _)
  objects o inside p member := (accounted.objects o inside p member).grow (List.prefix_append _ _)

theorem accounted_initial : Accounted [] initial := ⟨rfl, nofun, nofun⟩

namespace Accounted

variable {m : Machine}

theorem values (accounted : m.Accounted ledger) {v : Value} (member : v ∈ m.values) : v.RecordedIn ledger := by
  rcases List.mem_append.mp member with static | onHeap
  · obtain ⟨p, inside, rfl⟩ := List.mem_map.mp static
    exact accounted.statics p inside
  · obtain ⟨o, inside, field⟩ := List.mem_flatMap.mp onHeap
    obtain ⟨p, deeper, rfl⟩ := List.mem_map.mp field
    exact accounted.objects o inside p deeper

theorem object (accounted : m.Accounted ledger) {r : ObjectRef} {o : HeapObject} (found : m.object r = .ok o) :
    ∀ p ∈ o.fields, p.2.RecordedIn ledger := by
  unfold Machine.object at found
  split at found
  · rename_i o' read
    split at found
    · obtain rfl := Except.ok.inj found
      exact accounted.objects o' (List.mem_of_getElem? read)
    · cases found
  · cases found

theorem fieldValue (accounted : m.Accounted ledger) {module : Module} {field : Token} {target? : Option ObjectRef}
    {v : Value} (read : m.fieldValue module field target? = .ok v) : v.RecordedIn ledger := by
  obtain ⟨row, -, h₁⟩ := except_bind_eq_ok_iff.mp read
  cases static : row.isStatic with
  | true =>
    rw [static] at h₁
    obtain rfl := Except.ok.inj h₁
    exact FieldValues.get_recorded accounted.statics field
  | false =>
    rw [static] at h₁
    cases target? with
    | none => cases h₁
    | some r =>
      obtain ⟨o, found, h₂⟩ := except_bind_eq_ok_iff.mp h₁
      obtain rfl := Except.ok.inj h₂
      exact FieldValues.get_recorded (accounted.object found) field

theorem setObject (accounted : m.Accounted ledger) (r : ObjectRef) {o : HeapObject}
    (recorded : ∀ p ∈ o.fields, p.2.RecordedIn ledger) :
    Accounted ledger { m with objects := m.objects.set r.slot o } := by
  refine { accounted with objects := fun o' member => ?_ }
  rcases List.mem_or_eq_of_mem_set member with old | rfl
  · exact accounted.objects o' old
  · exact recorded

end Accounted

end Machine

/-! ### Computations that keep the ledger -/

/-- From a machine with this ledger the computation comes to one with the same ledger, also if it fails. What it
gives is as stated. -/
def KeepsLedger {α : Type} (ledger : List Entry) (P : α → Prop) (x : Run α) (m : Machine) : Prop :=
  m.Accounted ledger → Yields (fun a m' => m'.Accounted ledger ∧ P a) (fun _ m' => m'.Accounted ledger) x m

/-- The computation writes so many wrappers at the end of the ledger. What it gives is as stated of the longer one. -/
def Records {α : Type} (count : Nat) (P : List Entry → α → Prop) (x : Run α) (ledger : List Entry) (m : Machine) :
    Prop :=
  m.Accounted ledger → ∃ more, more.length = count ∧
    Yields (fun a m' => m'.Accounted (ledger ++ more) ∧ P (ledger ++ more) a)
      (fun _ m' => m'.Accounted (ledger ++ more)) x m

section Keeps

variable {α β : Type} {P : α → Prop} {Q : β → Prop} {m : Machine}

theorem keeps_pure {a : α} (h : P a) : KeepsLedger ledger P (pure a) m :=
  fun accounted => yields_pure ⟨accounted, h⟩

theorem keeps_throw (e : Error) : KeepsLedger ledger P (throw e) m :=
  fun accounted => yields_throw accounted

theorem keeps_bind {x : Run α} {f : α → Run β} (first : KeepsLedger ledger P x m)
    (onward : ∀ a m', P a → KeepsLedger ledger Q (f a) m') : KeepsLedger ledger Q (x >>= f) m := by
  intro accounted
  refine yields_bind (first accounted).2 fun a m' ran => ?_
  obtain ⟨accounted', h⟩ := (first accounted).1 a m' ran
  exact onward a m' h accounted'

theorem keeps_lift_bind {x : Except Error α} {f : α → Run β}
    (onward : ∀ a, x = .ok a → KeepsLedger ledger Q (f a) m) : KeepsLedger ledger Q (liftM x >>= f) m :=
  fun accounted => yields_asked_bind (fun _ _ => accounted) fun a taken => onward a taken accounted

theorem keeps_lift {x : Except Error α} (h : ∀ a, x = .ok a → P a) : KeepsLedger ledger P (liftM x) m := by
  cases x with
  | ok a => exact keeps_pure (h a rfl)
  | error e => exact keeps_throw e

theorem keeps_get_bind {f : Machine → Run β} (onward : m.Accounted ledger → KeepsLedger ledger Q (f m) m) :
    KeepsLedger ledger Q (get >>= f) m :=
  fun accounted => yields_get_bind (onward accounted accounted)

theorem keeps_map {x : Run α} {f : α → β} (first : KeepsLedger ledger P x m) (onward : ∀ a, P a → Q (f a)) :
    KeepsLedger ledger Q (f <$> x) m :=
  fun accounted => yields_map ((first accounted).imp (fun a _ ⟨kept, h⟩ => ⟨kept, onward a h⟩) fun _ _ => id)

theorem keeps_put {m' : Machine} {b : β} (stays : m.Accounted ledger → m'.Accounted ledger) (h : Q b) :
    KeepsLedger ledger Q (do Tracked.put m'; return b) m :=
  fun accounted => yields_of_ok rfl ⟨stays accounted, h⟩

/-- What keeps the ledger makes no wrapper. -/
theorem records_of_keeps {P : List Entry → α → Prop} {x : Run α} (keeps : KeepsLedger ledger (P ledger) x m) :
    Records 0 P x ledger m := by
  refine fun accounted => ⟨[], rfl, ?_⟩
  rw [List.append_nil]
  exact keeps accounted

theorem records_map {n : Nat} {P : List Entry → α → Prop} {Q : List Entry → β → Prop} {x : Run α} {f : α → β}
    (first : Records n P x ledger m) (onward : ∀ more a, P (ledger ++ more) a → Q (ledger ++ more) (f a)) :
    Records n Q (f <$> x) ledger m := by
  intro accounted
  obtain ⟨more, count, yields⟩ := first accounted
  exact ⟨more, count, yields_map (yields.imp (fun a _ ⟨kept, h⟩ => ⟨kept, onward more a h⟩) fun _ _ => id)⟩

end Keeps

namespace Machine

variable {m : Machine}

theorem keeps_alloc (t : Ty) (m : Machine) : KeepsLedger ledger (fun _ => True) (alloc t) m := by
  refine keeps_get_bind fun _ => ?_
  split
  · refine keeps_put (fun accounted => { accounted with objects := fun o member => ?_ }) trivial
    rcases List.mem_append.mp member with old | new
    · exact accounted.objects o old
    · obtain rfl := List.mem_singleton.mp new
      nofun
  · exact keeps_throw _

theorem keeps_collect (r : ObjectRef) (m : Machine) : KeepsLedger ledger (fun _ => True) (collect r) m :=
  keeps_get_bind fun _ => keeps_lift_bind fun _ _ =>
    keeps_put (fun accounted => accounted.setObject r nofun) trivial

theorem keeps_setField (module : Module) (field : Token) (target? : Option ObjectRef) {v : Value}
    (recorded : v.RecordedIn ledger) (m : Machine) :
    KeepsLedger ledger (fun _ => True) (setField module field target? v) m := by
  have sets : ∀ {values : FieldValues}, (∀ p ∈ values, p.2.RecordedIn ledger) →
      ∀ p ∈ values.set field v, p.2.RecordedIn ledger := by
    intro values old p member
    rcases FieldValues.mem_set member with before | rfl
    · exact old p before
    · exact recorded
  refine keeps_get_bind fun accounted => keeps_lift_bind fun row _ => ?_
  split
  · exact keeps_put (fun accounted => { accounted with statics := sets accounted.statics }) trivial
  · cases target? with
    | none => exact keeps_throw _
    | some r =>
      refine keeps_lift_bind fun o found => ?_
      exact keeps_put (fun _ => accounted.setObject r (sets (accounted.object found))) trivial

end Machine

namespace Execution

open Machine Stepwise

variable {program : Program} {m : Machine} {args : List Value} {i : Instruction} {frame : Activation}

def ValuesRecorded (ledger : List Entry) (values : List Value) : Prop := ∀ v ∈ values, v.RecordedIn ledger

theorem ValuesRecorded.grow {values : List Value} (recorded : ValuesRecorded ledger values) (more : List Entry) :
    ValuesRecorded (ledger ++ more) values :=
  fun v member => (recorded v member).grow (List.prefix_append _ _)

/-! ### Helpers -/

theorem two_eq_ok {a b : Value} (read : two args = .ok (a, b)) : args = [a, b] := by
  unfold two at read
  split at read
  · obtain ⟨rfl, rfl⟩ := Prod.mk.inj (Except.ok.inj read)
    rfl
  · cases read

/-- The wrappers that a helper makes. -/
def wrapsOf : Helper → List Value → Nat
  | .makeWeak, [handler, callback] => Delegate.wrappersMade handler callback
  | _, _ => 0

theorem records_makeWeak (name : String) (result : Ty) (recorded : ValuesRecorded ledger args) :
    Records (wrapsOf .makeWeak args) (fun later v => v.RecordedIn later) (callHelper .makeWeak name result args)
      ledger m := by
  intro accounted
  cases read : two args with
  | error e =>
    have none_made : wrapsOf .makeWeak args = 0 := by
      unfold wrapsOf
      split
      · cases read
      · rfl
    rw [none_made]
    refine records_of_keeps ?_ accounted
    rw [callHelper, read]
    exact keeps_throw e
  | ok pair =>
    obtain ⟨a, b⟩ := pair
    obtain rfl := two_eq_ok read
    cases made : Delegate.makeWeak a b result m.lastWeakId with
    | error e =>
      have none_made : wrapsOf .makeWeak [a, b] = 0 := Delegate.wrappersMade_of_error made
      rw [none_made]
      refine records_of_keeps (keeps_lift_bind fun _ same => ?_) accounted
      obtain rfl := Except.ok.inj same
      refine keeps_get_bind fun _ => ?_
      rw [made]
      exact keeps_throw e
    | ok given =>
      obtain ⟨v, last⟩ := given
      rw [accounted.count] at made
      obtain ⟨more, size, rfl, wrapped⟩ :=
        Delegate.makeWeak_recorded (recorded a (by simp)) (recorded b (by simp)) made
      refine ⟨more, size, ?_⟩
      have ran : callHelper .makeWeak name result [a, b] m =
          .ok v { m with lastWeakId := .ofNat (ledger ++ more).length } := by
        rw [← accounted.count] at made
        simp only [callHelper, two, lift_ok_bind, get_bind, made]
        rfl
      exact yields_of_ok ran ⟨accounted.grow more, wrapped⟩

theorem records_callHelper (h : Helper) (name : String) (result : Ty) (recorded : ValuesRecorded ledger args) :
    Records (wrapsOf h args) (fun later v => v.RecordedIn later) (callHelper h name result args) ledger m := by
  cases h with
  | makeWeak => exact records_makeWeak name result recorded
  | combine =>
    refine records_of_keeps (keeps_lift_bind fun ⟨a, b⟩ read => keeps_lift fun v combined => ?_)
    obtain rfl := two_eq_ok read
    exact Delegate.combine_recorded (recorded a (by simp)) (recorded b (by simp)) combined
  | remove =>
    refine records_of_keeps (keeps_lift_bind fun ⟨a, b⟩ read => keeps_lift fun v removed => ?_)
    obtain rfl := two_eq_ok read
    exact Delegate.remove_recorded (recorded a (by simp)) removed
  | findWeak =>
    refine records_of_keeps (keeps_lift_bind fun ⟨a, b⟩ read => keeps_lift fun v found => ?_)
    obtain rfl := two_eq_ok read
    exact Delegate.findWeak_recorded (recorded a (by simp)) found
  | changeType =>
    refine records_of_keeps ?_
    cases args with
    | nil => exact keeps_throw _
    | cons a rest => exact keeps_lift fun v changed => Delegate.changeType_recorded (recorded a (by simp)) changed
  | compilerGenerated | actionConstructor => exact records_of_keeps (keeps_throw _)

/-! ### Calls that start nothing -/

/-- The wrappers that a call makes, as the helper that it asks. A call that starts something asks none. -/
def CallSite.wraps (program : Program) (site : CallSite) : Nat :=
  match callTask site, helperOf? program site.token with
  | none, some h => wrapsOf h site.args
  | _, _ => 0

/-- A call that starts nothing asks for a helper by name. -/
theorem perform_of_computes {caller : Caller} {site : CallSite} (computes : callTask site = none) :
    site.perform program caller = callByName program site.token site.target site.args := by
  unfold callTask at computes
  split at computes
  · cases computes
  · rename_i outside
    rw [CallSite.perform, if_neg outside]
    refine callOutside_of_not_entersDelegate ?_
    unfold entersDelegate
    cases named : site.target.name == "Invoke" with
    | false => rfl
    | true =>
      cases held : site.this.bind Value.delegate? with
      | none => rfl
      | some d => simp only [named, held, reduceCtorEq] at computes

theorem records_perform {site : CallSite} (computes : callTask site = none)
    (recorded : ValuesRecorded ledger site.args) :
    Records (site.wraps program) (fun later (result : Option Value) => ValuesRecorded later result.toList)
      (site.perform program noCaller) ledger m := by
  rw [perform_of_computes computes, CallSite.wraps, computes]
  rcases callByName_cases program site.token site.target site.args with ⟨h, named, asks⟩ | ⟨unnamed, e, refused⟩
  · rw [named, asks]
    refine records_map (records_callHelper h _ _ recorded) fun more v given w member => ?_
    obtain rfl := List.mem_singleton.mp member
    exact given
  · rw [unnamed, refused]
    exact records_of_keeps (keeps_throw e)

theorem bindDelegate_eq_ok {t : Ty} {target pointer : Value} {d : Delegate}
    (made : bindDelegate t target pointer = .ok d) : ∃ call, d.entries = [.strong call] := by
  cases pointer with
  | methodPointer method =>
    cases target with
    | null =>
      obtain rfl := Except.ok.inj made
      exact ⟨⟨none, method⟩, rfl⟩
    | object r =>
      obtain rfl := Except.ok.inj made
      exact ⟨⟨some r, method⟩, rfl⟩
    | delegate d' => cases made
    | methodPointer other => cases made
  | null | object _ | delegate _ => cases target <;> cases made

theorem keeps_build (site : CallSite) :
    KeepsLedger ledger (fun v => v.RecordedIn ledger) (site.build program noCaller) m := by
  unfold CallSite.build construct
  split
  · refine keeps_lift_bind fun ⟨bound, pointer⟩ _ => keeps_lift_bind fun d made => keeps_pure ?_
    obtain ⟨call, only⟩ := bindDelegate_eq_ok made
    refine ⟨?_, ?_⟩
    · rw [only]
      exact List.cons_ne_nil _ _
    · rw [only]
      exact .strong call
  · split
    · exact keeps_bind (keeps_alloc _ m) fun r _ _ =>
        keeps_bind (keeps_pure (P := fun _ => True) trivial) fun _ _ _ => keeps_pure trivial
    · exact keeps_throw _

/-! ### Instructions -/

structure FrameRecorded (ledger : List Entry) (frame : Activation) : Prop where
  args : ValuesRecorded ledger frame.args
  locals : ValuesRecorded ledger frame.locals
  stack : ValuesRecorded ledger frame.stack

theorem FrameRecorded.grow {frame : Activation} (recorded : FrameRecorded ledger frame) (more : List Entry) :
    FrameRecorded (ledger ++ more) frame :=
  ⟨recorded.args.grow more, recorded.locals.grow more, recorded.stack.grow more⟩

theorem FrameRecorded.push {frame : Activation} (recorded : FrameRecorded ledger frame) {v : Value}
    (given : v.RecordedIn ledger) : FrameRecorded ledger (frame.push v) :=
  { recorded with stack := List.forall_mem_cons.mpr ⟨given, recorded.stack⟩ }

theorem pop_recorded {stack rest : List Value} {v : Value} (recorded : ValuesRecorded ledger stack)
    (popped : pop stack = .ok (v, rest)) : v.RecordedIn ledger ∧ ValuesRecorded ledger rest := by
  cases stack with
  | nil => cases popped
  | cons w stack =>
    obtain ⟨rfl, rfl⟩ := Prod.mk.inj (Except.ok.inj popped)
    exact List.forall_mem_cons.mp recorded

theorem popMany_recorded {n : Nat} {stack rest taken : List Value} (recorded : ValuesRecorded ledger stack)
    (popped : popMany n stack = .ok (taken, rest)) : ValuesRecorded ledger taken ∧ ValuesRecorded ledger rest := by
  unfold popMany at popped
  split at popped
  · cases popped
  · obtain ⟨rfl, rfl⟩ := Prod.mk.inj (Except.ok.inj popped)
    refine ⟨fun v member => ?_, fun v member => recorded v (List.mem_of_mem_drop member)⟩
    exact recorded v (List.mem_of_mem_take (List.mem_reverse.mp member))

/-- What a frame does for a call takes values from its stack. -/
theorem callSite_recorded {i : Instruction} {frame : Activation} {site : CallSite}
    (recorded : FrameRecorded ledger frame) (found : callSite program i frame = .ok site) :
    ValuesRecorded ledger site.this.toList ∧ ValuesRecorded ledger site.args ∧ ValuesRecorded ledger site.below := by
  obtain ⟨token, -, h₁⟩ := except_bind_eq_ok_iff.mp found
  obtain ⟨target, -, h₂⟩ := except_bind_eq_ok_iff.mp h₁
  obtain ⟨⟨args, stack⟩, popped, h₃⟩ := except_bind_eq_ok_iff.mp h₂
  obtain ⟨recordedArgs, recordedStack⟩ := popMany_recorded recorded.stack popped
  dsimp only at h₃
  split at h₃
  · obtain ⟨⟨this, below⟩, taken, h₄⟩ := except_bind_eq_ok_iff.mp h₃
    obtain ⟨⟨v, rest⟩, popped', same⟩ := except_map_eq_ok_iff.mp taken
    obtain ⟨rfl, rfl⟩ := Prod.mk.inj same
    obtain rfl := Except.ok.inj h₄
    obtain ⟨given, below⟩ := pop_recorded recordedStack popped'
    exact ⟨List.forall_mem_singleton.mpr given, recordedArgs, below⟩
  · obtain rfl := Except.ok.inj h₃
    exact ⟨nofun, recordedArgs, recordedStack⟩

theorem constructSite_recorded {i : Instruction} {frame : Activation} {site : CallSite}
    (recorded : FrameRecorded ledger frame) (found : constructSite program i frame = .ok site) :
    ValuesRecorded ledger site.args ∧ ValuesRecorded ledger site.below := by
  obtain ⟨token, -, h₁⟩ := except_bind_eq_ok_iff.mp found
  obtain ⟨target, -, h₂⟩ := except_bind_eq_ok_iff.mp h₁
  obtain ⟨⟨args, stack⟩, popped, h₃⟩ := except_bind_eq_ok_iff.mp h₂
  obtain rfl := Except.ok.inj h₃
  exact popMany_recorded recorded.stack popped

theorem argument_recorded {i : Instruction} {frame : Activation} {v : Value}
    (recorded : ValuesRecorded ledger frame.args) (read : argument i frame = .ok v) : v.RecordedIn ledger := by
  unfold argument at read
  dsimp only at read
  split at read
  · rename_i w found
    obtain rfl := Except.ok.inj read
    exact recorded w (List.mem_of_getElem? found)
  · cases read

theorem localValue_recorded {i : Instruction} {frame : Activation} {v : Value}
    (recorded : ValuesRecorded ledger frame.locals) (read : localValue i frame = .ok v) : v.RecordedIn ledger := by
  unfold localValue at read
  dsimp only at read
  split at read
  · rename_i w found
    obtain rfl := Except.ok.inj read
    exact recorded w (List.mem_of_getElem? found)
  · cases read

theorem moveToLocal_recorded {i : Instruction} {frame frame' : Activation} (recorded : FrameRecorded ledger frame)
    (moved : moveToLocal i frame = .ok frame') : FrameRecorded ledger frame' := by
  obtain ⟨⟨v, rest⟩, popped, h₁⟩ := except_bind_eq_ok_iff.mp moved
  obtain ⟨given, below⟩ := pop_recorded recorded.stack popped
  dsimp only at h₁
  split at h₁
  · obtain rfl := Except.ok.inj h₁
    refine ⟨recorded.args, fun w member => ?_, below⟩
    rcases List.mem_or_eq_of_mem_set member with old | rfl
    · exact recorded.locals w old
    · exact given
  · cases h₁

/-- A cast gives the value itself. -/
theorem cast_eq_ok {v w : Value} {t : Ty} (casted : cast m v t = .ok w) : w = v := by
  have tested : ∀ {actual : Ty}, (if actual.SameName t ∨ t.isUniversalBase = true then Except.ok v
      else .error (Error.fault (.invalidCast actual t))) = .ok w → w = v := by
    intro actual passed
    split at passed
    · exact (Except.ok.inj passed).symm
    · cases passed
  cases v with
  | null => exact (Except.ok.inj casted).symm
  | delegate d => exact tested casted
  | object r =>
    obtain ⟨actual?, read, h₁⟩ := except_bind_eq_ok_iff.mp casted
    obtain ⟨o, -, rfl⟩ := except_map_eq_ok_iff.mp read
    exact tested h₁
  | methodPointer method => cases casted

/-- An instruction that is no call makes no wrapper. -/
theorem keeps_step (other : i.opcode ≠ .call ∧ i.opcode ≠ .callvirt) (recorded : FrameRecorded ledger frame) :
    KeepsLedger ledger (FrameRecorded ledger) (step program noCaller i frame) m := by
  unfold step
  cases op : i.opcode with
  | nop | ret => exact keeps_pure recorded
  | ldnull => exact keeps_pure (recorded.push trivial)
  | ldarg0 | ldarg1 | ldarg2 | ldarg3 | ldargS =>
    exact keeps_lift_bind fun v read => keeps_pure (recorded.push (argument_recorded recorded.args read))
  | ldloc0 | ldloc1 | ldloc2 | ldloc3 | ldlocS =>
    exact keeps_lift_bind fun v read => keeps_pure (recorded.push (localValue_recorded recorded.locals read))
  | stloc0 | stloc1 | stloc2 | stloc3 | stlocS =>
    exact keeps_lift fun frame' moved => moveToLocal_recorded recorded moved
  | dup =>
    refine keeps_lift_bind fun ⟨v, rest⟩ popped => keeps_pure ?_
    obtain ⟨given, below⟩ := pop_recorded recorded.stack popped
    exact { recorded with stack := List.forall_mem_cons.mpr ⟨given, List.forall_mem_cons.mpr ⟨given, below⟩⟩ }
  | pop =>
    refine keeps_lift_bind fun ⟨v, rest⟩ popped => keeps_pure ?_
    exact { recorded with stack := (pop_recorded recorded.stack popped).2 }
  | ldftn => exact keeps_lift_bind fun _ _ => keeps_pure (recorded.push trivial)
  | ldfld =>
    refine keeps_lift_bind fun field _ => keeps_lift_bind fun ⟨target, rest⟩ popped => ?_
    refine keeps_lift_bind fun r _ => keeps_get_bind fun accounted => keeps_lift_bind fun v read => ?_
    have below := (pop_recorded recorded.stack popped).2
    exact keeps_pure { recorded with stack := List.forall_mem_cons.mpr ⟨accounted.fieldValue read, below⟩ }
  | ldsfld =>
    refine keeps_lift_bind fun field _ => keeps_get_bind fun accounted => keeps_lift_bind fun v read => ?_
    exact keeps_pure (recorded.push (accounted.fieldValue read))
  | stfld =>
    refine keeps_lift_bind fun field _ => keeps_lift_bind fun ⟨v, rest⟩ popped => ?_
    refine keeps_lift_bind fun ⟨target, rest'⟩ popped' => keeps_lift_bind fun r _ => ?_
    obtain ⟨given, under⟩ := pop_recorded recorded.stack popped
    obtain ⟨-, below⟩ := pop_recorded under popped'
    exact keeps_bind (keeps_setField _ _ _ given m) fun _ _ _ => keeps_pure { recorded with stack := below }
  | stsfld =>
    refine keeps_lift_bind fun field _ => keeps_lift_bind fun ⟨v, rest⟩ popped => ?_
    obtain ⟨given, below⟩ := pop_recorded recorded.stack popped
    exact keeps_bind (keeps_setField _ _ _ given m) fun _ _ _ => keeps_pure { recorded with stack := below }
  | castclass =>
    refine keeps_lift_bind fun token _ => keeps_lift_bind fun target _ => ?_
    refine keeps_lift_bind fun ⟨v, rest⟩ popped => keeps_get_bind fun _ => keeps_lift_bind fun w casted => ?_
    obtain ⟨given, below⟩ := pop_recorded recorded.stack popped
    obtain rfl := cast_eq_ok casted
    exact keeps_pure { recorded with stack := List.forall_mem_cons.mpr ⟨given, below⟩ }
  | newobj =>
    rw [constructRule_eq]
    refine keeps_lift_bind fun site found => keeps_bind (keeps_build site) fun v _ given => keeps_pure ?_
    have below := (constructSite_recorded recorded found).2
    exact { recorded with stack := List.forall_mem_cons.mpr ⟨given, below⟩ }
  | call => exact absurd op other.1
  | callvirt => exact absurd op other.2

/-- The wrappers that an instruction makes. -/
def wrapsAt (program : Program) (i : Instruction) (frame : Activation) : Nat :=
  match i.opcode, callSite program i frame with
  | .call, .ok site | .callvirt, .ok site => site.wraps program
  | _, _ => 0

theorem wrapsAt_of_call {site : CallSite} (op : i.opcode = .call ∨ i.opcode = .callvirt)
    (found : callSite program i frame = .ok site) : wrapsAt program i frame = site.wraps program := by
  obtain op | op := op <;> rw [wrapsAt, op, found]

theorem wrapsAt_of_other (other : i.opcode ≠ .call ∧ i.opcode ≠ .callvirt) : wrapsAt program i frame = 0 := by
  unfold wrapsAt
  split
  · exact absurd ‹i.opcode = .call› other.1
  · exact absurd ‹i.opcode = .callvirt› other.2
  · rfl

/-- An instruction that stays in its frame records the wrappers that it makes. -/
theorem records_step (stays : departure program m i frame = none) (recorded : FrameRecorded ledger frame) :
    Records (wrapsAt program i frame) (fun later frame' => FrameRecorded later frame')
      (step program noCaller i frame) ledger m := by
  by_cases op : i.opcode = .call ∨ i.opcode = .callvirt
  · rw [step_eq_callRule op, callRule_eq]
    cases found : callSite program i frame with
    | error e =>
      have none_made : wrapsAt program i frame = 0 := by
        obtain op | op := op <;> rw [wrapsAt, op, found]
      rw [none_made]
      exact records_of_keeps (keeps_throw e)
    | ok site =>
      have computes : callTask site = none := by
        obtain op | op := op <;> simpa only [departure, op, found, Option.map_eq_none_iff] using stays
      obtain ⟨-, args, below⟩ := callSite_recorded recorded found
      rw [wrapsAt_of_call op found, lift_ok_bind, bind_pure_comp]
      refine records_map (records_perform computes args) fun more result given => ?_
      refine { recorded.grow more with stack := fun v member => ?_ }
      exact (List.mem_append.mp member).elim (given v) (below.grow more v)
  · have other := not_or.mp op
    rw [wrapsAt_of_other other]
    exact records_of_keeps (keeps_step other recorded)

theorem returned_recorded {t : Ty} {result : Option Value} (recorded : FrameRecorded ledger frame)
    (last : returned t frame = .ok result) : ValuesRecorded ledger result.toList := by
  unfold returned at last
  split at last
  · obtain rfl := Except.ok.inj last
    exact List.forall_mem_nil _
  · obtain ⟨⟨v, below⟩, popped, rfl⟩ := except_map_eq_ok_iff.mp last
    exact List.forall_mem_singleton.mpr (pop_recorded recorded.stack popped).1

end Execution

end WeakSubscription
