import WeakSubscription.Proofs.Execution.Answers
import WeakSubscription.Proofs.Verification.Shape

/-!
# What opcodes do to the stack

The table of opcodes gives most of them a fixed effect: so many slots are popped and so many pushed. The verifier and
the machine have rules of their own for the same opcodes, over slots and over values, and both rules do what the table
says, or fail. So the table alone tells what a run of such opcodes does to the height of either stack.
-/

namespace WeakSubscription

open Verification (Frame Stack)

/-! ### Effects -/

/-- So many items are gone from the top of the first stack, and so many others are in their place on the second. -/
structure Exchanged {α : Type} (pops pushes : Nat) (stack stack' : List α) : Prop where
  enough : pops ≤ stack.length
  height : stack'.length = stack.length - pops + pushes
  /-- The items below are the same. -/
  below : stack'.drop pushes = stack.drop pops

namespace Exchanged

variable {α : Type} {p q p' q' : Nat} {stack stack' stack'' : List α}

theorem refl (stack : List α) : Exchanged 0 0 stack stack := ⟨Nat.zero_le _, rfl, rfl⟩

theorem of_append (taken given below : List α) :
    Exchanged taken.length given.length (taken ++ below) (given ++ below) := by
  refine ⟨?_, ?_, ?_⟩
  · simp
  · simp [Nat.add_comm]
  · simp

/-- What the second change takes beyond what the first one left comes from below both. -/
theorem trans (first : Exchanged p q stack stack') (second : Exchanged p' q' stack' stack'') :
    Exchanged (p + (p' - q)) (q' + (q - p')) stack stack'' := by
  obtain ⟨enough, height, below⟩ := first
  obtain ⟨enough', height', below'⟩ := second
  refine ⟨by omega, by omega, ?_⟩
  calc
    stack''.drop (q' + (q - p')) = stack'.drop (p' + (q - p')) := by rw [← List.drop_drop, below', List.drop_drop]
    _ = stack'.drop (q + (p' - q)) := by rw [show p' + (q - p') = q + (p' - q) by omega]
    _ = stack.drop (p + (p' - q)) := by rw [← List.drop_drop, below, List.drop_drop]

end Exchanged

/-- The stacks before and behind the opcode differ in as many items at the top as the table says. -/
def Opcode.Exchanges {α : Type} (o : Opcode) (stack stack' : List α) : Prop :=
  ∃ taken given below, stack = taken ++ below ∧ stack' = given ++ below ∧
    o.stackEffect? = some (taken.length, given.length)

theorem Opcode.Exchanges.exchanged {α : Type} {o : Opcode} {stack stack' : List α} {p q : Nat}
    (exchanges : o.Exchanges stack stack') (effect : o.stackEffect? = some (p, q)) : Exchanged p q stack stack' := by
  obtain ⟨taken, given, below, rfl, rfl, listed⟩ := exchanges
  obtain ⟨rfl, rfl⟩ := Prod.mk.inj (Option.some.inj (listed.symm.trans effect))
  exact .of_append taken given below

variable {i : Instruction} {code : Code} {p q : Nat}

/-! ### The verifier's rules -/

namespace Verification.Frame

variable {frame : Frame} {stack stack' : Stack}

theorem step_exchanges (fixed : i.opcode.stackEffect?.isSome = true) (h : frame.step i stack = .ok stack') :
    i.opcode.Exchanges stack stack' := by
  unfold Frame.step at h
  cases op : i.opcode with
  | call | callvirt | newobj | ret =>
    rw [op] at fixed
    cases fixed
  | nop =>
    simp only [op] at h
    obtain rfl := except_pure_eq_ok_iff.mp h
    exact ⟨[], [], stack, rfl, rfl, rfl⟩
  | ldnull =>
    simp only [op] at h
    obtain rfl := except_pure_eq_ok_iff.mp h
    exact ⟨[], [.null], stack, rfl, rfl, rfl⟩
  | ldarg0 | ldarg1 | ldarg2 | ldarg3 | ldargS | ldloc0 | ldloc1 | ldloc2 | ldloc3 | ldlocS =>
    simp only [op] at h
    obtain ⟨t, -, pushed⟩ := except_bind_eq_ok_iff.mp h
    obtain rfl := except_pure_eq_ok_iff.mp pushed
    exact ⟨[], [.value t], stack, rfl, rfl, rfl⟩
  | stloc0 | stloc1 | stloc2 | stloc3 | stlocS =>
    simp only [op] at h
    obtain ⟨t, -, stored⟩ := except_bind_eq_ok_iff.mp h
    obtain ⟨slot, rfl, -⟩ := popInto_ok stored
    exact ⟨[slot], [], stack', rfl, rfl, rfl⟩
  | dup =>
    simp only [op] at h
    obtain ⟨⟨slot, rest⟩, popped, pushed⟩ := except_bind_eq_ok_iff.mp h
    obtain rfl := pop_eq_ok_iff.mp popped
    obtain rfl := except_pure_eq_ok_iff.mp pushed
    exact ⟨[slot], [slot, slot], rest, rfl, rfl, rfl⟩
  | pop =>
    simp only [op] at h
    obtain ⟨⟨slot, rest⟩, popped, left⟩ := except_bind_eq_ok_iff.mp h
    obtain rfl := pop_eq_ok_iff.mp popped
    obtain rfl := except_pure_eq_ok_iff.mp left
    exact ⟨[slot], [], rest, rfl, rfl, rfl⟩
  | castclass =>
    simp only [op] at h
    obtain ⟨token, -, typed⟩ := except_bind_eq_ok_iff.mp h
    obtain ⟨t, -, popped⟩ := except_bind_eq_ok_iff.mp typed
    obtain ⟨rest, popped, pushed⟩ := except_bind_eq_ok_iff.mp popped
    obtain ⟨slot, rfl⟩ := popReference_ok popped
    obtain rfl := except_pure_eq_ok_iff.mp pushed
    exact ⟨[slot], [.value t], rest, rfl, rfl, rfl⟩
  | ldfld =>
    simp only [op] at h
    obtain ⟨⟨f, owner⟩, -, popped⟩ := except_bind_eq_ok_iff.mp h
    obtain ⟨rest, popped, pushed⟩ := except_bind_eq_ok_iff.mp popped
    obtain ⟨slot, rfl, -⟩ := popInto_ok popped
    obtain rfl := except_pure_eq_ok_iff.mp pushed
    exact ⟨[slot], [.value f.ty], rest, rfl, rfl, rfl⟩
  | stfld =>
    simp only [op] at h
    obtain ⟨⟨f, owner⟩, -, popped⟩ := except_bind_eq_ok_iff.mp h
    obtain ⟨middle, stored, owned⟩ := except_bind_eq_ok_iff.mp popped
    obtain ⟨slot, rfl, -⟩ := popInto_ok stored
    obtain ⟨slot', rfl, -⟩ := popInto_ok owned
    exact ⟨[slot, slot'], [], stack', rfl, rfl, rfl⟩
  | ldsfld =>
    simp only [op] at h
    obtain ⟨⟨f, owner⟩, -, pushed⟩ := except_bind_eq_ok_iff.mp h
    obtain rfl := except_pure_eq_ok_iff.mp pushed
    exact ⟨[], [.value f.ty], stack, rfl, rfl, rfl⟩
  | stsfld =>
    simp only [op] at h
    obtain ⟨⟨f, owner⟩, -, stored⟩ := except_bind_eq_ok_iff.mp h
    obtain ⟨slot, rfl, -⟩ := popInto_ok stored
    exact ⟨[slot], [], stack', rfl, rfl, rfl⟩
  | ldftn =>
    simp only [op] at h
    obtain ⟨token, -, found⟩ := except_bind_eq_ok_iff.mp h
    obtain ⟨target, -, pushed⟩ := except_bind_eq_ok_iff.mp found
    obtain rfl := except_pure_eq_ok_iff.mp pushed
    exact ⟨[], [.value .intPtr], stack, rfl, rfl, rfl⟩

theorem step_exchanged (effect : i.opcode.stackEffect? = some (p, q)) (h : frame.step i stack = .ok stack') :
    Exchanged p q stack stack' :=
  (step_exchanges (by rw [effect]; rfl) h).exchanged effect

end Verification.Frame

/-! ### The machine's rules -/

namespace Execution

variable {program : Program} {caller : Caller} {frame frame' : Activation} {s s' : Machine}

theorem lift_bind_ok {α β : Type} {x : Except Error α} {f : α → Run β} {b : β}
    (ran : ((liftM x : Run α) >>= f) s = .ok b s') : ∃ a, x = .ok a ∧ f a s = .ok b s' := by
  obtain ⟨a, s₁, lifted, later⟩ := Tracked.bind_eq_ok_iff.mp ran
  obtain ⟨given, rfl⟩ := Tracked.lift_eq_ok_iff.mp lifted
  exact ⟨a, given, later⟩

theorem pop_bind_ok {β : Type} {stack : List Value} {f : Value × List Value → Run β} {b : β}
    (ran : ((liftM (pop stack) : Run (Value × List Value)) >>= f) s = .ok b s') :
    ∃ v below, stack = v :: below ∧ f (v, below) s = .ok b s' := by
  obtain ⟨⟨v, below⟩, popped, later⟩ := lift_bind_ok ran
  exact ⟨v, below, pop_ok popped, later⟩

theorem step_exchanges (fixed : i.opcode.stackEffect?.isSome = true)
    (stepped : step program caller i frame s = .ok frame' s') : i.opcode.Exchanges frame.stack frame'.stack := by
  unfold step at stepped
  cases op : i.opcode with
  | call | callvirt | newobj | ret =>
    rw [op] at fixed
    cases fixed
  | nop =>
    simp only [op] at stepped
    obtain ⟨rfl, rfl⟩ := EStateM.Result.ok.inj stepped
    exact ⟨[], [], frame.stack, rfl, rfl, rfl⟩
  | ldnull =>
    simp only [op] at stepped
    obtain ⟨rfl, rfl⟩ := EStateM.Result.ok.inj stepped
    exact ⟨[], [.null], frame.stack, rfl, rfl, rfl⟩
  | ldarg0 | ldarg1 | ldarg2 | ldarg3 | ldargS | ldloc0 | ldloc1 | ldloc2 | ldloc3 | ldlocS =>
    simp only [op] at stepped
    obtain ⟨v, -, last⟩ := lift_bind_ok stepped
    obtain ⟨rfl, rfl⟩ := EStateM.Result.ok.inj last
    exact ⟨[], [v], frame.stack, rfl, rfl, rfl⟩
  | stloc0 | stloc1 | stloc2 | stloc3 | stlocS =>
    simp only [op] at stepped
    obtain ⟨moved, rfl⟩ := Tracked.lift_eq_ok_iff.mp stepped
    obtain ⟨⟨v, below⟩, popped, stored⟩ := except_bind_eq_ok_iff.mp moved
    dsimp only at stored
    split at stored
    · obtain rfl := except_pure_eq_ok_iff.mp stored
      exact ⟨[v], [], below, pop_ok popped, rfl, rfl⟩
    · cases stored
  | dup =>
    simp only [op] at stepped
    obtain ⟨v, below, top, last⟩ := pop_bind_ok stepped
    obtain ⟨rfl, rfl⟩ := EStateM.Result.ok.inj last
    exact ⟨[v], [v, v], below, top, rfl, rfl⟩
  | pop =>
    simp only [op] at stepped
    obtain ⟨v, below, top, last⟩ := pop_bind_ok stepped
    obtain ⟨rfl, rfl⟩ := EStateM.Result.ok.inj last
    exact ⟨[v], [], below, top, rfl, rfl⟩
  | castclass =>
    simp only [op] at stepped
    obtain ⟨token, -, typed⟩ := lift_bind_ok stepped
    obtain ⟨target, -, popped⟩ := lift_bind_ok typed
    obtain ⟨v, below, top, casts⟩ := pop_bind_ok popped
    rw [Tracked.get_bind] at casts
    obtain ⟨w, -, last⟩ := lift_bind_ok casts
    obtain ⟨rfl, rfl⟩ := EStateM.Result.ok.inj last
    exact ⟨[v], [w], below, top, rfl, rfl⟩
  | ldfld =>
    simp only [op] at stepped
    obtain ⟨token, -, popped⟩ := lift_bind_ok stepped
    obtain ⟨v, below, top, received⟩ := pop_bind_ok popped
    obtain ⟨r, -, read⟩ := lift_bind_ok received
    rw [Tracked.get_bind] at read
    obtain ⟨w, -, last⟩ := lift_bind_ok read
    obtain ⟨rfl, rfl⟩ := EStateM.Result.ok.inj last
    exact ⟨[v], [w], below, top, rfl, rfl⟩
  | stfld =>
    simp only [op] at stepped
    obtain ⟨token, -, popped⟩ := lift_bind_ok stepped
    obtain ⟨v, middle, top, owned⟩ := pop_bind_ok popped
    obtain ⟨target, below, rfl, received⟩ := pop_bind_ok owned
    obtain ⟨r, -, written⟩ := lift_bind_ok received
    obtain ⟨-, s₁, -, last⟩ := Tracked.bind_eq_ok_iff.mp written
    obtain ⟨rfl, rfl⟩ := EStateM.Result.ok.inj last
    exact ⟨[v, target], [], below, top, rfl, rfl⟩
  | ldsfld =>
    simp only [op] at stepped
    obtain ⟨token, -, read⟩ := lift_bind_ok stepped
    rw [Tracked.get_bind] at read
    obtain ⟨v, -, last⟩ := lift_bind_ok read
    obtain ⟨rfl, rfl⟩ := EStateM.Result.ok.inj last
    exact ⟨[], [v], frame.stack, rfl, rfl, rfl⟩
  | stsfld =>
    simp only [op] at stepped
    obtain ⟨token, -, popped⟩ := lift_bind_ok stepped
    obtain ⟨v, below, top, written⟩ := pop_bind_ok popped
    obtain ⟨-, s₁, -, last⟩ := Tracked.bind_eq_ok_iff.mp written
    obtain ⟨rfl, rfl⟩ := EStateM.Result.ok.inj last
    exact ⟨[v], [], below, top, rfl, rfl⟩
  | ldftn =>
    simp only [op] at stepped
    obtain ⟨token, -, last⟩ := lift_bind_ok stepped
    obtain ⟨rfl, rfl⟩ := EStateM.Result.ok.inj last
    exact ⟨[], [.methodPointer token], frame.stack, rfl, rfl, rfl⟩

theorem step_exchanged (effect : i.opcode.stackEffect? = some (p, q))
    (stepped : step program caller i frame s = .ok frame' s') : Exchanged p q frame.stack frame'.stack :=
  (step_exchanges (by rw [effect]; rfl) stepped).exchanged effect

end Execution

/-! ### Table, verifier and machine -/

section

variable {static : Frame} {stack stack' : Stack} {program : Program} {caller : Caller} {frame frame' : Activation}
  {s s' : Machine}

/-- An opcode with a fixed effect has it in the verifier's rule and in the machine's, on stacks of any height and in
any frame, as far as the rule succeeds. On a stack with fewer items than it pops both rules fail. -/
theorem stack_effects_agree (effect : i.opcode.stackEffect? = some (p, q)) :
    (∀ (static : Frame) (stack : Stack),
      (∀ stack', static.step i stack = .ok stack' → Exchanged p q stack stack') ∧
      (stack.length < p → ∃ e, static.step i stack = .error e)) ∧
    ∀ (program : Program) (caller : Caller) (frame : Activation) (s : Machine),
      (∀ frame' s', Execution.step program caller i frame s = .ok frame' s' →
        Exchanged p q frame.stack frame'.stack) ∧
      (frame.stack.length < p → ∃ e s', Execution.step program caller i frame s = .error e s') := by
  refine ⟨fun static stack => ⟨fun _ => Frame.step_exchanged effect, fun low => ?_⟩,
    fun program caller frame s => ⟨fun _ _ => Execution.step_exchanged effect, fun low => ?_⟩⟩
  · cases checked : static.step i stack with
    | error e => exact ⟨e, rfl⟩
    | ok stack' =>
      have enough := (Frame.step_exchanged effect checked).enough
      omega
  · cases stepped : Execution.step program caller i frame s with
    | error e s' => exact ⟨e, s', rfl⟩
    | ok frame' s' =>
      have enough := (Execution.step_exchanged effect stepped).enough
      omega

open Relay Execution in
/-- A store into a field takes the value and the object and leaves what is below. The value alone is not enough. -/
theorem stack_effects_agree_relay :
    let store : Instruction := .onToken .stfld slot
    let static : Frame := ⟨relay.module, [], [], .void⟩
    let stored : Machine :=
      { start with objects := [⟨.named ⟨"App", "Relay"⟩, true, [(slot, .delegate (.bound handler none subscribe))]⟩] }
    store.opcode.stackEffect? = some (2, 0) ∧
      static.step store [.value handler, .value (.named ⟨"App", "Relay"⟩), .null] = .ok [.null] ∧
      Exchanged 2 0 [.value handler, .value (.named ⟨"App", "Relay"⟩), .null] [Slot.null] ∧
      step relay (callWithin relay 63) store ⟨[], [], args.reverse ++ [.null]⟩ start = .ok ⟨[], [], [.null]⟩ stored ∧
      Exchanged 2 0 (args.reverse ++ [.null]) [Value.null] ∧
      (∃ e, static.step store [.value handler] = .error e) ∧
      ∃ e s', step relay (callWithin relay 63) store ⟨[], [], [.null]⟩ start = .error e s' := by
  intro store static stored
  have effect : store.opcode.stackEffect? = some (2, 0) := rfl
  have checked : static.step store [.value handler, .value (.named ⟨"App", "Relay"⟩), .null] = .ok [.null] := by decide
  have stepped : step relay (callWithin relay 63) store ⟨[], [], args.reverse ++ [.null]⟩ start =
      .ok ⟨[], [], [.null]⟩ stored := rfl
  obtain ⟨verifier, machine⟩ := stack_effects_agree effect
  exact ⟨effect, checked, (verifier static _).1 _ checked, stepped, (machine relay _ _ start).1 _ _ stepped,
    (verifier static [.value handler]).2 (by decide), (machine relay _ ⟨[], [], [.null]⟩ start).2 (by decide)⟩

/-! ### Runs -/

/-- The effect of code in which every opcode has a fixed one. -/
def Code.stackEffect? : Code → Option (Nat × Nat)
  | [] => some (0, 0)
  | i :: rest => do
    let (p, q) ← i.opcode.stackEffect?
    let (p', q') ← stackEffect? rest
    return (p + (p' - q), q' + (q - p'))

example : Code.stackEffect? [.plain .dup, .onToken .ldfld (.ofRow .field 1), .plain .pop] = some (1, 1) := by decide

theorem Code.stackEffect?_cons (effect : Code.stackEffect? (i :: code) = some (p, q)) :
    ∃ p₁ q₁ p₂ q₂, i.opcode.stackEffect? = some (p₁, q₁) ∧ Code.stackEffect? code = some (p₂, q₂) ∧
      p = p₁ + (p₂ - q₁) ∧ q = q₂ + (q₁ - p₂) := by
  obtain ⟨⟨p₁, q₁⟩, first, effect⟩ := Option.bind_eq_some_iff.mp effect
  obtain ⟨⟨p₂, q₂⟩, later, total⟩ := Option.bind_eq_some_iff.mp effect
  obtain ⟨rfl, rfl⟩ := Prod.mk.inj (Option.some.inj total)
  exact ⟨p₁, q₁, p₂, q₂, first, later, rfl, rfl⟩

theorem steps_exchanged (effect : Code.stackEffect? code = some (p, q))
    (checked : static.steps code stack = .ok stack') :
    Exchanged p q stack stack' := by
  induction code generalizing stack p q with
  | nil =>
    obtain ⟨rfl, rfl⟩ := Prod.mk.inj (Option.some.inj effect)
    obtain rfl := except_pure_eq_ok_iff.mp checked
    exact .refl stack
  | cons i rest ih =>
    obtain ⟨p₁, q₁, p₂, q₂, first, later, rfl, rfl⟩ := Code.stackEffect?_cons effect
    obtain ⟨middle, here, onward⟩ := except_bind_eq_ok_iff.mp checked
    exact (Frame.step_exchanged first here).trans (ih later onward)

theorem runSteps_exchanged (effect : Code.stackEffect? code = some (p, q))
    (ran : Execution.runSteps program caller code frame s = .ok frame' s') :
    Exchanged p q frame.stack frame'.stack := by
  induction code generalizing frame s p q with
  | nil =>
    obtain ⟨rfl, rfl⟩ := Prod.mk.inj (Option.some.inj effect)
    obtain ⟨rfl, rfl⟩ := EStateM.Result.ok.inj ran
    exact .refl frame.stack
  | cons i rest ih =>
    obtain ⟨p₁, q₁, p₂, q₂, first, later, rfl, rfl⟩ := Code.stackEffect?_cons effect
    obtain ⟨frame₁, s₁, stepped, onward⟩ := Tracked.bind_eq_ok_iff.mp ran
    exact (Execution.step_exchanged first stepped).trans (ih later onward)

/-- Code of fixed effect that both get through leaves verifier and machine at the same height, whatever the module, the
arguments and the values are. -/
theorem heights_agree (effect : Code.stackEffect? code = some (p, q)) (checked : static.steps code stack = .ok stack')
    (ran : Execution.runSteps program caller code frame s = .ok frame' s')
    (same : frame.stack.length = stack.length) : frame'.stack.length = stack'.length := by
  rw [(runSteps_exchanged effect ran).height, (steps_exchanged effect checked).height, same]

end

end WeakSubscription
