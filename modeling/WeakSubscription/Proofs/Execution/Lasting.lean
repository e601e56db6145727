import WeakSubscription.Proofs.Execution.Steps
import WeakSubscription.Proofs.Moves

/-!
# What programs do to their machine

A program makes objects, sets fields, numbers wrappers and enters methods, and it opens and closes frames. A
relation of machines along which all of this goes lasts through every step, also through one that fails, and so
through every call.
-/

namespace WeakSubscription

open Tracked

/-- A relation along which a program sets fields, numbers wrappers and enters methods. -/
structure Machine.Steady (rel : Machine → Machine → Prop) : Prop where
  setField : ∀ module field target? v m, Moves rel (Machine.setField module field target? v) m
  numbers : ∀ m last, rel m { m with lastWeakId := last }
  enters : ∀ m trace, rel m { m with trace }

/-- A relation along which everything goes that a program does to its machine. -/
structure Machine.Lasting (rel : Machine → Machine → Prop) : Prop extends Machine.Steady rel where
  grows : ∀ m t, rel m (m.withObject t)
  framed : ∀ {m m' : Machine}, rel { m with depth := m.depth + 1 } m' → rel m { m' with depth := m'.depth - 1 }

namespace Execution

/-- Every call goes along the relation. -/
def CallsMove (rel : Machine → Machine → Prop) (caller : Caller) : Prop :=
  ∀ method args m, Moves rel (caller method args) m

namespace CallsMove

variable {rel : Machine → Machine → Prop} {caller : Caller}

/-! ### Delegates -/

theorem callBound (calls : CallsMove rel caller) (call : Invocation) (args : List Value) (m : Machine) :
    Moves rel (Execution.callBound caller call args) m :=
  moves_map (calls _ _ m)

mutual

/-- By recursion on the entry, along with `runEntries` on the callback inside it. -/
theorem runEntry [Std.Refl rel] [IsTrans Machine rel] (calls : CallsMove rel caller) :
    ∀ (e : Entry) (args : List Value) (m : Machine), Moves rel (Execution.runEntry caller e args) m
  | .strong call, args, m => callBound calls call args m
  | .weak id call callbackType callback handlerType, args, m => by
    refine moves_get_bind ?_
    split
    · exact callBound calls call args m
    · exact runEntries calls callback _ m
termination_by structural e => e

theorem runEntries [Std.Refl rel] [IsTrans Machine rel] (calls : CallsMove rel caller) :
    ∀ (entries : List Entry) (args : List Value) (m : Machine),
      Moves rel (Execution.runEntries caller entries args) m
  | [], _, _ => moves_pure ()
  | e :: entries, args, m =>
    moves_bind (runEntry calls e args m) fun _ m' _ => runEntries calls entries args m'
termination_by structural entries => entries

end

end CallsMove

end Execution

namespace Machine.Steady

open Execution

variable {rel : Machine → Machine → Prop} [Std.Refl rel] [IsTrans Machine rel] {program : Program} {caller : Caller}
  (steady : Steady rel)
include steady

/-! ### Calls out of the module -/

theorem callHelper (h : Helper) (name : String) (result : Ty) (args : List Value) (m : Machine) :
    Moves rel (Execution.callHelper h name result args) m := by
  cases h with
  | combine | remove | findWeak =>
    exact moves_lift_bind fun _ _ => moves_lift _
  | changeType =>
    cases args with
    | nil => exact moves_throw _
    | cons a rest => exact moves_lift _
  | makeWeak =>
    refine moves_lift_bind fun _ _ => moves_get_bind (moves_lift_bind fun made _ => ?_)
    exact moves_bind (moves_modify (steady.numbers m _)) fun _ _ _ => moves_pure _
  | compilerGenerated | actionConstructor => exact moves_throw _

theorem callOutside (calls : CallsMove rel caller) (token : Token) (target : CallTarget)
    (this : Option Value) (args : List Value) (m : Machine) :
    Moves rel (Execution.callOutside program caller token target this args) m := by
  unfold Execution.callOutside
  split
  · exact moves_bind (calls.runEntries _ _ m) fun _ _ _ => moves_pure _
  · refine moves_lift_bind fun ref _ => ?_
    dsimp only
    split
    · exact moves_map (steady.callHelper _ _ _ _ m)
    · exact moves_throw _

theorem perform (calls : CallsMove rel caller) (site : CallSite) (m : Machine) :
    Moves rel (site.perform program caller) m := by
  unfold CallSite.perform
  split
  · exact calls _ _ m
  · exact steady.callOutside calls _ _ _ _ m

/-- What an instruction does that makes no object. -/
theorem step (calls : CallsMove rel caller) {i : Instruction} (other : i.opcode ≠ .newobj) (frame : Activation)
    (m : Machine) : Moves rel (Execution.step program caller i frame) m := by
  unfold Execution.step
  cases op : i.opcode with
  | nop | ret | ldnull => exact moves_pure _
  | ldarg0 | ldarg1 | ldarg2 | ldarg3 | ldargS => exact moves_lift_bind fun _ _ => moves_pure _
  | ldloc0 | ldloc1 | ldloc2 | ldloc3 | ldlocS => exact moves_lift_bind fun _ _ => moves_pure _
  | stloc0 | stloc1 | stloc2 | stloc3 | stlocS => exact moves_lift _
  | dup | pop | ldftn => exact moves_lift_bind fun _ _ => moves_pure _
  | ldfld =>
    refine moves_lift_bind fun _ _ => moves_lift_bind fun _ _ => moves_lift_bind fun _ _ => ?_
    exact moves_get_bind (moves_lift_bind fun _ _ => moves_pure _)
  | ldsfld =>
    refine moves_lift_bind fun _ _ => ?_
    exact moves_get_bind (moves_lift_bind fun _ _ => moves_pure _)
  | stfld =>
    refine moves_lift_bind fun _ _ => moves_lift_bind fun _ _ => moves_lift_bind fun _ _ => ?_
    refine moves_lift_bind fun _ _ => ?_
    exact moves_bind (steady.setField _ _ _ _ m) fun _ _ _ => moves_pure _
  | stsfld =>
    refine moves_lift_bind fun _ _ => moves_lift_bind fun _ _ => ?_
    exact moves_bind (steady.setField _ _ _ _ m) fun _ _ _ => moves_pure _
  | castclass =>
    refine moves_lift_bind fun _ _ => moves_lift_bind fun _ _ => moves_lift_bind fun _ _ => ?_
    exact moves_get_bind (moves_lift_bind fun _ _ => moves_pure _)
  | call | callvirt =>
    rw [callRule_eq]
    refine moves_lift_bind fun site _ => ?_
    exact moves_bind (steady.perform calls site m) fun _ _ _ => moves_pure _
  | newobj => exact absurd op other

end Machine.Steady

namespace Machine.Lasting

open Execution

variable {rel : Machine → Machine → Prop} [Std.Refl rel] [IsTrans Machine rel] {program : Program} {caller : Caller}
  {m : Machine} (lasting : Lasting rel)
include lasting

omit [IsTrans Machine rel] in
theorem alloc (t : Ty) (m : Machine) : Moves rel (Machine.alloc t) m := by
  refine moves_get_bind ?_
  split
  · exact lasting.grows m t
  · exact moves_throw _

theorem construct (calls : CallsMove rel caller) (token : Token) (target : CallTarget)
    (args : List Value) (m : Machine) :
    Moves rel (Execution.construct program caller token target args) m := by
  unfold Execution.construct
  split
  · exact moves_lift_bind fun _ _ => moves_lift_bind fun _ _ => moves_pure _
  · split
    · refine moves_bind (lasting.alloc _ m) fun r m' _ => ?_
      exact moves_bind (calls _ _ m') fun _ _ _ => moves_pure _
    · exact moves_throw _

/-! ### Instructions and bodies -/

theorem step (calls : CallsMove rel caller) (i : Instruction) (frame : Activation) (m : Machine) :
    Moves rel (Execution.step program caller i frame) m := by
  by_cases op : i.opcode = .newobj
  · rw [step_eq_constructRule op, constructRule_eq]
    refine moves_lift_bind fun site _ => ?_
    exact moves_bind (lasting.construct calls _ _ _ m) fun _ _ _ => moves_pure _
  · exact lasting.toSteady.step calls op frame m

theorem runCode (calls : CallsMove rel caller) (result : Ty) (code : Code) (frame : Activation)
    (m : Machine) : Moves rel (Execution.runCode program caller result code frame) m := by
  induction code generalizing frame m with
  | nil => exact moves_pure _
  | cons i rest ih =>
    unfold Execution.runCode
    split
    · exact moves_map (moves_lift _)
    · exact moves_bind (lasting.step calls i frame m) fun frame' m' _ => ih frame' m'

theorem runBody (calls : CallsMove rel caller) (method : Token) (row : Method) (args : List Value)
    (m : Machine) : Moves rel (Execution.runBody program caller method row args) m := by
  unfold Execution.runBody
  split
  · exact moves_pure _
  · refine moves_bind (lasting.runCode calls _ _ _ m) fun outcome m' _ => ?_
    cases outcome with
    | left result => exact moves_pure _
    | next frame => exact moves_throw _

omit [Std.Refl rel] [IsTrans Machine rel] in
theorem inFrame {α : Type} {x : Run α} (inside : Moves rel x { m with depth := m.depth + 1 }) :
    Moves rel (Execution.framed x) m := by
  unfold Moves Execution.framed
  cases ran : x { m with depth := m.depth + 1 } with
  | ok a m' => exact lasting.framed (inside.of_ok ran)
  | error e m' => exact lasting.framed (inside.of_error ran)

/-- Calls go along the relation, however many levels are left. -/
theorem callWithin (program : Program) (levels : Nat) : CallsMove rel (Execution.callWithin program levels) := by
  induction levels with
  | zero => exact fun _ _ _ => moves_throw _
  | succ levels ih =>
    intro method args m
    refine moves_lift_bind fun row _ => ?_
    refine moves_bind (moves_modify (lasting.enters m _)) fun _ m' _ => ?_
    exact lasting.inFrame (lasting.runBody ih method row args _)

end Machine.Lasting

end WeakSubscription
