import WeakSubscription.Proofs.Execution.Calls
import WeakSubscription.Proofs.Execution.Steps
import WeakSubscription.Proofs.Module.Placement
import WeakSubscription.Proofs.Verification.Steps

/-!
# What a call takes off the stack and what it leaves there

A completed call has taken exactly the declared parameters, and the instance if there is one. A method
leaves a value exactly if it has a result, with code or without. A call out of the module does not ask the
signature: a delegate's entries run for their effect and leave nothing, and a helper leaves the value that
it computes. So machine and verifier part ways in two cases, a delegate with a result and a helper without.
-/

namespace WeakSubscription

open Verification (Frame)

variable {program : Program} {caller : Caller} {i : Instruction} {code : Code}
  {frame frame' : Activation} {s s' : Machine} {result : Option Value}

/-- How many values the signature promises: one, or none for a target without a result. -/
def CallTarget.results (target : CallTarget) : Nat := if target.signature.result = .void then 0 else 1

namespace Execution

/-! ### What is taken -/

theorem operand_eq_ok_iff {t : Token} : operand i = .ok t ↔ i.token? = some t := by
  unfold operand
  cases i.token? <;> simp

theorem pop_ok {stack below : List Value} {v : Value} (h : pop stack = .ok (v, below)) :
    stack = v :: below := by
  cases stack with
  | nil => cases h
  | cons w rest =>
    obtain ⟨rfl, rfl⟩ := Prod.mk.inj (Except.ok.inj h)
    rfl

theorem popMany_ok {n : Nat} {stack args below : List Value} (h : popMany n stack = .ok (args, below)) :
    stack = args.reverse ++ below ∧ args.length = n := by
  unfold popMany at h
  split at h
  · cases h
  · obtain ⟨rfl, rfl⟩ := Prod.mk.inj (Except.ok.inj h)
    refine ⟨by rw [List.reverse_reverse, List.take_append_drop], ?_⟩
    rw [List.length_reverse, List.length_take]
    omega

/-- A call takes the arguments off the stack, the last on top, and the instance from below them. -/
theorem callSite_ok {site : CallSite} (h : callSite program i frame = .ok site) :
    i.token? = some site.token ∧ program.module.callTarget site.token = .ok site.target ∧
      frame.stack = site.args.reverse ++ (site.this.toList ++ site.below) ∧
      site.args.length = site.target.signature.params.length ∧
      site.this.isSome = site.target.signature.hasThis := by
  obtain ⟨token, named, h⟩ := except_bind_eq_ok_iff.mp h
  obtain ⟨target, found, h⟩ := except_bind_eq_ok_iff.mp h
  obtain ⟨⟨args, rest⟩, popped, h⟩ := except_bind_eq_ok_iff.mp h
  obtain ⟨split, count⟩ := popMany_ok popped
  dsimp only at h
  cases inst : target.signature.hasThis with
  | false =>
    rw [inst, if_neg (by decide)] at h
    obtain ⟨⟨this, below⟩, same, last⟩ := except_bind_eq_ok_iff.mp h
    obtain ⟨rfl, rfl⟩ := Prod.mk.inj (except_pure_eq_ok_iff.mp same)
    obtain rfl := except_pure_eq_ok_iff.mp last
    exact ⟨operand_eq_ok_iff.mp named, found, split, count, inst.symm⟩
  | true =>
    rw [inst, if_pos rfl] at h
    obtain ⟨⟨this, below⟩, taken, last⟩ := except_bind_eq_ok_iff.mp h
    obtain ⟨⟨v, below'⟩, top, same⟩ := except_map_eq_ok_iff.mp taken
    obtain ⟨rfl, rfl⟩ := Prod.mk.inj same
    obtain rfl := except_pure_eq_ok_iff.mp last
    refine ⟨operand_eq_ok_iff.mp named, found, ?_, count, inst.symm⟩
    rw [split, pop_ok top]
    rfl

/-! ### What is left -/

/-- `returned` gives a value exactly if there is a result to return. -/
theorem isSome_of_returned {t : Ty} (h : returned t frame = .ok result) :
    result.isSome = true ↔ t ≠ .void := by
  unfold returned at h
  split at h
  · obtain rfl := Except.ok.inj h
    simp [*]
  · obtain ⟨_, -, rfl⟩ := except_map_eq_ok_iff.mp h
    simp [*]

theorem isSome_of_runCode {t : Ty} (ran : runCode program caller t code frame s = .ok (.left result) s') :
    result.isSome = true ↔ t ≠ .void := by
  induction code generalizing frame s with
  | nil => cases ran
  | cons i rest ih =>
    rw [runCode] at ran
    split at ran
    · obtain ⟨r, given, same⟩ := Tracked.map_eq_ok_iff.mp ran
      obtain rfl := Outcome.left.inj same
      exact isSome_of_returned (Tracked.lift_eq_ok_iff.mp given).1
    · obtain ⟨frame₁, s₁, -, later⟩ := Tracked.bind_eq_ok_iff.mp ran
      exact ih later

/-- A body gives back a value exactly if the method has a result, whether there is code or not. -/
theorem isSome_of_runBody {method : Token} {row : Method} {args : List Value}
    (ran : runBody program caller method row args s = .ok result s') :
    result.isSome = true ↔ row.result ≠ .void := by
  unfold runBody at ran
  split at ran
  · obtain ⟨rfl, -⟩ := EStateM.Result.ok.inj ran
    split <;> simp [*]
  · obtain ⟨outcome, s₁, executed, last⟩ := Tracked.bind_eq_ok_iff.mp ran
    cases outcome with
    | next frame => cases last
    | left r =>
      obtain ⟨rfl, -⟩ := EStateM.Result.ok.inj last
      exact isSome_of_runCode executed

theorem isSome_of_callWithin {levels : Nat} {method : Token} {args : List Value}
    (called : callWithin program levels method args s = .ok result s') :
    ∃ row, program.module.method method = .ok row ∧ (result.isSome = true ↔ row.result ≠ .void) := by
  cases levels with
  | zero => cases called
  | succ levels =>
    obtain ⟨row, s₁, looked, -⟩ := Tracked.bind_eq_ok_iff.mp called
    have found := (Tracked.lift_eq_ok_iff.mp looked).1
    rw [callWithin_eq found, framed] at called
    split at called
    · rename_i ran
      obtain ⟨rfl, -⟩ := EStateM.Result.ok.inj called
      exact ⟨row, found, isSome_of_runBody ran⟩
    · cases called

/-! ### What a whole call does to a stack -/

/-- How a completed call was answered: with which values, and in which machine it ended. A method gives what the
signature promises. The entries of a delegate are run and give nothing, and a helper gives the one value that it
computes; neither asks the signature. -/
inductive Answered (program : Program) (caller : Caller) (site : CallSite) (s : Machine) :
    List Value → Machine → Prop where
  | byMethod {result : Option Value} {s' : Machine} (ofMethod : site.token.inTable .method = true)
      (called : caller site.token (site.this.toList ++ site.args) s = .ok result s')
      (count : result.toList.length = site.target.results) : Answered program caller site s result.toList s'
  | byDelegate {d : Delegate} {s' : Machine} (outside : site.token.inTable .method = false)
      (invoke : site.target.name = "Invoke") (held : site.this = some (.delegate d))
      (ran : runEntries caller d.entries site.args s = .ok () s') : Answered program caller site s [] s'
  | byHelper {h : Helper} {v : Value} {s' : Machine} (outside : site.token.inTable .method = false)
      (other : entersDelegate site.target site.this = false) (named : helperOf? program site.token = some h)
      (computed : callHelper h (program.module.displayName site.token) site.target.signature.result site.args s =
        .ok v s') : Answered program caller site s [v] s'

theorem result_of_callTarget {m : Module} {t : Token} {row : Method} {target : CallTarget}
    (row_ : m.method t = .ok row) (found : m.callTarget t = .ok target) :
    target.signature.result = row.result := by
  unfold Module.callTarget at found
  rw [Module.table?_of_lookup (Module.method_eq_ok_iff.mp row_)] at found
  obtain ⟨row', known, found⟩ := except_bind_eq_ok_iff.mp found
  obtain rfl := Except.ok.inj (known.symm.trans row_)
  obtain ⟨owner, -, last⟩ := except_bind_eq_ok_iff.mp found
  obtain rfl := except_pure_eq_ok_iff.mp last
  rfl

theorem answered_of_perform {levels : Nat} {site : CallSite}
    (found : program.module.callTarget site.token = .ok site.target)
    (performed : site.perform program (callWithin program levels) s = .ok result s') :
    Answered program (callWithin program levels) site s result.toList s' := by
  unfold CallSite.perform at performed
  split at performed
  case isTrue ofMethod =>
    obtain ⟨row, known, given⟩ := isSome_of_callWithin performed
    refine .byMethod ofMethod performed ?_
    rw [CallTarget.results, result_of_callTarget known found]
    cases result <;> simp_all
  case isFalse outside =>
    have outside : site.token.inTable .method = false := Bool.eq_false_iff.mpr outside
    cases enters : entersDelegate site.target site.this with
    | true =>
      obtain ⟨d, invoke, held, entered⟩ := callOutside_of_entersDelegate enters
      rw [entered] at performed
      obtain ⟨_, s₁, ran, last⟩ := Tracked.bind_eq_ok_iff.mp performed
      obtain ⟨rfl, rfl⟩ := EStateM.Result.ok.inj last
      exact .byDelegate outside invoke held ran
    | false =>
      rw [callOutside_of_not_entersDelegate enters] at performed
      rcases callByName_cases program site.token site.target site.args with ⟨h, named, asks⟩ | ⟨-, e, refused⟩
      · rw [asks] at performed
        obtain ⟨v, computed, rfl⟩ := Tracked.map_eq_ok_iff.mp performed
        exact .byHelper outside enters named computed
      · rw [refused] at performed
        cases performed

end Execution

open Execution

/-- What a completed call does to the stack: exactly the declared parameters are gone, and the instance if
the target has one, and what the method gave or the helper computed lies on what was below; the entries of a
delegate leave nothing. The verifier leaves a stack of the same height as the machine exactly if the answer has
as many values as the signature promises. -/
theorem call_stack_effect {levels : Nat} (op : i.opcode = .call ∨ i.opcode = .callvirt)
    (stepped : step program (callWithin program levels) i frame s = .ok frame' s') :
    ∃ site values, i.token? = some site.token ∧
      program.module.callTarget site.token = .ok site.target ∧
      frame.stack = site.args.reverse ++ site.this.toList ++ site.below ∧
      site.args.length = site.target.signature.params.length ∧
      site.this.toList.length = (if site.target.signature.hasThis then 1 else 0) ∧
      frame' = { frame with stack := values ++ site.below } ∧
      Answered program (callWithin program levels) site s values s' ∧
      ∀ (static : Frame) (stack stack' : Verification.Stack), static.module = program.module →
        stack.length = frame.stack.length → static.call i stack = .ok stack' →
        (stack'.length = frame'.stack.length ↔ values.length = site.target.results) := by
  have unfolded := stepped
  rw [step_eq_callRule op, callRule_eq] at unfolded
  obtain ⟨site, s₁, looked, -⟩ := Tracked.bind_eq_ok_iff.mp unfolded
  have here := (Tracked.lift_eq_ok_iff.mp looked).1
  obtain ⟨named, found, split, count, inst⟩ := callSite_ok here
  obtain ⟨result, performed, rfl⟩ := step_call_ok op here stepped
  have this : site.this.toList.length = if site.target.signature.hasThis then 1 else 0 := by
    rw [← inst]
    cases site.this <;> rfl
  refine ⟨site, result.toList, named, found, by rw [split, List.append_assoc], count, this, rfl,
    answered_of_perform found performed, ?_⟩
  intro static stack stack' same height checked
  obtain ⟨token, target, slots, below, named', found', rfl, taken, rfl⟩ := Frame.call_ok checked
  obtain rfl := Option.some.inj (named'.symm.trans named)
  obtain rfl := Except.ok.inj ((same ▸ found').symm.trans found)
  have lower : below.length = site.below.length := by
    rw [split] at height
    simp only [List.length_append, List.length_reverse, count, this, taken, Frame.popped] at height
    omega
  have left : (Frame.pushResult site.target below).length = site.target.results + below.length := by
    unfold Frame.pushResult CallTarget.results
    split <;> simp [Nat.add_comm]
  rw [left, List.length_append, lower]
  omega

/-! ### A delegate with a result and a helper without -/

/-- Every completed call of the instruction leaves as many values as the signature promises. -/
def FollowsSignature (program : Program) (i : Instruction) : Prop :=
  ∀ levels frame s frame' s' token target, i.token? = some token →
    program.module.callTarget token = .ok target →
    step program (callWithin program levels) i frame s = .ok frame' s' →
    frame'.stack.length + target.signature.params.length + (if target.signature.hasThis then 1 else 0) =
      frame.stack.length + target.results

namespace Poller

def owner : Token := .ofRow .typeDef 1

def sample : Token := .ofRow .method 1

def source : Ty := .named ⟨"System", "Func"⟩

/-- `Invoke` of a delegate type whose calls give an object. -/
def invoke : Token := .ofRow .memberRef 1

def changeType : Token := .ofRow .memberRef 2

/-- The conversion to the type that no value has. -/
def toVoid : Token := .ofRow .methodSpec 1

def sampleRow : Method :=
  { token := sample, name := "Sample", owner, access := .publicAccess, modifiers := .static
    result := .object, params := [], attributes := [], body := .ofCode [] }

def poller : Program :=
  { module :=
      { name := "Poller"
        types := [⟨owner, ⟨"App", "Poller"⟩, .publicFlag, some .object, [], [sample]⟩]
        typeRefs := [], fields := [], methods := [sampleRow]
        memberRefs := [⟨invoke, source, "Invoke", .ofInstance [] .object⟩,
          ⟨changeType, .named (.delegateConvert "Lib"), "ChangeType", Helper.signature .changeType⟩]
        methodSpecs := [⟨toVoid, changeType, [.void]⟩], typeSpecs := [] }
    helperNamespace := "Lib" }

/-- A delegate on the method, which has a result. -/
def sampling : Value := .delegate (.bound source none sample)

end Poller

open Poller in
/-- The object that the delegate's method gives is dropped, and the conversion to void leaves a value. -/
theorem delegate_and_helper_ignore_signature :
    ¬ FollowsSignature poller (.onToken .callvirt invoke) ∧
      ¬ FollowsSignature poller (.onToken .call toVoid) := by
  constructor
  · intro follows
    have height := follows 64 ⟨[], [], [sampling]⟩ .initial _ _ invoke _ rfl rfl rfl
    revert height
    decide
  · intro follows
    have height := follows 64 ⟨[], [], [sampling]⟩ .initial _ _ toVoid _ rfl rfl rfl
    revert height
    decide

open Poller in
/-- The verifier goes on with an object on the stack, and the machine without. -/
theorem call_stack_effect_of_delegate :
    let static : Frame := ⟨poller.module, [], [], .void⟩
    let after : Activation := ⟨[], [], [.null]⟩
    static.call (.onToken .callvirt invoke) [.value source, .null] = .ok [.value .object, .null] ∧
      ∃ s', step poller (callWithin poller 64) (.onToken .callvirt invoke)
          ⟨[], [], [sampling, .null]⟩ .initial = .ok after s' ∧
        ∃ site values, (Instruction.onToken .callvirt invoke).token? = some site.token ∧
          poller.module.callTarget site.token = .ok site.target ∧
          [sampling, .null] = site.args.reverse ++ site.this.toList ++ site.below ∧
          site.args.length = site.target.signature.params.length ∧
          site.this.toList.length = (if site.target.signature.hasThis then 1 else 0) ∧
          after = { after with stack := values ++ site.below } ∧
          Answered poller (callWithin poller 64) site .initial values s' ∧
          values.length ≠ site.target.results := by
  intro static after
  have checked : static.call (.onToken .callvirt invoke) [.value source, .null] =
      .ok [.value .object, .null] := by decide
  have stepped : step poller (callWithin poller 64) (.onToken .callvirt invoke)
      ⟨[], [], [sampling, .null]⟩ .initial =
      .ok after { Machine.initial with trace := [⟨sample, none⟩] } := rfl
  obtain ⟨site, values, named, found, split, args, this, pushed, answered, agree⟩ :=
    call_stack_effect (.inr rfl) stepped
  have apart : values.length ≠ site.target.results := fun same =>
    absurd ((agree static _ _ rfl rfl checked).mpr same) (by decide)
  exact ⟨checked, _, stepped, site, values, named, found, split, args, this, pushed, answered, apart⟩

end WeakSubscription
