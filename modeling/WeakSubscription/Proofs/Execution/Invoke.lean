import WeakSubscription.Module.Declare
import WeakSubscription.Proofs.Execution.Answers
import WeakSubscription.Proofs.Execution.Stepwise

/-!
# Calls of `Invoke`

A call goes one of two ways: to a method of the module, or out of it. A delegate's entries are run on the way
out, as they are when the delegate is invoked from outside every frame. A delegate type that the module declares
has an `Invoke` of its own, and a call of that one goes to the method, which has no code.
-/

namespace WeakSubscription

open Execution Tracked Machine

variable {program : Program} {caller caller' : Caller} {i : Instruction} {frame : Activation} {s : Machine}
  {t : Token} {target : CallTarget} {row : Method} {d : Delegate} {args : List Value} {depth levels : Nat}

/-! ### Callers that agree at a depth -/

namespace Execution

/-- Called at this depth, the two are the same. -/
def AgreeAt (depth : Nat) (caller caller' : Caller) : Prop :=
  ∀ method args s, s.depth = depth → caller method args s = caller' method args s

theorem AgreeAt.callBound (agree : AgreeAt depth caller caller') (call : Invocation) (args : List Value)
    (here : s.depth = depth) :
    Execution.callBound caller call args s = Execution.callBound caller' call args s := by
  show EStateM.map _ _ s = EStateM.map _ _ s
  unfold EStateM.map
  rw [agree _ _ s here]

mutual

/-- By recursion on the entry, along with the callback inside it. The entries before have left the depth. -/
theorem AgreeAt.runEntry (agree : AgreeAt depth caller caller') (keeps : CallsMove SameDepth caller) :
    ∀ (e : Entry) (args : List Value) (s : Machine), s.depth = depth →
      Execution.runEntry caller e args s = Execution.runEntry caller' e args s
  | .strong call, args, s, here => agree.callBound call args here
  | .weak id call callbackType callback handlerType, args, s, here => by
    by_cases live : call.target.all s.isAlive = true
    · rw [runEntry_live live, runEntry_live live]
      exact agree.callBound call args here
    · have lost : call.target.all s.isAlive = false := Bool.eq_false_iff.mpr live
      rw [runEntry_lost lost, runEntry_lost lost]
      exact AgreeAt.runEntries agree keeps callback _ s here
termination_by structural e => e

theorem AgreeAt.runEntries (agree : AgreeAt depth caller caller') (keeps : CallsMove SameDepth caller) :
    ∀ (entries : List Entry) (args : List Value) (s : Machine), s.depth = depth →
      Execution.runEntries caller entries args s = Execution.runEntries caller' entries args s
  | [], _, _, _ => rfl
  | e :: entries, args, s, here => by
    have first := AgreeAt.runEntry agree keeps e args s here
    have stays := keeps.runEntry e args s
    unfold Execution.runEntries
    cases ran : Execution.runEntry caller e args s with
    | ok _ s' =>
      rw [bind_of_ok ran, bind_of_ok (first ▸ ran)]
      exact AgreeAt.runEntries agree keeps entries args s' ((stays.of_ok ran).trans here)
    | error error s' => rw [bind_of_error ran, bind_of_error (first ▸ ran)]
termination_by structural entries => entries

end

/-- Where the open frames leave so many levels, a delegate is run in them as it is from outside. -/
theorem runEntries_callWithin (left : maxCallDepth - s.depth = levels) (d : Delegate) (args : List Value) :
    runEntries (callWithin program levels) d.entries args s = invokeDelegate program d args s := by
  have agree : AgreeAt s.depth (callWithin program levels) (call program) := by
    intro method args s' here
    show callWithin program levels method args s' = callWithin program (maxCallDepth - s'.depth) method args s'
    rw [here, left]
  exact agree.runEntries (lasting_sameDepth.callWithin program levels) d.entries args s rfl

end Execution

/-! ### The two ways of a call -/

/-- The frame with a delegate and arguments for it on the stack. -/
def Activation.offering (frame : Activation) (d : Delegate) (args : List Value) : Activation :=
  { frame with stack := args.reverse ++ .delegate d :: frame.stack }

namespace Execution

theorem callSite_offering (named : i.token? = some t) (found : program.module.callTarget t = .ok target)
    (inst : target.signature.hasThis = true) (count : args.length = target.signature.params.length) :
    callSite program i (frame.offering d args) = .ok ⟨t, target, some (.delegate d), args, frame.stack⟩ := by
  have popped : popMany target.signature.params.length (args.reverse ++ .delegate d :: frame.stack) =
      .ok (args, .delegate d :: frame.stack) := by
    rw [← count, popMany_of_le (by simp), ← List.length_reverse, List.take_left, List.drop_left,
      List.reverse_reverse]
  simp only [callSite, operand_eq_ok_iff.mpr named, found, Activation.offering, popped, inst, bind, Except.bind,
    if_true, pop_cons, Functor.map, Except.map, pure, Except.pure]

/-- The call of a method out of the module runs the delegate's entries, if `Invoke` is its name. -/
theorem perform_reference (outside : t.inTable .method = false) (invoke : target.name = "Invoke")
    (below : List Value) :
    CallSite.perform ⟨t, target, some (.delegate d), args, below⟩ program caller = do
      runEntries caller d.entries args
      return none := by
  have enters : entersDelegate target (some (.delegate d)) = true := by
    simp [entersDelegate, invoke, Value.delegate?]
  obtain ⟨d', -, held, entered⟩ : ∃ d', target.name = "Invoke" ∧ some (Value.delegate d) = some (.delegate d') ∧
      callOutside program caller t target (some (.delegate d)) args = do
        runEntries caller d'.entries args
        return none := callOutside_of_entersDelegate enters
  obtain rfl := Value.delegate.inj (Option.some.inj held)
  simp only [CallSite.perform, outside, Bool.false_eq_true, if_false, entered]

/-- The call of a method of the module is that method's, whatever it is called on. -/
theorem perform_method (inside : t.inTable .method = true) (below : List Value) :
    CallSite.perform ⟨t, target, some (.delegate d), args, below⟩ program caller =
      caller t (.delegate d :: args) := by
  simp only [CallSite.perform, inside, if_true, Option.toList_some, List.singleton_append]

end Execution

/-- A call of `Invoke` on a delegate. By a reference to a method out of the module, the delegate's entries run as
they do from outside. By a method of the module, that method is called instead, and where it has no code, it
leaves its entry in the trace and nothing else: the delegate is not looked at. -/
theorem call_invoke (op : i.opcode = .call ∨ i.opcode = .callvirt) (named : i.token? = some t)
    (found : program.module.callTarget t = .ok target) (invoke : target.name = "Invoke")
    (inst : target.signature.hasThis = true) (left : maxCallDepth - s.depth = levels) (frame : Activation)
    (d : Delegate) (args : List Value) (count : args.length = target.signature.params.length) :
    let stepped := step program (callWithin program levels) i (frame.offering d args) s
    (t.inTable .method = false →
      stepped = (do
        invokeDelegate program d args
        return frame : Run Activation) s) ∧
    (t.inTable .method = true →
      stepped = (do
        let result ← callWithin program levels t (.delegate d :: args)
        return { frame with stack := result.toList ++ frame.stack } : Run Activation) s) ∧
    (∀ row, program.module.method t = .ok row → row.body.isEmpty = true →
      stepped = if levels = 0 then .error (.fault (.callDepthExceeded maxCallDepth)) s
        else .ok { frame with stack := (if row.result = .void then [] else [.null]) ++ frame.stack }
          (entered t none s)) := by
  intro stepped
  have site : callSite program i (frame.offering d args) = _ := callSite_offering named found inst count
  have performs : stepped = (do
      let result ← CallSite.perform ⟨t, target, some (.delegate d), args, frame.stack⟩ program
        (callWithin program levels)
      return { frame with stack := result.toList ++ frame.stack } : Run Activation) s := by
    show step program _ i (frame.offering d args) s = _
    rw [step_eq_callRule op, callRule_eq, site]
    rfl
  have byMethod : t.inTable .method = true → stepped = (do
      let result ← callWithin program levels t (.delegate d :: args)
      return { frame with stack := result.toList ++ frame.stack } : Run Activation) s := by
    intro inside
    rw [performs, perform_method inside]
  refine ⟨fun outside => ?_, byMethod, fun row known empty => ?_⟩
  · rw [performs, perform_reference outside invoke, bind_assoc]
    exact bind_congr_at (runEntries_callWithin left d args)
  · have inside : t.inTable .method = true :=
      beq_iff_eq.mpr (Module.inTable_of_lookup (Module.method_eq_ok_iff.mp known))
    -- a delegate is no object that the trace could show
    have nobody : entryInstance row.isStatic (.delegate d :: args) = none := by
      unfold entryInstance
      split <;> rfl
    rw [byMethod inside]
    cases levels with
    | zero => rfl
    | succ levels =>
      rw [bind_of_ok (callWithin_isEmpty known empty), nobody, if_neg (Nat.succ_ne_zero levels)]
      split <;> rfl

/-! ### A raised event that nobody hears -/

namespace Raiser

def tick : TypeName := ⟨"Sample", "Tick"⟩

def tickType : Token := .ofRow .typeDef 1

def owner : Token := .ofRow .typeDef 2

/-- The delegate type's own `Invoke`, which was declared with it. -/
def invoke : Token := .ofRow .method 2

/-- `Invoke` of the delegate type as one refers to it from another module. -/
def reference : Token := .ofRow .memberRef 1

def onTick : Token := .ofRow .method 3

def raise : Token := .ofRow .method 4

def relay : Token := .ofRow .method 5

def onTickDecl : MethodDecl where
  name := "OnTick"
  modifiers := .static
  params := [⟨some "sender", .object⟩, ⟨some "e", .named .eventArgs⟩]

def invokeRow : Method where
  token := invoke
  name := "Invoke"
  owner := tickType
  access := .publicAccess
  modifiers := .virtual ||| .hideBySig
  result := .void
  params := [⟨some "sender", .object⟩, ⟨some "e", .named .eventArgs⟩]
  attributes := []
  body := .ofCode []

/-- A method that calls `Invoke` on its argument. -/
def calling (name : String) (invoke : Token) : MethodDecl where
  name := name
  modifiers := .static
  params := [⟨some "handlers", .named tick⟩]
  code := [.loadArg 0, .plain .ldnull, .plain .ldnull, .onToken .callvirt invoke, .plain .ret]

def declare : Edit Unit := do
  let _ ← Module.declareDelegate tick (.named .eventArgs)
  let _ ← Module.declareClass ⟨"Sample", "Raiser"⟩ .object false
  let _ ← onTickDecl.declare owner
  let _ ← (calling "Raise" invoke).declare owner
  let _ ← Module.addMemberRef (.named tick) "Invoke" (.ofInstance [.object, .named .eventArgs] .void)
  let _ ← (calling "Relay" reference).declare owner

def raiser : Program := ⟨endState (declare (.empty "Raiser")), "Lib"⟩

def ticking : Delegate := .bound (.named tick) none onTick

/-- The machine behind calls of static methods. -/
def behind (calls : List Token) : Machine := { Machine.initial with trace := calls.map (⟨·, none⟩) }

end Raiser

open Raiser in
/-- The reference runs the handler, and the method is called in place of it. -/
theorem call_invoke_ticking :
    ∃ target, raiser.module.callTarget reference = .ok target ∧ raiser.module.callTarget invoke = .ok target ∧
      target.name = "Invoke" ∧ target.signature.hasThis = true ∧
      maxCallDepth - Machine.initial.depth = 64 ∧ [Value.null, .null].length = target.signature.params.length ∧
      step raiser (callWithin raiser 64) (.onToken .callvirt reference)
          (Activation.offering ⟨[], [], []⟩ ticking [.null, .null]) .initial = .ok ⟨[], [], []⟩ (behind [onTick]) ∧
      step raiser (callWithin raiser 64) (.onToken .callvirt invoke)
          (Activation.offering ⟨[], [], []⟩ ticking [.null, .null]) .initial = .ok ⟨[], [], []⟩ (behind [invoke]) := by
  let target : CallTarget := ⟨.named tick, "Invoke", .ofInstance [.object, .named .eventArgs] .void⟩
  have found : raiser.module.callTarget reference = .ok target := eq_ok_of_toOption (by decide +kernel)
  have found' : raiser.module.callTarget invoke = .ok target := eq_ok_of_toOption (by decide +kernel)
  have row : raiser.module.method invoke = .ok invokeRow := eq_ok_of_toOption (by decide +kernel)
  have left : maxCallDepth - Machine.initial.depth = 64 := rfl
  obtain ⟨byReference, -, -⟩ := call_invoke (i := .onToken .callvirt reference) (.inr rfl) rfl found rfl rfl left
    ⟨[], [], []⟩ ticking [.null, .null] rfl
  obtain ⟨-, -, byMethod⟩ := call_invoke (i := .onToken .callvirt invoke) (.inr rfl) rfl found' rfl rfl left
    ⟨[], [], []⟩ ticking [.null, .null] rfl
  refine ⟨target, found, found', rfl, rfl, left, rfl, ?_, byMethod invokeRow row rfl⟩
  exact (byReference rfl).trans (eq_ok_of_parts (by decide +kernel))

open Raiser in
/-- Both names of `Invoke` stand for the same target, and the verifier accepts a method that calls the delegate
type's own. Its call does not come to the handler. -/
theorem own_invoke_calls_no_handler :
    raiser.module.callTarget invoke = raiser.module.callTarget reference ∧
      raiser.module.verify raise = .ok ⟨3, 5⟩ ∧
      Machine.invoke raiser raise none [.delegate ticking] .initial = .ok none (behind [raise, invoke]) ∧
      Machine.invoke raiser relay none [.delegate ticking] .initial = .ok none (behind [relay, onTick]) ∧
      invokeDelegate raiser ticking [.null, .null] .initial = .ok () (behind [onTick]) :=
  ⟨by decide +kernel, eq_ok_of_toOption (by decide +kernel), eq_ok_of_parts (by decide +kernel),
    eq_ok_of_parts (by decide +kernel), eq_ok_of_parts (by decide +kernel)⟩

end WeakSubscription
