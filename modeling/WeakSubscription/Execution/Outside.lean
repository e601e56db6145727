import WeakSubscription.Execution.Frame
import WeakSubscription.Weaving.Helper

/-!
Calls that leave a frame: the entries of delegates, the helpers outside the module, and
constructors. How a method of the module is called is a parameter here; `Execution.Call` supplies it.
-/

namespace WeakSubscription

/-- How a method is called on arguments, the instance first. -/
abbrev Caller := Token → List Value → Run (Option Value)

namespace Execution

/-! ### Delegates -/

def callBound (caller : Caller) (call : Invocation) (args : List Value) : Run Unit :=
  discard (caller call.method (call.target.toList.map .object ++ args))

mutual

/-- Runs an entry of a delegate. A wrapper whose target was collected hands itself, in a delegate of
its handler type, to its callback in place of the call. -/
def runEntry (caller : Caller) : Entry → List Value → Run Unit
  | .strong call, args => callBound caller call args
  | .weak id call callbackType callback handlerType, args => do
    if call.target.all (← get).isAlive then
      callBound caller call args
    else
      let wrapper := .weak id call callbackType callback handlerType
      runEntries caller callback [.delegate ⟨handlerType, [wrapper]⟩]
termination_by structural e => e

def runEntries (caller : Caller) : List Entry → List Value → Run Unit
  | [], _ => pure ()
  | e :: entries, args => do
    runEntry caller e args
    runEntries caller entries args
termination_by structural l => l

end

/-! ### Calls out of the module -/

/-- The member reference that a call names, directly or through an instantiation. -/
def referenceOf (module : Module) (token : Token) : Except Error MemberRef :=
  if token.inTable .methodSpec then do
    let spec ← module.methodSpec token
    module.memberRef spec.method
  else module.memberRef token

/-- The value that a helper computes, for a call with this return type. The two constructors among
the helpers compute nothing; a call of one is refused under the given name. -/
def callHelper (h : Helper) (name : String) (result : Ty) (args : List Value) : Run Value := do
  match h with
  | .combine =>
    let (a, b) ← two args
    Delegate.combine a b
  | .remove =>
    let (a, b) ← two args
    Delegate.remove a b
  | .changeType =>
    match args with
    | [] => Run.fault (.argumentOutOfBounds 0 0)
    | a :: _ => Delegate.changeType a result
  | .makeWeak =>
    let (a, b) ← two args
    let (v, last) ← Delegate.makeWeak a b result (← get).lastWeakId
    modify fun m => { m with lastWeakId := last }
    return v
  | .findWeak =>
    let (a, b) ← two args
    Delegate.findWeak a b result
  | .compilerGenerated | .actionConstructor => Run.fault (.unsupportedCall name)

/-- Calls a method outside the module: `Invoke` of a delegate runs its entries, and the helpers
compute. Everything else is refused. -/
def callOutside (program : Program) (caller : Caller) (token : Token) (target : CallTarget)
    (this : Option Value) (args : List Value) : Run (Option Value) := do
  match target.name == "Invoke", this.bind Value.delegate? with
  | true, some d =>
    runEntries caller d.entries args
    return none
  | _, _ =>
    let ref ← referenceOf program.module token
    let name := program.module.displayName token
    match Helper.all.find? (·.isNamedBy program.helperNamespace ref) with
    | some h => some <$> callHelper h name target.signature.result args
    | none => Run.fault (.unsupportedCall name)

/-- The object that a constructor call makes: a delegate if it takes an object and a method pointer,
else a new object on which a constructor of the module is run. -/
def construct (program : Program) (caller : Caller) (token : Token) (target : CallTarget)
    (args : List Value) : Run Value := do
  if target.signature.params = [.object, .intPtr] then
    let (bound, pointer) ← two args
    return .delegate (← bindDelegate target.declaringType bound pointer)
  else if token.inTable .method then
    let r ← Machine.alloc target.declaringType
    let _ ← caller token (.object r :: args)
    return .object r
  else
    Run.fault (.unsupportedCall (program.module.displayName token))

end Execution

end WeakSubscription
