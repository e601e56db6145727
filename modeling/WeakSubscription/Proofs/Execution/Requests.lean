import WeakSubscription.Execution.Call

/-!
# What is asked of a machine

From outside a machine is asked to make and collect objects, to set fields, and to run methods, delegates and
events. Each request takes values in and may give one back; all other values that can be got at are in fields.
-/

namespace WeakSubscription.Machine

/-- The values of all fields. -/
def values (m : Machine) : List Value := m.statics.map (·.2) ++ m.objects.flatMap fun o => o.fields.map (·.2)

inductive Request where
  | alloc (type : Ty)
  | collect (ref : ObjectRef)
  | setField (field : Token) (target? : Option ObjectRef) (v : Value)
  | invoke (method : Token) (this : Option ObjectRef) (args : List Value)
  | invokeDelegate (d : Delegate) (args : List Value)
  | raise (field : Token) (target? : Option ObjectRef) (sender args : Value)

namespace Request

def run (program : Program) : Request → Run (Option Value)
  | alloc type => (fun r => some (.object r)) <$> Machine.alloc type
  | collect ref => (fun _ => none) <$> Machine.collect ref
  | setField field target? v => (fun _ => none) <$> Machine.setField program.module field target? v
  | invoke method this args => Machine.invoke program method this args
  | invokeDelegate d args => (fun _ => none) <$> Machine.invokeDelegate program d args
  | raise field target? sender args => (fun _ => none) <$> Machine.raise program field target? sender args

/-- The values that come in with the request. -/
def incoming : Request → List Value
  | alloc _ | collect _ => []
  | setField _ _ v => [v]
  | invoke _ _ args => args
  | invokeDelegate d args => .delegate d :: args
  | raise _ _ sender args => [sender, args]

end Request

/-- The values that can be got at behind a request: its result, if it has one, and the values of fields. -/
def shown : EStateM.Result Error Machine (Option Value) → List Value
  | .ok result m => result.toList ++ m.values
  | .error _ m => m.values

end WeakSubscription.Machine
