import WeakSubscription.Delegate.Weak
import WeakSubscription.Execution.Machine

/-!
Frames of running methods: arguments, locals and evaluation stack, and what single values are asked
for there.
-/

namespace WeakSubscription

/-- The open frame of a method: its arguments, its locals and its evaluation stack, top first. -/
structure Activation where
  args : List Value
  locals : List Value
  stack : List Value
  deriving DecidableEq

def Activation.push (frame : Activation) (v : Value) : Activation :=
  { frame with stack := v :: frame.stack }

/-- What an instruction does to a frame: it goes on, or it is left with a result. -/
inductive Outcome where
  | next (frame : Activation)
  | left (result : Option Value)
  deriving DecidableEq

namespace Execution

/-! ### Operands -/

def operand (i : Instruction) : Except Error Token :=
  match i.token? with
  | some t => .ok t
  | none => .error (.malformed .missingTokenOperand)

def pop : List Value → Except Error (Value × List Value)
  | [] => .error (.fault .stackUnderflow)
  | v :: stack => .ok (v, stack)

/-- The `n` top values in the order in which they were pushed, and the stack below them. -/
def popMany (n : Nat) (stack : List Value) : Except Error (List Value × List Value) :=
  if stack.length < n then .error (.fault .stackUnderflow)
  else .ok ((stack.take n).reverse, stack.drop n)

def receiver : Value → Except Error ObjectRef
  | .object r => .ok r
  | .null => .error (.fault .nullReference)
  | v@(.delegate _) | v@(.methodPointer _) => .error (.fault (.typeMismatch .fieldAccess v))

def two : List Value → Except Error (Value × Value)
  | [a, b] => .ok (a, b)
  | args => .error (.fault (.argumentOutOfBounds 1 args.length))

/-! ### Casts and delegates -/

/-- The value itself, if its type may be seen as the target. Null may be seen as any type. -/
def cast (m : Machine) (v : Value) (target : Ty) : Except Error Value := do
  let actual? ← match v with
    | .null => pure none
    | .delegate d => pure (some d.type)
    | .object r => (fun o => some o.type) <$> m.object r
    | .methodPointer _ => throw (.fault (.typeMismatch .cast v))
  match actual? with
  | none => return v
  | some actual =>
    if actual.SameName target ∨ target.isUniversalBase = true then return v
    else throw (.fault (.invalidCast actual target))

/-- A delegate on a method pointer and the object it is bound to, or null for a static method. -/
def bindDelegate (type : Ty) (target pointer : Value) : Except Error Delegate := do
  let target? ← match target with
    | .null => pure none
    | .object r => pure (some r)
    | .delegate _ | .methodPointer _ => throw (.fault (.typeMismatch .delegateConstruction target))
  match pointer with
  | .methodPointer method => return .bound type target? method
  | .null | .object _ | .delegate _ =>
    throw (.fault (.typeMismatch .delegateConstruction pointer))

end Execution

end WeakSubscription
