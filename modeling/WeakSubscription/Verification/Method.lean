import WeakSubscription.Verification.Step

/-!
Verification of whole methods. A body has no branches, so one pass over its instructions from the
empty stack decides it.
-/

namespace WeakSubscription

namespace Verification

structure Summary where
  /-- The greatest number of slots that are on the stack between two instructions. -/
  maxStack : Nat
  instructions : Nat
  deriving DecidableEq

namespace Frame

/-- Checks code from the stack that stands before it up to its return, and gives the greatest stack
height. Failures come with the place of the instruction, counted from `offset`. -/
def checkCode (frame : Frame) :
    (offset height : Nat) → Stack → Code → Except (Nat × Rejection) Nat
  | offset, _, _, [] => .error (offset, .unverifiable .fallsOffEnd)
  | offset, height, stack, i :: rest =>
    if i.opcode = .ret then
      match frame.checkReturn stack with
      | .error e => .error (offset, e)
      | .ok () =>
        if rest.isEmpty then .ok height else .error (offset + 1, .unverifiable .unreachable)
    else
      match frame.step i stack with
      | .error e => .error (offset, e)
      | .ok stack => checkCode frame (offset + 1) (max height stack.length) stack rest

end Frame

end Verification

namespace Module

open Verification

def frameOf (m : Module) (method : Method) : Except Error Frame := do
  let this ← if method.isStatic then pure [] else (fun d => [d.ty]) <$> m.typeDef method.owner
  return ⟨m, this ++ method.params.map (·.ty), method.body.locals, method.result⟩

def verify (m : Module) (method : Token) : Except Error Summary := do
  let row ← m.method method
  let frame ← m.frameOf row
  match frame.checkCode 0 0 [] row.body.code with
  | .ok height => return ⟨height, row.body.code.length⟩
  | .error (_, .unresolved e) => throw e
  | .error (offset, .unverifiable cause) =>
    throw (.unverifiable (m.displayName method) offset cause)

end Module

end WeakSubscription
