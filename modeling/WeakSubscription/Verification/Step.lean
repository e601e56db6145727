import WeakSubscription.Module.Basic

/-!
The verifier's rule for each instruction: how it changes the static types on the evaluation stack.
A rule does not know its place in the body, so what a piece of code does to a stack is the same
wherever it stands. `ret` ends a body and has its own rule.
-/

namespace WeakSubscription.Verification

/-- Static types on the evaluation stack, the top first. -/
abbrev Stack := List Slot

/-- Why a rule fails: an operand names nothing in the module, or the body is rejected. -/
inductive Rejection where
  | unresolved (error : Error)
  | unverifiable (cause : Unverifiable)
  deriving DecidableEq

/-- What a body is checked against. -/
structure Frame where
  module : Module
  /-- The types of all arguments, the instance first. -/
  args : List Ty
  locals : List Variable
  result : Ty

abbrev Check := Except Rejection

def reject {α : Type} (cause : Unverifiable) : Check α := .error (.unverifiable cause)

def resolved {α : Type} : Except Error α → Check α
  | .ok a => .ok a
  | .error e => .error (.unresolved e)

def pop : Stack → Check (Slot × Stack)
  | [] => reject .stackUnderflow
  | s :: stack => .ok (s, stack)

def popInto (use : SlotUse) (expected : Ty) (stack : Stack) : Check Stack := do
  let (slot, stack) ← pop stack
  if slot.assignable expected then return stack
  else reject (.notAssignable use slot expected)

def popReference (stack : Stack) : Check Stack := do
  match ← pop stack with
  | (.null, stack) => return stack
  | (.value t, stack) => if t.isReference then return stack else reject (.notReference t)

/-- Pops one slot for each parameter, the last parameter first. -/
def popArguments (params : List Ty) (stack : Stack) : Check Stack :=
  params.zipIdx.reverse.foldlM (fun stack (param, i) => popInto (.argument i) param stack) stack

def operand (i : Instruction) : Check Token :=
  match i.token? with
  | some t => .ok t
  | none => reject (.missingToken i.opcode)

namespace Frame

/-- The type of the argument that an instruction names. An instruction that names none is taken to
name the last one that an index operand could. -/
def argumentTy (frame : Frame) (i : Instruction) : Check Ty :=
  let index := i.argument?.getD 255
  match frame.args[index.toNat]? with
  | some t => .ok t
  | none => reject (.noArgument index)

/-- The type of the local that an instruction names, with the same reading of a missing index. -/
def localTy (frame : Frame) (i : Instruction) : Check Ty :=
  let index := i.local?.getD 255
  match frame.locals[index.toNat]? with
  | some v => .ok v.ty
  | none => reject (.noLocal index)

/-- The rule for calls: arguments, then the instance if there is one, make place for the result. -/
def call (frame : Frame) (i : Instruction) (stack : Stack) : Check Stack := do
  let target ← resolved (frame.module.callTarget (← operand i))
  let stack ← popArguments target.signature.params stack
  let stack ←
    if target.signature.hasThis then popInto .this target.declaringType stack else pure stack
  if target.signature.result = .void then return stack
  else return .value target.signature.result :: stack

/-- The rule for construction: arguments make place for the new object. -/
def construct (frame : Frame) (i : Instruction) (stack : Stack) : Check Stack := do
  let target ← resolved (frame.module.callTarget (← operand i))
  let stack ← popArguments target.signature.params stack
  if target.name = ".ctor" then return .value target.declaringType :: stack
  else reject (.notConstructor target.name)

/-- The field of a field instruction, which must be static exactly if the opcode is for static
fields, and the type that declares it. -/
def field (frame : Frame) (i : Instruction) (isStatic : Bool) : Check (Field × Ty) := do
  let field ← resolved (frame.module.field (← operand i))
  if field.isStatic ≠ isStatic then
    reject (.wrongFieldKind i.opcode field.isStatic field.name)
  let owner ← resolved (frame.module.typeDef field.owner)
  return (field, owner.ty)

/-- The rule of an instruction other than `ret`, for which nothing changes. -/
def step (frame : Frame) (i : Instruction) (stack : Stack) : Check Stack := do
  match i.opcode with
  | .nop | .ret => return stack
  | .ldarg0 | .ldarg1 | .ldarg2 | .ldarg3 | .ldargS =>
    return .value (← frame.argumentTy i) :: stack
  | .ldloc0 | .ldloc1 | .ldloc2 | .ldloc3 | .ldlocS =>
    return .value (← frame.localTy i) :: stack
  | .stloc0 | .stloc1 | .stloc2 | .stloc3 | .stlocS =>
    popInto .storedValue (← frame.localTy i) stack
  | .ldnull => return .null :: stack
  | .dup =>
    let (slot, stack) ← pop stack
    return slot :: slot :: stack
  | .pop =>
    let (_, stack) ← pop stack
    return stack
  | .call | .callvirt => frame.call i stack
  | .newobj => frame.construct i stack
  | .castclass =>
    let target ← resolved (frame.module.resolveType (← operand i))
    return .value target :: (← popReference stack)
  | .ldfld =>
    let (field, owner) ← frame.field i false
    return .value field.ty :: (← popInto .fieldOwner owner stack)
  | .stfld =>
    let (field, owner) ← frame.field i false
    popInto .fieldOwner owner (← popInto .storedValue field.ty stack)
  | .ldsfld =>
    let (field, _) ← frame.field i true
    return .value field.ty :: stack
  | .stsfld =>
    let (field, _) ← frame.field i true
    popInto .storedValue field.ty stack
  | .ldftn =>
    let _ ← resolved (frame.module.callTarget (← operand i))
    return .value .intPtr :: stack

/-- The rule of `ret`: the result, and nothing else, is on the stack, and no instruction follows. -/
def checkReturn (frame : Frame) (stack : Stack) : Check Unit := do
  let stack ←
    if frame.result = .void then pure stack else popInto .returnValue frame.result stack
  if stack.isEmpty then return () else reject (.leftOnStack stack.length)

end Frame

end WeakSubscription.Verification
