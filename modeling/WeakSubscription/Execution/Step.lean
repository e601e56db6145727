import WeakSubscription.Execution.Outside

/-!
The machine's rule for each instruction, and the run of a whole body. Bodies have no branches, so a
run takes the instructions in order until one leaves the frame.
-/

namespace WeakSubscription.Execution

/-- The argument that an instruction loads. An instruction that names none is taken to name the last
one that an index operand could. -/
def argument (i : Instruction) (frame : Activation) : Except Error Value :=
  let index := (i.argument?.getD 255).toNat
  match frame.args[index]? with
  | some v => .ok v
  | none => .error (.fault (.argumentOutOfBounds index frame.args.length))

/-- The local that an instruction loads, with the same reading of a missing index. -/
def localValue (i : Instruction) (frame : Activation) : Except Error Value :=
  let index := (i.local?.getD 255).toNat
  match frame.locals[index]? with
  | some v => .ok v
  | none => .error (.fault (.localOutOfBounds index frame.locals.length))

/-- The frame with its top value moved into the local that an instruction names. -/
def moveToLocal (i : Instruction) (frame : Activation) : Except Error Activation := do
  let index := (i.local?.getD 255).toNat
  let (v, stack) ← pop frame.stack
  if index < frame.locals.length then
    return { frame with stack, locals := frame.locals.set index v }
  else throw (.fault (.localOutOfBounds index frame.locals.length))

def callRule (program : Program) (caller : Caller) (i : Instruction) (frame : Activation) :
    Run Activation := do
  let token ← operand i
  let target ← program.module.callTarget token
  let (args, stack) ← popMany target.signature.params.length frame.stack
  let (this, stack) ←
    if target.signature.hasThis then (fun (v, stack) => (some v, stack)) <$> pop stack
    else pure (none, stack)
  let result ←
    if token.inTable .method then caller token (this.toList ++ args)
    else callOutside program caller token target this args
  return { frame with stack := result.toList ++ stack }

def constructRule (program : Program) (caller : Caller) (i : Instruction) (frame : Activation) :
    Run Activation := do
  let token ← operand i
  let target ← program.module.callTarget token
  let (args, stack) ← popMany target.signature.params.length frame.stack
  let created ← construct program caller token target args
  return { frame with stack := created :: stack }

/-- The rule of an instruction other than `ret`, for which nothing changes. -/
def step (program : Program) (caller : Caller) (i : Instruction) (frame : Activation) :
    Run Activation := do
  match i.opcode with
  | .nop | .ret => return frame
  | .ldarg0 | .ldarg1 | .ldarg2 | .ldarg3 | .ldargS => return frame.push (← argument i frame)
  | .ldloc0 | .ldloc1 | .ldloc2 | .ldloc3 | .ldlocS => return frame.push (← localValue i frame)
  | .stloc0 | .stloc1 | .stloc2 | .stloc3 | .stlocS => moveToLocal i frame
  | .ldnull => return frame.push .null
  | .dup =>
    let (v, stack) ← pop frame.stack
    return { frame with stack := v :: v :: stack }
  | .pop =>
    let (_, stack) ← pop frame.stack
    return { frame with stack }
  | .ldfld =>
    let field ← operand i
    let (target, stack) ← pop frame.stack
    let r ← receiver target
    let v ← (← get).fieldValue program.module field (some r)
    return { frame with stack := v :: stack }
  | .stfld =>
    let field ← operand i
    let (v, stack) ← pop frame.stack
    let (target, stack) ← pop stack
    let r ← receiver target
    Machine.setField program.module field (some r) v
    return { frame with stack }
  | .ldsfld =>
    let field ← operand i
    return frame.push (← (← get).fieldValue program.module field none)
  | .stsfld =>
    let field ← operand i
    let (v, stack) ← pop frame.stack
    Machine.setField program.module field none v
    return { frame with stack }
  | .ldftn => return frame.push (.methodPointer (← operand i))
  | .castclass =>
    let target ← program.module.resolveType (← operand i)
    let (v, stack) ← pop frame.stack
    let v ← cast (← get) v target
    return { frame with stack := v :: stack }
  | .call | .callvirt => callRule program caller i frame
  | .newobj => constructRule program caller i frame

/-- The rule of `ret`: the result is popped if the method has one. -/
def returned (result : Ty) (frame : Activation) : Except Error (Option Value) :=
  if result = .void then .ok none else (fun (v, _) => some v) <$> pop frame.stack

/-- Runs code in a frame until an instruction leaves it or the code is at its end. -/
def runCode (program : Program) (caller : Caller) (result : Ty) : Code → Activation → Run Outcome
  | [], frame => pure (.next frame)
  | i :: rest, frame =>
    if i.opcode = .ret then Outcome.left <$> (returned result frame : Run (Option Value))
    else do
      let frame ← step program caller i frame
      runCode program caller result rest frame

/-- Runs the body of a method. An empty body stands for code that is not here: it does nothing, and
gives null if a result is due. -/
def runBody (program : Program) (caller : Caller) (method : Token) (row : Method)
    (args : List Value) : Run (Option Value) := do
  if row.body.isEmpty then
    return if row.result = .void then none else some .null
  let locals := row.body.locals.map fun _ => Value.null
  match ← runCode program caller row.result row.body.code ⟨args, locals, []⟩ with
  | .left result => return result
  | .next _ => Run.fault (.missingReturn (program.module.displayName method))

end WeakSubscription.Execution
