import WeakSubscription.Execution.Call

/-!
# Calls of methods

A call enters its method, runs the body one level deeper and closes the frame again. A method without code
only leaves its entry in the trace. A wrapper calls its target or, once that is lost, its callback.
-/

namespace WeakSubscription.Execution

variable {program : Program} {caller : Caller} {method : Token} {row : Method} {args : List Value}
  {s s' : Machine} {r : Option Value} {levels : Nat}

def entered (method : Token) (this : Option ObjectRef) (s : Machine) : Machine :=
  { s with trace := s.trace ++ [⟨method, this⟩] }

def entryInstance (isStatic : Bool) (args : List Value) : Option ObjectRef :=
  if isStatic then none else args.head?.bind Value.object?

theorem entryInstance_publisher {isStatic : Bool} {p : Option ObjectRef} (kind : isStatic = p.isNone)
    (args : List Value) : entryInstance isStatic (p.toList.map .object ++ args) = p := by
  subst kind
  cases p with
  | none => rfl
  | some r => rfl

theorem framed_of_ok {α : Type} {x : Run α} {a : α} (ran : x { s with depth := s.depth + 1 } = .ok a s') :
    framed x s = .ok a { s' with depth := s'.depth - 1 } := by
  rw [framed, ran]

/-- A call of a method is its body in a new frame, behind its entry in the trace. -/
theorem callWithin_eq (found : program.module.method method = .ok row) :
    callWithin program (levels + 1) method args s =
      framed (runBody program (callWithin program levels) method row args)
        (entered method (entryInstance row.isStatic args) s) := by
  rw [callWithin, found, Tracked.lift_ok_bind]
  rfl

theorem callWithin_of_runBody (found : program.module.method method = .ok row)
    (ran : runBody program (callWithin program levels) method row args
      { entered method (entryInstance row.isStatic args) s with depth := s.depth + 1 } = .ok r s') :
    callWithin program (levels + 1) method args s = .ok r { s' with depth := s'.depth - 1 } := by
  rw [callWithin_eq found]
  exact framed_of_ok ran

/-- A method without code is entered and left, with null if a result is due. -/
theorem callWithin_isEmpty (found : program.module.method method = .ok row) (empty : row.body.isEmpty = true) :
    callWithin program (levels + 1) method args s =
      .ok (if row.result = .void then none else some .null)
        (entered method (entryInstance row.isStatic args) s) := by
  have ran : runBody program (callWithin program levels) method row args
      { entered method (entryInstance row.isStatic args) s with depth := s.depth + 1 } =
      .ok (if row.result = .void then none else some .null)
        { entered method (entryInstance row.isStatic args) s with depth := s.depth + 1 } := by
    unfold runBody
    rw [if_pos empty, Tracked.pure_apply]
  exact callWithin_of_runBody found ran

theorem callWithin_of_isEmpty (found : program.module.method method = .ok row)
    (empty : row.body.isEmpty = true) :
    ∃ r, callWithin program (levels + 1) method args s =
      .ok r (entered method (entryInstance row.isStatic args) s) :=
  ⟨_, callWithin_isEmpty found empty⟩

/-- From outside every frame, all levels are left to a call. -/
theorem call_eq_of_depth (outside : s.depth = 0) :
    call program method args s = callWithin program 64 method args s := by
  show callWithin program (maxCallDepth - s.depth) method args s = _
  rw [outside, maxCallDepth]

/-! ### Entries -/

variable {call : Invocation}

theorem runEntries_cons_of_ok {e : Entry} {rest : List Entry} (ran : runEntry caller e args s = .ok () s') :
    runEntries caller (e :: rest) args s = runEntries caller rest args s' := by
  rw [runEntries]
  exact Tracked.bind_of_ok ran

/-- A wrapper whose target is there calls it. -/
theorem runEntry_live {id : UInt32} {t t' : Ty} {callback : List Entry}
    (live : call.target.all s.isAlive = true) :
    runEntry caller (.weak id call t callback t') args s = callBound caller call args s := by
  rw [runEntry]
  show (if call.target.all s.isAlive = true then callBound caller call args else _) s = _
  rw [if_pos live]

/-- A wrapper whose target is gone hands itself to its callback. -/
theorem runEntry_lost {id : UInt32} {t t' : Ty} {callback : List Entry}
    (lost : call.target.all s.isAlive = false) :
    runEntry caller (.weak id call t callback t') args s =
      runEntries caller callback [.delegate ⟨t', [.weak id call t callback t']⟩] s := by
  rw [runEntry]
  show (if call.target.all s.isAlive = true then _ else runEntries caller callback _) s = _
  rw [if_neg (by rw [lost]; decide)]

end WeakSubscription.Execution
