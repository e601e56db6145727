import WeakSubscription.Proofs.Verification.Framing
import WeakSubscription.Proofs.Verification.Shape

/-!
# Balanced code put into verified bodies

Code that leads from every stack back to the same stack can be put in front of any instruction of a verified
body: the body verifies again, and it comes to the heights that it came to before and to those of the new
code at its place. Behind the last instruction, which is the return, nothing can be put.
-/

open WeakSubscription.Module

namespace WeakSubscription

open Verification

variable {m m' : Module} {t : Token} {summary : Summary} {row : Method} {frame frame' : Frame} {code : Code}

/-- Verification is the check of the body, with its failures worded. -/
theorem Module.verify_eq (found : m.method t = .ok row) (built : m.frameOf row = .ok frame) :
    m.verify t = match frame.checkCode 0 0 [] row.body.code with
      | .ok height => .ok ⟨height, row.body.code.length⟩
      | .error (_, .unresolved e) => .error e
      | .error (offset, .unverifiable cause) => .error (.unverifiable (m.displayName t) offset cause) := by
  unfold verify
  rw [found]
  show (m.frameOf row >>= _) = _
  rw [built]
  rfl

/-- A method that is left as it is verifies as before, whatever is added to the module. -/
theorem Module.verify_retained (verified : m.verify t = .ok summary) (kept : Retained m m')
    (keeps : Keeps t m m') : m'.verify t = .ok summary := by
  obtain ⟨row, frame, found, built, accepted, count⟩ := verify_ok verified
  obtain ⟨frame', built', grows⟩ := frameOf_grows kept (.refl row) built
  rw [verify_eq (keeps.row found) built', grows.checkCode accepted, ← count]

/-- Code that is put into a body, at a place in it or at its end, and the frame in which the body is then
checked. -/
theorem Module.insertCode_of_le {i : Nat} (found : m.method t = .ok row)
    (built : m.frameOf row = .ok frame) (code : Code) (inside : i ≤ row.body.code.length) :
    ∃ m' frame', insertCode t code i m = .ok () m' ∧ Retained m m' ∧
      m'.method t = .ok { row with body := { row.body with
        code := row.body.code.take i ++ code ++ row.body.code.drop i } } ∧
      m'.frameOf { row with body := { row.body with
        code := row.body.code.take i ++ code ++ row.body.code.drop i } } = .ok frame' ∧
      frame.Grows frame' := by
  have inserted : row.body.insert code i = .ok { row.body with
      code := row.body.code.take i ++ code ++ row.body.code.drop i } := if_pos inside
  let edit : Body → Except Error (Body × Unit) := fun b => (·, ()) <$> b.insert code i
  have edited : edit row.body = .ok _ := except_map_eq_ok_iff.mpr ⟨_, inserted, rfl⟩
  obtain ⟨m', ran, found'⟩ := editBody_of_ok found edited
  have kept := (retained_insertCode t code i m).of_ok ran
  obtain ⟨frame', built', grows⟩ := frameOf_grows kept ⟨rfl, List.prefix_refl _⟩ built
  exact ⟨m', frame', ran, kept, found', built', grows⟩

theorem Module.insertCode_of_lt {i : Nat} (found : m.method t = .ok row) (code : Code)
    (outside : row.body.code.length < i) : insertCode t code i m = .error .outOfBounds m := by
  refine editBody_of_error found ?_
  have refused : row.body.insert code i = .error .outOfBounds := if_neg (by omega)
  rw [refused]
  rfl

namespace Verification.Frame

variable {pre post : Code} {greatest : Nat} {at_i : Stack}

/-- An accepted body with balanced code in the middle is accepted, also in a frame that says more. -/
theorem checkCode_spliced (accepted : frame.checkCode 0 0 [] (pre ++ post) = .ok greatest)
    (goesOn : post ≠ []) (noReturn : ∀ i ∈ code, i.opcode ≠ .ret)
    (balanced : ∀ stack, frame.steps code stack = .ok stack) (grows : frame.Grows frame') :
    ∃ at_i, frame.steps pre [] = .ok at_i ∧ frame'.checkCode 0 0 [] (pre ++ code ++ post) =
      .ok (max greatest (at_i.length + frame.rise code [])) := by
  obtain ⟨i, rest, rfl⟩ := List.exists_cons_of_ne_nil goesOn
  obtain ⟨at_i, reached, -, before, -⟩ := checkCode_split accepted (Nat.le_refl 0)
  refine ⟨at_i, reached, grows.checkCode ?_⟩
  have height : frame.rise code at_i = at_i.length + frame.rise code [] := by
    have raised := (Grows.refl frame).rise (balanced []) at_i
    rw [List.nil_append] at raised
    omega
  -- behind the code the walk is where it was without it, further on in the body and perhaps from a greater height
  rw [checkCode_append before reached (Nat.le_refl 0)] at accepted
  rw [List.append_assoc, checkCode_append before reached (Nat.le_refl 0),
    checkCode_append noReturn (balanced at_i), height]
  · exact checkCode_raised accepted _ _
  · exact Nat.le_trans (length_le_rise_of_steps reached) (Nat.le_max_right _ _)

/-- Nothing can stand behind the return of an accepted body. -/
theorem checkCode_behind (accepted : frame.checkCode 0 0 [] pre = .ok greatest) (nonempty : code ≠ [])
    (grows : frame.Grows frame') :
    frame'.checkCode 0 0 [] (pre ++ code) = .error (pre.length, .unverifiable .unreachable) := by
  obtain ⟨before, last, rfl, noReturn, op⟩ := code_of_checkCode accepted
  obtain ⟨at_last, reached, -, -, returned, -⟩ := checkCode_split accepted (Nat.le_refl 0)
  have same : frame'.checkReturn at_last = .ok () := by
    rw [← (returned op).2, checkReturn, grows.result]
    rfl
  have reached' := grows.steps reached []
  rw [List.append_nil, List.append_nil] at reached'
  have more : code.isEmpty = false := by simpa using nonempty
  rw [List.append_assoc, checkCode_append noReturn reached' (Nat.le_refl 0), List.singleton_append,
    checkCode, if_pos op, same]
  simp [more]

end Verification.Frame

theorem Module.insertCode_accepted {i greatest : Nat} (found : m.method t = .ok row)
    (built : m.frameOf row = .ok frame) (accepted : frame.checkCode 0 0 [] row.body.code = .ok greatest)
    (inside : i < row.body.code.length) (noReturn : ∀ i ∈ code, i.opcode ≠ .ret)
    (balanced : ∀ stack, frame.steps code stack = .ok stack) :
    ∃ at_i m', frame.steps (row.body.code.take i) [] = .ok at_i ∧ insertCode t code i m = .ok () m' ∧
      m'.verify t = .ok ⟨max greatest (at_i.length + frame.rise code []),
        row.body.code.length + code.length⟩ := by
  obtain ⟨m', frame', ran, -, found', built', grows⟩ := insertCode_of_le found built code (Nat.le_of_lt inside)
  have goesOn : row.body.code.drop i ≠ [] := by simpa using inside
  rw [← List.take_append_drop i row.body.code] at accepted
  obtain ⟨at_i, reached, spliced⟩ := Frame.checkCode_spliced accepted goesOn noReturn balanced grows
  refine ⟨at_i, m', reached, ran, ?_⟩
  rw [verify_eq found' built', spliced]
  simp only [List.length_append, List.length_take, List.length_drop]
  congr 2
  omega

/-- Balanced code in front of any instruction of a verified body leaves it verified, with the heights of both.
Behind the last instruction nothing can be put, and further on there is no place for it. -/
theorem verified_splice (verified : m.verify t = .ok summary) (found : m.method t = .ok row)
    (built : m.frameOf row = .ok frame) (noReturn : ∀ i ∈ code, i.opcode ≠ .ret)
    (balanced : ∀ stack, frame.steps code stack = .ok stack) :
    (∀ i < summary.instructions, ∃ at_i m', frame.steps (row.body.code.take i) [] = .ok at_i ∧
      insertCode t code i m = .ok () m' ∧
      m'.verify t = .ok ⟨max summary.maxStack (at_i.length + frame.rise code []),
        summary.instructions + code.length⟩) ∧
    (code ≠ [] → ∃ m', insertCode t code summary.instructions m = .ok () m' ∧
      m'.verify t = .error (.unverifiable (m'.displayName t) summary.instructions .unreachable)) ∧
    ∀ i > summary.instructions, insertCode t code i m = .error .outOfBounds m := by
  obtain ⟨row', frame', found', built', accepted, count⟩ := verify_ok verified
  obtain rfl : row = row' := Except.ok.inj (found.symm.trans found')
  obtain rfl : frame = frame' := Except.ok.inj (built.symm.trans built')
  rw [count]
  refine ⟨?_, ?_, ?_⟩
  · intro i inside
    exact insertCode_accepted found built accepted inside noReturn balanced
  · intro nonempty
    obtain ⟨m', frame', ran, -, found', built', grows⟩ := insertCode_of_le found built code (Nat.le_refl _)
    refine ⟨m', ran, ?_⟩
    rw [verify_eq found' built']
    simp only [List.take_length, List.drop_length, List.append_nil,
      Frame.checkCode_behind accepted nonempty grows]
  · intro i outside
    exact insertCode_of_lt found code outside

/-! ### A value that is loaded and dropped -/

namespace Relay

/-- The frame in which the storing method is checked. -/
def subscribeFrame : Frame := ⟨relay.module, [.named ⟨"App", "Relay"⟩, handler], [], .void⟩

def dropped : Code := [.plain .ldnull, .plain .pop]

end Relay

open Relay in
theorem verified_splice_relay :
    relay.module.verify subscribe = .ok ⟨3, 8⟩ ∧ relay.module.method subscribe = .ok subscribeRow ∧
      relay.module.frameOf subscribeRow = .ok subscribeFrame ∧ (∀ i ∈ dropped, i.opcode ≠ .ret) ∧
      (∀ stack, subscribeFrame.steps dropped stack = .ok stack) ∧
      (∃ m', insertCode subscribe dropped 4 relay.module = .ok () m' ∧ m'.verify subscribe = .ok ⟨4, 10⟩) ∧
      insertCode subscribe dropped 9 relay.module = .error .outOfBounds relay.module := by
  have verified : relay.module.verify subscribe = .ok ⟨3, 8⟩ := by decide
  have found : relay.module.method subscribe = .ok subscribeRow := by decide
  have built : relay.module.frameOf subscribeRow = .ok subscribeFrame := rfl
  have noReturn : ∀ i ∈ dropped, i.opcode ≠ .ret := by decide
  have balanced : ∀ stack, subscribeFrame.steps dropped stack = .ok stack := fun _ => rfl
  obtain ⟨inside, -, outside⟩ := verified_splice verified found built noReturn balanced
  obtain ⟨at_i, m', reached, ran, again⟩ := inside 4 (by decide)
  have three : at_i.length = 3 := by
    have slots : subscribeFrame.steps (subscribeRow.body.code.take 4) [] =
        .ok [.value handler, .value handler, .value (.named ⟨"App", "Relay"⟩)] := by decide
    rw [Except.ok.inj (reached.symm.trans slots)]
    rfl
  rw [three] at again
  exact ⟨verified, found, built, noReturn, balanced, ⟨m', ran, again⟩, outside 9 (by decide)⟩

end WeakSubscription
