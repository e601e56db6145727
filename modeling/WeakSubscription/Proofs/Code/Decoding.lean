import WeakSubscription.Code
import Mathlib.Data.List.Basic

/-!
# Reading code back from its bytes

An opcode takes one byte or two, an operand none, one or four, and any of them may hold any value.
Nothing marks where an instruction ends. Still the bytes fix the instructions: the opcode comes
first, no opcode's bytes begin with another's, and the opcode says how many bytes of operand follow.

Each layer has a reader that takes what it needs off the front of the bytes and returns the rest.
What is shown of each is that it reads exactly what the layer writes, whatever stands behind.
-/

namespace WeakSubscription

/-! ### Tokens -/

namespace Token

/-- The token that four bytes stand for, lowest first. -/
def ofBytes (low middle high table : UInt8) : Token :=
  ofParts table (low.toNat + 0x100 * middle.toNat + 0x10000 * high.toNat)

theorem bytes_ofBytes (low middle high table : UInt8) :
    (ofBytes low middle high table).bytes = [low, middle, high, table] := by
  have hlow := low.toNat_lt
  have hmiddle := middle.toNat_lt
  have hhigh := high.toNat_lt
  have row : (ofBytes low middle high table).row.val =
      low.toNat + 0x100 * middle.toNat + 0x10000 * high.toNat := Nat.mod_eq_of_lt (by omega)
  simp only [bytes, row, List.cons.injEq, and_true]
  refine ⟨?_, ?_, ?_, rfl⟩ <;> (rw [← UInt8.toNat_inj, UInt8.toNat_ofNat']; omega)

theorem ofBytes_bytes (t : Token) :
    ofBytes (.ofNat t.row.val) (.ofNat (t.row.val / 0x100)) (.ofNat (t.row.val / 0x10000)) t.table =
      t := by
  have hrow := t.row.isLt
  have joined : t.row.val % 2 ^ 8 + 0x100 * (t.row.val / 0x100 % 2 ^ 8) +
      0x10000 * (t.row.val / 0x10000 % 2 ^ 8) = t.row.val := by omega
  simp only [ofBytes, ofParts, UInt8.toNat_ofNat', joined, Fin.ofNat_val_eq_self]

end Token

/-! ### Opcodes -/

namespace Opcode

theorem bytes_ne_nil (o : Opcode) : o.bytes ≠ [] := by
  unfold bytes
  split <;> simp

def ofEncoding? (e : UInt8 × UInt8) : Option Opcode := all.find? (·.encoding == e)

theorem ofEncoding?_encoding (o : Opcode) : ofEncoding? o.encoding = some o := by cases o <;> rfl

theorem encoding_of_ofEncoding? {e : UInt8 × UInt8} {o : Opcode} (h : ofEncoding? e = some o) :
    o.encoding = e := by
  simpa using List.find?_some h

/-- A lead byte of an encoding is the lead byte, and no opcode of one byte is that byte. -/
theorem encoding_lead (o : Opcode) :
    o.encoding.1 = leadByte ∨ (o.encoding.1 = 0 ∧ o.encoding.2 ≠ leadByte) := by
  cases o <;> decide

/-- The opcode that the bytes begin with, and the bytes behind it. -/
def read? : List UInt8 → Option (Opcode × List UInt8)
  | [] => none
  | b :: rest =>
    if b = leadByte then
      match rest with
      | [] => none
      | b' :: rest => (ofEncoding? (leadByte, b')).map (·, rest)
    else (ofEncoding? (0, b)).map (·, rest)

theorem read?_bytes (o : Opcode) (rest : List UInt8) :
    read? (o.bytes ++ rest) = some (o, rest) := by
  have known := ofEncoding?_encoding o
  rcases h : o.encoding with ⟨lead, own⟩
  rw [h] at known
  obtain hlead | ⟨hlead, hown⟩ := encoding_lead o <;> rw [h] at hlead <;> subst hlead
  · have two : leadByte ≠ 0 := by decide
    rw [bytes, h, if_neg two]
    simp only [read?, List.cons_append, List.nil_append, if_true, known, Option.map_some]
  · rw [h] at hown
    simp only [bytes, h, if_true, List.cons_append, List.nil_append, read?, if_neg hown, known,
      Option.map_some]

theorem of_read? {bytes rest : List UInt8} {o : Opcode} (h : read? bytes = some (o, rest)) :
    bytes = o.bytes ++ rest := by
  match bytes with
  | [] => simp [read?] at h
  | b :: tail =>
    simp only [read?] at h
    split at h
    case isTrue hb =>
      match tail with
      | [] => simp at h
      | b' :: tail =>
        obtain ⟨o', known, heq⟩ := Option.map_eq_some_iff.1 h
        obtain ⟨rfl, rfl⟩ := Prod.mk.inj heq
        simp [Opcode.bytes, encoding_of_ofEncoding? known, hb, leadByte]
    case isFalse =>
      obtain ⟨o', known, heq⟩ := Option.map_eq_some_iff.1 h
      obtain ⟨rfl, rfl⟩ := Prod.mk.inj heq
      simp [Opcode.bytes, encoding_of_ofEncoding? known]

end Opcode

/-! ### Operands -/

namespace Operand

/-- An operand of the given kind that the bytes begin with, and the bytes behind it. -/
def read? : OperandKind → List UInt8 → Option (Operand × List UInt8)
  | .none, rest => some (.none, rest)
  | .index, i :: rest => some (.index i, rest)
  | .token, low :: middle :: high :: table :: rest =>
    some (.token (.ofBytes low middle high table), rest)
  | _, _ => Option.none

theorem read?_bytes (x : Operand) (rest : List UInt8) :
    read? x.kind (x.bytes ++ rest) = some (x, rest) := by
  cases x with
  | none => rfl
  | index i => rfl
  | token t => simp [kind, bytes, Token.bytes, read?, Token.ofBytes_bytes]

theorem of_read? {kind : OperandKind} {bytes rest : List UInt8} {x : Operand}
    (h : read? kind bytes = some (x, rest)) : x.kind = kind ∧ bytes = x.bytes ++ rest := by
  unfold read? at h
  split at h
  all_goals first
    | contradiction
    | obtain ⟨rfl, rfl⟩ := Prod.mk.inj (Option.some.inj h)
      simp [Operand.kind, Operand.bytes, Token.bytes_ofBytes]

end Operand

/-! ### Instructions -/

namespace Instruction

def read? (bytes : List UInt8) : Option (Instruction × List UInt8) := do
  let (opcode, rest) ← Opcode.read? bytes
  let (operand, rest) ← Operand.read? opcode.operandKind rest
  return (⟨opcode, operand⟩, rest)

/-- A reader of instructions takes well-formed ones, and each is what the bytes begin with. -/
theorem read?_eq_some_iff {bytes rest : List UInt8} {i : Instruction} :
    read? bytes = some (i, rest) ↔
      i.IsWellFormed ∧ bytes = i.opcode.bytes ++ i.operand.bytes ++ rest := by
  constructor
  · intro h
    obtain ⟨⟨opcode, mid⟩, hopcode, h⟩ := Option.bind_eq_some_iff.1 h
    obtain ⟨⟨operand, rest'⟩, hoperand, h⟩ := Option.bind_eq_some_iff.1 h
    obtain ⟨rfl, rfl⟩ := Prod.mk.inj (Option.some.inj h)
    obtain ⟨hkind, hmid⟩ := Operand.of_read? hoperand
    refine ⟨hkind, ?_⟩
    rw [Opcode.of_read? hopcode, hmid, List.append_assoc]
  · rintro ⟨hkind, rfl⟩
    rw [List.append_assoc]
    simp only [read?, Opcode.read?_bytes, Option.bind_eq_bind, Option.bind_some]
    rw [← hkind, Operand.read?_bytes]
    rfl

theorem length_of_read? {bytes rest : List UInt8} {i : Instruction}
    (h : read? bytes = some (i, rest)) : rest.length < bytes.length := by
  obtain ⟨-, rfl⟩ := read?_eq_some_iff.1 h
  have := List.length_pos_iff.2 (Opcode.bytes_ne_nil i.opcode)
  simp only [List.length_append]
  omega

theorem encode_eq_ok_iff {i : Instruction} {bytes : List UInt8} :
    i.encode = .ok bytes ↔ i.IsWellFormed ∧ bytes = i.opcode.bytes ++ i.operand.bytes := by
  unfold encode
  split <;> simp_all [eq_comm]

end Instruction

/-! ### Code -/

namespace Code

/-- The code that the bytes are, instruction by instruction. -/
def decode? (bytes : List UInt8) : Option Code :=
  if bytes = [] then some [] else
    match _read : Instruction.read? bytes with
    | none => none
    | some (i, rest) => (decode? rest).map (i :: ·)
termination_by bytes.length
decreasing_by exact Instruction.length_of_read? ‹_›

theorem encode_nil : encode [] = .ok [] := rfl

theorem encode_cons (i : Instruction) (c : Code) :
    encode (i :: c) = i.encode.bind fun front => c.encode.map (front ++ ·) := by
  simp only [encode, List.mapM_cons]
  cases i.encode with
  | error e => rfl
  | ok front => cases List.mapM Instruction.encode c <;> rfl

theorem encode_cons_eq_ok_iff {i : Instruction} {c : Code} {bytes : List UInt8} :
    encode (i :: c) = .ok bytes ↔ i.IsWellFormed ∧
      ∃ rest, c.encode = .ok rest ∧ bytes = i.opcode.bytes ++ i.operand.bytes ++ rest := by
  rw [encode_cons]
  cases hi : i.encode with
  | error e =>
    have refused : ¬ i.IsWellFormed := fun h => by
      rw [Instruction.encode_eq_ok_iff.2 ⟨h, rfl⟩] at hi
      cases hi
    simp [Except.bind, refused]
  | ok front =>
    obtain ⟨accepted, rfl⟩ := Instruction.encode_eq_ok_iff.1 hi
    cases c.encode <;> simp [Except.bind, Except.map, accepted, eq_comm]

/-- Encoding refuses code only for an operand of the wrong kind. -/
theorem encode_isOk_iff {c : Code} :
    (∃ bytes, c.encode = .ok bytes) ↔ ∀ i ∈ c, i.IsWellFormed := by
  induction c with
  | nil => simp [encode_nil]
  | cons i c ih =>
    simp only [encode_cons_eq_ok_iff, List.mem_cons, forall_eq_or_imp, ← ih]
    constructor
    · rintro ⟨bytes, accepted, rest, hrest, -⟩
      exact ⟨accepted, rest, hrest⟩
    · rintro ⟨accepted, rest, hrest⟩
      exact ⟨_, accepted, rest, hrest, rfl⟩

/-- The decoder undoes the encoder, and accepts nothing that it has not written. -/
theorem decode?_eq_some_iff {bytes : List UInt8} {c : Code} :
    decode? bytes = some c ↔ c.encode = .ok bytes := by
  induction c generalizing bytes with
  | nil =>
    rw [encode_nil, Except.ok.injEq, decode?]
    split
    case isTrue h => simp [h]
    case isFalse h => split <;> simp [Ne.symm h]
  | cons i c ih =>
    rw [encode_cons_eq_ok_iff, decode?]
    split
    case isTrue h => simp [h, Opcode.bytes_ne_nil i.opcode]
    case isFalse =>
      split
      case h_1 unread =>
        refine iff_of_false (by simp) ?_
        rintro ⟨accepted, rest, -, rfl⟩
        rw [Instruction.read?_eq_some_iff.2 ⟨accepted, rfl⟩] at unread
        cases unread
      case h_2 j rest read =>
        simp only [Option.map_eq_some_iff, List.cons.injEq]
        constructor
        · rintro ⟨d, hd, rfl, rfl⟩
          obtain ⟨accepted, hbytes⟩ := Instruction.read?_eq_some_iff.1 read
          exact ⟨accepted, rest, ih.1 hd, hbytes⟩
        · rintro ⟨accepted, rest', hrest, hbytes⟩
          rw [Instruction.read?_eq_some_iff.2 ⟨accepted, hbytes⟩] at read
          obtain ⟨rfl, rfl⟩ := Prod.mk.inj (Option.some.inj read)
          exact ⟨c, ih.2 hrest, rfl, rfl⟩

/-- Code has bytes exactly when every operand is of the kind that its opcode takes, and the bytes
have one reading: code of the same bytes is the same code. -/
theorem uniquely_decodable (c d : Code) (bytes : List UInt8) :
    ((∃ b, c.encode = .ok b) ↔ ∀ i ∈ c, i.operand.kind = i.opcode.operandKind) ∧
      (c.encode = .ok bytes → d.encode = .ok bytes → c = d) := by
  refine ⟨encode_isOk_iff, fun hc hd => ?_⟩
  have readC : decode? bytes = some c := decode?_eq_some_iff.2 hc
  have readD : decode? bytes = some d := decode?_eq_some_iff.2 hd
  exact Option.some.inj (readC.symm.trans readD)

/-- An operand may look like an opcode: here the index of the first instruction is the lead byte and
the token of the second ends in the bytes of the third. -/
theorem uniquely_decodable_mixed :
    let c : Code := [⟨.ldargS, .index 0xFE⟩, .onToken .call ⟨0x06, 0xFE06FE⟩, .onToken .ldftn ⟨0x06, 1⟩,
      .plain .ret]
    let bytes : List UInt8 := [0x0E, 0xFE, 0x28, 0xFE, 0x06, 0xFE, 0x06, 0xFE, 0x06, 0x01, 0x00, 0x00,
      0x06, 0x2A]
    c.encode = .ok bytes ∧ (∀ d : Code, d.encode = .ok bytes → c = d) ∧
      ∀ i ∈ c, i.operand.kind = i.opcode.operandKind := by
  intro c bytes
  have written : c.encode = .ok bytes := rfl
  exact ⟨written, fun d => (uniquely_decodable c d bytes).2 written,
    (uniquely_decodable c c bytes).1.1 ⟨bytes, written⟩⟩

end Code

end WeakSubscription
