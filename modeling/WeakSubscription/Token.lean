import WeakSubscription.Text.Padded

/-!
Metadata tokens. A token names a row of one of the metadata tables: eight bits of table and
twenty-four bits of row number. Rows count from one, so row zero names nothing.
-/

namespace WeakSubscription

inductive Table where
  | typeRef
  | typeDef
  | field
  | method
  | memberRef
  | typeSpec
  | methodSpec
  deriving DecidableEq

namespace Table

def id : Table → UInt8
  | typeRef => 0x01
  | typeDef => 0x02
  | field => 0x04
  | method => 0x06
  | memberRef => 0x0A
  | typeSpec => 0x1B
  | methodSpec => 0x2B

def all : List Table := [typeRef, typeDef, field, method, memberRef, typeSpec, methodSpec]

def ofId? (n : UInt8) : Option Table := all.find? (·.id == n)

theorem ofId?_id (t : Table) : ofId? t.id = some t := by cases t <;> rfl

theorem id_injective {s t : Table} (h : s.id = t.id) : s = t := by
  have := congrArg ofId? h
  simpa [ofId?_id] using this

end Table

/-- A row number, of twenty-four bits. -/
abbrev Row := Fin 0x1000000

/-- A table number and a row number. The table number may be one that no table has. -/
structure Token where
  table : UInt8
  row : Row
  deriving DecidableEq

namespace Token

/-- The token of a row, with the row number cut to twenty-four bits. -/
def ofParts (table : UInt8) (row : Nat) : Token := ⟨table, Fin.ofNat _ row⟩

def ofRow (t : Table) (row : Nat) : Token := ofParts t.id row

/-- The token that a 32-bit word stands for, the table in its highest byte. -/
def ofWord (w : UInt32) : Token := ofParts (UInt8.ofNat (w.toNat / 0x1000000)) w.toNat

def value (t : Token) : Nat := t.table.toNat * 0x1000000 + t.row.val

/-- The place of the row in its table, counted from zero. Row zero has no place. -/
def index? (t : Token) : Option Nat :=
  if t.row.val = 0 then none else some (t.row.val - 1)

def inTable (t : Token) (table : Table) : Bool := t.table == table.id

/-- The place of the row in the given table, if the token is one of that table. -/
def indexIn? (t : Token) (table : Table) : Option Nat :=
  if t.inTable table then t.index? else none

/-- The table of the token, if it is one that this library keeps. -/
def table? (t : Token) : Option Table := Table.ofId? t.table

def isNull (t : Token) : Bool := t.value == 0

/-- The token in hexadecimal, as listings and messages show it. -/
def text (t : Token) : String := "0x" ++ Text.hex 8 t.value

def spelled (t : Token) : String :=
  s!"Token({t.text}, table: 0x{Text.hex 2 t.table.toNat}, row: {t.row.val})"

/-- The four bytes of the token, lowest first. -/
def bytes (t : Token) : List UInt8 :=
  [UInt8.ofNat t.row.val, UInt8.ofNat (t.row.val / 0x100), UInt8.ofNat (t.row.val / 0x10000),
    t.table]

/-- The tokens in ascending order, each once. -/
def ascending (l : List Token) : List Token :=
  l.eraseDups.mergeSort (fun a b => decide (a.value ≤ b.value))

/-! ### Rows and places -/

theorem table_ofRow (t : Table) (n : Nat) : (ofRow t n).table = t.id := rfl

theorem inTable_ofRow (t : Table) (n : Nat) : (ofRow t n).inTable t = true := by
  simp [inTable, table_ofRow]

/-- The token of row `i + 1` leads back to place `i`, as long as the row number fits. -/
theorem indexIn?_ofRow {t : Table} {i : Nat} (h : i + 1 < 0x1000000) :
    (ofRow t (i + 1)).indexIn? t = some i := by
  have row : (ofRow t (i + 1)).row.val = i + 1 := Nat.mod_eq_of_lt h
  simp [indexIn?, inTable_ofRow, index?, row]

theorem table?_ofRow (t : Table) (n : Nat) : (ofRow t n).table? = some t := Table.ofId?_id t

example : (ofRow .method 1).text = "0x06000001" := by decide

example : (ofWord 0x06000001).spelled = "Token(0x06000001, table: 0x06, row: 1)" := by decide

end Token

end WeakSubscription
