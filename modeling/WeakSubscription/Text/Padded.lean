/-!
Numerals of a fixed least width: digits of a base, filled with zeros on the left. Tokens print in
hexadecimal and listing offsets in decimal.
-/

namespace WeakSubscription.Text

/-- The digits of `n` in `base`, with zeros in front up to `width`. A longer numeral is not cut. -/
def padded (base width n : Nat) : String :=
  String.ofList ((Nat.toDigits base n).leftpad width '0')

/-- Lower-case hexadecimal digits, at least `width` of them. -/
def hex (width n : Nat) : String := padded 16 width n

/-- Decimal digits, at least `width` of them. -/
def decimal (width n : Nat) : String := padded 10 width n

example : hex 8 0x0600000a = "0600000a" := by decide

example : decimal 4 12345 = "12345" := by decide

end WeakSubscription.Text
