import Easel.Numeric.Binary64

/-!
# Decimal numerals

The numerals of the script language: an optional sign, decimal digits with an optional point among
them (at least one digit in all), and an optional exponent. There are no names for infinity or NaN,
no digit separators and no other bases.

* `Decimal.parse?` — reads a numeral as an exact decimal number;
* `Decimal.toBinary64` — the double nearest to that number;
* `Decimal.finite?` — the double a text denotes, if it is a numeral and the double is finite.
-/

namespace Easel

/-- The number `± digits · 10 ^ exponent`. The sign is kept for zero as well. -/
structure Decimal where
  negative : Bool
  digits : Nat
  exponent : Int
deriving DecidableEq, Repr

namespace Decimal

/-! ### Reading -/

/-- Splits an optional sign off; `true` stands for a minus sign. -/
def splitSign : List Char → Bool × List Char
  | '-' :: rest => (true, rest)
  | '+' :: rest => (false, rest)
  | chars => (false, chars)

/-- The value of a decimal digit. It is only asked for characters that are digits. -/
def digitValue (c : Char) : Nat := c.toNat - '0'.toNat

/-- The number that digits stand for, the first one in the highest place; without digits it is
zero. -/
def ofDigits (digits : List Char) : Nat :=
  digits.foldl (fun value c => 10 * value + digitValue c) 0

/-- The exponent written by what follows the digits: nothing, or `e` or `E`, an optional sign and at
least one digit. -/
def exponent? : List Char → Option Int
  | [] => some 0
  | mark :: rest =>
    -- A mark without digits behind it is not left over as text: it makes the whole no numeral.
    let (negative, digits) := splitSign rest
    if (mark = 'e' ∨ mark = 'E') ∧ digits ≠ [] ∧ digits.all Char.isDigit then
      let value : Int := ofDigits digits
      some (if negative then -value else value)
    else none

/-- The digits behind a decimal point and what follows them; without a point there are none. -/
def splitFraction : List Char → List Char × List Char
  | '.' :: rest => (rest.takeWhile Char.isDigit, rest.dropWhile Char.isDigit)
  | chars => ([], chars)

/-- Reads a whole text as a numeral. Digits behind the point count toward the digits and lower the
exponent. -/
def parse? (chars : List Char) : Option Decimal :=
  let (negative, unsigned) := splitSign chars
  let whole := unsigned.takeWhile Char.isDigit
  let (fraction, rest) := splitFraction (unsigned.dropWhile Char.isDigit)
  -- A point alone has no digits on either side of it.
  if whole ++ fraction = [] then none
  else (exponent? rest).map fun exponent =>
    ⟨negative, ofDigits (whole ++ fraction), exponent - fraction.length⟩

/-! ### Nearest double -/

/-- The double nearest to the number, with its sign. Two exponents are settled without their powers
of ten: from `10 ^ 401` on every number rounds to infinity, and below `2 ^ -1075` every number
rounds to zero (`10 ^ e ≤ 8 ^ e` for a negative `e`). -/
def toBinary64 (d : Decimal) : Binary64 :=
  if d.digits = 0 then .zero d.negative
  -- Neither of these two needs its power of ten, however large the exponent is.
  else if 400 < d.exponent then .infinity d.negative
  else if 3 * d.exponent + d.digits.log2 + 1 ≤ -1075 then .zero d.negative
  else if 0 ≤ d.exponent then .ofRatio d.negative (d.digits * Nat.pow 10 d.exponent.toNat) 1
  else .ofRatio d.negative d.digits (Nat.pow 10 (-d.exponent).toNat)

/-- The double that a text denotes: `none` if the text is no numeral, or if the nearest double is
infinite. -/
def finite? (text : String) : Option Binary64 :=
  match parse? text.toList with
  | none => none
  | some d => if d.toBinary64.IsFinite then some d.toBinary64 else none

end Decimal

end Easel
