import HtmlTemplate.Text.Basic
import HtmlTemplate.Number.Binary64
/-!
Decimal numerals: a sign, digits and a power of ten.  They are read from text, and rounded to the
nearest binary number.
-/

namespace HtmlTemplate

/-- A sign, and a magnitude that is `digits` times ten to the power `exponent`. -/
structure Decimal where
  negative : Bool
  digits : Nat
  exponent : Int
  deriving DecidableEq

/-- A leading sign, taken off a text; a text without one counts as positive. -/
def Text.takeSign : Text → Bool × Text
  | '-' :: rest => (true, rest)
  | '+' :: rest => (false, rest)
  | s => (false, s)

namespace Decimal

/-- The exponent part of a numeral: nothing, or the letter `e` and an integer. -/
def exponentOf? : Text → Option Int
  | [] => some 0
  | c :: rest =>
      if c = 'e' || c = 'E' then
        let (negative, digits) := Text.takeSign rest
        if !digits.isEmpty && digits.all Char.isDigit then
          let magnitude : Int := Text.digitsValue 10 digits
          some (if negative then -magnitude else magnitude)
        else none
      else none

/-- Reads a numeral: an optional sign, digits of which some may follow a point, and an optional
exponent.  There is a digit before the exponent. -/
def ofText? (s : Text) : Option Decimal :=
  let (negative, unsigned) := Text.takeSign s
  let whole := unsigned.takeWhile Char.isDigit
  let afterWhole := unsigned.dropWhile Char.isDigit
  let (fraction, afterFraction) :=
    match afterWhole with
    | '.' :: rest => (rest.takeWhile Char.isDigit, rest.dropWhile Char.isDigit)
    | rest => ([], rest)
  if whole.isEmpty && fraction.isEmpty then none
  else
    (exponentOf? afterFraction).map fun exponent =>
      ⟨negative, Text.digitsValue 10 (whole ++ fraction), exponent - fraction.length⟩

def width (d : Decimal) : Nat := (Text.ofNat d.digits).length

/-- The nearest binary number.  A magnitude of `10 ^ 310` or more is infinite, and one below
`10 ^ -330` rounds to zero, whatever the power of ten would cost to compute. -/
def round (d : Decimal) : Extended :=
  if d.digits = 0 then .finite (.zero d.negative)
  else if 310 < d.exponent + d.width then .infinite d.negative
  else if d.exponent + d.width < -330 then .finite (.zero d.negative)
  else if 0 ≤ d.exponent then .ofRatio d.negative (d.digits * Nat.pow 10 d.exponent.toNat) 1
  else .ofRatio d.negative d.digits (Nat.pow 10 (-d.exponent).toNat)

end Decimal

end HtmlTemplate
