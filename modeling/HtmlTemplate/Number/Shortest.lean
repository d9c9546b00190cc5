import HtmlTemplate.Number.Decimal
/-!
The decimal text of a binary number: the fewest digits that read back as the number, and of those
the nearest to it; a tie goes to the even last digit.
-/

namespace HtmlTemplate

namespace Binary64

/-- The two multiples of `10 ^ place` about a magnitude, each as its number of steps, the nearer
first. -/
def neighbours (x : Binary64) (place : Int) : List Nat :=
  let numerator := if 0 ≤ place then x.scaled else x.scaled * Nat.pow 10 (-place).toNat
  let denominator := if 0 ≤ place then unit * Nat.pow 10 place.toNat else unit
  let below := numerator / denominator
  let remainder := numerator % denominator
  if 2 * remainder < denominator || (2 * remainder = denominator && below % 2 = 0) then
    [below, below + 1]
  else [below + 1, below]

def readsBack (x : Binary64) (digits : Nat) (place : Int) : Bool :=
  (Decimal.mk x.negative digits place).round = .finite x

def leadingPlace (x : Binary64) : Int :=
  ((Text.ofNat (x.scaled * Nat.pow 10 400 / unit)).length : Int) - 401

/-- All digits of the number: a magnitude is a multiple of `10 ^ -1074`. -/
def expansion (x : Binary64) : Decimal := ⟨x.negative, x.scaled * Nat.pow 5 1074, -1074⟩

/-- The decimal of at most `count` digits that reads back with the fewest digits. -/
def shortestWithin? (x : Binary64) (count : Nat) : Option Decimal :=
  (List.range count).findSome? fun more =>
    let place := x.leadingPlace - (more : Nat)
    ((x.neighbours place).find? fun digits => x.readsBack digits place).map fun digits =>
      ⟨x.negative, digits, place⟩

/-- The shortest decimal that reads back.  Seventeen digits are always enough; were they not, the
full expansion would stand. -/
def shortest (x : Binary64) : Decimal := (x.shortestWithin? 17).getD x.expansion

theorem round_of_shortestWithin? {x : Binary64} {count : Nat} {d : Decimal}
    (h : x.shortestWithin? count = some d) : d.round = .finite x := by
  obtain ⟨more, -, hmore⟩ := List.exists_of_findSome?_eq_some h
  obtain ⟨digits, hdigits, rfl⟩ := Option.map_eq_some_iff.1 hmore
  have hback := List.find?_some hdigits
  simpa [readsBack] using hback

end Binary64

/-- Where positional writing begins and ends, by the power of ten of the first digit. -/
structure FloatLayout where
  positionalFrom : Int
  scientificFrom : Int

namespace FloatLayout

/-- Numbers from `0.00001` up to sixteen digits before the point are written out. -/
def plain : FloatLayout := ⟨-5, 16⟩

/-- Writes digits out in full, always with a point and a digit on both sides of it. -/
def positional (digits : Text) (place : Int) : Text :=
  if place < 0 then
    "0.".toList ++ List.replicate (-place - 1).toNat '0' ++ digits
  else
    let whole := place.toNat + 1
    if digits.length ≤ whole then
      digits ++ List.replicate (whole - digits.length) '0' ++ ".0".toList
    else digits.take whole ++ '.' :: digits.drop whole

/-- Writes one digit before the point, no point without a digit after it, and the power of ten
with its sign. -/
def scientific (digits : Text) (place : Int) : Text :=
  let fraction := if digits.length ≤ 1 then [] else '.' :: digits.drop 1
  let sign := if place < 0 then '-' else '+'
  digits.take 1 ++ fraction ++ 'e' :: sign :: Text.ofNat place.natAbs

/-- Writes a decimal, after dropping the zeros at the end of its digits. -/
def write (layout : FloatLayout) (d : Decimal) : Text :=
  let written := Text.ofNat d.digits
  let place := d.exponent + written.length - 1
  let digits := (written.reverse.dropWhile (· = '0')).reverse
  let magnitude :=
    if digits.isEmpty then "0.0".toList
    else if layout.positionalFrom ≤ place ∧ place < layout.scientificFrom then
      positional digits place
    else scientific digits place
  if d.negative then '-' :: magnitude else magnitude

end FloatLayout

def Binary64.render (x : Binary64) : Text :=
  if x.code = 0 then FloatLayout.plain.write ⟨x.negative, 0, 0⟩
  else FloatLayout.plain.write x.shortest

end HtmlTemplate
