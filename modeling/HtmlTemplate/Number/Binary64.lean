/-!
Finite binary floating-point numbers of 64 bits, held as a sign and the code of their magnitude.
Codes are ordered as the magnitudes are, so comparing two numbers compares integers, and rounding
a quotient to the nearest number is exact arithmetic on natural numbers.
-/

namespace HtmlTemplate

/-- The code of infinity, one more than that of the largest finite magnitude. -/
def infinityCode : Nat := 0x7FF0000000000000

/-- A finite number: its sign, and the 63 bits below the sign bit as a natural number. -/
structure Binary64 where
  negative : Bool
  code : Nat
  code_lt : code < infinityCode
  deriving DecidableEq

/-- What rounding may give: a finite number, or infinity of either sign. -/
inductive Extended where
  | finite (x : Binary64)
  | infinite (negative : Bool)
  deriving DecidableEq

namespace Binary64

/-- Magnitudes are multiples of the reciprocal of this number. -/
def unit : Nat := Nat.pow 2 1074

/-- The magnitude, as a multiple of the reciprocal of `unit`. -/
def scaled (x : Binary64) : Nat :=
  let exponent := x.code / Nat.pow 2 52
  let fraction := x.code % Nat.pow 2 52
  if exponent = 0 then fraction else (Nat.pow 2 52 + fraction) * Nat.pow 2 (exponent - 1)

def zero (negative : Bool) : Binary64 := ⟨negative, 0, by decide⟩

instance : Inhabited Binary64 := ⟨zero false⟩

def key (x : Binary64) : Int := if x.negative then -(x.code : Int) else x.code

def toInt? (x : Binary64) : Option Int :=
  if x.scaled % unit = 0 then
    let magnitude : Int := (x.scaled / unit : Nat)
    some (if x.negative then -magnitude else magnitude)
  else none

end Binary64

/-- The natural number nearest to a quotient; a half goes to the even neighbour. -/
def nearestQuotient (numerator denominator : Nat) : Nat :=
  let quotient := numerator / denominator
  let remainder := numerator % denominator
  if 2 * remainder < denominator then quotient
  else if denominator < 2 * remainder then quotient + 1
  else if quotient % 2 = 0 then quotient
  else quotient + 1

/-- The code nearest to a quotient, as if codes went on without bound.  The shift leaves a
quotient of at most 53 bits, and none for magnitudes below the first that needs 54. -/
def nearestCode (numerator denominator : Nat) : Nat :=
  let units := numerator * Binary64.unit
  let shift := (units / denominator).log2 - 52
  nearestQuotient units (denominator * Nat.pow 2 shift) + shift * Nat.pow 2 52

namespace Extended

def ofRatio (negative : Bool) (numerator denominator : Nat) : Extended :=
  let code := nearestCode numerator denominator
  if h : code < infinityCode then .finite ⟨negative, code, h⟩ else .infinite negative

def ofInt (n : Int) : Extended := ofRatio (decide (n < 0)) n.natAbs 1

def key : Extended → Int
  | .finite x => x.key
  | .infinite true => -(infinityCode : Int)
  | .infinite false => infinityCode

def finite? : Extended → Option Binary64
  | .finite x => some x
  | .infinite _ => none

end Extended

end HtmlTemplate
