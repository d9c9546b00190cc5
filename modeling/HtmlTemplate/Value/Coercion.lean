import HtmlTemplate.Text.Blank
import HtmlTemplate.Value.Compact
/-!
How values stand in for one another: for a truth value, for a text, for a number, for the index of
a list and for the key of a map; and the two equalities that rest on this.
-/

namespace HtmlTemplate

/-- The integer of a fraction below `10 ^ 15` that has no fractional part. -/
def Number.displayedInt? : Number → Option Int
  | .int n => some n
  | .float x => x.toInt?.filter fun n => n.natAbs < Nat.pow 10 15

/-- The text of a number as templates show it: an integral fraction looks like an integer. -/
def Number.display (n : Number) : Text :=
  match n.displayedInt? with
  | some i => Text.ofInt i
  | none => n.render

namespace Value

/-- Null, false, zero and the empty text are not truthy; all else is. -/
def isTruthy : Value → Bool
  | .null => false
  | .bool b => b
  | .number n => n.key != 0
  | .string s => !s.isEmpty
  | .list _ | .map _ => true

def display : Value → Text
  | .null => []
  | .bool true => "true".toList
  | .bool false => "false".toList
  | .number n => n.display
  | .string s => s
  | .list items => (Value.list items).compact
  | .map entries => (Value.map entries).compact

/-- The number that a text writes, apart from blanks around it: a numeral, a spelling of infinity,
or nothing at all for zero. -/
def numberOfText? (s : Text) : Option Extended :=
  let trimmed := s.trim
  if trimmed.isEmpty then some (.finite (.zero false))
  else
    let (negative, unsigned) := Text.takeSign trimmed
    let word := Text.lower unsigned
    if word = "inf".toList || word = "infinity".toList then some (.infinite negative)
    else (Decimal.ofText? trimmed).map Decimal.round

def toNumber? : Value → Option Extended
  | .null => some (.finite (.zero false))
  | .bool b => some (.ofInt (if b then 1 else 0))
  | .number n => some n.toExtended
  | .string s => numberOfText? s
  | .list _ | .map _ => none

/-- Numbers are equal when their nearest binary numbers are; other values when they are the
same. -/
def strictEquals : Value → Value → Bool
  | .number a, .number b => a.key = b.key
  | a, b => same a b

/-- Null equals null alone, texts and collections are compared as they are, and any other pair as
the numbers that they stand for. -/
def looseEquals : Value → Value → Bool
  | .null, .null => true
  | .null, _ | _, .null => false
  | .string a, .string b => a = b
  | a, b =>
      if a.isScalar && b.isScalar then
        match a.toNumber?, b.toNumber? with
        | some x, some y => x.key = y.key
        | _, _ => false
      else same a b

/-- An index written as text: digits of a number below `2 ^ 64`, perhaps after a plus sign. -/
def indexOfText? (s : Text) : Option Nat :=
  let digits := (Text.after? ['+'] s).getD s
  let index := Text.digitsValue 10 digits
  if !digits.isEmpty && digits.all Char.isDigit && index < Nat.pow 2 64 then some index else none

/-- The position in a list that a value names. -/
def toIndex? : Value → Option Nat
  | .number (.int n) => if 0 ≤ n then some n.toNat else none
  | .string s => indexOfText? s
  | _ => none

def toKey (v : Value) : Text := v.display

end Value

end HtmlTemplate
