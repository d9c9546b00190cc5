import HtmlTemplate.Number.Shortest
/-!
The numbers of template data: integers, and binary fractions.  Both kinds are compared through the
nearest binary number, so that `1` and `1.0` are equal although their texts differ.
-/

namespace HtmlTemplate

inductive Number where
  | int (n : Int)
  | float (x : Binary64)
  deriving DecidableEq, Inhabited

namespace Number

def toExtended : Number → Extended
  | .int n => .ofInt n
  | .float x => .finite x

def key (n : Number) : Int := n.toExtended.key

/-- The text of a number: digits for an integer, and at least one digit after the point, or a
power of ten, for a fraction. -/
def render : Number → Text
  | .int n => Text.ofInt n
  | .float x => x.render

def fitsWord (n : Int) : Bool := -(Nat.pow 2 63 : Int) ≤ n && n < (Nat.pow 2 63 : Int)

/-- The number that a literal of the expression language writes: an integer if it has neither
point nor exponent and fits a signed word, else the nearest finite fraction. -/
def ofLiteral? (s : Text) : Option Number :=
  (Decimal.ofText? s).bind fun d =>
    let value : Int := if d.negative then -(d.digits : Int) else d.digits
    if !(s.any fun c => c = '.' || c = 'e' || c = 'E') && fitsWord value then some (.int value)
    else d.round.finite?.map .float

/-- Structural sameness: integers and fractions differ, and the two zeros are the same. -/
def same : Number → Number → Bool
  | .int a, .int b => a = b
  | .float a, .float b => a.key = b.key
  | _, _ => false

theorem same_int_iff (m n : Int) : same (.int m) (.int n) = true ↔ m = n := by
  simp only [same, decide_eq_true_eq]

theorem same_float_iff (x y : Binary64) : same (.float x) (.float y) = true ↔ x.key = y.key := by
  simp only [same, decide_eq_true_eq]

theorem key_float (x : Binary64) : (Number.float x).key = x.key := rfl

theorem key_eq_of_same {a b : Number} (h : same a b = true) : a.key = b.key := by
  cases a with
  | int m =>
      cases b with
      | int n => rw [(same_int_iff m n).1 h]
      | float y => exact absurd h (by simp only [same, Bool.false_eq_true, not_false_iff])
  | float x =>
      cases b with
      | int n => exact absurd h (by simp only [same, Bool.false_eq_true, not_false_iff])
      | float y => rw [key_float, key_float, (same_float_iff x y).1 h]

end Number

end HtmlTemplate
