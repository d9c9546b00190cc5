import HtmlTemplate.Proofs.Expr.Plain
import HtmlTemplate.Proofs.Number.Rounding
/-!
Numerals by their parts.  The text of a number is a numeral, and reading that gives the number back.
-/

namespace HtmlTemplate

namespace Text

theorem foldl_digits (base : Nat) (digits : Text) (value : Nat) :
    digits.foldl (fun value c => value * base + hexValue c) value =
      value * base ^ digits.length + digitsValue base digits := by
  induction digits generalizing value with
  | nil => simp [digitsValue]
  | cons c digits ih =>
      have hrest : digitsValue base (c :: digits) =
          (0 * base + hexValue c) * base ^ digits.length + digitsValue base digits :=
        ih (0 * base + hexValue c)
      rw [List.foldl_cons, ih, hrest, List.length_cons, Nat.pow_succ, Nat.add_mul, Nat.mul_assoc,
        Nat.mul_comm base, Nat.zero_mul, Nat.zero_add, Nat.add_assoc]

theorem digitsValue_append (base : Nat) (s t : Text) :
    digitsValue base (s ++ t) = digitsValue base s * base ^ t.length + digitsValue base t := by
  rw [digitsValue, List.foldl_append, foldl_digits]
  rfl

theorem digitsValue_zero (base : Nat) : digitsValue base ['0'] = 0 := by
  simp [digitsValue, hexValue]

theorem digitsValue_replicate_zero (base k : Nat) :
    digitsValue base (List.replicate k '0') = 0 := by
  induction k with
  | zero => rfl
  | succ k ih =>
      rw [List.replicate_succ, ← List.singleton_append, digitsValue_append, digitsValue_zero, ih,
        Nat.zero_mul]

theorem isDigit_of_mem_ofNat {n : Nat} {c : Char} (h : c ∈ ofNat n) : c.isDigit = true :=
  Nat.isDigit_of_mem_toDigits (by decide) (by decide) h

theorem foldl_digits_eq_ofDigitChars {digits : Text} (h : ∀ c ∈ digits, c.isDigit = true)
    (value : Nat) : digits.foldl (fun value c => value * 10 + hexValue c) value =
      Nat.ofDigitChars 10 digits value := by
  induction digits generalizing value with
  | nil => rfl
  | cons c digits ih =>
      rw [List.foldl_cons, Nat.ofDigitChars_cons, ih fun d hd => h d (List.mem_cons_of_mem c hd),
        hexValue, if_pos (h c (by simp)), Nat.mul_comm]
      rfl

@[simp] theorem digitsValue_ofNat (n : Nat) : digitsValue 10 (ofNat n) = n := by
  rw [digitsValue, foldl_digits_eq_ofDigitChars fun c hc => isDigit_of_mem_ofNat hc]
  exact Nat.ofDigitChars_ten_toDigits

end Text

/-- A numeral by its parts: digits before the point, at least one, digits after it, and a power of
ten.  Where a part is missing its mark is not written. -/
structure Numeral where
  negative : Bool
  whole : Text
  fraction : Text
  power : Option Int
  whole_ne_nil : whole ≠ []
  isDigit_whole : ∀ c ∈ whole, c.isDigit = true
  isDigit_fraction : ∀ c ∈ fraction, c.isDigit = true

namespace Numeral

def fractionText (digits : Text) : Text := if digits = [] then [] else '.' :: digits

def powerText : Option Int → Text
  | none => []
  | some power => 'e' :: (if power < 0 then '-' else '+') :: Text.ofNat power.natAbs

def unsigned (n : Numeral) : Text := n.whole ++ (fractionText n.fraction ++ powerText n.power)

def text (n : Numeral) : Text := if n.negative then '-' :: n.unsigned else n.unsigned

def value (n : Numeral) : Decimal :=
  ⟨n.negative, Text.digitsValue 10 (n.whole ++ n.fraction), n.power.getD 0 - n.fraction.length⟩

def continues (c : Char) : Bool := c.isDigit || c = '.' || c = 'e' || c = 'E'

def EndsBefore (rest : Text) : Prop := rest.head?.any continues = false

theorem head_of_endsBefore {rest : Text} {p : Char → Bool} (h : EndsBefore rest)
    (hp : ∀ c, p c = true → continues c = true) : rest.head?.any p = false := by
  cases rest with
  | nil => rfl
  | cons c rest =>
      simp only [EndsBefore, List.head?_cons, Option.any_some] at h ⊢
      cases hc : p c with
      | false => rfl
      | true => rw [hp c hc] at h; cases h

theorem head_of_endsBefore_isDigit {rest : Text} (h : EndsBefore rest) :
    rest.head?.any Char.isDigit = false :=
  head_of_endsBefore h fun c hc => by simp [continues, hc]

theorem head_fractionText_append (fraction : Text) (power : Option Int) {rest : Text}
    (h : EndsBefore rest) :
    (fractionText fraction ++ (powerText power ++ rest)).head?.any Char.isDigit = false := by
  rw [fractionText]
  split
  · cases power with
    | none => exact head_of_endsBefore_isDigit h
    | some power => rfl
  · rfl

theorem head_powerText_append {rest : Text} (power : Option Int) (h : EndsBefore rest) :
    (powerText power ++ rest).head?.any Char.isDigit = false := by
  cases power with
  | none => exact head_of_endsBefore_isDigit h
  | some power => rfl

theorem endsBefore_nil : EndsBefore [] := rfl

/-! ### Numerals at the head of a text -/

theorem fraction_append {fraction rest : Text} (power : Option Int)
    (hfraction : ∀ c ∈ fraction, c.isDigit = true) (h : EndsBefore rest) :
    Literal.fraction (fractionText fraction ++ (powerText power ++ rest)) =
      (fractionText fraction, powerText power ++ rest) := by
  rw [fractionText]
  split
  · cases power with
    | none =>
        cases rest with
        | nil => rfl
        | cons c rest =>
            simp only [EndsBefore, continues, List.head?_cons, Option.any_some] at h
            simp only [powerText, List.nil_append, Literal.fraction]
            split
            · next heq =>
                cases heq
                cases h
            · rfl
    | some power => rfl
  · next hne =>
      have hdigits : Literal.digits? (fraction ++ (powerText power ++ rest)) =
          some (fraction, powerText power ++ rest) :=
        Literal.digits?_eq_some_iff.mpr ⟨rfl, hne, hfraction, head_powerText_append power h⟩
      simp only [List.cons_append, Literal.fraction, hdigits]

theorem exponent_append {rest : Text} (power : Option Int) (h : EndsBefore rest) :
    Literal.exponent (powerText power ++ rest) = (powerText power, rest) := by
  cases power with
  | none =>
      cases rest with
      | nil => rfl
      | cons c rest =>
          simp only [EndsBefore, continues, List.head?_cons, Option.any_some, Bool.or_eq_false_iff]
            at h
          simp [powerText, Literal.exponent, h]
  | some power =>
      have hdigits : Literal.digits? (Text.ofNat power.natAbs ++ rest) =
          some (Text.ofNat power.natAbs, rest) :=
        Literal.digits?_eq_some_iff.mpr ⟨rfl, Nat.toDigits_ne_nil,
          fun c hc => Text.isDigit_of_mem_ofNat hc, head_of_endsBefore_isDigit h⟩
      by_cases hpower : power < 0 <;>
        simp [powerText, Literal.exponent, Literal.exponentSign, hpower, hdigits]

theorem unsigned?_unsigned (n : Numeral) {rest : Text} (h : EndsBefore rest) :
    Literal.unsigned? (n.unsigned ++ rest) = some (n.unsigned, rest) := by
  have hdigits : Literal.digits? (n.unsigned ++ rest) =
      some (n.whole, fractionText n.fraction ++ (powerText n.power ++ rest)) := by
    refine Literal.digits?_eq_some_iff.mpr ⟨?_, n.whole_ne_nil, n.isDigit_whole, ?_⟩
    · simp [unsigned]
    · exact head_fractionText_append n.fraction n.power h
  refine Literal.unsigned?_eq_some_iff.mpr ⟨_, _, hdigits, ?_, ?_⟩
  · rw [fraction_append n.power n.isDigit_fraction h, exponent_append n.power h]
    simp [unsigned]
  · rw [fraction_append n.power n.isDigit_fraction h, exponent_append n.power h]

theorem exists_cons_of_unsigned (n : Numeral) :
    ∃ c more, n.unsigned = c :: more ∧ c.isDigit = true := by
  obtain ⟨c, more, hwhole⟩ := List.exists_cons_of_ne_nil n.whole_ne_nil
  refine ⟨c, more ++ (fractionText n.fraction ++ powerText n.power), ?_, ?_⟩
  · rw [unsigned, hwhole, List.cons_append]
  · exact n.isDigit_whole c (by simp [hwhole])

theorem ne_sign_of_isDigit {c : Char} (h : c.isDigit = true) : c ≠ '-' ∧ c ≠ '+' := by
  constructor <;> rintro rfl <;> exact absurd h (by decide)

/-- A numeral is read to its end where nothing goes on with it. -/
theorem numeral?_text (n : Numeral) {rest : Text} (h : EndsBefore rest) :
    Literal.numeral? (n.text ++ rest) = some (n.text, rest) := by
  have hunsigned := n.unsigned?_unsigned h
  rw [text]
  split
  · simp [Literal.numeral?, hunsigned]
  · obtain ⟨c, more, heq, hc⟩ := n.exists_cons_of_unsigned
    rw [heq] at hunsigned ⊢
    rw [List.cons_append] at hunsigned ⊢
    unfold Literal.numeral?
    split
    · next hminus =>
        cases hminus
        exact absurd rfl (ne_sign_of_isDigit hc).1
    · exact hunsigned

/-! ### Numerals as decimals -/

theorem takeSign_text (n : Numeral) : Text.takeSign n.text = (n.negative, n.unsigned) := by
  rw [text]
  cases hnegative : n.negative with
  | true => rfl
  | false =>
      obtain ⟨c, more, heq, hc⟩ := n.exists_cons_of_unsigned
      rw [if_neg (by decide), heq]
      unfold Text.takeSign
      split
      · next hminus =>
          cases hminus
          exact absurd rfl (ne_sign_of_isDigit hc).1
      · next hplus =>
          cases hplus
          exact absurd rfl (ne_sign_of_isDigit hc).2
      · rfl

theorem exponentOf?_minus {digits : Text} (hne : digits ≠ [])
    (hall : digits.all Char.isDigit = true) :
    Decimal.exponentOf? ('e' :: '-' :: digits) = some (-(Text.digitsValue 10 digits : Int)) := by
  simp [Decimal.exponentOf?, Text.takeSign, hne, hall]

theorem exponentOf?_plus {digits : Text} (hne : digits ≠ [])
    (hall : digits.all Char.isDigit = true) :
    Decimal.exponentOf? ('e' :: '+' :: digits) = some (Text.digitsValue 10 digits : Int) := by
  simp [Decimal.exponentOf?, Text.takeSign, hne, hall]

theorem exponentOf?_powerText (power : Option Int) :
    Decimal.exponentOf? (powerText power) = some (power.getD 0) := by
  cases power with
  | none => rfl
  | some power =>
      have hall : (Text.ofNat power.natAbs).all Char.isDigit = true := by
        rw [List.all_eq_true]
        intro c hc
        exact Text.isDigit_of_mem_ofNat hc
      have hne : Text.ofNat power.natAbs ≠ [] := Nat.toDigits_ne_nil
      rw [powerText, Option.getD_some]
      split
      · rw [exponentOf?_minus hne hall, Text.digitsValue_ofNat]
        congr 1
        omega
      · rw [exponentOf?_plus hne hall, Text.digitsValue_ofNat]
        congr 1
        omega

theorem ofText?_text (n : Numeral) : Decimal.ofText? n.text = some n.value := by
  obtain ⟨hwhole, hafter⟩ := Text.takeWhile_append_of_head n.isDigit_whole
    (head_fractionText_append n.fraction n.power endsBefore_nil)
  rw [List.append_nil] at hwhole hafter
  have hne := n.whole_ne_nil
  simp only [Decimal.ofText?, takeSign_text, unsigned, hwhole, hafter]
  by_cases hfraction : n.fraction = []
  · cases hpower : n.power with
    | none => simp [fractionText, powerText, hfraction, hne, hpower, Decimal.exponentOf?, value]
    | some power =>
        have hexponent := exponentOf?_powerText (some power)
        simp only [powerText] at hexponent
        simp [fractionText, powerText, hfraction, hne, hpower, hexponent, value]
  · obtain ⟨htake, hdrop⟩ := Text.takeWhile_append_of_head n.isDigit_fraction
      (head_powerText_append n.power endsBefore_nil)
    rw [List.append_nil] at htake hdrop
    simp [fractionText, hfraction, htake, hdrop, hne, exponentOf?_powerText, value]

/-! ### The texts of numbers -/

/-- A text that a numeral with a point or a power of ten writes but for its sign, so that the
numeral rounds as a decimal does. -/
def Writes (magnitude : Text) (d : Decimal) : Prop :=
  ∃ n : Numeral, n.unsigned = magnitude ∧ n.negative = d.negative ∧
    (n.fraction ≠ [] ∨ n.power ≠ none) ∧ n.value.round = d.round

theorem isDigit_of_mem_zero {c : Char} (h : c ∈ ['0']) : c.isDigit = true := by
  rw [List.mem_singleton.mp h]
  rfl

theorem writes_zero (negative : Bool) (exponent : Int) :
    Writes "0.0".toList ⟨negative, 0, exponent⟩ := by
  refine ⟨⟨negative, ['0'], ['0'], none, List.cons_ne_nil _ _, fun _ => isDigit_of_mem_zero,
    fun _ => isDigit_of_mem_zero⟩, rfl, rfl, ?_, ?_⟩
  · exact .inl (List.cons_ne_nil _ _)
  · simp [value, Text.digitsValue, Text.hexValue, Decimal.round]

theorem isDigit_of_mem_replicate {k : Nat} {c : Char} (h : c ∈ List.replicate k '0') :
    c.isDigit = true := by
  rw [List.eq_of_mem_replicate h]
  rfl

theorem writes_below_one (negative : Bool) {digits : Text} (hne : digits ≠ [])
    (hall : ∀ c ∈ digits, c.isDigit = true) (zeros : Nat) :
    Writes ("0.".toList ++ List.replicate zeros '0' ++ digits)
      ⟨negative, Text.digitsValue 10 digits, -(zeros + digits.length : Nat)⟩ := by
  let n : Numeral :=
    { negative
      whole := ['0']
      fraction := List.replicate zeros '0' ++ digits
      power := none
      whole_ne_nil := List.cons_ne_nil _ _
      isDigit_whole := fun _ => isDigit_of_mem_zero
      isDigit_fraction := by
        intro c hc
        rcases List.mem_append.mp hc with hc | hc
        · exact isDigit_of_mem_replicate hc
        · exact hall c hc }
  refine ⟨n, ?_, rfl, .inl (by simp [n, hne]), ?_⟩
  · simp [n, unsigned, fractionText, powerText, hne]
  · congr 1
    simp only [value, n, Text.digitsValue_append, Text.digitsValue_replicate_zero,
      Text.digitsValue_zero, Nat.zero_mul, Nat.zero_add, List.length_append,
      List.length_replicate, Option.getD_none, Decimal.mk.injEq, true_and]
    omega

theorem writes_integral (negative : Bool) {digits : Text} (hne : digits ≠ [])
    (hall : ∀ c ∈ digits, c.isDigit = true) (zeros : Nat) :
    Writes (digits ++ List.replicate zeros '0' ++ ".0".toList)
      ⟨negative, Text.digitsValue 10 digits, zeros⟩ := by
  let n : Numeral :=
    { negative
      whole := digits ++ List.replicate zeros '0'
      fraction := ['0']
      power := none
      whole_ne_nil := by simp [hne]
      isDigit_whole := by
        intro c hc
        rcases List.mem_append.mp hc with hc | hc
        · exact hall c hc
        · exact isDigit_of_mem_replicate hc
      isDigit_fraction := fun _ => isDigit_of_mem_zero }
  refine ⟨n, ?_, rfl, .inl (by simp [n]), ?_⟩
  · simp [n, unsigned, fractionText, powerText]
  · -- the zeros, and the one after the point, scale the digits
    rw [← Decimal.round_mul_pow negative (Text.digitsValue 10 digits) zeros (zeros + 1)]
    congr 1
    simp only [value, n, Text.digitsValue_append, Text.digitsValue_replicate_zero,
      Text.digitsValue_zero, List.length_replicate, List.length_singleton, Nat.add_zero,
      Nat.pow_succ, Nat.pow_zero, Nat.one_mul, Nat.mul_assoc, Option.getD_none,
      Decimal.mk.injEq, true_and]
    omega

/-- Digits with a point after some of them. -/
def pointed (negative : Bool) {digits : Text} (hne : digits ≠ [])
    (hall : ∀ c ∈ digits, c.isDigit = true) (before : Nat) (power : Option Int) : Numeral where
  negative
  whole := digits.take (before + 1)
  fraction := digits.drop (before + 1)
  power
  whole_ne_nil := by simp [hne]
  isDigit_whole := fun c hc => hall c (List.mem_of_mem_take hc)
  isDigit_fraction := fun c hc => hall c (List.mem_of_mem_drop hc)

theorem value_pointed (negative : Bool) {digits : Text} (hne : digits ≠ [])
    (hall : ∀ c ∈ digits, c.isDigit = true) (before : Nat) (power : Option Int) :
    (pointed negative hne hall before power).value =
      ⟨negative, Text.digitsValue 10 digits,
        power.getD 0 - (digits.length - (before + 1) : Nat)⟩ := by
  simp only [value, pointed, List.take_append_drop, List.length_drop]

theorem writes_positional (negative : Bool) {digits : Text} (hne : digits ≠ [])
    (hall : ∀ c ∈ digits, c.isDigit = true) (place : Int) :
    Writes (FloatLayout.positional digits place)
      ⟨negative, Text.digitsValue 10 digits, place + 1 - digits.length⟩ := by
  have hlength := List.length_pos_iff.mpr hne
  rw [FloatLayout.positional]
  split
  · have hexponent : -(((-place - 1).toNat + digits.length : Nat) : Int) =
        place + 1 - digits.length := by omega
    rw [← hexponent]
    exact writes_below_one negative hne hall _
  · dsimp only
    split
    · have hexponent : ((place.toNat + 1 - digits.length : Nat) : Int) =
          place + 1 - digits.length := by omega
      rw [← hexponent]
      exact writes_integral negative hne hall _
    · have hfraction : digits.drop (place.toNat + 1) ≠ [] := by
        simp only [ne_eq, List.drop_eq_nil_iff]
        omega
      refine ⟨pointed negative hne hall place.toNat none, ?_, rfl, .inl hfraction, ?_⟩
      · simp [pointed, unsigned, fractionText, powerText, hfraction]
      · rw [value_pointed, Option.getD_none]
        congr 2
        omega

theorem writes_scientific (negative : Bool) {digits : Text} (hne : digits ≠ [])
    (hall : ∀ c ∈ digits, c.isDigit = true) (place : Int) :
    Writes (FloatLayout.scientific digits place)
      ⟨negative, Text.digitsValue 10 digits, place + 1 - digits.length⟩ := by
  have hlength := List.length_pos_iff.mpr hne
  refine ⟨pointed negative hne hall 0 (some place), ?_, rfl, .inr (by simp [pointed]), ?_⟩
  · have hfraction : fractionText (digits.drop 1) =
        if digits.length ≤ 1 then [] else '.' :: digits.drop 1 := by
      simp only [fractionText, List.drop_eq_nil_iff]
    simp only [pointed, unsigned, Nat.zero_add, hfraction, powerText, FloatLayout.scientific,
      List.append_assoc]
  · rw [value_pointed, Option.getD_some]
    congr 2
    omega

theorem exists_replicate_zero (digits : Text) :
    ∃ k, digits = (digits.reverse.dropWhile (· = '0')).reverse ++ List.replicate k '0' := by
  refine ⟨(digits.reverse.takeWhile (· = '0')).length, ?_⟩
  have hzeros : digits.reverse.takeWhile (· = '0') =
      List.replicate (digits.reverse.takeWhile (· = '0')).length '0' := by
    refine List.eq_replicate_of_mem ?_
    intro c hc
    simpa using List.mem_takeWhile_imp hc
  rw [← List.reverse_replicate, ← hzeros, ← List.reverse_append, List.takeWhile_append_dropWhile,
    List.reverse_reverse]

theorem exists_numeral_of_write (d : Decimal) :
    ∃ n : Numeral, n.text = FloatLayout.plain.write d ∧ (n.fraction ≠ [] ∨ n.power ≠ none) ∧
      n.value.round = d.round := by
  obtain ⟨negative, value, exponent⟩ := d
  obtain ⟨k, hwritten⟩ := exists_replicate_zero (Text.ofNat value)
  rw [FloatLayout.write]
  dsimp only
  generalize ((Text.ofNat value).reverse.dropWhile (· = '0')).reverse = digits at hwritten ⊢
  have hvalue : value = Text.digitsValue 10 digits * 10 ^ k := by
    rw [← Text.digitsValue_ofNat value, hwritten, Text.digitsValue_append,
      Text.digitsValue_replicate_zero, List.length_replicate, Nat.add_zero]
  have hall : ∀ c ∈ digits, c.isDigit = true := by
    intro c hc
    refine Text.isDigit_of_mem_ofNat (n := value) ?_
    rw [hwritten]
    exact List.mem_append_left _ hc
  have hround : (Decimal.mk negative value exponent).round =
      (Decimal.mk negative (Text.digitsValue 10 digits) (exponent + k)).round := by
    rw [hvalue, ← Decimal.round_mul_pow negative _ (exponent + k) k, Int.add_sub_cancel]
  have hplace : exponent + (Text.ofNat value).length - 1 + 1 - digits.length = exponent + k := by
    rw [hwritten, List.length_append, List.length_replicate]
    omega
  have hwrites (magnitude : Text)
      (h : Writes magnitude ⟨negative, Text.digitsValue 10 digits, exponent + k⟩) :
      ∃ n : Numeral, n.text = (if negative then '-' :: magnitude else magnitude) ∧
        (n.fraction ≠ [] ∨ n.power ≠ none) ∧
        n.value.round = (Decimal.mk negative value exponent).round := by
    obtain ⟨n, hmagnitude, hnegative, hshape, hvalue⟩ := h
    refine ⟨n, ?_, hshape, hvalue.trans hround.symm⟩
    rw [text, hmagnitude, hnegative]
  apply hwrites
  by_cases hdigits : digits = []
  · rw [hdigits]
    exact writes_zero negative (exponent + k)
  rw [if_neg (by simpa using hdigits), ← hplace]
  split
  · exact writes_positional negative hdigits hall _
  · exact writes_scientific negative hdigits hall _

theorem exists_numeral_of_int (n : Int) :
    ∃ m : Numeral, m.text = Text.ofInt n ∧ m.value = ⟨decide (n < 0), n.natAbs, 0⟩ := by
  let m : Numeral :=
    { negative := decide (n < 0)
      whole := Text.ofNat n.natAbs
      fraction := []
      power := none
      whole_ne_nil := Nat.toDigits_ne_nil
      isDigit_whole := fun c hc => Text.isDigit_of_mem_ofNat hc
      isDigit_fraction := by simp }
  refine ⟨m, ?_, ?_⟩
  · simp [m, text, unsigned, fractionText, powerText, Text.ofInt]
  · simp [m, value]

/-- A numeral with a point or a power of ten shows it. -/
theorem any_mark_text (n : Numeral) (h : n.fraction ≠ [] ∨ n.power ≠ none) :
    n.text.any (fun c => c = '.' || c = 'e' || c = 'E') = true := by
  have hmark : ∃ c ∈ n.unsigned, (c = '.' || c = 'e' || c = 'E') = true := by
    rcases h with hfraction | hpower
    · refine ⟨'.', ?_, rfl⟩
      simp [Numeral.unsigned, Numeral.fractionText, hfraction]
    · obtain ⟨power, hpower⟩ := Option.ne_none_iff_exists'.mp hpower
      refine ⟨'e', ?_, rfl⟩
      simp [Numeral.unsigned, Numeral.powerText, hpower]
  obtain ⟨c, hmem, hc⟩ := hmark
  refine List.any_eq_true.mpr ⟨c, ?_, hc⟩
  rw [Numeral.text]
  split
  · exact List.mem_cons_of_mem _ hmem
  · exact hmem

end Numeral

namespace Text

theorem any_mark_ofInt (n : Int) :
    (ofInt n).any (fun c => c = '.' || c = 'e' || c = 'E') = false := by
  rw [List.any_eq_false]
  intro c hc
  have hdigit : c = '-' ∨ c.isDigit = true := by
    rw [ofInt] at hc
    split at hc
    · exact (List.mem_cons.mp hc).imp_right isDigit_of_mem_ofNat
    · exact .inr (isDigit_of_mem_ofNat hc)
  simp only [Bool.or_eq_true, decide_eq_true_eq, not_or]
  refine ⟨⟨?_, ?_⟩, ?_⟩ <;> rintro rfl <;> exact absurd hdigit (by decide)

theorem ofInt_inj {m n : Int} (h : ofInt m = ofInt n) : m = n := by
  obtain ⟨a, hm, hvalue⟩ := Numeral.exists_numeral_of_int m
  obtain ⟨b, hn, hvalue'⟩ := Numeral.exists_numeral_of_int n
  have hsame := a.ofText?_text
  rw [hm, h, ← hn, b.ofText?_text, hvalue, hvalue'] at hsame
  simp only [Option.some.injEq, Decimal.mk.injEq, decide_eq_decide] at hsame
  omega

end Text

namespace Number

/-- The text of a fraction is not that of an integer. -/
theorem render_float_ne_ofInt (x : Binary64) (n : Int) : x.render ≠ Text.ofInt n := by
  have hmark : x.render.any (fun c => c = '.' || c = 'e' || c = 'E') = true := by
    have hwrite (d : Decimal) :
        (FloatLayout.plain.write d).any (fun c => c = '.' || c = 'e' || c = 'E') = true := by
      obtain ⟨m, htext, hshape, -⟩ := Numeral.exists_numeral_of_write d
      rw [← htext]
      exact m.any_mark_text hshape
    rw [Binary64.render]
    split
    · exact hwrite _
    · exact hwrite _
  intro h
  rw [h, Text.any_mark_ofInt] at hmark
  cases hmark

theorem ofLiteral?_int {n : Int} (h : fitsWord n = true) :
    ofLiteral? (Text.ofInt n) = some (.int n) := by
  obtain ⟨m, htext, hvalue⟩ := Numeral.exists_numeral_of_int n
  have hdecimal := m.ofText?_text
  have hmarks := Text.any_mark_ofInt n
  have hsigned : (if n < 0 then -(n.natAbs : Int) else n.natAbs) = n := by omega
  rw [htext, hvalue] at hdecimal
  simp only [ofLiteral?, hdecimal, Option.bind_some, hmarks, decide_eq_true_eq, hsigned, h,
    Bool.not_false, Bool.true_and, if_true]

theorem ofLiteral?_float {x : Binary64} {n : Numeral} (hshape : n.fraction ≠ [] ∨ n.power ≠ none)
    (hround : n.value.round = .finite x) : ofLiteral? n.text = some (.float x) := by
  simp [ofLiteral?, n.ofText?_text, n.any_mark_text hshape, hround, Extended.finite?]

/-- The text of a number that a literal can write is a numeral, and stands for that number. -/
theorem exists_numeral_of_isLiteral {n : Number} (h : n.IsLiteral) :
    ∃ m : Numeral, m.text = n.render ∧ ofLiteral? m.text = some n := by
  cases n with
  | int n =>
      obtain ⟨m, htext, -⟩ := Numeral.exists_numeral_of_int n
      refine ⟨m, htext, ?_⟩
      rw [htext]
      exact ofLiteral?_int h
  | float x =>
      by_cases hcode : x.code = 0
      · obtain ⟨m, htext, hshape, hround⟩ :=
          Numeral.exists_numeral_of_write ⟨x.negative, 0, 0⟩
        refine ⟨m, ?_, ofLiteral?_float hshape (hround.trans ?_)⟩
        · rw [htext, render, Binary64.render, if_pos hcode]
        · obtain ⟨negative, code, hlt⟩ := x
          cases hcode
          rfl
      · obtain ⟨m, htext, hshape, hround⟩ := Numeral.exists_numeral_of_write x.shortest
        refine ⟨m, ?_, ofLiteral?_float hshape (hround.trans (Binary64.round_shortest hcode))⟩
        rw [htext, render, Binary64.render, if_neg hcode]

theorem exists_cons_of_render {n : Number} (h : n.IsLiteral) :
    ∃ c s, n.render = c :: s ∧ (c = '-' ∨ c.isDigit = true) := by
  obtain ⟨m, htext, -⟩ := exists_numeral_of_isLiteral h
  obtain ⟨c, s, hunsigned, hc⟩ := m.exists_cons_of_unsigned
  rw [← htext, Numeral.text]
  split
  · exact ⟨'-', _, rfl, .inl rfl⟩
  · exact ⟨c, s, hunsigned, .inr hc⟩

end Number

end HtmlTemplate
