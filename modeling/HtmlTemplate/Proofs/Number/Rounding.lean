import Mathlib.Algebra.Group.Nat.Defs
import HtmlTemplate.Number.Basic
/-!
Rounding to the nearest binary number.  Only the value of a decimal counts for it, not how the value
is split into digits and a power of ten; and the expansion of a binary number rounds to that number,
so that its shortest decimal does in any case.
-/

namespace HtmlTemplate

theorem nearestQuotient_mul_right (numerator denominator : Nat) {factor : Nat} (h : 0 < factor) :
    nearestQuotient (numerator * factor) (denominator * factor) =
      nearestQuotient numerator denominator := by
  have hbelow : 2 * (numerator % denominator * factor) < denominator * factor ↔
      2 * (numerator % denominator) < denominator := by
    rw [← Nat.mul_assoc]
    exact Nat.mul_lt_mul_right h
  have habove : denominator * factor < 2 * (numerator % denominator * factor) ↔
      denominator < 2 * (numerator % denominator) := by
    rw [← Nat.mul_assoc]
    exact Nat.mul_lt_mul_right h
  simp only [nearestQuotient, Nat.mul_div_mul_right _ _ h, Nat.mul_mod_mul_right, hbelow, habove]

theorem nearestQuotient_mul_self (quotient : Nat) {denominator : Nat} (h : 0 < denominator) :
    nearestQuotient (quotient * denominator) denominator = quotient := by
  simp only [nearestQuotient, Nat.mul_mod_left, Nat.mul_div_cancel _ h]
  simp [h]

theorem nearestCode_mul_right (numerator denominator : Nat) {factor : Nat} (h : 0 < factor) :
    nearestCode (numerator * factor) (denominator * factor) =
      nearestCode numerator denominator := by
  have hunits : numerator * factor * Binary64.unit = numerator * Binary64.unit * factor :=
    Nat.mul_right_comm ..
  have hshift (shift : Nat) : denominator * factor * Nat.pow 2 shift =
      denominator * Nat.pow 2 shift * factor := Nat.mul_right_comm ..
  simp only [nearestCode, hunits, hshift, Nat.mul_div_mul_right _ _ h,
    nearestQuotient_mul_right _ _ h]

theorem Extended.ofRatio_mul_right (negative : Bool) (numerator denominator : Nat) {factor : Nat}
    (h : 0 < factor) : ofRatio negative (numerator * factor) (denominator * factor) =
      ofRatio negative numerator denominator := by
  simp only [ofRatio, nearestCode_mul_right _ _ h]

namespace Text

theorem length_ofNat_le_iff {n k : Nat} (hk : 0 < k) : (ofNat n).length ≤ k ↔ n < 10 ^ k :=
  Nat.length_toDigits_le_iff (by decide) hk

theorem length_ofNat_pos (n : Nat) : 0 < (ofNat n).length := Nat.length_toDigits_pos

theorem length_ofNat_mul_pow {n : Nat} (hn : 0 < n) (k : Nat) :
    (ofNat (n * 10 ^ k)).length = (ofNat n).length + k := by
  have hpow : 0 < 10 ^ k := Nat.pow_pos (by decide)
  have hlength := length_ofNat_pos n
  apply Nat.le_antisymm
  · rw [length_ofNat_le_iff (by omega), Nat.pow_add]
    exact Nat.mul_lt_mul_of_pos_right ((length_ofNat_le_iff hlength).mp (Nat.le_refl _)) hpow
  · apply Nat.le_of_not_lt
    intro hlt
    have hscaled : n * 10 ^ k < 10 ^ ((ofNat n).length + k - 1) := by
      have := length_ofNat_pos (n * 10 ^ k)
      exact (length_ofNat_le_iff (by omega)).mp (by omega)
    by_cases hone : (ofNat n).length = 1
    · rw [hone, Nat.add_sub_cancel_left] at hscaled
      have := Nat.mul_le_mul_right (10 ^ k) hn
      omega
    · rw [show (ofNat n).length + k - 1 = (ofNat n).length - 1 + k by omega, Nat.pow_add] at hscaled
      have hn' := (length_ofNat_le_iff (k := (ofNat n).length - 1) (by omega)).mpr
        (Nat.lt_of_mul_lt_mul_right hscaled)
      omega

end Text

namespace Decimal

theorem width_mul_pow {digits : Nat} (hdigits : 0 < digits) (negative negative' : Bool)
    (exponent exponent' : Int) (k : Nat) :
    (Decimal.mk negative (digits * 10 ^ k) exponent).width =
      (Decimal.mk negative' digits exponent').width + k :=
  Text.length_ofNat_mul_pow hdigits k

theorem round_mul_pow (negative : Bool) (digits : Nat) (exponent : Int) (k : Nat) :
    (Decimal.mk negative (digits * 10 ^ k) (exponent - k)).round =
      (Decimal.mk negative digits exponent).round := by
  rcases Nat.eq_zero_or_pos digits with rfl | hdigits
  · simp [round]
  have hpow : 0 < 10 ^ k := Nat.pow_pos (by decide)
  have hscaled : digits * 10 ^ k ≠ 0 := Nat.pos_iff_ne_zero.mp (Nat.mul_pos hdigits hpow)
  have hwidth := width_mul_pow hdigits negative negative (exponent - k) exponent k
  have hplace : exponent - k + (Decimal.mk negative (digits * 10 ^ k) (exponent - k)).width =
      exponent + (Decimal.mk negative digits exponent).width := by
    rw [hwidth]
    omega
  simp only [round, hscaled, Nat.pos_iff_ne_zero.mp hdigits, if_false, hplace, Nat.pow_eq]
  split
  · rfl
  split
  · rfl
  -- A power of ten multiplies both values, or multiplies the one and divides the other, or divides
  -- both; each time the quotients differ by a common factor.
  by_cases hlow : 0 ≤ exponent - k
  · have hnat : exponent.toNat = k + (exponent - k).toNat := by omega
    rw [if_pos hlow, if_pos (by omega), hnat, Nat.pow_add, Nat.mul_assoc]
  rw [if_neg hlow]
  by_cases hhigh : 0 ≤ exponent
  · have hnat : k = exponent.toNat + (-(exponent - k)).toNat := by omega
    rw [if_pos hhigh]
    calc Extended.ofRatio negative (digits * 10 ^ k) (10 ^ (-(exponent - k)).toNat)
        = Extended.ofRatio negative
            (digits * 10 ^ exponent.toNat * 10 ^ (-(exponent - k)).toNat)
            (1 * 10 ^ (-(exponent - k)).toNat) := by
          rw [Nat.mul_assoc, ← Nat.pow_add, ← hnat, Nat.one_mul]
      _ = Extended.ofRatio negative (digits * 10 ^ exponent.toNat) 1 :=
          Extended.ofRatio_mul_right _ _ _ (Nat.pow_pos (by decide))
  · have hnat : (-(exponent - k)).toNat = (-exponent).toNat + k := by omega
    rw [if_neg hhigh, hnat, Nat.pow_add]
    exact Extended.ofRatio_mul_right _ _ _ hpow

theorem round_of_negative_exponent {d : Decimal} (hdigits : d.digits ≠ 0)
    (hhigh : d.exponent + d.width ≤ 310) (hlow : -330 ≤ d.exponent + d.width)
    (hexponent : d.exponent < 0) :
    d.round = .ofRatio d.negative d.digits (Nat.pow 10 (-d.exponent).toNat) := by
  rw [round, if_neg hdigits, if_neg (by omega), if_neg (by omega), if_neg (by omega)]

end Decimal

namespace Binary64

theorem unit_pos : 0 < unit := by decide +kernel

theorem nearestCode_scaled (x : Binary64) : nearestCode x.scaled unit = x.code := by
  have hsplit := Nat.div_add_mod x.code (2 ^ 52)
  have hfraction : x.code % 2 ^ 52 < 2 ^ 52 := Nat.mod_lt _ (by decide)
  rw [nearestCode, Nat.mul_div_cancel _ unit_pos]
  simp only [scaled, Nat.pow_eq]
  generalize x.code / 2 ^ 52 = exponent at hsplit ⊢
  generalize x.code % 2 ^ 52 = fraction at hsplit hfraction ⊢
  -- Below the smallest normal magnitude nothing is shifted; else the shift undoes that of `scaled`.
  by_cases hexponent : exponent = 0
  · have hlog : fraction.log2 - 52 = 0 := by
      rcases Nat.eq_zero_or_pos fraction with rfl | hpos
      · rfl
      · have := (Nat.log2_lt (Nat.pos_iff_ne_zero.mp hpos)).mpr hfraction
        omega
    rw [if_pos hexponent, hlog, Nat.pow_zero, Nat.mul_one, nearestQuotient_mul_self _ unit_pos]
    rw [hexponent] at hsplit
    omega
  · have hlog : ((2 ^ 52 + fraction) * 2 ^ (exponent - 1)).log2 - 52 = exponent - 1 := by
      have hvalue : ((2 ^ 52 + fraction) * 2 ^ (exponent - 1)).log2 = 52 + (exponent - 1) := by
        have hpos : 0 < 2 ^ (exponent - 1) := Nat.pow_pos (by decide)
        have hne : (2 ^ 52 + fraction) * 2 ^ (exponent - 1) ≠ 0 := by
          exact Nat.pos_iff_ne_zero.mp (Nat.mul_pos (by omega) hpos)
        rw [Nat.log2_eq_iff hne, Nat.pow_add, Nat.add_right_comm, Nat.pow_add (m := 52 + 1)]
        constructor
        · exact Nat.mul_le_mul_right _ (by omega)
        · exact Nat.mul_lt_mul_of_pos_right (by omega) hpos
      omega
    rw [if_neg hexponent, hlog, Nat.mul_assoc, Nat.mul_comm (2 ^ (exponent - 1)) unit,
      nearestQuotient_mul_self _ (Nat.mul_pos unit_pos (Nat.pow_pos (by decide)))]
    omega

theorem scaled_pos {x : Binary64} (h : x.code ≠ 0) : 0 < x.scaled := by
  have hsplit := Nat.div_add_mod x.code (2 ^ 52)
  simp only [scaled, Nat.pow_eq]
  split
  · next hexponent =>
      rw [hexponent] at hsplit
      omega
  · exact Nat.mul_pos (by omega) (Nat.pow_pos (by decide))

theorem scaled_lt (x : Binary64) : x.scaled < Nat.pow 2 2098 := by
  have hfraction : x.code % 2 ^ 52 < 2 ^ 52 := Nat.mod_lt _ (by decide)
  have hexponent : x.code / 2 ^ 52 < 2047 := by
    have := x.code_lt
    rw [infinityCode] at this
    omega
  have hlargest : 2 ^ 53 * Nat.pow 2 2045 = Nat.pow 2 2098 := by decide +kernel
  have hpow : Nat.pow 2 (x.code / 2 ^ 52 - 1) ≤ Nat.pow 2 2045 := by
    apply Nat.pow_le_pow_right (by decide)
    omega
  have hpos : 0 < Nat.pow 2 2045 := by decide +kernel
  rw [← hlargest]
  simp only [scaled, show Nat.pow 2 52 = 2 ^ 52 from rfl]
  generalize Nat.pow 2 2045 = largest at hpow hpos
  split
  · calc x.code % 2 ^ 52 < 2 ^ 52 * 1 := by omega
      _ ≤ 2 ^ 53 * largest := Nat.mul_le_mul (by decide) hpos
  · calc (2 ^ 52 + x.code % 2 ^ 52) * Nat.pow 2 (x.code / 2 ^ 52 - 1)
        ≤ (2 ^ 52 + x.code % 2 ^ 52) * largest := Nat.mul_le_mul_left _ hpow
      _ < 2 ^ 53 * largest := Nat.mul_lt_mul_of_pos_right (by omega) hpos

theorem width_expansion {x : Binary64} (h : x.code ≠ 0) :
    744 ≤ x.expansion.width ∧ x.expansion.width ≤ 1384 := by
  have hlow : 10 ^ 743 ≤ Nat.pow 5 1074 := by decide +kernel
  have hhigh : Nat.pow 2 2098 * Nat.pow 5 1074 ≤ 10 ^ 1384 := by decide +kernel
  have hpos : 0 < Nat.pow 5 1074 := by decide +kernel
  simp only [Decimal.width, expansion]
  generalize Nat.pow 5 1074 = fives at hlow hhigh hpos
  constructor
  · apply Nat.le_of_not_lt
    intro hlt
    have hdigits := (Text.length_ofNat_le_iff (k := 743) (by decide)).mp (Nat.le_of_lt_succ hlt)
    have hmultiple : 1 * fives ≤ x.scaled * fives := Nat.mul_le_mul_right _ (scaled_pos h)
    rw [Nat.one_mul] at hmultiple
    exact absurd (Nat.le_trans hlow hmultiple) (Nat.not_le.mpr hdigits)
  · refine (Text.length_ofNat_le_iff (by decide)).mpr ?_
    exact Nat.lt_of_lt_of_le (Nat.mul_lt_mul_of_pos_right (scaled_lt x) hpos) hhigh

theorem digits_expansion (x : Binary64) : x.expansion.digits = x.scaled * Nat.pow 5 1074 := rfl

theorem exponent_expansion (x : Binary64) : x.expansion.exponent = -1074 := rfl

theorem round_expansion {x : Binary64} (h : x.code ≠ 0) : x.expansion.round = .finite x := by
  obtain ⟨hlow, hhigh⟩ := width_expansion h
  have hten : Nat.pow 10 (-(-1074 : Int)).toNat = unit * Nat.pow 5 1074 := by decide +kernel
  have hfives : 0 < Nat.pow 5 1074 := by decide +kernel
  have hdigits : x.expansion.digits ≠ 0 := by
    rw [digits_expansion]
    exact Nat.pos_iff_ne_zero.mp (Nat.mul_pos (scaled_pos h) hfives)
  have hexponent := exponent_expansion x
  rw [Decimal.round_of_negative_exponent hdigits (by omega) (by omega) (by omega), hexponent,
    digits_expansion, hten, Extended.ofRatio_mul_right _ _ _ hfives, Extended.ofRatio]
  simp only [nearestCode_scaled, x.code_lt, dif_pos]
  rfl

/-- The shortest decimal reads back. -/
theorem round_shortest {x : Binary64} (h : x.code ≠ 0) : x.shortest.round = .finite x := by
  rw [shortest]
  cases hwithin : x.shortestWithin? 17 with
  | some d => exact round_of_shortestWithin? hwithin
  | none => exact round_expansion h

end Binary64

end HtmlTemplate
