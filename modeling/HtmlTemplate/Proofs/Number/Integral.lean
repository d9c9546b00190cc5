import HtmlTemplate.Proofs.Number.Rounding
/-!
Integers as binary numbers.  An integer of at most 53 bits is a binary number itself, so that of the
numbers that are equal to it one tells which integer it is; a larger one is equal to large binary
numbers only.
-/

namespace HtmlTemplate

namespace Binary64

theorem pow_eq_unit {k : Nat} (h : k = 1074) : 2 ^ k = unit := by
  rw [h]
  decide +kernel

/-- The magnitude of a number by the parts of its code. -/
theorem scaled_mk (negative : Bool) {exponent fraction : Nat} (hfraction : fraction < 2 ^ 52)
    (h : (exponent + 1) * 2 ^ 52 + fraction < infinityCode) :
    (Binary64.mk negative ((exponent + 1) * 2 ^ 52 + fraction) h).scaled =
      (2 ^ 52 + fraction) * 2 ^ exponent := by
  have hexponent : ((exponent + 1) * 2 ^ 52 + fraction) / 2 ^ 52 = exponent + 1 := by omega
  have hrest : ((exponent + 1) * 2 ^ 52 + fraction) % 2 ^ 52 = fraction := by omega
  simp only [scaled, Nat.pow_eq, hexponent, hrest, Nat.add_sub_cancel]
  exact if_neg (Nat.succ_ne_zero exponent)

theorem exists_scaled_eq {n : Nat} (hn : n < 2 ^ 53) (negative : Bool) :
    ∃ x : Binary64, x.negative = negative ∧ x.scaled = n * unit := by
  rcases Nat.eq_zero_or_pos n with rfl | hpos
  · exact ⟨zero negative, rfl, by simp [scaled, zero]⟩
  · have hne := Nat.pos_iff_ne_zero.mp hpos
    obtain ⟨k, hk⟩ : ∃ k, n.log2 = k := ⟨_, rfl⟩
    obtain ⟨hlow, hhigh⟩ := (Nat.log2_eq_iff hne).mp hk
    have hle : k ≤ 52 := by
      have := (Nat.log2_lt hne).mpr hn
      omega
    -- The leading bit of the integer comes to the place of 2 ^ 52.
    have hsplit : 2 ^ k * 2 ^ (52 - k) = 2 ^ 52 := by rw [← Nat.pow_add, Nat.add_sub_of_le hle]
    have hshifted : 2 ^ 52 ≤ n * 2 ^ (52 - k) := hsplit ▸ Nat.mul_le_mul_right _ hlow
    have hbound : n * 2 ^ (52 - k) < 2 * 2 ^ 52 := by
      rw [← hsplit, ← Nat.mul_assoc, ← Nat.pow_succ']
      exact Nat.mul_lt_mul_of_pos_right hhigh (Nat.pow_pos (by decide))
    have hcode : (1022 + k + 1) * 2 ^ 52 + (n * 2 ^ (52 - k) - 2 ^ 52) < infinityCode := by
      rw [infinityCode]
      omega
    refine ⟨⟨negative, _, hcode⟩, rfl, ?_⟩
    rw [scaled_mk negative (by omega) hcode, Nat.add_sub_of_le hshifted, Nat.mul_assoc,
      ← Nat.pow_add, pow_eq_unit (by omega)]

theorem le_scaled_of_le_code {x : Binary64} (h : 1076 * 2 ^ 52 ≤ x.code) :
    2 ^ 53 * unit ≤ x.scaled := by
  obtain ⟨exponent, hexponent⟩ : ∃ exponent, x.code / 2 ^ 52 = exponent + 2 :=
    ⟨x.code / 2 ^ 52 - 2, by omega⟩
  have hunit : unit ≤ 2 ^ exponent := by
    obtain ⟨k, hk⟩ : ∃ k, k = 1074 := ⟨_, rfl⟩
    rw [← pow_eq_unit hk]
    exact Nat.pow_le_pow_right (by decide) (by omega)
  simp only [scaled, Nat.pow_eq, hexponent]
  rw [if_neg (by omega)]
  calc 2 ^ 53 * unit = 2 ^ 52 * (2 * unit) := by rw [Nat.pow_succ, Nat.mul_assoc]
    _ ≤ (2 ^ 52 + x.code % 2 ^ 52) * (2 * 2 ^ exponent) :=
        Nat.mul_le_mul (Nat.le_add_right _ _) (Nat.mul_le_mul_left 2 hunit)
    _ = (2 ^ 52 + x.code % 2 ^ 52) * 2 ^ (exponent + 2 - 1) := by
        rw [← Nat.pow_succ', Nat.add_sub_cancel (m := 1)]

theorem natAbs_key (x : Binary64) : x.key.natAbs = x.code := by
  rw [key]
  split <;> simp

theorem scaled_eq_of_key_eq {x y : Binary64} (h : x.key = y.key) : x.scaled = y.scaled := by
  have hcode : x.code = y.code := by rw [← natAbs_key, h, natAbs_key]
  simp only [scaled, hcode]

theorem negative_eq_of_key_eq {x y : Binary64} (h : x.key = y.key) (hscaled : x.scaled ≠ 0) :
    x.negative = y.negative := by
  have hcode : x.code ≠ 0 := by
    intro hzero
    simp [scaled, hzero] at hscaled
  simp only [key] at h
  cases hx : x.negative <;> cases hy : y.negative <;> simp [hx, hy] at h ⊢ <;> omega

theorem eq_of_key_eq {x y : Binary64} (h : x.key = y.key) (hscaled : x.scaled ≠ 0) : x = y := by
  have hcode : x.code = y.code := by rw [← natAbs_key, h, natAbs_key]
  have hnegative := negative_eq_of_key_eq h hscaled
  cases x
  cases y
  cases hcode
  cases hnegative
  rfl

theorem toInt?_eq_some_iff {x : Binary64} {n : Int} : x.toInt? = some n ↔
    x.scaled % unit = 0 ∧ (if x.negative then -((x.scaled / unit : Nat) : Int)
      else (x.scaled / unit : Nat)) = n := by
  rw [toInt?, Option.ite_none_right_eq_some, Option.some.injEq]

/-- A number that is an integer, whatever the sign of zero is. -/
theorem toInt?_of_scaled {x : Binary64} {n : Int} (h : x.scaled = n.natAbs * unit)
    (hsign : n ≠ 0 → x.negative = decide (n < 0)) : x.toInt? = some n := by
  rw [toInt?_eq_some_iff, h, Nat.mul_mod_left, Nat.mul_div_cancel _ unit_pos]
  refine ⟨rfl, ?_⟩
  by_cases hn : n = 0
  · rw [hn, Int.natAbs_zero, Int.natCast_zero, Int.neg_zero, ite_self]
  · rw [hsign hn]
    split
    · next hneg =>
        rw [decide_eq_true_eq] at hneg
        omega
    · next hpos =>
        rw [decide_eq_true_eq] at hpos
        omega

theorem scaled_of_toInt? {x : Binary64} {n : Int} (h : x.toInt? = some n) :
    x.scaled = n.natAbs * unit := by
  obtain ⟨hmod, heq⟩ := toInt?_eq_some_iff.mp h
  have habs : n.natAbs = x.scaled / unit := by
    rw [← heq]
    split
    · rw [Int.natAbs_neg, Int.natAbs_natCast]
    · rw [Int.natAbs_natCast]
  rw [habs, Nat.div_mul_cancel (Nat.dvd_of_mod_eq_zero hmod)]

end Binary64

theorem le_nearestQuotient (numerator denominator : Nat) :
    numerator / denominator ≤ nearestQuotient numerator denominator := by
  unfold nearestQuotient
  dsimp only
  split
  · exact Nat.le_refl _
  · split
    · exact Nat.le_succ _
    · split
      · exact Nat.le_refl _
      · exact Nat.le_succ _

/-- An integer of more than 53 bits is rounded to a multiple of two at least. -/
theorem le_nearestCode {n : Nat} (h : 2 ^ 53 ≤ n) : 1076 * 2 ^ 52 ≤ nearestCode n 1 := by
  have hunits : 2 ^ 53 * Binary64.unit ≤ n * Binary64.unit := Nat.mul_le_mul_right _ h
  have hne : n * Binary64.unit ≠ 0 := by
    have := Nat.mul_pos (Nat.lt_of_lt_of_le (by decide) h) Binary64.unit_pos
    omega
  rw [nearestCode, Nat.div_one]
  generalize n * Binary64.unit = units at hunits hne
  obtain ⟨k, hk⟩ : ∃ k, k = 1074 := ⟨_, rfl⟩
  rw [← Binary64.pow_eq_unit hk, ← Nat.pow_add] at hunits
  have hlog := (Nat.le_log2 hne).mpr hunits
  obtain ⟨shift, hshift⟩ : ∃ shift, units.log2 - 52 = shift := ⟨_, rfl⟩
  have hquotient : 2 ^ 52 ≤ units / 2 ^ shift := by
    rw [Nat.le_div_iff_mul_le (Nat.pow_pos (by decide)), ← Nat.pow_add]
    exact (Nat.le_log2 hne).mp (by omega)
  have hnearest := le_nearestQuotient units (1 * Nat.pow 2 shift)
  simp only [Nat.one_mul, Nat.pow_eq] at hnearest
  simp only [hshift, Nat.one_mul, Nat.pow_eq]
  omega

namespace Extended

theorem natAbs_key_ofInt (n : Int) :
    (ofInt n).key.natAbs = min (nearestCode n.natAbs 1) infinityCode := by
  rw [ofInt, ofRatio]
  split
  · next hcode => 
      rw [key, Binary64.natAbs_key, Nat.min_eq_left (Nat.le_of_lt hcode)]
  · next hcode =>
      rw [Nat.min_eq_right (by omega)]
      cases decide (n < 0) <;> rfl

/-- An integer of at most 53 bits is a binary number. -/
theorem exists_ofInt_eq {n : Int} (h : n.natAbs < 2 ^ 53) :
    ∃ x : Binary64, ofInt n = .finite x ∧ x.scaled = n.natAbs * Binary64.unit ∧
      x.negative = decide (n < 0) := by
  obtain ⟨x, hnegative, hscaled⟩ := Binary64.exists_scaled_eq h (decide (n < 0))
  have hcode : nearestCode n.natAbs 1 = x.code := by
    rw [← Binary64.nearestCode_scaled, hscaled,
      ← nearestCode_mul_right n.natAbs 1 Binary64.unit_pos, Nat.one_mul]
  refine ⟨x, ?_, hscaled, hnegative⟩
  rw [ofInt, ofRatio]
  simp only [hcode, x.code_lt, dif_pos]
  rw [← hnegative]

end Extended

namespace Number

variable {m n : Int} {x : Binary64}

/-- A fraction that is equal to an integer of at most 53 bits is that integer. -/
theorem toInt?_of_key_eq (hn : n.natAbs < 2 ^ 53) (h : (Number.int n).key = x.key) :
    x.toInt? = some n := by
  obtain ⟨y, hy, hscaled, hnegative⟩ := Extended.exists_ofInt_eq hn
  have hkey : y.key = x.key := by
    rw [← h, Number.key, toExtended, hy]
    rfl
  refine Binary64.toInt?_of_scaled (by rw [← Binary64.scaled_eq_of_key_eq hkey, hscaled]) ?_
  intro hne
  rw [← hnegative, Binary64.negative_eq_of_key_eq hkey]
  rw [hscaled]
  exact Nat.mul_ne_zero (Int.natAbs_ne_zero.mpr hne) (Nat.pos_iff_ne_zero.mp Binary64.unit_pos)

/-- A fraction that is equal to a larger integer is large. -/
theorem le_scaled_of_key_eq (hn : 2 ^ 53 ≤ n.natAbs) (h : (Number.int n).key = x.key) :
    2 ^ 53 * Binary64.unit ≤ x.scaled := by
  refine Binary64.le_scaled_of_le_code ?_
  have hcode := le_nearestCode hn
  have hinfinity : 1076 * 2 ^ 52 ≤ infinityCode := by decide
  rw [← Binary64.natAbs_key, ← h, Number.key, toExtended, Extended.natAbs_key_ofInt]
  exact Nat.le_min.mpr ⟨hcode, hinfinity⟩

/-- Integers of which one has at most 53 bits are equal as numbers only if they are the same. -/
theorem eq_of_key_eq (hm : m.natAbs < 2 ^ 53) (h : (Number.int m).key = (Number.int n).key) :
    m = n := by
  obtain ⟨y, hy, hscaled, -⟩ := Extended.exists_ofInt_eq hm
  have hkey : (Number.int m).key = y.key := by
    rw [Number.key, toExtended, hy]
    rfl
  have hother : (Number.int n).key = y.key := by rw [← h, hkey]
  have hsmall : n.natAbs < 2 ^ 53 := by
    refine Nat.lt_of_not_le fun hn => ?_
    have hlarge := le_scaled_of_key_eq hn hother
    rw [hscaled] at hlarge
    exact absurd (Nat.le_of_mul_le_mul_right hlarge Binary64.unit_pos) (Nat.not_le.mpr hm)
  have hint := toInt?_of_key_eq hm hkey
  rw [toInt?_of_key_eq hsmall hother] at hint
  exact (Option.some.inj hint).symm

end Number

end HtmlTemplate
