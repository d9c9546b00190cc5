import HtmlTemplate.Text.Bytes
import Mathlib.Data.List.Infix
/-!
The bytes of a text and its slices.  No byte of a character from 128 on is a character below 128.
There is a slice between two places just where they are in order, in the text and between
characters.
-/

namespace HtmlTemplate.Text

variable {s t before after : Text} {c : Char} {n start stop : Nat}

@[simp]
theorem bytes_nil : bytes [] = [] := rfl

@[simp]
theorem bytes_append (s t : Text) : bytes (s ++ t) = bytes s ++ bytes t := by
  rw [bytes, utf8_append, List.map_append, bytes, bytes]

theorem bytes_cons (c : Char) (s : Text) : bytes (c :: s) = bytes [c] ++ bytes s :=
  bytes_append [c] s

theorem length_bytes_singleton (c : Char) : (bytes [c]).length = c.utf8Size := by
  simp [bytes, utf8, String.length_utf8EncodeChar]

theorem bytes_eq_nil_iff : bytes s = [] ↔ s = [] := by
  rw [bytes, List.map_eq_nil_iff, utf8_eq_nil_iff]

theorem bytes_singleton_ne_nil (c : Char) : bytes [c] ≠ [] :=
  bytes_eq_nil_iff.not.mpr (List.cons_ne_nil c [])

theorem length_bytes_le_of_infix (h : s <:+: t) : (bytes s).length ≤ (bytes t).length := by
  obtain ⟨before, after, rfl⟩ := h
  simp only [bytes_append, List.length_append]
  omega

theorem toNat_ofUInt8 (byte : UInt8) : (Char.ofUInt8 byte).toNat = byte.toNat :=
  UInt8.toNat_toUInt32 byte

/-- A character below 128 is a byte. -/
theorem bytes_of_lt (h : c.toNat < 128) : bytes [c] = [c] := by
  have hle : c.toNat ≤ 127 := Nat.le_of_lt_succ h
  have hchar : Char.ofUInt8 (UInt8.ofNat c.toNat) = c := by
    apply Char.toNat_inj.mp
    rw [toNat_ofUInt8, UInt8.toNat_ofNat']
    exact Nat.mod_eq_of_lt (Nat.lt_of_le_of_lt hle (by decide))
  simp [bytes, utf8, String.utf8EncodeChar, hle, hchar]

/-- No byte of a character from 128 on is a character below 128. -/
theorem le_of_mem_bytes (h : 128 ≤ c.toNat) : ∀ b ∈ bytes [c], 128 ≤ b.toNat := by
  have hbyte (n : Nat) (hle : 128 ≤ n) (hlt : n < 256) :
      128 ≤ (Char.ofUInt8 (UInt8.ofNat n)).toNat := by
    rw [toNat_ofUInt8, UInt8.toNat_ofNat', Nat.mod_eq_of_lt hlt]
    exact hle
  have hle : ¬ c.toNat ≤ 127 := Nat.not_le.mpr h
  simp only [bytes, utf8, List.flatMap_cons, List.flatMap_nil, List.append_nil, List.forall_mem_map,
    String.utf8EncodeChar, Char.toNat_val, if_neg hle]
  have hlast : 128 ≤ (Char.ofUInt8 (UInt8.ofNat (c.toNat % 64 + 128))).toNat :=
    hbyte _ (by omega) (by omega)
  have hmiddle : 128 ≤ (Char.ofUInt8 (UInt8.ofNat (c.toNat / 64 % 64 + 128))).toNat :=
    hbyte _ (by omega) (by omega)
  repeat' split
  all_goals
    simp only [List.forall_mem_cons, List.not_mem_nil, false_implies, implies_true, and_true]
  · exact ⟨hbyte _ (by omega) (by omega), hlast⟩
  · exact ⟨hbyte _ (by omega) (by omega), hmiddle, hlast⟩
  · exact ⟨hbyte _ (by omega) (by omega), hbyte _ (by omega) (by omega), hmiddle, hlast⟩

/-! ### Places and slices -/

theorem splitAtByte?_append (s t : Text) :
    splitAtByte? (s ++ t) (bytes s).length = some (s, t) := by
  induction s with
  | nil => cases t <;> rfl
  | cons c s ih =>
      have hpos := c.utf8Size_pos
      have hlength : (bytes (c :: s)).length = c.utf8Size + (bytes s).length := by
        rw [bytes_cons, List.length_append, length_bytes_singleton]
      obtain ⟨n, hn⟩ : ∃ n, (bytes (c :: s)).length = n + 1 :=
        Nat.exists_eq_add_one.mpr (by omega)
      have hrest : n + 1 - c.utf8Size = (bytes s).length := by omega
      rw [hn, List.cons_append, splitAtByte?, if_pos (by omega), hrest, ih]
      rfl

theorem splitAtByte?_eq_some_iff :
    splitAtByte? s n = some (before, after) ↔ s = before ++ after ∧ (bytes before).length = n := by
  constructor
  · intro h
    fun_induction splitAtByte? s n generalizing before with
    | case1 s =>
        cases h
        exact ⟨rfl, rfl⟩
    | case2 => cases h
    | case3 c s n hle ih =>
        obtain ⟨⟨first, rest⟩, hcut, heq⟩ := Option.map_eq_some_iff.mp h
        cases heq
        obtain ⟨rfl, hlength⟩ := ih hcut
        refine ⟨rfl, ?_⟩
        rw [bytes_cons, List.length_append, length_bytes_singleton, hlength]
        omega
    | case4 => cases h
  · rintro ⟨rfl, rfl⟩
    exact splitAtByte?_append before after

theorem slice?_eq_some_iff : slice? s start stop = some t ↔
    ∃ before after, s = before ++ (t ++ after) ∧ (bytes before).length = start ∧
      (bytes (before ++ t)).length = stop := by
  rw [slice?, Option.bind_eq_some_iff]
  constructor
  · rintro ⟨⟨upTo, after⟩, hupTo, hpiece⟩
    obtain ⟨⟨before, piece⟩, hcut, rfl⟩ := Option.map_eq_some_iff.mp hpiece
    obtain ⟨rfl, hstop⟩ := splitAtByte?_eq_some_iff.mp hupTo
    obtain ⟨rfl, hstart⟩ := splitAtByte?_eq_some_iff.mp hcut
    exact ⟨before, after, List.append_assoc .., hstart, hstop⟩
  · rintro ⟨before, after, rfl, rfl, rfl⟩
    refine ⟨(before ++ t, after), ?_, ?_⟩
    · rw [← List.append_assoc, splitAtByte?_append]
    · simp only [splitAtByte?_append, Option.map_some]

/-- A text is sliced at the place of an occurrence. -/
theorem slice?_byteIndex? (h : c ∈ s) : ∃ place, byteIndex? c s = some place ∧
    slice? s 0 place = some (s.takeWhile (· ≠ c)) := by
  refine ⟨(bytes (s.takeWhile (· ≠ c))).length, if_pos h, slice?_eq_some_iff.mpr ?_⟩
  exact ⟨[], s.dropWhile (· ≠ c), List.takeWhile_append_dropWhile.symm, rfl, rfl⟩

/-- A place between two characters of a text, or at one of its ends. -/
def IsBoundary (s : Text) (n : Nat) : Prop :=
  ∃ before after, s = before ++ after ∧ (bytes before).length = n

theorem IsBoundary.le (h : s.IsBoundary n) : n ≤ (bytes s).length := by
  obtain ⟨before, after, rfl, rfl⟩ := h
  simp

/-- There is a slice where its places are in order, in the text and between characters, and nowhere
else. -/
theorem isSome_slice?_iff : (slice? s start stop).isSome = true ↔
    start ≤ stop ∧ stop ≤ (bytes s).length ∧ s.IsBoundary start ∧ s.IsBoundary stop := by
  rw [Option.isSome_iff_exists]
  constructor
  · rintro ⟨t, ht⟩
    obtain ⟨before, after, rfl, rfl, rfl⟩ := slice?_eq_some_iff.mp ht
    have hstop : (before ++ (t ++ after)).IsBoundary (bytes (before ++ t)).length :=
      ⟨before ++ t, after, (List.append_assoc ..).symm, rfl⟩
    exact ⟨by simp, hstop.le, ⟨before, t ++ after, rfl, rfl⟩, hstop⟩
  · rintro ⟨hle, -, ⟨before, rest, hs, rfl⟩, upTo, after, hs', rfl⟩
    rw [hs] at hs'
    -- of two places the one that comes first leaves the characters up to the other
    rcases List.append_eq_append_iff.mp hs' with ⟨t, rfl, rfl⟩ | ⟨t, rfl, rfl⟩
    · exact ⟨t, slice?_eq_some_iff.mpr ⟨before, after, hs, rfl, rfl⟩⟩
    · obtain rfl : t = [] := by
        rw [bytes_append, List.length_append] at hle
        exact bytes_eq_nil_iff.mp (List.length_eq_zero_iff.mp (by omega))
      refine ⟨[], slice?_eq_some_iff.mpr ⟨upTo, rest, ?_, ?_, ?_⟩⟩ <;> simp [hs]

end HtmlTemplate.Text
