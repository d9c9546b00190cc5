/-!
Text as a list of code points, with the few cuts and searches that the readers of this library
share.  A reader over such a text is a recursion on its input, and what it leaves unread is a
suffix of it.
-/

namespace HtmlTemplate

abbrev Text := List Char

namespace Text

/-- What follows `lead` in a text that begins with it. -/
def after? : Text → Text → Option Text
  | [], s => some s
  | _ :: _, [] => none
  | c :: lead, d :: s => if c = d then after? lead s else none

theorem after?_append (lead s : Text) : after? lead (lead ++ s) = some s := by
  induction lead with
  | nil => rfl
  | cons c lead ih => simp [after?, ih]

theorem eq_append_of_after? {lead s rest : Text} (h : after? lead s = some rest) :
    s = lead ++ rest := by
  induction lead generalizing s with
  | nil => simpa [after?] using h
  | cons c lead ih =>
      cases s with
      | nil => simp [after?] at h
      | cons d s =>
          by_cases hcd : c = d
          · have hrest : after? lead s = some rest := by simpa [after?, hcd] using h
            rw [ih hrest, hcd]
            rfl
          · simp [after?, hcd] at h

/-- The text before the first occurrence of a non-empty `mark`, and the text after it. -/
def breakOn (mark : Text) : Text → Option (Text × Text)
  | [] => none
  | c :: rest =>
      match after? mark (c :: rest) with
      | some tail => some ([], tail)
      | none => (breakOn mark rest).map fun cut => (c :: cut.1, cut.2)

theorem eq_append_of_breakOn {mark s before tail : Text}
    (h : breakOn mark s = some (before, tail)) : s = before ++ (mark ++ tail) := by
  induction s generalizing before with
  | nil => simp [breakOn] at h
  | cons c s ih =>
      rw [breakOn] at h
      split at h
      · next rest hrest =>
          simp only [Option.some.injEq, Prod.mk.injEq] at h
          obtain ⟨rfl, rfl⟩ := h
          simpa using eq_append_of_after? hrest
      · obtain ⟨⟨b, t⟩, hcut, heq⟩ := Option.map_eq_some_iff.1 h
        simp only [Prod.mk.injEq] at heq
        obtain ⟨rfl, rfl⟩ := heq
        rw [ih hcut]
        rfl

theorem length_lt_of_breakOn {mark s before tail : Text} (hmark : mark ≠ [])
    (h : breakOn mark s = some (before, tail)) : tail.length < s.length := by
  have hpos : 0 < mark.length := List.length_pos_iff.2 hmark
  rw [eq_append_of_breakOn h]
  simp only [List.length_append]
  omega

/-- The pieces of a text between the characters that satisfy `p`: one more than there are such
characters. -/
def splitWhere (p : Char → Bool) : Text → List Text
  | [] => [[]]
  | c :: rest =>
      if p c then [] :: splitWhere p rest
      else
        match splitWhere p rest with
        | [] => [[c]]
        | piece :: pieces => (c :: piece) :: pieces

theorem splitWhere_ne_nil (p : Char → Bool) (s : Text) : splitWhere p s ≠ [] := by
  cases s with
  | nil => simp [splitWhere]
  | cons c s =>
      rw [splitWhere]
      split
      · simp
      · split <;> simp

theorem not_mem_of_mem_splitWhere {p : Char → Bool} {s piece : Text}
    (h : piece ∈ splitWhere p s) : ∀ c ∈ piece, p c = false := by
  induction s generalizing piece with
  | nil => simp_all [splitWhere]
  | cons d s ih =>
      rw [splitWhere] at h
      split at h
      · rcases List.mem_cons.1 h with rfl | h
        · simp
        · exact ih h
      · next hd =>
          split at h
          · simp_all
          · next first others hs =>
              rcases List.mem_cons.1 h with rfl | h
              · intro c hc
                rcases List.mem_cons.1 hc with rfl | hc
                · simpa using hd
                · exact ih (by simp [hs]) c hc
              · exact ih (by simp [hs, h])

/-- Splitting loses the separators and nothing else. -/
theorem flatten_splitWhere (p : Char → Bool) (s : Text) :
    (splitWhere p s).flatten = s.filter fun c => !p c := by
  induction s with
  | nil => rfl
  | cons c s ih =>
      rw [splitWhere]
      split
      · next hc => simp [ih, hc]
      · next hc =>
          rw [List.filter_cons_of_pos (by simp [hc]), ← ih]
          split
          · next hs => exact absurd hs (splitWhere_ne_nil p s)
          · next hs => rw [hs, List.flatten_cons, List.flatten_cons, List.cons_append]

def isNameChar (c : Char) : Bool := c.isAlphanum || c = '_' || c = '$'

/-- A character that may begin a name: a name character other than a digit. -/
def isNameStart (c : Char) : Bool := c.isAlpha || c = '_' || c = '$'

def isName : Text → Bool
  | [] => false
  | c :: rest => isNameStart c && rest.all isNameChar

theorem isAlpha_iff {c : Char} : c.isAlpha = true ↔
    ('A' ≤ c ∧ c ≤ 'Z') ∨ ('a' ≤ c ∧ c ≤ 'z') := by
  change (decide ('A' ≤ c ∧ c ≤ 'Z') || (decide ('a' ≤ c) && decide (c ≤ 'z'))) = true ↔ _
  simp only [Bool.or_eq_true, Bool.and_eq_true, decide_eq_true_eq]

theorem isLower_iff {c : Char} : c.isLower = true ↔ 'a' ≤ c ∧ c ≤ 'z' := by
  change (decide ('a' ≤ c) && decide (c ≤ 'z')) = true ↔ _
  simp only [Bool.and_eq_true, decide_eq_true_eq]

def isHexDigit (c : Char) : Bool :=
  c.isDigit || ('a' ≤ c && c ≤ 'f') || ('A' ≤ c && c ≤ 'F')

def hexValue (c : Char) : Nat :=
  if c.isDigit then c.toNat - 48
  else if 'a' ≤ c then c.toNat - 87
  else c.toNat - 55

/-- The number that a run of digits writes in the given base, most significant digit first. -/
def digitsValue (base : Nat) (digits : Text) : Nat :=
  digits.foldl (fun value c => value * base + hexValue c) 0

def ofNat (n : Nat) : Text := Nat.toDigits 10 n

/-- The decimal digits of an integer, after a minus sign where it is negative. -/
def ofInt (n : Int) : Text :=
  if n < 0 then '-' :: ofNat n.natAbs else ofNat n.natAbs

def lower (s : Text) : Text := s.map Char.toLower

/-- A run of characters, or bytes, of a class is cut off whole where none of them follows. -/
theorem takeWhile_append_of_head {α : Type} {p : α → Bool} {s t : List α} (hs : ∀ c ∈ s, p c = true)
    (ht : t.head?.any p = false) : (s ++ t).takeWhile p = s ∧ (s ++ t).dropWhile p = t := by
  rw [List.takeWhile_append_of_pos hs, List.dropWhile_append_of_pos hs]
  cases t with
  | nil => simp
  | cons c t =>
      have hc : p c = false := by simpa using ht
      simp [hc]

theorem toNat_lt_of_isLower {c : Char} (h : c.isLower = true) : c.toNat < 128 :=
  Nat.lt_of_le_of_lt (isLower_iff.mp h).2 (by decide)

theorem toNat_lt_of_isDigit {c : Char} (h : c.isDigit = true) : c.toNat < 128 := by
  simp only [Char.isDigit, Bool.and_eq_true, decide_eq_true_eq, UInt32.le_iff_toNat_le,
    ge_iff_le] at h
  change 48 ≤ c.toNat ∧ c.toNat ≤ 57 at h
  omega

theorem forall_eq_of_all {p : Char → Bool} {b : Bool} {s : Text} (h : s.all (p · == b) = true) :
    ∀ c ∈ s, p c = b := by
  simpa using h

/-- What holds of a class of characters below 128 is decided by looking at each of them. -/
theorem of_toNat_lt {p q : Char → Bool} {c : Char}
    (h : ∀ n < 128, p (Char.ofNat n) = true → q (Char.ofNat n) = true)
    (hlt : c.toNat < 128) (hc : p c = true) : q c = true := by
  rw [← Char.ofNat_toNat c] at hc ⊢
  exact h c.toNat hlt hc

end Text

end HtmlTemplate
