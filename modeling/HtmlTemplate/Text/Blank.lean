import HtmlTemplate.Text.Basic
/-!
Blank characters are those with the Unicode property White_Space.  A text is trimmed of them at
both ends, and its words are the runs between them.
-/

namespace HtmlTemplate.Text

/-- The characters of the Unicode property White_Space. -/
def isBlank (c : Char) : Bool :=
  let code := c.toNat
  (9 ≤ code && code ≤ 13) || code = 0x20 || code = 0x85 || code = 0xA0 || code = 0x1680 ||
    (0x2000 ≤ code && code ≤ 0x200A) || code = 0x2028 || code = 0x2029 || code = 0x202F ||
    code = 0x205F || code = 0x3000

def trimStart (s : Text) : Text := s.dropWhile isBlank

def trimEnd : Text → Text
  | [] => []
  | c :: rest =>
      match trimEnd rest with
      | [] => if isBlank c then [] else [c]
      | kept => c :: kept

def trim (s : Text) : Text := trimEnd (trimStart s)

def isBlankText (s : Text) : Bool := s.all isBlank

def words (s : Text) : List Text := (splitWhere isBlank s).filter fun piece => !piece.isEmpty

theorem trimEnd_eq_nil_iff (s : Text) : trimEnd s = [] ↔ isBlankText s = true := by
  induction s with
  | nil => simp [trimEnd, isBlankText]
  | cons c s ih =>
      rw [trimEnd]
      split
      · next h =>
          have hs := ih.1 h
          by_cases hc : isBlank c <;> simp_all [isBlankText]
      · next h =>
          have hs : ¬ isBlankText s = true := fun hb => h (ih.2 hb)
          simp_all [isBlankText]

theorem trim_eq_nil_iff (s : Text) : trim s = [] ↔ isBlankText s = true := by
  rw [trim, trimEnd_eq_nil_iff]
  induction s with
  | nil => simp [trimStart, isBlankText]
  | cons c s ih =>
      by_cases hc : isBlank c
      · simp_all [trimStart, isBlankText]
      · simp [trimStart, isBlankText, hc]

theorem ne_nil_of_mem_words {s word : Text} (h : word ∈ words s) : word ≠ [] := by
  intro hnil
  subst hnil
  simp [words] at h

theorem not_isBlank_of_mem_words {s word : Text} (h : word ∈ words s) :
    ∀ c ∈ word, isBlank c = false :=
  not_mem_of_mem_splitWhere (List.mem_filter.1 h).1

/-- The words of a text are all of it that is not blank, in its order. -/
theorem flatten_words (s : Text) : (words s).flatten = s.filter fun c => !isBlank c := by
  rw [words, List.flatten_filter_not_isEmpty, flatten_splitWhere]

theorem exists_mem_words {s : Text} {c : Char} (hmem : c ∈ s) (hc : isBlank c = false) :
    ∃ word ∈ words s, c ∈ word := by
  rw [← List.mem_flatten, flatten_words, List.mem_filter]
  exact ⟨hmem, by simp [hc]⟩

end HtmlTemplate.Text
