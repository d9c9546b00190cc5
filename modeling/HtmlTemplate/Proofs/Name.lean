import HtmlTemplate.Proofs.Trim
/-!
Names.  They are made of letters, digits and two other marks, all below 128, and so have no blanks
to trim.
-/

namespace HtmlTemplate.Text

variable {name : Text} {c : Char}

theorem isNameChar_of_isNameStart (h : isNameStart c = true) : isNameChar c = true := by
  simp only [isNameStart, isNameChar, Char.isAlphanum, Bool.or_eq_true] at h ⊢
  rcases h with (h | h) | h
  · exact .inl (.inl (.inl h))
  · exact .inl (.inr h)
  · exact .inr h

theorem ne_nil_of_isName (h : isName name = true) : name ≠ [] := by
  rintro rfl
  cases h

theorem isNameChar_of_mem (h : isName name = true) (hc : c ∈ name) : isNameChar c = true := by
  cases name with
  | nil => cases hc
  | cons d more =>
      simp only [isName, Bool.and_eq_true, List.all_eq_true] at h
      rcases List.mem_cons.mp hc with rfl | hc
      · exact isNameChar_of_isNameStart h.1
      · exact h.2 c hc

theorem toNat_lt_of_isNameChar (h : isNameChar c = true) : c.toNat < 128 := by
  simp only [isNameChar, Char.isAlphanum, Bool.or_eq_true, decide_eq_true_eq] at h
  rcases h with ((halpha | hdigit) | rfl) | rfl
  · rcases isAlpha_iff.mp halpha with ⟨-, hle⟩ | ⟨-, hle⟩
    · exact Nat.lt_of_le_of_lt hle (by decide)
    · exact Nat.lt_of_le_of_lt hle (by decide)
  · exact toNat_lt_of_isDigit hdigit
  · decide
  · decide

theorem isBlank_of_isNameChar (h : isNameChar c = true) : isBlank c = false := by
  have hnot : (!isBlank c) = true :=
    of_toNat_lt (p := isNameChar) (q := fun c => !isBlank c) (by decide +kernel)
      (toNat_lt_of_isNameChar h) h
  simpa using hnot

theorem not_isBlank_of_mem_name (hname : isName name = true) (hc : c ∈ name) : isBlank c = false :=
  isBlank_of_isNameChar (isNameChar_of_mem hname hc)

theorem isBlankText_of_isName (hname : isName name = true) : isBlankText name = false := by
  cases name with
  | nil => cases hname
  | cons c more =>
      have hc := not_isBlank_of_mem_name hname (List.mem_cons_self ..)
      simp [isBlankText, hc]

theorem trim_of_isName (hname : isName name = true) : name.trim = name :=
  trim_eq_self fun _ hc => not_isBlank_of_mem_name hname hc

end HtmlTemplate.Text
