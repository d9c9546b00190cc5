import HtmlTemplate.Text.Blank
/-!
Trimming.  A text is its trimmed form with blanks at both ends, and trimming does not see blanks
that are added there.
-/

namespace HtmlTemplate.Text

variable {s t : Text}

theorem isBlankText_append : isBlankText (s ++ t) = (isBlankText s && isBlankText t) :=
  List.all_append

theorem trimEnd_cons_of_blank {c : Char} (h : isBlankText (c :: s) = true) :
    trimEnd (c :: s) = [] :=
  (trimEnd_eq_nil_iff _).mpr h

theorem trimEnd_cons_of_not_blank {c : Char} (h : isBlankText (c :: s) = false) :
    trimEnd (c :: s) = c :: trimEnd s := by
  rw [trimEnd]
  split
  · next hnil =>
      have hs := (trimEnd_eq_nil_iff s).mp hnil
      have hc : (isBlank c && isBlankText s) = false := h
      rw [hs, Bool.and_true] at hc
      simp [hc, hnil]
  · rfl

theorem trimEnd_append_of_blank (h : isBlankText t = true) : trimEnd (s ++ t) = trimEnd s := by
  induction s with
  | nil => exact (trimEnd_eq_nil_iff t).mpr h
  | cons c s ih => rw [List.cons_append, trimEnd, trimEnd, ih]

theorem trimEnd_append_of_not_blank (h : isBlankText t = false) :
    trimEnd (s ++ t) = s ++ trimEnd t := by
  induction s with
  | nil => rfl
  | cons c s ih =>
      have hrest : isBlankText (c :: (s ++ t)) = false := by
        rw [← List.cons_append, isBlankText_append, h, Bool.and_false]
      rw [List.cons_append, trimEnd_cons_of_not_blank hrest, ih, List.cons_append]

theorem trimEnd_append_cons {mark : Char} (hmark : isBlank mark = false) :
    trimEnd (s ++ mark :: t) = s ++ mark :: trimEnd t := by
  have hblank : isBlankText (mark :: t) = false := by simp [isBlankText, hmark]
  rw [trimEnd_append_of_not_blank hblank, trimEnd_cons_of_not_blank hblank]

theorem trimStart_append_of_blank (h : isBlankText s = true) :
    trimStart (s ++ t) = trimStart t := by
  rw [trimStart, trimStart, List.dropWhile_append_of_pos fun c hc => List.all_eq_true.mp h c hc]

theorem trimStart_append_of_not_blank (h : isBlankText s = false) :
    trimStart (s ++ t) = trimStart s ++ t := by
  induction s with
  | nil => cases h
  | cons c s ih =>
      cases hc : isBlank c with
      | true =>
          have hs : isBlankText s = false := by simpa [isBlankText, hc] using h
          simpa [trimStart, hc] using ih hs
      | false => simp [trimStart, hc]

theorem exists_append_trimStart (s : Text) :
    ∃ before, isBlankText before = true ∧ s = before ++ trimStart s :=
  ⟨s.takeWhile isBlank, List.all_takeWhile, List.takeWhile_append_dropWhile.symm⟩

theorem exists_trimEnd_append (s : Text) :
    ∃ after, isBlankText after = true ∧ s = trimEnd s ++ after := by
  induction s with
  | nil => exact ⟨[], rfl, rfl⟩
  | cons c s ih =>
      cases hblank : isBlankText (c :: s) with
      | true => exact ⟨c :: s, hblank, by rw [trimEnd_cons_of_blank hblank, List.nil_append]⟩
      | false =>
          obtain ⟨after, hafter, hs⟩ := ih
          refine ⟨after, hafter, ?_⟩
          rw [trimEnd_cons_of_not_blank hblank, List.cons_append, ← hs]

theorem exists_trim (s : Text) : ∃ before after, isBlankText before = true ∧
    isBlankText after = true ∧ s = before ++ (trim s ++ after) := by
  obtain ⟨before, hbefore, hs⟩ := exists_append_trimStart s
  obtain ⟨after, hafter, htrim⟩ := exists_trimEnd_append (trimStart s)
  exact ⟨before, after, hbefore, hafter, hs.trans (congrArg (before ++ ·) htrim)⟩

theorem trim_infix (s : Text) : trim s <:+: s := by
  obtain ⟨before, after, -, -, hs⟩ := exists_trim s
  exact ⟨before, after, by rw [List.append_assoc, ← hs]⟩

theorem mem_trim_of_mem {c : Char} (h : c ∈ s) (hc : isBlank c = false) : c ∈ trim s := by
  obtain ⟨before, after, hbefore, hafter, hs⟩ := exists_trim s
  have hnot {t : Text} (ht : isBlankText t = true) : c ∉ t := by
    intro hmem
    rw [List.all_eq_true.mp ht c hmem] at hc
    cases hc
  rw [hs] at h
  rcases List.mem_append.mp h with h | h
  · exact absurd h (hnot hbefore)
  · rcases List.mem_append.mp h with h | h
    · exact h
    · exact absurd h (hnot hafter)

theorem trim_append_of_blank (h : isBlankText t = true) : trim (s ++ t) = trim s := by
  cases hs : isBlankText s with
  | true =>
      have hwhole : isBlankText (s ++ t) = true := by rw [isBlankText_append, hs, h]; rfl
      rw [(trim_eq_nil_iff _).mpr hwhole, (trim_eq_nil_iff _).mpr hs]
  | false =>
      rw [trim, trimStart_append_of_not_blank hs, trimEnd_append_of_blank h]
      rfl

theorem trim_append_of_blank_left (h : isBlankText s = true) : trim (s ++ t) = trim t := by
  rw [trim, trimStart_append_of_blank h]
  rfl

theorem trim_trim (s : Text) : trim (trim s) = trim s := by
  obtain ⟨before, after, hbefore, hafter, hs⟩ := exists_trim s
  have h := congrArg trim hs
  rw [trim_append_of_blank_left hbefore, trim_append_of_blank hafter] at h
  exact h.symm

theorem trim_trimStart (s : Text) : trim (trimStart s) = trim s := by
  obtain ⟨before, hbefore, hs⟩ := exists_append_trimStart s
  have h := congrArg trim hs
  rw [trim_append_of_blank_left hbefore] at h
  exact h.symm

theorem trim_trimEnd (s : Text) : trim (trimEnd s) = trim s := by
  obtain ⟨after, hafter, hs⟩ := exists_trimEnd_append s
  have h := congrArg trim hs
  rw [trim_append_of_blank hafter] at h
  exact h.symm

theorem trim_eq_self (h : ∀ c ∈ s, isBlank c = false) : trim s = s := by
  have hstart : trimStart s = s := by
    cases s with
    | nil => rfl
    | cons c s => simp [trimStart, h c (by simp)]
  rw [trim, hstart]
  clear hstart
  induction s with
  | nil => rfl
  | cons c s ih =>
      have hblank : isBlankText (c :: s) = false := by simp [isBlankText, h c (by simp)]
      rw [trimEnd_cons_of_not_blank hblank, ih fun d hd => h d (List.mem_cons_of_mem c hd)]

theorem trim_suffix_trimEnd (s : Text) : trim s <:+ trimEnd s := by
  obtain ⟨before, hbefore, hs⟩ := exists_append_trimStart s
  rw [hs, trim_append_of_blank_left hbefore, trim_trimStart]
  cases hblank : isBlankText (trimStart s) with
  | true =>
      have hnil : trim s = [] := by rw [← trim_trimStart, trim_eq_nil_iff, hblank]
      rw [hnil]
      exact List.nil_suffix
  | false =>
      rw [trimEnd_append_of_not_blank hblank]
      exact List.suffix_append before (trim s)

theorem trim_suffix_trim_append (s t : Text) : trim t <:+ trim (s ++ t) := by
  cases ht : isBlankText t with
  | true =>
      rw [(trim_eq_nil_iff t).mpr ht]
      exact List.nil_suffix
  | false =>
      cases hs : isBlankText s with
      | true =>
          exact (trim_append_of_blank_left hs).symm ▸ List.suffix_refl (trim t)
      | false =>
          have htrim : trim (s ++ t) = trimStart s ++ trimEnd t := by
            rw [trim, trimStart_append_of_not_blank hs, trimEnd_append_of_not_blank ht]
          rw [htrim]
          exact (trim_suffix_trimEnd t).trans (List.suffix_append _ _)

/-- What stands between texts that are not blank is not trimmed. -/
theorem mem_trim_append_cons {c : Char} (hs : isBlankText s = false) (ht : isBlankText t = false) :
    c ∈ trim (s ++ c :: t) := by
  have hrest : isBlankText (c :: t) = false := by
    rw [← List.singleton_append, isBlankText_append, ht, Bool.and_false]
  have htrim : trim (s ++ c :: t) = trimStart s ++ c :: trimEnd t := by
    rw [trim, trimStart_append_of_not_blank hs, trimEnd_append_of_not_blank hrest,
      trimEnd_cons_of_not_blank hrest]
  rw [htrim]
  exact List.mem_append_right _ (List.mem_cons_self ..)

/-- A text is trimmed already if it begins and ends in characters that are no blanks. -/
theorem trim_enclosed {first last : Char} (hfirst : isBlank first = false)
    (hlast : isBlank last = false) : trim (first :: (s ++ [last])) = first :: (s ++ [last]) := by
  have hstart : trimStart (first :: (s ++ [last])) = first :: s ++ [last] := by
    simp [trimStart, hfirst]
  rw [trim, hstart, trimEnd_append_cons hlast]
  rfl

/-- The text before a character that is no blank is trimmed at its beginning only. -/
theorem takeWhile_trim {before rest : Text} {mark : Char} (hmark : isBlank mark = false)
    (hbefore : mark ∉ before) :
    (trim (before ++ mark :: rest)).takeWhile (· ≠ mark) = trimStart before := by
  have htrim : trim (before ++ mark :: rest) = trimStart before ++ mark :: trimEnd rest := by
    rw [trim]
    cases hblank : isBlankText before with
    | true =>
        have hnil : trimStart before = [] := by
          rw [← List.append_nil before, trimStart_append_of_blank hblank]
          rfl
        have hself : trimStart (mark :: rest) = mark :: rest := by simp [trimStart, hmark]
        rw [trimStart_append_of_blank hblank, hnil, hself, ← List.nil_append (mark :: rest),
          trimEnd_append_cons hmark]
    | false => rw [trimStart_append_of_not_blank hblank, trimEnd_append_cons hmark]
  have hmem : ∀ c ∈ trimStart before, decide (c ≠ mark) = true := by
    intro c hc
    rw [decide_eq_true_eq]
    rintro rfl
    exact hbefore (List.dropWhile_subset _ hc)
  rw [htrim, List.takeWhile_append_of_pos hmem]
  simp

end HtmlTemplate.Text
