import HtmlTemplate.Proofs.Expr.Agreement
import HtmlTemplate.Proofs.Expr.Plain
import HtmlTemplate.Proofs.Trim
/-!
Trimming an expression.  The blanks at the ends of what the grammar reads are gaps, and so an
expression is read the same without them.
-/

namespace HtmlTemplate

theorem isBlank_of_isGap {c : Char} (h : Reader.isGap c = true) : Text.isBlank c = true :=
  Literal.eq_of_isGap (by decide) c h

theorem isGap_of_isFree {inside : Bool} {c : Char} (h : isFree inside c = true)
    (hblank : Text.isBlank c = true) : Reader.isGap c = true := by
  simpa [isFree, hblank] using (Bool.and_eq_true_iff.mp h).2

namespace Reader

variable {c : Char} {s t : Text}

theorem trails_trimEnd_cons (hc : Text.isBlank c = true → isGap c = true)
    (h : Trails s.trimEnd s) : Trails (Text.trimEnd (c :: s)) (c :: s) := by
  obtain ⟨gap, hs, hgap⟩ := h
  cases hblank : Text.isBlankText (c :: s) with
  | true =>
      simp only [Text.isBlankText, List.all_cons, Bool.and_eq_true] at hblank
      rw [(Text.trimEnd_eq_nil_iff s).mpr hblank.2, List.nil_append] at hs
      have hall : Text.isBlankText (c :: s) = true := by simp [Text.isBlankText, hblank]
      refine ⟨c :: s, by rw [Text.trimEnd_cons_of_blank hall]; rfl, ?_⟩
      intro d hd
      rcases List.mem_cons.mp hd with rfl | hd
      · exact hc hblank.1
      · exact hgap d (hs ▸ hd)
  | false =>
      refine ⟨gap, ?_, hgap⟩
      rw [Text.trimEnd_cons_of_not_blank hblank, List.cons_append, ← hs]

theorem trails_trimEnd_append (hblank : Text.isBlankText t = false) (h : Trails t.trimEnd t) :
    Trails (Text.trimEnd (s ++ t)) (s ++ t) := by
  obtain ⟨gap, ht, hgap⟩ := h
  refine ⟨gap, ?_, hgap⟩
  rw [Text.trimEnd_append_of_not_blank hblank, List.append_assoc, ← ht]

end Reader

namespace Bracketing

open Reader

variable {inside : Bool} {s : Text} {bodies : List Text}

/-- The blanks at the beginning of a bracketed text are gaps. -/
theorem trimStart (h : Bracketing inside s bodies) :
    s.trimStart = skipGap s ∧ Bracketing inside (skipGap s) bodies := by
  have hstops {c : Char} {s : Text} (hblank : Text.isBlank c = false) :
      Text.trimStart (c :: s) = c :: s ∧ skipGap (c :: s) = c :: s := by
    have hgap : isGap c = false := by
      cases hgap : isGap c with
      | false => rfl
      | true => rw [isBlank_of_isGap hgap] at hblank; cases hblank
    exact ⟨by simp [Text.trimStart, hblank], skipGap_eq_self_of_head hgap⟩
  induction h with
  | nil => exact ⟨rfl, .nil⟩
  | @free inside s bodies c hc h ih =>
      cases hblank : Text.isBlank c with
      | true =>
          rw [skipGap_cons_gap (isGap_of_isFree hc hblank)]
          exact ⟨by simpa [Text.trimStart, hblank] using ih.1, ih.2⟩
      | false =>
          obtain ⟨htrim, hskip⟩ := hstops hblank (s := s)
          exact ⟨htrim.trans hskip.symm, by rw [hskip]; exact .free hc h⟩
  | @quoted inside s body bodies quote hquote hbody h _ =>
      have hblank : Text.isBlank quote = false := by rcases hquote with rfl | rfl <;> decide
      obtain ⟨htrim, hskip⟩ := hstops hblank (s := body ++ quote :: s)
      exact ⟨htrim.trans hskip.symm, by rw [hskip]; exact .quoted hquote hbody h⟩
  | @group inside s inner first second opening closing hpair hinner h _ _ =>
      have hblank : Text.isBlank opening = false := by cases hpair <;> decide
      obtain ⟨htrim, hskip⟩ := hstops hblank (s := inner ++ closing :: s)
      exact ⟨htrim.trans hskip.symm, by rw [hskip]; exact .group hpair hinner h⟩

/-- The blanks at the end of a bracketed text are gaps. -/
theorem trails_trimEnd (h : Bracketing inside s bodies) : Trails s.trimEnd s := by
  have hcloses {c : Char} {s t : Text} (hblank : Text.isBlank c = false) (h : Trails t.trimEnd t) :
      Trails (Text.trimEnd (s ++ c :: t)) (s ++ c :: t) := by
    refine trails_trimEnd_append (by simp [Text.isBlankText, hblank]) (trails_trimEnd_cons ?_ h)
    intro hc
    rw [hblank] at hc
    cases hc
  induction h with
  | nil => exact .refl []
  | free hc _ ih => exact trails_trimEnd_cons (isGap_of_isFree hc) ih
  | @quoted inside s body bodies quote hquote _ _ ih =>
      have hblank : Text.isBlank quote = false := by rcases hquote with rfl | rfl <;> decide
      exact hcloses hblank ih (s := quote :: body)
  | @group inside s inner first second opening closing hpair _ _ _ ih =>
      have hblank : Text.isBlank closing = false := by cases hpair <;> decide
      exact hcloses hblank ih (s := opening :: inner)

end Bracketing

namespace Expr

open Grammar Reader

/-- An expression is the same without the blanks around it. -/
theorem ofSource_trim {s : Text} {e : Expr} (h : ofSource s = .ok e) : ofSource s.trim = .ok e := by
  obtain ⟨⟨bodies, hbracketing⟩, -⟩ := bracketed_and_plain_of_ofSource h
  obtain ⟨rest, hread⟩ := read_of_ofSource h
  obtain ⟨-, left, hleft, hend⟩ := read_expression_eq_some_iff.mp hread
  obtain ⟨htrim, hskipped⟩ := hbracketing.trimStart
  have htrails : Trails (skipGap s.trim) (skipGap s) := by
    rw [← skipGap_skipGap s, Text.trim, htrim]
    exact hskipped.trails_trimEnd.skipGap
  have hlength : (skipGap s.trim).length < s.trim.length + 1 :=
    Nat.lt_succ_of_le (length_skipGap_le _)
  have hlength' : (skipGap s).length < s.length + 1 := Nat.lt_succ_of_le (length_skipGap_le _)
  have hmatches := expr_agree _ _ _ _ htrails hlength hlength'
  rw [hleft] at hmatches
  cases hmatches' : (expr (s.trim.length + 1) (skipGap s.trim)).read with
  | none =>
      rw [hmatches'] at hmatches
      cases hmatches
  | some found =>
      rw [hmatches'] at hmatches
      cases hmatches with
      | @some _ left' _ hgap _ _ =>
          obtain ⟨gap, rfl, -⟩ := hgap
          have hleft' : skipGap left' = [] := skipGap_eq_nil_iff.mpr fun c hc =>
            skipGap_eq_nil_iff.mp hend c (List.mem_append_left gap hc)
          exact ofSource_of_read (read_expression_eq_some_iff.mpr ⟨rfl, left', hmatches', hleft'⟩)

theorem not_blank_of_ofSource {s : Text} {e : Expr} (h : ofSource s = .ok e) :
    Text.isBlankText s = false := by
  apply Bool.eq_false_iff.mpr
  intro hblank
  have hempty : (ofSource []).isOk = false := by decide +kernel
  have htrim := ofSource_trim h
  rw [(Text.trim_eq_nil_iff s).mpr hblank] at htrim
  rw [htrim] at hempty
  cases hempty

end Expr

end HtmlTemplate
