import HtmlTemplate.Proofs.Pipeline.Passage
/-!
Cutting a text that was put together from pieces.  Where the scan comes through each piece without
meeting a separator in code, outside of brackets, the pieces between the separators are these again.
-/

namespace HtmlTemplate

namespace Scan

variable {inside : Bool} {scan : Scan} {s : Text} {c quote : Char}

/-- In code, outside of all brackets. -/
structure AtTop (scan : Scan) : Prop where
  closing : scan.closing = none
  curly : scan.curly = 0
  square : scan.square = 0
  paren : scan.paren = 0

theorem atTop_start : start.AtTop := ⟨rfl, rfl, rfl, rfl⟩

theorem AtTop.isTop (h : scan.AtTop) : scan.isTop = true := by
  simp [Scan.isTop, h.curly, h.square, h.paren]

theorem AtTop.foldl (h : scan.AtTop) (hs : Passes inside s) : (s.foldl step scan).AtTop := by
  obtain ⟨hcurly, hsquare, hparen⟩ := hs.depth scan h.closing
  exact ⟨hs.closing scan h.closing, hcurly.trans h.curly, hsquare.trans h.square,
    hparen.trans h.paren⟩

theorem last_foldl_step (s : Text) (scan : Scan) :
    (s.foldl step scan).last = s.getLast?.or scan.last := by
  induction s generalizing scan with
  | nil => rfl
  | cons c s ih =>
      rw [List.foldl_cons, ih, List.getLast?_cons]
      cases s.getLast? <;> rfl

/-- No literal ends with a bar. -/
theorem closing_ne_bar (h : scan.closing ≠ some '|') : (s.foldl step scan).closing ≠ some '|' := by
  induction s generalizing scan with
  | nil => exact h
  | cons c s ih =>
      apply ih
      simp only [step, pass]
      split
      · split
        · simp
        · exact h
      · next hcode =>
          split
          · next hquote =>
              simp only [Bool.or_eq_true, decide_eq_true_eq] at hquote
              rcases hquote with (rfl | rfl) | rfl <;> simp
          · repeat' split
            all_goals simp [hcode]

theorem head?_ne_bar (hs : Passes inside s) : s.head? ≠ some '|' := by
  cases s with
  | nil => simp
  | cons c s =>
      have hguarded := (hs.guarded start rfl).1 rfl
      simpa using hguarded.bar

/-- A text that the scan comes through ends in no bar: in code it has none, and what ends a literal
is none. -/
theorem getLast?_ne_bar (hs : Passes inside s) : s.getLast? ≠ some '|' := by
  intro hlast
  obtain ⟨before, rfl⟩ := List.getLast?_eq_some_iff.mp hlast
  have hguarded := (always_append_iff.mp (hs.guarded start rfl)).2.1
  have hclosing := hs.closing start rfl
  rw [List.foldl_append, List.foldl_cons, List.foldl_nil] at hclosing
  cases hscan : (before.foldl step start).closing with
  | none => exact (hguarded hscan).bar rfl
  | some quote =>
      have hquote : quote ≠ '|' := by
        rintro rfl
        have hbar : (before.foldl step start).closing ≠ some '|' := closing_ne_bar (by decide)
        exact hbar hscan
      rw [closing_step_inside hscan (.inl hquote.symm)] at hclosing
      cases hclosing

end Scan

namespace Separator

open Scan

variable {sep : Separator} {scan : Scan} {piece rest : Text}

/-- No character of a text is a separator in code, outside of brackets. -/
def Quiet (sep : Separator) (scan : Scan) (s : Text) : Prop :=
  Always (fun scan c => c = sep.char → scan.closing = none → scan.isTop = false) scan s

theorem separates_eq_false {c : Char} {s : Text}
    (h : c = sep.char → scan.closing = none → scan.isTop = false) :
    sep.separates scan c s = false := by
  by_cases hc : c = sep.char
  · cases hscan : scan.closing with
    | none => simp [separates, h hc hscan]
    | some closing => simp [separates, inCode, hscan]
  · simp [separates, hc]

theorem cutFrom_append {first : Text} {others : List Text} (hpiece : sep.Quiet scan piece)
    (hrest : sep.cutFrom (piece.foldl step scan) rest = first :: others) :
    sep.cutFrom scan (piece ++ rest) = (piece ++ first) :: others := by
  induction piece generalizing scan with
  | nil => exact hrest
  | cons c piece ih =>
      have htail := ih hpiece.2 hrest
      rw [List.cons_append, cutFrom, separates_eq_false hpiece.1, htail]
      rfl

theorem cutFrom_of_quiet (hpiece : sep.Quiet scan piece) : sep.cutFrom scan piece = [piece] := by
  have hnil : sep.cutFrom (piece.foldl step scan) [] = [] :: [] := rfl
  simpa using cutFrom_append hpiece hnil

theorem cutFrom_append_separator (hpiece : sep.Quiet scan piece)
    (hsep : sep.separates (piece.foldl step scan) sep.char rest = true) :
    sep.cutFrom scan (piece ++ sep.char :: rest) =
      piece :: sep.cutFrom ((piece.foldl step scan).step sep.char) rest := by
  have hrest : sep.cutFrom (piece.foldl step scan) (sep.char :: rest) =
      [] :: sep.cutFrom ((piece.foldl step scan).step sep.char) rest := by
    rw [cutFrom, if_pos hsep]
  rw [cutFrom_append hpiece hrest, List.append_nil]

theorem atTop_step_separator (h : scan.AtTop) : (scan.step sep.char).AtTop := by
  cases sep <;> refine ⟨?_, ?_, ?_, ?_⟩ <;>
    simp [step, Scan.pass, char, h.closing, h.curly, h.square, h.paren]

/-- A piece that may stand between separators.  The scan comes through it, in brackets of any depth
where the separator is a bar, and that piece is not empty. -/
def Fits : Separator → Text → Prop
  | .comma, piece => Passes false piece
  | .pipe, piece => Passes true piece ∧ piece ≠ []

theorem Fits.quiet (h : sep.Fits piece) (hscan : scan.AtTop) : sep.Quiet scan piece := by
  cases sep with
  | pipe =>
      refine (h.1.guarded scan hscan.closing).imp fun scan c hguarded hc hcode => ?_
      exact absurd hc (hguarded hcode).bar
  | comma =>
      refine (Passes.guarded h scan hscan.closing).imp fun later c hguarded hc hcode => ?_
      apply Bool.eq_false_iff.mpr
      intro htop
      -- at the top as many brackets are open as at the beginning of the piece, which are none
      refine ((hguarded hcode).comma hc).elim Bool.noConfusion fun hdeeper => hdeeper ?_
      simp only [isTop, Bool.and_eq_true, decide_eq_true_eq] at htop
      have hdepth : SameDepth later scan := ⟨htop.1.1.trans hscan.curly.symm,
        htop.1.2.trans hscan.square.symm, htop.2.trans hscan.paren.symm⟩
      exact hdepth.within

theorem Fits.foldl (h : sep.Fits piece) (hscan : scan.AtTop) : (piece.foldl step scan).AtTop := by
  cases sep with
  | comma => exact hscan.foldl h
  | pipe => exact hscan.foldl h.1

theorem Fits.separates {next : Text} (h : sep.Fits piece) (hnext : sep.Fits next)
    (hscan : scan.AtTop) (rest : Text) :
    sep.separates (piece.foldl step scan) sep.char (next ++ rest) = true := by
  have htop := h.foldl hscan
  cases sep with
  | comma => simp [Separator.separates, inCode, htop.closing, htop.isTop]
  | pipe =>
      have hlast := getLast?_ne_bar h.1
      have hhead := head?_ne_bar hnext.1
      obtain ⟨c, next, rfl⟩ := List.exists_cons_of_ne_nil hnext.2
      obtain ⟨d, hd⟩ := Option.ne_none_iff_exists'.mp (mt List.getLast?_eq_none_iff.mp h.2)
      rw [hd] at hlast
      simp_all [Separator.separates, inCode, htop.closing, htop.isTop, last_foldl_step]

/-- The pieces between the separators are those that the text was put together from. -/
theorem cutFrom_intercalate {first : Text} {others : List Text} (hscan : scan.AtTop)
    (hfirst : sep.Fits first) (hothers : ∀ piece ∈ others, sep.Fits piece) :
    sep.cutFrom scan ([sep.char].intercalate (first :: others)) = first :: others := by
  induction others generalizing first scan with
  | nil =>
      rw [List.intercalate_singleton]
      exact cutFrom_of_quiet (hfirst.quiet hscan)
  | cons second others ih =>
      have hsecond := hothers second (List.mem_cons_self ..)
      have hstep : ((first.foldl step scan).step sep.char).AtTop :=
        atTop_step_separator (hfirst.foldl hscan)
      have hrest := ih hstep hsecond fun piece hmem =>
        hothers piece (List.mem_cons_of_mem second hmem)
      rw [List.intercalate_cons_cons, List.append_assoc, List.singleton_append,
        cutFrom_append_separator (hfirst.quiet hscan) ?_, hrest]
      cases others with
      | nil =>
          rw [List.intercalate_singleton, ← List.append_nil second]
          exact hfirst.separates hsecond hscan []
      | cons third others =>
          rw [List.intercalate_cons_cons, List.append_assoc]
          exact hfirst.separates hsecond hscan _

theorem exists_cut_cons (sep : Separator) (s : Text) :
    ∃ first others, sep.cut s = first :: others ∧
      s = [sep.char].intercalate (first :: others) := by
  obtain ⟨first, others, hcut⟩ := List.exists_cons_of_ne_nil (sep.cutFrom_ne_nil .start s)
  refine ⟨first, others, hcut, ?_⟩
  rw [← hcut]
  exact (sep.intercalate_cutFrom .start s).symm

theorem infix_intercalate {pieces : List Text} (h : piece ∈ pieces) (mark : Text) :
    piece <:+: mark.intercalate pieces := by
  induction pieces with
  | nil => cases h
  | cons first others ih =>
      cases others with
      | nil =>
          obtain rfl := List.mem_singleton.mp h
          exact ⟨[], [], by simp⟩
      | cons second others =>
          rw [List.intercalate_cons_cons]
          rcases List.mem_cons.mp h with rfl | h
          · rw [List.append_assoc]
            exact (List.prefix_append _ _).isInfix
          · exact (ih h).trans (List.suffix_append _ _).isInfix

/-- A piece is a part of the text that it is cut from. -/
theorem infix_of_mem_cutFrom (h : piece ∈ sep.cutFrom scan rest) : piece <:+: rest := by
  have hpiece := infix_intercalate h [sep.char]
  rwa [intercalate_cutFrom] at hpiece

end Separator

namespace Stage

open Scan

variable {scan : Scan} {s t group : Text}

theorem lastGroup?_append (h : lastGroup? (s.foldl step scan) t = some group) :
    lastGroup? scan (s ++ t) = some group := by
  induction s generalizing scan with
  | nil => exact h
  | cons c s ih => rw [List.cons_append, lastGroup?, ih h]

theorem lastGroup?_eq_none
    (h : Always (fun scan c => c = '(' → scan.closing = none → scan.paren ≠ 0) scan s) :
    lastGroup? scan s = none := by
  induction s generalizing scan with
  | nil => rfl
  | cons c s ih =>
      rw [lastGroup?, ih h.2]
      refine if_neg fun hopens => ?_
      simp only [inCode, Bool.and_eq_true, decide_eq_true_eq, Option.isNone_iff_eq_none] at hopens
      exact h.1 hopens.1.1 hopens.1.2 hopens.2

theorem lastGroup?_of_not_mem (h : '(' ∉ s) : lastGroup? scan s = none := by
  refine lastGroup?_eq_none (always_of_forall fun scan c hc heq => ?_)
  rw [heq] at hc
  exact absurd hc h

theorem upToClosing_append
    (h : Always (fun scan c => c = ')' → scan.closing = none → scan.paren ≠ 1) scan s)
    (hclosing : (s.foldl step scan).closing = none) (hparen : (s.foldl step scan).paren = 1) :
    upToClosing scan (s ++ ')' :: t) = s := by
  induction s generalizing scan with
  | nil => simp_all [upToClosing, inCode]
  | cons c s ih =>
      rw [List.cons_append, upToClosing, ih h.2 hclosing hparen]
      refine if_neg fun hcloses => ?_
      simp only [inCode, Bool.and_eq_true, decide_eq_true_eq, Option.isNone_iff_eq_none] at hcloses
      exact h.1 hcloses.1.1 hcloses.1.2 hcloses.2

theorem exists_upToClosing_append (scan : Scan) (s : Text) :
    ∃ after, s = upToClosing scan s ++ after ∧ (after = [] ∨ after.head? = some ')') := by
  induction s generalizing scan with
  | nil => exact ⟨[], rfl, .inl rfl⟩
  | cons c s ih =>
      rw [upToClosing]
      split
      · next hcloses =>
          simp only [Bool.and_eq_true, decide_eq_true_eq] at hcloses
          exact ⟨c :: s, rfl, .inr (congrArg some hcloses.1.1)⟩
      · obtain ⟨after, hs, hafter⟩ := ih (scan.step c)
        exact ⟨after, congrArg (c :: ·) hs, hafter⟩

/-- A group stands in its text after an opening parenthesis, up to a closing one or to the end. -/
theorem exists_of_lastGroup?_eq_some {scan : Scan} {s group : Text}
    (h : lastGroup? scan s = some group) : ∃ before after,
      s = before ++ '(' :: (group ++ after) ∧ (after = [] ∨ after.head? = some ')') := by
  induction s generalizing scan with
  | nil => cases h
  | cons c s ih =>
      rw [lastGroup?] at h
      split at h
      · next later hlater =>
          cases h
          obtain ⟨before, after, hs, hafter⟩ := ih hlater
          exact ⟨c :: before, after, congrArg (c :: ·) hs, hafter⟩
      · split at h
        · next hopens =>
            cases h
            simp only [Bool.and_eq_true, decide_eq_true_eq] at hopens
            obtain ⟨after, hs, hafter⟩ := exists_upToClosing_append (scan.step c) s
            refine ⟨[], after, ?_, hafter⟩
            rw [← hs, hopens.1.1, List.nil_append]
        · cases h

/-- A group that the scan comes through is the last one, unless there is another after it. -/
theorem lastGroup?_group {inner after : Text} (hscan : scan.AtTop) (hinner : Passes true inner)
    (hafter : '(' ∉ after) : lastGroup? scan ('(' :: (inner ++ ')' :: after)) = some inner := by
  obtain ⟨hopen, -⟩ := step_opening .paren hscan.closing
  have hdepth : (scan.step '(').paren = 1 := by simp [step, Scan.pass, hscan.closing, hscan.paren]
  have hguarded := hinner.guarded _ hopen
  have hno : lastGroup? (scan.step '(') (inner ++ ')' :: after) = none := by
    refine lastGroup?_eq_none (always_append_iff.mpr ⟨?_, ?_⟩)
    · refine hguarded.imp fun scan c h _ hcode hzero => ?_
      have hwithin := (h hcode).within.paren
      omega
    · refine always_of_forall fun scan c hc heq => ?_
      rw [heq] at hc
      rcases List.mem_cons.mp hc with hparen | hc
      · cases hparen
      · exact absurd hc hafter
  have hclosed : upToClosing (scan.step '(') (inner ++ ')' :: after) = inner := by
    refine upToClosing_append ?_ (hinner.closing _ hopen) ?_
    · refine hguarded.imp fun scan c h hc hcode hone => ?_
      have hparen := (h hcode).paren hc
      omega
    · rw [(hinner.depth _ hopen).paren, hdepth]
  rw [lastGroup?, hno]
  simp [inCode, hscan.closing, hscan.paren, hclosed]

end Stage

end HtmlTemplate
