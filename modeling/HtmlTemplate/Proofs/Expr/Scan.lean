import HtmlTemplate.Proofs.Expr.Plain
/-!
The scan for pipes over the source of a single expression.  A scan that is in code at the beginning
of a quoted text is in code again after it, unless its body ends in a backslash.  Up to the first
such body no bar separates.
-/

namespace HtmlTemplate

namespace Scan

theorem closing_step_code {scan : Scan} {c : Char} (hscan : scan.closing = none)
    (hc : isCode c = true) : (scan.step c).closing = none := by
  simp only [isCode, Bool.and_eq_true, decide_eq_true_eq, ne_eq] at hc
  obtain ⟨⟨⟨⟨⟨hsingle, hdouble⟩, htick⟩, -⟩, hslash⟩, -⟩ := hc
  simp only [step, pass, hscan]
  simp only [hsingle, hdouble, htick, hslash, decide_false, Bool.or_false, Bool.false_and,
    Bool.false_eq_true, if_false]
  repeat' split
  all_goals simp [hscan]

theorem closing_step_quote {scan : Scan} {quote : Char} (hscan : scan.closing = none)
    (hquote : quote = '\'' ∨ quote = '"') : (scan.step quote).closing = some quote := by
  rcases hquote with rfl | rfl <;> simp [step, pass, hscan]

theorem closing_step_inside {scan : Scan} {quote c : Char} (hscan : scan.closing = some quote)
    (hc : c ≠ quote ∨ scan.last = some '\\') : (scan.step c).closing = some quote := by
  simp only [step, pass, hscan]
  rcases hc with hc | hlast
  · simp [hc, hscan]
  · simp [hlast, hscan]

theorem closing_step_end {scan : Scan} {quote : Char} (hscan : scan.closing = some quote)
    (hlast : scan.last ≠ some '\\') : (scan.step quote).closing = none := by
  simp [step, pass, hscan, hlast]

theorem foldl_step_rawBody {scan : Scan} {quote : Char} {body : Text} (hbody : RawBody quote body)
    (hquote : quote ≠ '\\') (hscan : scan.closing = some quote) :
    (body.foldl step scan).closing = some quote ∧
      (body.foldl step scan).last = body.getLast?.or scan.last := by
  induction hbody generalizing scan with
  | nil => exact ⟨hscan, rfl⟩
  | escape c _ ih =>
      have hfirst := closing_step_inside (c := '\\') hscan (.inl hquote.symm)
      have hsecond := closing_step_inside (c := c) hfirst (.inr rfl)
      obtain ⟨hclosing, hlast⟩ := ih hsecond
      refine ⟨hclosing, hlast.trans ?_⟩
      simp [List.getLast?_cons, step]
  | plain hc _ _ ih =>
      obtain ⟨hclosing, hlast⟩ := ih (closing_step_inside hscan (.inl hc))
      refine ⟨hclosing, hlast.trans ?_⟩
      simp [List.getLast?_cons, step]

end Scan

namespace Separator

def Uncut (scan : Scan) (s : Text) : Prop := cutFrom .pipe scan s = [s]

theorem uncut_nil (scan : Scan) : Uncut scan [] := rfl

theorem uncut_cons_iff {scan : Scan} {c : Char} {s : Text} :
    Uncut scan (c :: s) ↔ separates .pipe scan c s = false ∧ Uncut (scan.step c) s := by
  simp only [Uncut, cutFrom]
  cases hc : separates .pipe scan c s with
  | true => simp
  | false =>
      obtain ⟨piece, pieces, heq⟩ :=
        List.exists_cons_of_ne_nil (cutFrom_ne_nil .pipe (scan.step c) s)
      simp [heq]

theorem Uncut.cons {scan : Scan} {c : Char} {s : Text} (h : Uncut (scan.step c) s)
    (hc : separates .pipe scan c s = false) : Uncut scan (c :: s) :=
  uncut_cons_iff.mpr ⟨hc, h⟩

theorem separates_of_ne {scan : Scan} {c : Char} {s : Text} (hc : c ≠ '|') :
    separates .pipe scan c s = false := by
  simp [separates, char, hc]

theorem uncut_iff {scan : Scan} {s : Text} :
    Uncut scan s ↔ ∀ before after, s = before ++ '|' :: after →
      separates .pipe (before.foldl Scan.step scan) '|' after = false := by
  induction s generalizing scan with
  | nil => simp [uncut_nil]
  | cons c s ih =>
      rw [uncut_cons_iff, ih]
      constructor
      · rintro ⟨hc, h⟩ before after heq
        cases before with
        | nil =>
            cases heq
            exact hc
        | cons d before =>
            cases heq
            exact h before after rfl
      · intro h
        constructor
        · by_cases hc : c = '|'
          · exact hc ▸ h [] s (congrArg (· :: s) hc)
          · exact separates_of_ne hc
        · rintro before after rfl
          exact h (c :: before) after rfl

theorem separates_of_closing {scan : Scan} {quote c : Char} {s : Text}
    (hscan : scan.closing = some quote) : separates .pipe scan c s = false := by
  simp [separates, Scan.inCode, hscan]

theorem uncut_of_not_mem {scan : Scan} {s : Text} (h : '|' ∉ s) : Uncut scan s := by
  induction s generalizing scan with
  | nil => exact uncut_nil scan
  | cons c s ih =>
      simp only [List.mem_cons, not_or] at h
      exact (ih h.2).cons (separates_of_ne (Ne.symm h.1))

theorem Uncut.rawBody {scan : Scan} {quote : Char} {body s : Text} (hbody : RawBody quote body)
    (hquote : quote ≠ '\\') (hscan : scan.closing = some quote)
    (h : Uncut (body.foldl Scan.step scan) s) : Uncut scan (body ++ s) := by
  induction hbody generalizing scan with
  | nil => exact h
  | escape c _ ih =>
      have hfirst := Scan.closing_step_inside (c := '\\') hscan (.inl hquote.symm)
      have hsecond := Scan.closing_step_inside (c := c) hfirst (.inr rfl)
      have htail := (ih hsecond h).cons (c := c) (separates_of_closing hfirst)
      exact htail.cons (separates_of_closing hscan)
  | plain hc _ _ ih =>
      have htail := ih (Scan.closing_step_inside hscan (.inl hc)) h
      exact htail.cons (separates_of_closing hscan)

end Separator

namespace Quoting

theorem bar_not_mem {s : Text} {bodies : List Text} (h : Quoting s bodies)
    (hbodies : ∀ body ∈ bodies, '|' ∉ body) : '|' ∉ s := by
  induction h with
  | nil => simp
  | code hc _ ih =>
      intro hmem
      rcases List.mem_cons.mp hmem with rfl | hmem
      · exact absurd hc (by decide)
      · exact ih hbodies hmem
  | quoted hquote hbody _ ih =>
      have htail := ih fun body hmem => hbodies body (List.mem_cons_of_mem _ hmem)
      have hhead := hbodies _ (List.mem_cons_self ..)
      simp only [List.mem_cons, List.mem_append, not_or]
      refine ⟨?_, hhead, ?_, htail⟩ <;> rcases hquote with rfl | rfl <;> decide

/-- Where no body with a bar comes after one that ends in a backslash, no bar separates. -/
theorem uncut {s : Text} {bodies : List Text} (h : Quoting s bodies)
    (hbodies : bodies.Pairwise fun earlier later => earlier.getLast? = some '\\' → '|' ∉ later)
    {scan : Scan} (hscan : scan.closing = none) : Separator.Uncut scan s := by
  induction h generalizing scan with
  | nil => exact Separator.uncut_nil scan
  | code hc _ ih =>
      have htail := ih hbodies (Scan.closing_step_code hscan hc)
      refine htail.cons (Separator.separates_of_ne ?_)
      rintro rfl
      exact absurd hc (by decide)
  | @quoted s body bodies quote hquote hbody hs ih =>
      -- after a body that ends in a backslash the scan is lost, but there are no bars any more
      obtain ⟨hhead, htail⟩ := List.pairwise_cons.mp hbodies
      have hbar : quote ≠ '|' := by rcases hquote with rfl | rfl <;> decide
      have hback : quote ≠ '\\' := by rcases hquote with rfl | rfl <;> decide
      have hopen := Scan.closing_step_quote hscan hquote
      obtain ⟨hinside, hlast⟩ := Scan.foldl_step_rawBody hbody hback hopen
      have hrest : Separator.Uncut ((body.foldl Scan.step (scan.step quote)).step quote) s := by
        by_cases hend : body.getLast? = some '\\'
        · exact Separator.uncut_of_not_mem (hs.bar_not_mem fun later hmem => hhead later hmem hend)
        · refine ih htail (Scan.closing_step_end hinside ?_)
          rw [hlast]
          cases hbodyLast : body.getLast? with
          | none => simpa [Scan.step] using hback
          | some c =>
              rw [hbodyLast] at hend
              simpa using hend
      have hquoted := Separator.Uncut.rawBody hbody hback hopen
        (hrest.cons (Separator.separates_of_ne hbar))
      exact hquoted.cons (Separator.separates_of_ne hbar)

end Quoting

namespace Expr

theorem stages_eq_nil_iff {s : Text} :
    (Pipeline.ofSource s).stages = [] ↔ Separator.Uncut .start s := by
  have hpieces := Separator.intercalate_cutFrom .pipe .start s
  obtain ⟨first, others, heq⟩ :=
    List.exists_cons_of_ne_nil (Separator.cutFrom_ne_nil .pipe .start s)
  rw [Separator.Uncut, Pipeline.ofSource, Separator.cut, heq]
  rw [heq] at hpieces
  simp only [List.tail_cons, List.map_eq_nil_iff, List.cons.injEq]
  constructor
  · rintro rfl
    exact ⟨by simpa using hpieces, rfl⟩
  · exact And.right

theorem mapError_eq_ok_iff {ε ε' α : Type} {f : ε → ε'} {r : Except ε α} {a : α} :
    r.mapError f = .ok a ↔ r = .ok a := by
  cases r <;> simp [Except.mapError]

theorem parse_eq_ok_iff {s : Text} {e : Expr} :
    parse s = .ok e ↔ ofPipeline s.trim (.ofSource s.trim) = .ok e := by
  unfold parse
  exact mapError_eq_ok_iff

theorem ofPipeline_of_stages_eq_nil {s : Text} {pipeline : Pipeline}
    (h : pipeline.stages = []) : ofPipeline s pipeline = ofSource s := by
  unfold ofPipeline
  simp only [h]

theorem exists_filter_of_applyFilters (heads arguments : List Expr) (name : Text)
    (rest : List (Text × List Expr)) :
    ∃ filter piped, applyFilters heads name arguments rest = .filter filter piped := by
  unfold applyFilters
  generalize heads ++ arguments = piped
  induction rest generalizing name piped with
  | nil => exact ⟨name, piped, rfl⟩
  | cons stage rest ih => exact ih stage.1 _

/-- A pipeline with stages never comes to a plain expression. -/
theorem not_plain_of_stages {s : Text} {pipeline : Pipeline} {e : Expr}
    (hstages : pipeline.stages ≠ []) (h : ofPipeline s pipeline = .ok e) : ¬ Plain e := by
  intro hplain
  unfold ofPipeline at h
  cases hcases : pipeline.stages with
  | nil => exact hstages hcases
  | cons stage rest =>
      simp only [hcases] at h
      obtain ⟨heads, -, h⟩ := Outcome.bind_eq_ok_iff.mp h
      obtain ⟨arguments, -, h⟩ := Outcome.bind_eq_ok_iff.mp h
      obtain ⟨others, -, h⟩ := Outcome.bind_eq_ok_iff.mp h
      obtain ⟨filter, piped, heq⟩ :=
        exists_filter_of_applyFilters heads arguments stage.name others
      cases h
      rw [heq] at hplain
      cases hplain

/-- A source of a single expression is read as that expression exactly where the scan takes none of
its bars for a pipe.  That is so wherever no quoted text with a bar comes after one whose body ends
in a backslash. -/
theorem parse_eq_iff_of_ofSource {s : Text} {e : Expr} (h : ofSource s.trim = .ok e) :
    (parse s = .ok e ↔ ∀ before after, s.trim = before ++ '|' :: after →
      Separator.separates .pipe (before.foldl Scan.step .start) '|' after = false) ∧
    (∃ bodies, Quoting s.trim bodies) ∧
    ∀ bodies, Quoting s.trim bodies →
      (bodies.Pairwise fun earlier later => earlier.getLast? = some '\\' → '|' ∉ later) →
      parse s = .ok e := by
  obtain ⟨hquoted, hplain⟩ := quoted_and_plain_of_ofSource h
  have hiff : parse s = .ok e ↔ Separator.Uncut .start s.trim := by
    rw [parse_eq_ok_iff, ← stages_eq_nil_iff]
    constructor
    · intro hparse
      apply Classical.byContradiction
      intro hstages
      exact not_plain_of_stages hstages hparse hplain
    · intro hnil
      rw [ofPipeline_of_stages_eq_nil hnil, h]
  refine ⟨hiff.trans Separator.uncut_iff, hquoted, ?_⟩
  intro bodies hquoting hbodies
  exact hiff.mpr (hquoting.uncut hbodies rfl)

theorem parse_eq_iff_of_ofSource_bar :
    ∃ e, ofSource (Text.trim "'a|b' == x".toList) = .ok e ∧ parse "'a|b' == x".toList = .ok e := by
  have h : (ofSource (Text.trim "'a|b' == x".toList)).toOption.isSome = true := by decide +kernel
  obtain ⟨e, hread⟩ := Option.isSome_iff_exists.mp h
  have hsource := Outcome.eq_ok_of_toOption hread
  have hstages : (Pipeline.ofSource (Text.trim "'a|b' == x".toList)).stages = [] := by
    decide +kernel
  have hbars := Separator.uncut_iff.mp (stages_eq_nil_iff.mp hstages)
  exact ⟨e, hsource, (parse_eq_iff_of_ofSource hsource).1.mpr hbars⟩

/-- The bar is in a quoted text, after one that consists of a backslash. -/
theorem parse_ne_ofSource :
    ∃ e, ofSource (Text.trim "'\\\\' == '|'".toList) = .ok e ∧
      parse "'\\\\' == '|'".toList ≠ .ok e := by
  have h : (ofSource (Text.trim "'\\\\' == '|'".toList)).toOption.isSome = true := by decide +kernel
  have hparse : (parse "'\\\\' == '|'".toList).isOk = false := by decide +kernel
  obtain ⟨e, hread⟩ := Option.isSome_iff_exists.mp h
  refine ⟨e, Outcome.eq_ok_of_toOption hread, ?_⟩
  intro heq
  rw [heq] at hparse
  cases hparse

end Expr

end HtmlTemplate
