import HtmlTemplate.Proofs.Pipeline.Recovery
/-!
How much of a source is read where it is read as a pipeline.  Each stage is spelled by its text, or
that text is a call of which a part is left out.
-/

namespace HtmlTemplate

/-- A stage is read from a call.  Its name is all that is before the first parenthesis.  From there
to the last group everything is skipped, and of that group what follows a bar is dropped. -/
structure Stage.IsRead (stage : Stage) (before skipped inner dropped after : Text) : Prop where
  name : Around stage.name before
  first : '(' ∉ before
  opening : skipped = [] ∨ skipped.getLast? = some '('
  arguments : Listed stage.arguments inner
  bar : dropped = [] ∨ dropped.head? = some '|'
  closing : after = [] ∨ after.head? = some ')'
  group : Stage.lastGroup? .start (before ++ '(' :: (skipped ++ (inner ++ (dropped ++ after)))) =
    some (inner ++ dropped)

/-- A stage is read from a call that is not the whole of the text: the call is not closed, or there
is more in the text than its name, its arguments and blanks. -/
def Stage.Crops (stage : Stage) (text : Text) : Prop :=
  ∃ before skipped inner dropped after,
    text = before ++ '(' :: (skipped ++ (inner ++ (dropped ++ after))) ∧
    stage.IsRead before skipped inner dropped after ∧
    (skipped ≠ [] ∨ dropped ≠ [] ∨
      ∀ blanks, Text.isBlankText blanks = true → after ≠ ')' :: blanks)

/-! ### Characters that are no blanks -/

section Count

variable {c : Char} (hc : Text.isBlank c = false)

include hc

theorem count_of_isBlankText {s : Text} (h : Text.isBlankText s = true) : s.count c = 0 := by
  refine List.count_eq_zero.mpr fun hmem => ?_
  rw [List.all_eq_true.mp h c hmem] at hc
  cases hc

theorem count_trim (s : Text) : s.trim.count c = s.count c := by
  obtain ⟨before, after, hbefore, hafter, hs⟩ := Text.exists_trim s
  have hcount := congrArg (List.count c) hs
  rw [List.count_append, List.count_append, count_of_isBlankText hc hbefore,
    count_of_isBlankText hc hafter, Nat.zero_add, Nat.add_zero] at hcount
  exact hcount.symm

theorem Around.count_eq {piece text : Text} (h : Around piece text) :
    text.count c = piece.count c := by
  rw [← count_trim hc text, h, count_trim hc piece]

theorem count_intercalate_eq {pieces texts : List Text} (h : List.Forall₂ Around pieces texts) :
    ([','].intercalate texts).count c = ([','].intercalate pieces).count c := by
  induction h with
  | nil => rfl
  | cons hfirst hothers ih =>
      cases hothers with
      | nil => simpa using hfirst.count_eq hc
      | cons hsecond hrest =>
          rw [List.intercalate_cons_cons, List.intercalate_cons_cons, List.count_append,
            List.count_append, List.count_append, List.count_append, hfirst.count_eq hc, ih]

theorem Listed.count_eq {pieces : List Text} {text : Text} (h : Listed pieces text) :
    text.count c = ([','].intercalate pieces).count c := by
  cases h with
  | nil hblank => exact count_of_isBlankText hc hblank
  | cons hfirst hothers => exact count_intercalate_eq hc (.cons hfirst hothers)

end Count

/-- What is left out of a text is missing: the text does not spell the stage. -/
theorem Stage.Crops.not_spells {stage : Stage} {text : Text} (h : stage.Crops text) :
    ¬ stage.Spells text := by
  obtain ⟨before, skipped, inner, dropped, after, htext, hread, hpart⟩ := h
  intro hspells
  cases hspells with
  | bare haround =>
      have hcount := haround.count_eq (c := '(') (by decide)
      rw [← hread.name.count_eq (by decide), List.count_eq_zero.mpr hread.first,
        List.count_eq_zero, htext] at hcount
      exact hcount (by simp)
  | called haround hlisted hafter =>
      have hcount (c : Char) (hc : Text.isBlank c = false) :
          skipped.count c + dropped.count c + after.count c = List.count c [')'] := by
        have hall := congrArg (List.count c) htext
        have hbefore := (haround.count_eq hc).trans (hread.name.count_eq hc).symm
        have hinner := (hlisted.count_eq hc).trans (hread.arguments.count_eq hc).symm
        have hblank := count_of_isBlankText hc hafter
        simp only [List.count_append, List.count_cons, List.count_nil] at hall ⊢
        omega
      have hskipped : skipped = [] := by
        refine hread.opening.resolve_right fun hlast => ?_
        have hpos := List.count_pos_iff.mpr (List.mem_of_getLast? hlast)
        have hparen : _ = 0 := hcount '(' (by decide)
        omega
      have hdropped : dropped = [] := by
        refine hread.bar.resolve_right fun hhead => ?_
        have hpos := List.count_pos_iff.mpr (List.mem_of_head? hhead)
        have hbar : _ = 0 := hcount '|' (by decide)
        omega
      subst hskipped hdropped
      simp only [List.count_nil, Nat.zero_add] at hcount
      obtain ⟨blanks, rfl⟩ : ∃ blanks, after = ')' :: blanks := by
        refine hread.closing.elim (fun hnil => ?_) fun hhead => ?_
        · have hclosing := hcount ')' (by decide)
          rw [hnil] at hclosing
          cases hclosing
        · exact List.head?_eq_some_iff.mp hhead
      refine hpart.elim (absurd rfl) fun hpart => hpart.elim (absurd rfl) fun hopen => ?_
      refine hopen blanks (List.all_eq_true.mpr fun c hc => ?_) rfl
      by_contra hsolid
      have hblanks := hcount c (Bool.eq_false_iff.mpr hsolid)
      rw [List.count_cons, List.count_cons, List.count_nil] at hblanks
      have hpos := List.count_pos_iff.mpr hc
      omega

/-! ### What a cut leaves -/

/-- Trimmed pieces are listed by the text that they are cut from. -/
theorem listed_cut (s : Text) : Listed ((Separator.cut .comma s).map Text.trim) s := by
  obtain ⟨first, others, hcut, hs⟩ := Separator.comma.exists_cut_cons s
  have haround : ∀ text ∈ others, Around text.trim text := fun text _ => (Text.trim_trim text).symm
  rw [hcut, List.map_cons, hs]
  refine .cons (Text.trim_trim first).symm ?_
  rw [List.forall₂_map_left_iff, List.forall₂_same]
  exact haround

/-- The heads of a source are listed by all of it, or by what is before a bar. -/
theorem Pipeline.listed_headsOf (s : Text) : ∃ first dropped, s = first ++ dropped ∧
    (dropped = [] ∨ dropped.head? = some '|') ∧ Listed (Pipeline.headsOf s) first := by
  obtain ⟨first, others, hcut, hs⟩ := Separator.pipe.exists_cut_cons s
  have hlisted : Listed (Pipeline.headsOf s) first := by
    rw [Pipeline.headsOf, hcut]
    exact listed_cut first
  cases others with
  | nil => exact ⟨first, [], by simpa using hs, .inl rfl, hlisted⟩
  | cons second others =>
      rw [List.intercalate_cons_cons, List.append_assoc] at hs
      exact ⟨first, _, hs, .inr rfl, hlisted⟩

namespace Stage

/-- The first parenthesis of a text, and what is between it and a later one. -/
theorem exists_first_paren (front rest : Text) : ∃ before skipped,
    front ++ '(' :: rest = before ++ '(' :: (skipped ++ rest) ∧ '(' ∉ before ∧
      (skipped = [] ∨ skipped.getLast? = some '(') := by
  by_cases hmem : '(' ∈ front
  · obtain ⟨before, between, rfl, hbefore⟩ := List.eq_append_cons_of_mem hmem
    exact ⟨before, between ++ ['('], by simp, hbefore, .inr (by simp)⟩
  · exact ⟨front, [], rfl, hmem, .inl rfl⟩

theorem listed_arguments (group : Text) : ∃ inner dropped, group = inner ++ dropped ∧
    (dropped = [] ∨ dropped.head? = some '|') ∧
      Listed (if Text.isBlankText group then [] else Pipeline.headsOf group) inner := by
  cases hblank : Text.isBlankText group with
  | true => exact ⟨group, [], (List.append_nil group).symm, .inl rfl, .nil hblank⟩
  | false => exact Pipeline.listed_headsOf group

/-- A text spells the stage that is read from it, or a part of it is left out. -/
theorem spells_or_crops (text : Text) :
    (ofSource text).Spells text ∨ (ofSource text).Crops text := by
  cases hgroup : lastGroup? .start text with
  | none =>
      rw [ofSource, hgroup]
      exact .inl (.bare (Text.trim_trim text).symm)
  | some group =>
      obtain ⟨front, after, hfront, hafter⟩ := exists_of_lastGroup?_eq_some hgroup
      obtain ⟨before, skipped, hbefore, hparen, hskipped⟩ :=
        exists_first_paren front (group ++ after)
      obtain ⟨inner, dropped, rfl, hdropped, hlisted⟩ := listed_arguments group
      rw [hbefore, List.append_assoc inner] at hfront
      have hname : Around (Text.trim (text.trim.takeWhile (· ≠ '('))) before := by
        rw [hfront, Text.takeWhile_trim (by decide) hparen, Text.trim_trimStart]
        exact (Text.trim_trim before).symm
      by_cases hwhole : skipped = [] ∧ dropped = [] ∧
          ∃ blanks, Text.isBlankText blanks = true ∧ after = ')' :: blanks
      · obtain ⟨rfl, rfl, blanks, hblanks, rfl⟩ := hwhole
        left
        rw [ofSource, hgroup]
        have hspells := Spells.called hname hlisted hblanks
        rw [hfront] at hspells ⊢
        exact hspells
      · right
        refine ⟨before, skipped, inner, dropped, after, hfront, ?_, ?_⟩
        · rw [ofSource, hgroup]
          rw [hfront] at hgroup
          exact ⟨hname, hparen, hskipped, hlisted, hdropped, hafter, hgroup⟩
        · by_contra hall
          simp only [not_or, not_forall, Decidable.not_not, exists_prop, ne_eq] at hall
          exact hwhole hall

theorem spells_iff_not_crops (text : Text) :
    (ofSource text).Spells text ↔ ¬ (ofSource text).Crops text :=
  ⟨fun hspells hcrops => hcrops.not_spells hspells, (spells_or_crops text).resolve_right⟩

end Stage

namespace Expr

theorem exists_of_ofSources {sources : List Text} {es : List Expr}
    (h : ofSources sources = .ok es) : ∀ source ∈ sources, ∃ e, ofSource source = .ok e := by
  intro source hmem
  obtain ⟨e, -, he⟩ := forall₂_exists (ofSources_eq_ok_iff.mp h).flip source hmem
  exact ⟨e, he⟩

theorem exists_filter_of_foldl_pipe {heads : List Expr} {filters : List (Text × List Expr)}
    {e : Expr} (hne : filters ≠ []) (h : filters.foldl pipe heads = [e]) :
    ∃ name arguments, e = .filter name arguments := by
  obtain ⟨⟨name, arguments⟩, rest, rfl⟩ := List.exists_cons_of_ne_nil hne
  rw [foldl_pipe] at h
  cases h
  exact exists_filter_of_applyFilters heads arguments name rest

/-- A source is read as a filter just where it has stages. -/
theorem stages_ne_nil_iff_of_parse {s : Text} {e : Expr} (h : parse s = .ok e) :
    (Pipeline.ofSource s.trim).stages ≠ [] ↔ ∃ name arguments, e = .filter name arguments := by
  rw [parse_eq_ok_iff] at h
  constructor
  · intro hstages
    obtain ⟨heads, filters, -, hfilters, hfold⟩ := (ofPipeline_eq_ok_iff hstages).mp h
    refine exists_filter_of_foldl_pipe ?_ hfold
    rintro rfl
    exact hstages (List.length_eq_zero_iff.mp (readStages_eq_ok_iff.mp hfilters).length_eq)
  · rintro ⟨name, arguments, rfl⟩ hnil
    rw [ofPipeline_of_stages_eq_nil hnil] at h
    obtain ⟨-, hplain⟩ := bracketed_and_plain_of_ofSource h
    cases hplain

/-- Of a source with stages no more is read than its pipeline. -/
theorem parse_eq_of_ofSource_eq {s t : Text} {e : Expr} (hs : parse s = .ok e)
    (hstages : (Pipeline.ofSource s.trim).stages ≠ [])
    (h : Pipeline.ofSource s.trim = Pipeline.ofSource t.trim) : parse t = .ok e := by
  rw [parse_eq_ok_iff] at hs ⊢
  rw [h] at hs hstages
  rw [ofPipeline_eq_ok_iff hstages] at hs ⊢
  exact hs

/-- What is read as a filter is a pipeline: heads between commas up to the first bar, and a stage
after each bar.  A stage is spelled by its text just where no part of that text is left out. -/
theorem spells_iff_not_crops_of_parse {s name : Text} {arguments : List Expr}
    (h : parse s = .ok (.filter name arguments)) :
    ∃ first others, Separator.cut .pipe s.trim = first :: others ∧ others ≠ [] ∧
      s.trim = ['|'].intercalate (first :: others) ∧
      Listed (Pipeline.headsOf s.trim) first ∧
      (∀ head ∈ Pipeline.headsOf s.trim, ∃ e, ofSource head = .ok e) ∧
      ∀ text ∈ others,
        ((Stage.ofSource text).Spells text ↔ ¬ (Stage.ofSource text).Crops text) ∧
        ∀ argument ∈ (Stage.ofSource text).arguments, ∃ e, ofSource argument = .ok e := by
  obtain ⟨first, others, hcut, hs⟩ := Separator.pipe.exists_cut_cons s.trim
  have hstages : (Pipeline.ofSource s.trim).stages = others.map Stage.ofSource := by
    rw [Pipeline.ofSource, hcut, List.tail_cons]
  have hne : others ≠ [] := by
    rintro rfl
    exact (stages_ne_nil_iff_of_parse h).mpr ⟨name, arguments, rfl⟩ hstages
  rw [parse_eq_ok_iff] at h
  have hlisted : Listed (Pipeline.headsOf s.trim) first := by
    rw [Pipeline.headsOf, hcut]
    exact listed_cut first
  obtain ⟨heads, filters, hheads, hfilters, -⟩ := (ofPipeline_eq_ok_iff (by simpa [hstages])).mp h
  refine ⟨first, others, hcut, hne, hs, hlisted, exists_of_ofSources hheads, ?_⟩
  intro text hmem
  refine ⟨Stage.spells_iff_not_crops text, ?_⟩
  rw [hstages] at hfilters
  obtain ⟨filter, -, -, harguments⟩ := forall₂_exists (readStages_eq_ok_iff.mp hfilters).flip
    (Stage.ofSource text) (List.mem_map_of_mem hmem)
  exact exists_of_ofSources harguments

theorem spells_iff_not_crops_of_parse_call :
    ∃ name arguments, parse " x | f(a) ".toList = .ok (.filter name arguments) ∧
      ∃ first others, Text.trim " x | f(a) ".toList = ['|'].intercalate (first :: others) ∧
        others ≠ [] ∧ Listed (Pipeline.headsOf (Text.trim " x | f(a) ".toList)) first := by
  have h : (parse " x | f(a) ".toList).toOption.isSome = true := by decide +kernel
  obtain ⟨e, he⟩ := Option.isSome_iff_exists.mp h
  have hparse := Outcome.eq_ok_of_toOption he
  obtain ⟨name, arguments, rfl⟩ := (stages_ne_nil_iff_of_parse hparse).mp (by decide +kernel)
  obtain ⟨first, others, -, hne, hs, hlisted, -⟩ := spells_iff_not_crops_of_parse hparse
  exact ⟨name, arguments, hparse, first, others, hs, hne, hlisted⟩

/-- A bar among the arguments of a stage takes what follows it out of the text. -/
theorem parse_crops_bar :
    (∃ name arguments, parse "x | f(a | g)".toList = .ok (.filter name arguments) ∧
      parse "x | f(a)".toList = .ok (.filter name arguments)) ∧
    Separator.cut .pipe "x | f(a | g)".toList = ["x ".toList, " f(a | g)".toList] ∧
    (Stage.ofSource " f(a | g)".toList).Crops " f(a | g)".toList ∧
    ¬ (Stage.ofSource " f(a | g)".toList).Spells " f(a | g)".toList := by
  have h : (parse "x | f(a | g)".toList).toOption.isSome = true := by decide +kernel
  obtain ⟨e, he⟩ := Option.isSome_iff_exists.mp h
  have hparse := Outcome.eq_ok_of_toOption he
  have hstages : (Pipeline.ofSource (Text.trim "x | f(a | g)".toList)).stages ≠ [] := by
    decide +kernel
  have hother := parse_eq_of_ofSource_eq (t := "x | f(a)".toList) hparse hstages (by decide +kernel)
  obtain ⟨name, arguments, rfl⟩ := (stages_ne_nil_iff_of_parse hparse).mp hstages
  have hstage : Stage.ofSource " f(a | g)".toList = ⟨"f".toList, ["a".toList]⟩ := by decide +kernel
  have hcrops : (Stage.ofSource " f(a | g)".toList).Crops " f(a | g)".toList := by
    have hargument : Around "a".toList "a ".toList := by decide
    rw [hstage]
    exact ⟨" f".toList, [], "a ".toList, "| g".toList, ")".toList, rfl,
      ⟨by decide, by decide, .inl rfl, Listed.cons hargument .nil, .inr rfl, .inr rfl, by decide⟩,
      .inr (.inl (by decide))⟩
  exact ⟨⟨name, arguments, hparse, hother⟩, by decide +kernel, hcrops, hcrops.not_spells⟩

end Expr

end HtmlTemplate
