import HtmlTemplate.Proofs.Expr.OutOfRange
import HtmlTemplate.Proofs.Pipeline.Offsets
/-!
Why a source is not read.  Its parts are read one after another, and the first of them that is no
expression decides the error.  A part stands in the source, and so does what its error names; where
the part is empty, the error names the whole source instead.
-/

namespace HtmlTemplate

/-! ### The parts of a source -/

namespace Pipeline

/-- The texts in a source that are read as expressions, in this order: the source itself or, if it
has stages, its heads and the arguments of its stages. -/
def parts (s : Text) : List Text :=
  match (ofSource s).stages with
  | [] => [s]
  | stage :: rest => headsOf s ++ (stage :: rest).flatMap Stage.arguments

variable {s part : Text}

theorem infix_of_mem_headsOf (h : part ∈ headsOf s) : part <:+: s := by
  obtain ⟨first, others, hcut, -⟩ := Separator.pipe.exists_cut_cons s
  rw [headsOf, hcut, List.headD_cons] at h
  obtain ⟨piece, hpiece, rfl⟩ := List.mem_map.mp h
  have hfirst : first <:+: s := Separator.infix_of_mem_cutFrom (hcut ▸ List.mem_cons_self ..)
  exact (Text.trim_infix piece).trans ((Separator.infix_of_mem_cutFrom hpiece).trans hfirst)

theorem infix_of_mem_arguments {stage : Stage} (hstage : stage ∈ (ofSource s).stages)
    (h : part ∈ stage.arguments) : part <:+: s := by
  obtain ⟨first, stages, hcut, -⟩ := Separator.pipe.exists_cut_cons s
  rw [ofSource_eq_of_cut hcut] at hstage
  obtain ⟨source, hsource, rfl⟩ := List.mem_map.mp hstage
  unfold Stage.ofSource at h
  split at h
  · cases h
  · next group hgroup =>
      have hpart : group <:+: s := (infix_of_lastGroup? hcut hsource hgroup).1
      dsimp only at h
      split at h
      · cases h
      · exact (infix_of_mem_headsOf h).trans hpart

/-- However deep in the stages a part was found, it stands in the source. -/
theorem infix_of_mem_parts (h : part ∈ parts s) : part <:+: s := by
  unfold parts at h
  split at h
  · obtain rfl := List.mem_singleton.mp h
    exact List.infix_refl part
  · next first rest hstages =>
      rcases List.mem_append.mp h with h | h
      · exact infix_of_mem_headsOf h
      · obtain ⟨stage, hstage, h⟩ := List.mem_flatMap.mp h
        exact infix_of_mem_arguments (hstages ▸ hstage) h

end Pipeline

/-! ### The first failure -/

namespace Expr

variable {s source : Text} {error : ParseError}

/-- Some sources are read in their order, up to the first that is no expression. -/
theorem ofSources_eq_error_iff {sources : List Text} : ofSources sources = .error error ↔
    ∃ before source after, sources = before ++ source :: after ∧
      (∀ earlier ∈ before, ∃ e, ofSource earlier = .ok e) ∧ ofSource source = .error error := by
  induction sources with
  | nil =>
      constructor
      · rintro ⟨⟩
      · rintro ⟨before, source, after, heq, -⟩
        simp at heq
  | cons first sources ih =>
      rw [ofSources, Outcome.bind_eq_error_iff]
      constructor
      · rintro (hfirst | ⟨e, hfirst, hothers⟩)
        · exact ⟨[], first, sources, rfl, by simp, hfirst⟩
        rcases Outcome.bind_eq_error_iff.mp hothers with hothers | ⟨es, -, ⟨⟩⟩
        obtain ⟨before, source, after, rfl, hbefore, hsource⟩ := ih.mp hothers
        exact ⟨first :: before, source, after, rfl,
          List.forall_mem_cons.mpr ⟨⟨e, hfirst⟩, hbefore⟩, hsource⟩
      · rintro ⟨before, source, after, heq, hbefore, hsource⟩
        cases before with
        | nil =>
            cases heq
            exact .inl hsource
        | cons earlier before =>
            cases heq
            obtain ⟨⟨e, hfirst⟩, hbefore⟩ := List.forall_mem_cons.mp hbefore
            have hothers := ih.mpr ⟨before, source, after, rfl, hbefore, hsource⟩
            exact .inr ⟨e, hfirst, Outcome.bind_eq_error_iff.mpr (.inl hothers)⟩

theorem ofSources_append (first second : List Text) :
    ofSources (first ++ second) =
      ofSources first >>= fun es => (ofSources second).map (es ++ ·) := by
  induction first with
  | nil =>
      rw [List.nil_append, ofSources, Outcome.ok_bind]
      cases ofSources second <;> rfl
  | cons source first ih =>
      rw [List.cons_append, ofSources, ofSources, ih]
      cases ofSource source <;> cases ofSources first <;> cases ofSources second <;> rfl

/-- Stages are read by reading their arguments, all of them one after another. -/
theorem ofSources_arguments (stages : List Stage) :
    ofSources (stages.flatMap Stage.arguments) =
      (readStages stages).map fun filters => filters.flatMap Prod.snd := by
  induction stages with
  | nil => rfl
  | cons stage stages ih =>
      rw [List.flatMap_cons, ofSources_append, ih, readStages]
      cases ofSources stage.arguments <;> cases readStages stages <;> rfl

theorem ofPipeline_eq_error_iff : ofPipeline s (.ofSource s) = .error error ↔
    ofSources (Pipeline.parts s) = .error error := by
  cases hstages : (Pipeline.ofSource s).stages with
  | nil =>
      have hone : ofSources [s] = (ofSource s).map ([·]) := by
        rw [ofSources, ofSources]
        cases ofSource s <;> rfl
      rw [ofPipeline_of_stages_eq_nil hstages, Pipeline.parts, hstages, hone,
        Outcome.map_eq_error_iff]
  | cons stage rest =>
      have hheads : (Pipeline.ofSource s).heads = Pipeline.headsOf s := rfl
      simp only [ofPipeline, Pipeline.parts, hstages, hheads, ofSources_append, ofSources_arguments,
        readStages, Outcome.bind_eq_error_iff, Outcome.map_eq_error_iff, reduceCtorEq, and_false,
        exists_false, or_false]

/-- A source fails where reading its parts does, with the same error, in which the source is named
where the part is empty. -/
theorem parse_eq_error_iff : parse s = .error error ↔
    ∃ cause, ofSources (Pipeline.parts s.trim) = .error cause ∧
      cause.within s.trim = error := by
  unfold parse
  simp only [← ofPipeline_eq_error_iff]
  cases ofPipeline s.trim (.ofSource s.trim) <;> simp [Except.mapError]

/-! ### What an error names -/

/-- The error of a single expression names its source, or a numeral that stands in it. -/
theorem exists_of_ofSource_error (h : ofSource source = .error error) :
    (∃ expected column, error = .unexpected source expected column) ∨
      ∃ literal, literal <:+: source ∧ error = .outOfRange literal := by
  have hcites := Grammar.cites_expression (source.length + 1) source
  unfold ofSource at h
  generalize Grammar.expression (source.length + 1) source = outcome at h hcites
  rcases outcome with ⟨none | ⟨literal | e, rest⟩, attempts⟩
  · cases h
    exact .inl ⟨_, _, rfl⟩
  · cases h
    exact .inr ⟨literal, (hcites _ rest rfl).2 literal rfl, rfl⟩
  · cases h

end Expr

/-- An empty text is not named: the whole is. -/
theorem ParseError.within_unexpected (whole named : Text) (expected : List Symbol) (column : Nat) :
    (ParseError.unexpected named expected column).within whole =
      .unexpected (if named = [] then whole else named) expected column := by
  cases named <;> rfl

namespace Expr

/-- A source that is not read fails at the first of its parts that is no expression, and that part
stands in it.  A syntax error names the part, or the whole source where the part is empty, and so
names nothing empty unless the source is blank.  A numeral out of range stands in the part. -/
theorem parse_error_names_part {s : Text} {error : ParseError} (h : parse s = .error error) :
    ∃ before part after, Pipeline.parts s.trim = before ++ part :: after ∧
      (∀ earlier ∈ before, ∃ e, ofSource earlier = .ok e) ∧ (∀ e, ofSource part ≠ .ok e) ∧
      part <:+: s.trim ∧
      (∀ source expected column, error = .unexpected source expected column →
        source = (if part = [] then s.trim else part) ∧ source <:+: s.trim ∧
          (s.trim ≠ [] → source ≠ [])) ∧
      ∀ literal, error = .outOfRange literal → literal <:+: part ∧ literal <:+: s.trim := by
  obtain ⟨cause, hcause, rfl⟩ := parse_eq_error_iff.mp h
  obtain ⟨before, part, after, hparts, hbefore, hpart⟩ := ofSources_eq_error_iff.mp hcause
  have hinside : part <:+: s.trim := Pipeline.infix_of_mem_parts (by simp [hparts])
  have hfails : ∀ e, ofSource part ≠ .ok e := by
    rintro e hread
    cases hread.symm.trans hpart
  refine ⟨before, part, after, hparts, hbefore, hfails, hinside, ?_⟩
  rcases exists_of_ofSource_error hpart with ⟨expected, column, rfl⟩ | ⟨literal, hliteral, rfl⟩
  · rw [ParseError.within_unexpected]
    refine ⟨?_, by rintro literal ⟨⟩⟩
    rintro source expected column ⟨⟩
    refine ⟨rfl, ?_⟩
    -- The source of an empty part is named whole, and it is not empty unless it is blank.
    split
    · exact ⟨List.infix_refl s.trim, id⟩
    · next hne => exact ⟨hinside, fun _ => hne⟩
  · refine ⟨by rintro source expected column ⟨⟩, ?_⟩
    rintro literal ⟨⟩
    exact ⟨hliteral, hliteral.trans hinside⟩

theorem parse_error_names_part_nested :
    let head : Text := " , | upper".toList
    let argument : Text := "a | upper(b ===)".toList
    let numeral : Text := "a | f(b, [1e999])".toList
    (parse head = .error (.unexpected ", | upper".toList [.unary] 1) ∧
      ", | upper".toList <:+: head.trim) ∧
    (parse argument = .error (.unexpected "b ===".toList [.unary] 6) ∧
      "b ===".toList <:+: argument.trim) ∧
    parse numeral = .error (.outOfRange "1e999".toList) ∧ "1e999".toList <:+: numeral.trim := by
  intro head argument numeral
  have herror {s : Text} {error : ParseError}
      (h : (parse s).map (fun _ => ()) = .error error) : parse s = .error error :=
    Outcome.map_eq_error_iff.mp h
  have hhead : parse head = .error (.unexpected ", | upper".toList [.unary] 1) :=
    herror (by decide +kernel)
  have hargument : parse argument = .error (.unexpected "b ===".toList [.unary] 6) :=
    herror (by decide +kernel)
  have hnumeral : parse numeral = .error (.outOfRange "1e999".toList) :=
    herror (by decide +kernel)
  obtain ⟨_, _, _, -, -, -, -, hempty, -⟩ := parse_error_names_part hhead
  obtain ⟨_, _, _, -, -, -, -, hnested, -⟩ := parse_error_names_part hargument
  obtain ⟨_, _, _, -, -, -, -, -, hrange⟩ := parse_error_names_part hnumeral
  exact ⟨⟨hhead, (hempty _ _ _ rfl).2.1⟩, ⟨hargument, (hnested _ _ _ rfl).2.1⟩, hnumeral,
    (hrange _ rfl).2⟩

end Expr

end HtmlTemplate
