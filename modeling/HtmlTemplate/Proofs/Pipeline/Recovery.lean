import HtmlTemplate.Expr.Eval
import HtmlTemplate.Proofs.Pipeline.Layout
/-!
What a written pipeline is read as: its heads and stages, the filters that apply the stages from
left to right, and, in a scope, the value that the methods of the stages make of the values of the
heads.
-/

namespace HtmlTemplate

open Scan

/-! ### Blanks around the whole -/

theorem Listed.trimStart {pieces : List Text} {text : Text} (h : Listed pieces text)
    (hpieces : ∀ piece ∈ pieces, IsPiece piece) : Listed pieces text.trimStart := by
  cases h with
  | nil hblank =>
      have htrim := Text.trimStart_append_of_blank (t := []) hblank
      rw [List.append_nil] at htrim
      rw [htrim]
      exact .nil rfl
  | @cons piece text pieces texts hfirst hothers =>
      have haround : Around piece text.trimStart := (Text.trim_trimStart text).trans hfirst
      have hblank : Text.isBlankText text = false :=
        hfirst.isBlankText.trans (hpieces piece (List.mem_cons_self ..)).not_blank
      have htrim : Text.trimStart ([','].intercalate (text :: texts)) =
          [','].intercalate (text.trimStart :: texts) := by
        cases texts with
        | nil => rw [List.intercalate_singleton, List.intercalate_singleton]
        | cons second texts =>
            rw [List.intercalate_cons_cons, List.intercalate_cons_cons, List.append_assoc,
              List.append_assoc, Text.trimStart_append_of_not_blank hblank]
      rw [htrim]
      exact .cons haround hothers

theorem Stage.Spells.trimEnd {stage : Stage} {text : Text} (h : stage.Spells text) :
    stage.Spells text.trimEnd := by
  cases h with
  | @bare name text haround => exact .bare ((Text.trim_trimEnd text).trans haround)
  | @called name before inner after arguments haround hlisted hafter =>
      have hsplit : before ++ '(' :: (inner ++ ')' :: after) =
          (before ++ '(' :: inner) ++ ')' :: after := by simp
      rw [hsplit, Text.trimEnd_append_cons (by decide), (Text.trimEnd_eq_nil_iff after).mpr hafter]
      simpa using @Stage.Spells.called name before inner [] arguments haround hlisted rfl

theorem Stage.exists_spells_trimEnd {stages : List Stage} {others : List Text}
    (h : List.Forall₂ Stage.Spells stages others) : ∃ others',
      List.Forall₂ Stage.Spells stages others' ∧
        Text.trimEnd (['|'].intercalate others) = ['|'].intercalate others' := by
  induction h with
  | nil => exact ⟨[], .nil, rfl⟩
  | @cons stage text stages texts hfirst hothers ih =>
      obtain ⟨others', hall, htrim⟩ := ih
      cases hothers with
      | nil =>
          cases hall
          exact ⟨[text.trimEnd], .cons hfirst.trimEnd .nil, by simp⟩
      | cons hsecond hrest =>
          cases hall with
          | @cons _ second' _ others' hsecond' hrest' =>
              refine ⟨text :: second' :: others', .cons hfirst (.cons hsecond' hrest'), ?_⟩
              simp only [List.intercalate_cons_cons, List.append_assoc, List.singleton_append]
              rw [Text.trimEnd_append_cons (by decide), htrim]

/-- What is written for a pipeline may be trimmed. -/
theorem Pipeline.Spells.trim {pipeline : Pipeline} {s : Text} (h : pipeline.Spells s)
    (hreadable : pipeline.IsReadable) : pipeline.Spells s.trim := by
  obtain ⟨first, others, hfirst, hothers, rfl⟩ := h
  obtain ⟨others', hothers', htrim⟩ := Stage.exists_spells_trimEnd hothers
  refine ⟨first.trimStart, others', hfirst.trimStart hreadable.heads, hothers', ?_⟩
  have hblank := hfirst.isBlankText hreadable.heads hreadable.heads_ne_nil
  have hlength := hothers.length_eq
  have hlength' := hothers'.length_eq
  obtain ⟨stage, stages, hstages⟩ := List.exists_cons_of_ne_nil hreadable.stages_ne_nil
  cases others with
  | nil => simp [hstages] at hlength
  | cons text others =>
      cases others' with
      | nil => simp [hstages] at hlength'
      | cons text' others' =>
          simp only [List.intercalate_cons_cons, List.append_assoc, List.singleton_append]
          rw [Text.trim, Text.trimStart_append_of_not_blank hblank,
            Text.trimEnd_append_cons (by decide), htrim]

/-! ### Heads and stages -/

/-- The heads and stages of a written pipeline are recovered from its text. -/
theorem Pipeline.ofSource_eq_trimmed {pipeline : Pipeline} {s : Text} (h : pipeline.Spells s)
    (hreadable : pipeline.IsReadable) : Pipeline.ofSource s = pipeline.trimmed := by
  obtain ⟨first, others, hfirst, hothers, rfl⟩ := h
  have hne := hreadable.heads_ne_nil
  have hfits : Separator.Fits .pipe first := by
    refine ⟨hfirst.passes hreadable.heads, ?_⟩
    rintro rfl
    have hblank := hfirst.isBlankText hreadable.heads hne
    cases hblank
  have hall : ∀ text ∈ others, Separator.Fits .pipe text := by
    intro text hmem
    obtain ⟨stage, hstage, hspells⟩ := forall₂_exists hothers text hmem
    obtain ⟨hpasses, hblank⟩ :=
      hspells.passes (hreadable.names stage hstage) (hreadable.arguments stage hstage)
    refine ⟨hpasses, ?_⟩
    rintro rfl
    cases hblank
  have hcut : Separator.cut .pipe (['|'].intercalate (first :: others)) = first :: others :=
    Separator.cutFrom_intercalate atTop_start hfits hall
  have hstages : pipeline.stages.map Stage.trimmed = others.map Stage.ofSource := by
    have hwell : ∀ stage ∈ pipeline.stages, Text.isName stage.name = true ∧
        ∀ argument ∈ stage.arguments, IsPiece argument :=
      fun stage hmem => ⟨hreadable.names stage hmem, hreadable.arguments stage hmem⟩
    have hboth := (List.forall₂_and_left _ _).mpr ⟨hwell, hothers⟩
    refine map_eq_map_of_forall₂ (hboth.imp ?_)
    rintro stage text ⟨⟨hname, harguments⟩, hspells⟩
    exact (Stage.ofSource_of_spells hspells hname harguments).symm
  rw [Pipeline.ofSource, Pipeline.headsOf, hcut, List.headD_cons, List.tail_cons, ← hstages,
    hfirst.map_trim_cut hreadable.heads hne]
  rfl

/-! ### Expressions and values -/

namespace Expr

theorem ofSources_eq_ok_iff {sources : List Text} {es : List Expr} :
    ofSources sources = .ok es ↔
      List.Forall₂ (fun source e => ofSource source = .ok e) sources es := by
  induction sources generalizing es with
  | nil => simp [ofSources, eq_comm]
  | cons source sources ih =>
      rw [ofSources, Outcome.bind_eq_ok_iff, List.forall₂_cons_left_iff]
      simp only [Outcome.bind_eq_ok_iff, ih]
      constructor
      · rintro ⟨e, he, others, hothers, heq⟩
        cases heq
        exact ⟨e, others, he, hothers, rfl⟩
      · rintro ⟨e, others, he, hothers, rfl⟩
        exact ⟨e, he, others, hothers, rfl⟩

theorem readStages_eq_ok_iff {stages : List Stage} {filters : List (Text × List Expr)} :
    readStages stages = .ok filters ↔ List.Forall₂ (fun stage filter =>
      stage.name = filter.1 ∧ ofSources stage.arguments = .ok filter.2) stages filters := by
  induction stages generalizing filters with
  | nil => simp [readStages, eq_comm]
  | cons stage stages ih =>
      rw [readStages, Outcome.bind_eq_ok_iff, List.forall₂_cons_left_iff]
      simp only [Outcome.bind_eq_ok_iff, ih]
      constructor
      · rintro ⟨arguments, harguments, others, hothers, heq⟩
        cases heq
        exact ⟨(stage.name, arguments), others, ⟨rfl, harguments⟩, hothers, rfl⟩
      · rintro ⟨⟨name, arguments⟩, others, ⟨rfl, harguments⟩, hothers, rfl⟩
        exact ⟨arguments, harguments, others, hothers, rfl⟩

theorem ofSources_trim {sources : List Text} {es : List Expr} (h : ofSources sources = .ok es) :
    ofSources (sources.map Text.trim) = .ok es := by
  rw [ofSources_eq_ok_iff] at h ⊢
  rw [List.forall₂_map_left_iff]
  exact h.imp fun _ _ => ofSource_trim

theorem readStages_trimmed {stages : List Stage} {filters : List (Text × List Expr)}
    (h : readStages stages = .ok filters) :
    readStages (stages.map Stage.trimmed) = .ok filters := by
  rw [readStages_eq_ok_iff] at h ⊢
  rw [List.forall₂_map_left_iff]
  exact h.imp fun _ _ hstage => ⟨hstage.1, ofSources_trim hstage.2⟩

theorem exists_forall₂ {α β : Type} {R : α → β → Prop} {as : List α} (h : ∀ a ∈ as, ∃ b, R a b) :
    ∃ bs, List.Forall₂ R as bs := by
  induction as with
  | nil => exact ⟨[], .nil⟩
  | cons a as ih =>
      obtain ⟨b, hb⟩ := h a (List.mem_cons_self ..)
      obtain ⟨bs, hbs⟩ := ih fun other hmem => h other (List.mem_cons_of_mem a hmem)
      exact ⟨b :: bs, .cons hb hbs⟩

theorem exists_ofSources {sources : List Text} (h : ∀ source ∈ sources, IsPiece source) :
    ∃ es, ofSources sources = .ok es := by
  obtain ⟨es, hes⟩ := exists_forall₂ fun source hmem => (h source hmem).accepted
  exact ⟨es, ofSources_eq_ok_iff.mpr hes⟩

theorem exists_readStages {stages : List Stage}
    (h : ∀ stage ∈ stages, ∀ argument ∈ stage.arguments, IsPiece argument) :
    ∃ filters, readStages stages = .ok filters := by
  have hstage : ∀ stage ∈ stages, ∃ filter : Text × List Expr,
      stage.name = filter.1 ∧ ofSources stage.arguments = .ok filter.2 := by
    intro stage hmem
    obtain ⟨es, hes⟩ := exists_ofSources (h stage hmem)
    exact ⟨(stage.name, es), rfl, hes⟩
  obtain ⟨filters, hfilters⟩ := exists_forall₂ hstage
  exact ⟨filters, readStages_eq_ok_iff.mpr hfilters⟩

/-- A filter takes what is piped into it, and then its own arguments. -/
def pipe (piped : List Expr) (filter : Text × List Expr) : List Expr :=
  [.filter filter.1 (piped ++ filter.2)]

theorem foldl_pipe (heads arguments : List Expr) (name : Text) (rest : List (Text × List Expr)) :
    ((name, arguments) :: rest).foldl pipe heads = [applyFilters heads name arguments rest] := by
  rw [List.foldl_cons, applyFilters, pipe]
  generalize Expr.filter name (heads ++ arguments) = piped
  induction rest generalizing piped with
  | nil => rfl
  | cons filter rest ih => exact ih (.filter filter.1 (piped :: filter.2))

theorem ofPipeline_eq_ok_iff {s : Text} {pipeline : Pipeline} {e : Expr}
    (hstages : pipeline.stages ≠ []) :
    ofPipeline s pipeline = .ok e ↔ ∃ heads filters, ofSources pipeline.heads = .ok heads ∧
      readStages pipeline.stages = .ok filters ∧ filters.foldl pipe heads = [e] := by
  obtain ⟨sources, stages⟩ := pipeline
  obtain ⟨stage, stages, rfl⟩ := List.exists_cons_of_ne_nil hstages
  simp only [ofPipeline, readStages, Outcome.bind_eq_ok_iff]
  constructor
  · rintro ⟨heads, hheads, arguments, harguments, others, hothers, heq⟩
    cases heq
    exact ⟨heads, _, hheads, ⟨arguments, harguments, others, hothers, rfl⟩, foldl_pipe ..⟩
  · rintro ⟨heads, filters, hheads, ⟨arguments, harguments, others, hothers, heq⟩, hfold⟩
    cases heq
    rw [foldl_pipe] at hfold
    cases hfold
    exact ⟨heads, hheads, arguments, harguments, others, hothers, rfl⟩

/-- What a filter needs in a scope: the method of its name, and the values of its own arguments. -/
def Applies (scope : Scope) (filter : Text × List Expr) (step : Method × List Value) : Prop :=
  scope.methods.get? filter.1 = some step.1 ∧ evalAll scope filter.2 = .ok step.2

/-- A method is applied to what is piped into it, and then to its own arguments. -/
def applyStep (piped : List Value) (step : Method × List Value) : List Value :=
  [step.1 (piped ++ step.2)]

theorem evalAll_append {scope : Scope} {first second : List Expr} {values others : List Value}
    (hfirst : evalAll scope first = .ok values) (hsecond : evalAll scope second = .ok others) :
    evalAll scope (first ++ second) = .ok (values ++ others) := by
  induction first generalizing values with
  | nil =>
      rw [evalAll] at hfirst
      cases hfirst
      exact hsecond
  | cons e first ih =>
      rw [evalAll] at hfirst
      obtain ⟨value, hvalue, htail⟩ := Outcome.bind_eq_ok_iff.mp hfirst
      obtain ⟨rest, hrest, heq⟩ := Outcome.bind_eq_ok_iff.mp htail
      cases heq
      rw [List.cons_append, evalAll, hvalue, ih hrest]
      rfl

theorem evalAll_singleton_eq_ok_iff {scope : Scope} {e : Expr} {values : List Value} :
    evalAll scope [e] = .ok values ↔ ∃ value, values = [value] ∧ eval scope e = .ok value := by
  rw [evalAll, Outcome.bind_eq_ok_iff]
  constructor
  · rintro ⟨value, hvalue, hrest⟩
    cases hrest
    exact ⟨value, rfl, hvalue⟩
  · rintro ⟨value, rfl, hvalue⟩
    exact ⟨value, hvalue, rfl⟩

theorem evalAll_pipe {scope : Scope} {piped : List Expr} {filter : Text × List Expr}
    {values : List Value} {step : Method × List Value} (hpiped : evalAll scope piped = .ok values)
    (h : Applies scope filter step) :
    evalAll scope (pipe piped filter) = .ok (applyStep values step) := by
  refine evalAll_singleton_eq_ok_iff.mpr ⟨_, rfl, ?_⟩
  simp only [eval, h.1, evalAll_append hpiped h.2]
  rfl

/-- The value of filters over heads is the fold of their methods over the values of the heads. -/
theorem evalAll_foldl_pipe {scope : Scope} {heads : List Expr} {filters : List (Text × List Expr)}
    {values : List Value} {steps : List (Method × List Value)}
    (hheads : evalAll scope heads = .ok values) (h : List.Forall₂ (Applies scope) filters steps) :
    evalAll scope (filters.foldl pipe heads) = .ok (steps.foldl applyStep values) := by
  induction h generalizing heads values with
  | nil => exact hheads
  | cons hfirst _ ih => exact ih (evalAll_pipe hheads hfirst)

/-- A written pipeline is recovered from its text.  It is read as the filters that apply its stages
to its heads from left to right, and its value is what the methods of the stages make of the values
of the heads in that order. -/
theorem parse_of_spells {pipeline : Pipeline} {s : Text} (h : pipeline.Spells s)
    (hreadable : pipeline.IsReadable) :
    Pipeline.ofSource s = pipeline.trimmed ∧
    ∃ heads filters e, ofSources pipeline.heads = .ok heads ∧
      readStages pipeline.stages = .ok filters ∧ filters.foldl pipe heads = [e] ∧
      parse s = .ok e ∧
      ∀ scope values steps, evalAll scope heads = .ok values →
        List.Forall₂ (Applies scope) filters steps →
        ∃ value, steps.foldl applyStep values = [value] ∧ eval scope e = .ok value := by
  refine ⟨Pipeline.ofSource_eq_trimmed h hreadable, ?_⟩
  obtain ⟨heads, hheads⟩ := exists_ofSources hreadable.heads
  obtain ⟨filters, hfilters⟩ := exists_readStages hreadable.arguments
  have hne : filters ≠ [] := by
    rintro rfl
    have hlength := (readStages_eq_ok_iff.mp hfilters).length_eq
    exact hreadable.stages_ne_nil (List.length_eq_zero_iff.mp hlength)
  obtain ⟨⟨name, arguments⟩, rest, rfl⟩ := List.exists_cons_of_ne_nil hne
  have hfold := foldl_pipe heads arguments name rest
  refine ⟨heads, _, _, hheads, hfilters, hfold, ?_, ?_⟩
  · have hstages : pipeline.trimmed.stages ≠ [] := by
      simpa [Pipeline.trimmed] using hreadable.stages_ne_nil
    rw [parse_eq_ok_iff, Pipeline.ofSource_eq_trimmed (h.trim hreadable) hreadable,
      ofPipeline_eq_ok_iff hstages]
    exact ⟨heads, _, ofSources_trim hheads, readStages_trimmed hfilters, hfold⟩
  · intro scope values steps hvalues hsteps
    have hall := evalAll_foldl_pipe hvalues hsteps
    rw [hfold, evalAll_singleton_eq_ok_iff] at hall
    exact hall

theorem parse_of_spells_quoted :
    let pipeline : Pipeline :=
      ⟨["a".toList, "'|(,'".toList], [⟨"f".toList, ["[1,'|']".toList]⟩, ⟨"g".toList, []⟩]⟩
    pipeline.Spells "a , '|(,'| f( [1,'|'] )|g".toList ∧ pipeline.IsReadable ∧
      Pipeline.ofSource "a , '|(,'| f( [1,'|'] )|g".toList = pipeline ∧
      ∃ e, parse "a , '|(,'| f( [1,'|'] )|g".toList = .ok e ∧
        ∃ scope value, eval scope e = .ok value := by
  intro pipeline
  have hspells : pipeline.Spells "a , '|(,'| f( [1,'|'] )|g".toList := by
    refine ⟨"a , '|(,'".toList, [" f( [1,'|'] )".toList, "g".toList], ?_, .cons ?_ (.cons ?_ .nil),
      rfl⟩
    · have hfirst : Around "a".toList "a ".toList := around_of_blank [] "a".toList [' '] rfl rfl
      have hsecond : Around "'|(,'".toList " '|(,'".toList :=
        around_of_blank [' '] "'|(,'".toList [] rfl rfl
      exact Listed.cons hfirst (.cons hsecond .nil)
    · have hargument : Around "[1,'|']".toList " [1,'|'] ".toList := by decide
      have hlisted : Listed ["[1,'|']".toList] " [1,'|'] ".toList := Listed.cons hargument .nil
      have haround : Around "f".toList " f".toList := by decide
      exact Stage.Spells.called haround hlisted rfl
    · exact .bare (by decide)
  have hpiece {source : Text} (h : (ofSource source).toOption.isSome = true)
      (hmem : '\\' ∉ source) : IsPiece source := by
    obtain ⟨e, he⟩ := Option.isSome_iff_exists.mp h
    exact .of_not_mem (Outcome.eq_ok_of_toOption he) hmem
  have hreadable : pipeline.IsReadable := by
    refine ⟨by simp [pipeline], by simp [pipeline], ?_, by decide, ?_⟩
    · simp only [pipeline, List.forall_mem_cons]
      exact ⟨hpiece (by decide +kernel) (by decide), hpiece (by decide +kernel) (by decide),
        by simp⟩
    · simp only [pipeline, List.forall_mem_cons]
      exact ⟨⟨hpiece (by decide +kernel) (by decide), by simp⟩, by simp, by simp⟩
  obtain ⟨hpipeline, heads, filters, e, hheads, hfilters, -, hparse, heval⟩ :=
    parse_of_spells hspells hreadable
  refine ⟨hspells, hreadable, hpipeline.trans (by decide), e, hparse, ?_⟩
  let scope : Scope := ⟨[[("a".toList, .null)]], ⟨[("f".toList, .list), ("g".toList, .list)]⟩⟩
  have hvalues : (ofSources pipeline.heads).toOption.all
      (fun heads => (evalAll scope heads).toOption.isSome) = true := by decide +kernel
  have hsteps : (readStages pipeline.stages).toOption.all (List.all · fun filter =>
      (scope.methods.get? filter.1).isSome && (evalAll scope filter.2).toOption.isSome) = true := by
    decide +kernel
  rw [hheads] at hvalues
  rw [hfilters] at hsteps
  obtain ⟨values, hvalues⟩ := Option.isSome_iff_exists.mp hvalues
  have hstep : ∀ filter ∈ filters, ∃ step, Applies scope filter step := by
    intro filter hmem
    have hfilter := List.all_eq_true.mp hsteps filter hmem
    simp only [Bool.and_eq_true, Option.isSome_iff_exists] at hfilter
    obtain ⟨⟨method, hmethod⟩, arguments, harguments⟩ := hfilter
    exact ⟨(method, arguments), hmethod, Outcome.eq_ok_of_toOption harguments⟩
  obtain ⟨steps, hsteps⟩ := exists_forall₂ hstep
  obtain ⟨value, -, hvalue⟩ := heval scope values steps (Outcome.eq_ok_of_toOption hvalues) hsteps
  exact ⟨scope, value, hvalue⟩

end Expr

end HtmlTemplate
