import Mathlib.Data.List.Forall2
import HtmlTemplate.Proofs.Expr.Trim
import HtmlTemplate.Proofs.Pipeline.Cut
/-!
How a pipeline is written: heads between commas, and then stages, each after a bar, with arguments
in parentheses.  Blanks may stand around every part.  The same pipeline is recovered from such a
text.
-/

namespace HtmlTemplate

/-- A text is a piece apart from the blanks around them. -/
def Around (piece text : Text) : Prop := text.trim = piece.trim

instance (piece text : Text) : Decidable (Around piece text) :=
  inferInstanceAs (Decidable (text.trim = piece.trim))

/-- A text is made of the given pieces between commas.  Without any piece it is blank. -/
inductive Listed : List Text → Text → Prop where
  | nil {text : Text} : Text.isBlankText text = true → Listed [] text
  | cons {piece text : Text} {pieces texts : List Text} : Around piece text →
      List.Forall₂ Around pieces texts →
      Listed (piece :: pieces) ([','].intercalate (text :: texts))

/-- What may be written for a stage after its bar. -/
inductive Stage.Spells : Stage → Text → Prop where
  | bare {name text : Text} : Around name text → Spells ⟨name, []⟩ text
  | called {name before inner after : Text} {arguments : List Text} : Around name before →
      Listed arguments inner → Text.isBlankText after = true →
      Spells ⟨name, arguments⟩ (before ++ '(' :: (inner ++ ')' :: after))

/-- What may be written for a pipeline. -/
def Pipeline.Spells (pipeline : Pipeline) (s : Text) : Prop :=
  ∃ first others, Listed pipeline.heads first ∧
    List.Forall₂ Stage.Spells pipeline.stages others ∧ s = ['|'].intercalate (first :: others)

/-- A source of an expression none of whose quoted texts ends in a backslash, as it is written. -/
structure IsPiece (source : Text) : Prop where
  accepted : ∃ e, Expr.ofSource source = .ok e
  bodies : ∀ bodies, Quoting source bodies → ∀ body ∈ bodies, body.getLast? ≠ some '\\'

/-- A pipeline with heads and stages, of pieces and names. -/
structure Pipeline.IsReadable (pipeline : Pipeline) : Prop where
  heads_ne_nil : pipeline.heads ≠ []
  stages_ne_nil : pipeline.stages ≠ []
  heads : ∀ head ∈ pipeline.heads, IsPiece head
  names : ∀ stage ∈ pipeline.stages, Text.isName stage.name = true
  arguments : ∀ stage ∈ pipeline.stages, ∀ argument ∈ stage.arguments, IsPiece argument

def Stage.trimmed (stage : Stage) : Stage := ⟨stage.name, stage.arguments.map Text.trim⟩

def Pipeline.trimmed (pipeline : Pipeline) : Pipeline :=
  ⟨pipeline.heads.map Text.trim, pipeline.stages.map Stage.trimmed⟩

theorem around_of_blank (before piece after : Text) (hbefore : Text.isBlankText before = true)
    (hafter : Text.isBlankText after = true) : Around piece (before ++ (piece ++ after)) := by
  rw [Around, Text.trim_append_of_blank_left hbefore, Text.trim_append_of_blank hafter]

open Scan

variable {inside : Bool} {piece text name : Text} {pieces : List Text}

/-! ### Pieces -/

theorem Around.passes (h : Around piece text) (hpiece : Passes inside piece.trim) :
    Passes inside text := by
  obtain ⟨before, after, hbefore, hafter, htext⟩ := Text.exists_trim text
  rw [htext, h]
  exact (Passes.blank hbefore).append (hpiece.append (Passes.blank hafter))

theorem Around.isBlankText (h : Around piece text) :
    Text.isBlankText text = Text.isBlankText piece := by
  rw [Bool.eq_iff_iff, ← Text.trim_eq_nil_iff, ← Text.trim_eq_nil_iff, h]

theorem quoting_of_blank {s : Text} (h : Text.isBlankText s = true) : Quoting s [] :=
  Quoting.of_code fun c hc => (code_of_isBlank (List.all_eq_true.mp h c hc)).1

namespace IsPiece

theorem of_not_mem {e : Expr} (h : Expr.ofSource piece = .ok e) (hpiece : '\\' ∉ piece) :
    IsPiece piece where
  accepted := ⟨e, h⟩
  bodies _ hquoting _ hbody hlast :=
    hpiece (hquoting.mem_of_mem_body hbody (List.mem_of_getLast? hlast))

theorem not_blank (h : IsPiece piece) : Text.isBlankText piece = false := by
  obtain ⟨e, haccepted⟩ := h.accepted
  exact Expr.not_blank_of_ofSource haccepted

theorem passes_trim (h : IsPiece piece) : Passes false piece.trim := by
  obtain ⟨e, haccepted⟩ := h.accepted
  obtain ⟨⟨bodies, hbracketing⟩, -⟩ :=
    Expr.bracketed_and_plain_of_ofSource (Expr.ofSource_trim haccepted)
  refine Passes.of_bracketing hbracketing (h.bodies bodies ?_)
  obtain ⟨before, after, hbefore, hafter, hpiece⟩ := Text.exists_trim piece
  rw [hpiece]
  simpa using (quoting_of_blank hbefore).append
    (hbracketing.quoting.append (quoting_of_blank hafter))

theorem passes (h : IsPiece piece) (hpiece : Around piece text) : Passes false text :=
  hpiece.passes h.passes_trim

end IsPiece

theorem Around.passes_name (h : Around name text) (hname : Text.isName name = true) :
    Passes inside text := by
  refine h.passes ?_
  rw [Text.trim_of_isName hname]
  exact Passes.of_bracketing (Literal.bracketing_of_isName hname) (by simp)

/-! ### Lists -/

theorem forall₂_exists {α β : Type} {R : α → β → Prop} {as : List α} {bs : List β}
    (h : List.Forall₂ R as bs) : ∀ b ∈ bs, ∃ a ∈ as, R a b := by
  induction h with
  | nil => simp
  | cons hfirst _ ih =>
      intro b hb
      rcases List.mem_cons.mp hb with rfl | hb
      · exact ⟨_, List.mem_cons_self .., hfirst⟩
      · obtain ⟨a, ha, hab⟩ := ih b hb
        exact ⟨a, List.mem_cons_of_mem _ ha, hab⟩

theorem map_eq_map_of_forall₂ {α β γ : Type} {f : α → γ} {g : β → γ} {as : List α} {bs : List β}
    (h : List.Forall₂ (fun a b => f a = g b) as bs) : as.map f = bs.map g := by
  have hsame : List.Forall₂ (· = ·) (as.map f) (bs.map g) := by
    rwa [List.forall₂_map_left_iff, List.forall₂_map_right_iff]
  rwa [List.forall₂_eq_eq_eq] at hsame

theorem Passes.intercalate {texts : List Text} (h : ∀ text ∈ texts, Passes true text) :
    Passes true ([','].intercalate texts) := by
  induction texts with
  | nil => exact .nil
  | cons first others ih =>
      have hfirst := h first (List.mem_cons_self ..)
      have hothers := ih fun text hmem => h text (List.mem_cons_of_mem first hmem)
      have hcomma : Passes true [','] := .code (by decide) (by decide) fun _ => rfl
      cases others with
      | nil => simpa using hfirst
      | cons second others =>
          rw [List.intercalate_cons_cons]
          exact (hfirst.append hcomma).append hothers

namespace Listed

variable (h : Listed pieces text) (hpieces : ∀ piece ∈ pieces, IsPiece piece)

include h hpieces

theorem passes : Passes true text := by
  cases h with
  | nil hblank => exact Passes.blank hblank
  | cons hfirst hothers =>
      refine Passes.intercalate fun text hmem => ?_
      obtain ⟨piece, hpiece, haround⟩ := forall₂_exists (.cons hfirst hothers) text hmem
      exact ((hpieces piece hpiece).passes haround).enclosed

theorem isBlankText (hne : pieces ≠ []) : Text.isBlankText text = false := by
  cases h with
  | nil => exact absurd rfl hne
  | @cons piece text pieces texts hfirst hothers =>
      have hblank : Text.isBlankText text = false :=
        hfirst.isBlankText.trans (hpieces piece (List.mem_cons_self ..)).not_blank
      cases texts with
      | nil => simpa using hblank
      | cons second texts =>
          rw [List.intercalate_cons_cons, List.append_assoc, Text.isBlankText_append, hblank,
            Bool.false_and]

theorem map_trim_cut (hne : pieces ≠ []) :
    (Separator.cut .comma text).map Text.trim = pieces.map Text.trim := by
  cases h with
  | nil => exact absurd rfl hne
  | @cons piece text pieces texts hfirst hothers =>
      have hall : List.Forall₂ Around (piece :: pieces) (text :: texts) := .cons hfirst hothers
      have hfits := (hpieces piece (List.mem_cons_self ..)).passes hfirst
      have hall' : ∀ text ∈ texts, Separator.Fits .comma text := by
        intro text hmem
        obtain ⟨piece, hpiece, haround⟩ := forall₂_exists hothers text hmem
        exact (hpieces piece (List.mem_cons_of_mem _ hpiece)).passes haround
      have hcut :
          Separator.cutFrom .comma start ([','].intercalate (text :: texts)) = text :: texts :=
        Separator.cutFrom_intercalate atTop_start hfits hall'
      rw [map_eq_map_of_forall₂ (hall.imp fun _ _ haround => haround.symm)]
      exact congrArg (List.map Text.trim) hcut

/-- Its heads are the pieces. -/
theorem headsOf (hne : pieces ≠ []) : Pipeline.headsOf text = pieces.map Text.trim := by
  have hquiet : Separator.Quiet .pipe start text := by
    have hfits : text ≠ [] → Separator.Fits .pipe text := fun hne => ⟨h.passes hpieces, hne⟩
    refine (hfits ?_).quiet atTop_start
    rintro rfl
    have hblank := h.isBlankText hpieces hne
    cases hblank
  have hcut : Separator.cut .pipe text = [text] := Separator.cutFrom_of_quiet hquiet
  rw [Pipeline.headsOf, hcut]
  exact h.map_trim_cut hpieces hne

end Listed

/-! ### Stages -/

namespace Stage

variable {stage : Stage}

theorem Spells.passes (h : stage.Spells text) (hname : Text.isName stage.name = true)
    (harguments : ∀ argument ∈ stage.arguments, IsPiece argument) :
    Passes true text ∧ Text.isBlankText text = false := by
  have hnonblank := Text.isBlankText_of_isName hname
  cases h with
  | bare haround => exact ⟨haround.passes_name hname, haround.isBlankText.trans hnonblank⟩
  | @called name before inner after arguments haround hlisted hafter =>
      have hgroup : Passes true ('(' :: (inner ++ [')'])) :=
        .group .paren (hlisted.passes harguments)
      refine ⟨?_, ?_⟩
      · have hwhole := ((haround.passes_name hname).append hgroup).append (Passes.blank hafter)
        simpa using hwhole
      · rw [Text.isBlankText_append, haround.isBlankText, hnonblank, Bool.false_and]

/-- Neither a name nor the blanks around it open a group. -/
theorem paren_not_mem_of_around (h : Around name text) (hname : Text.isName name = true) :
    '(' ∉ text := by
  obtain ⟨before, after, hbefore, hafter, htext⟩ := Text.exists_trim text
  rw [h, Text.trim_of_isName hname] at htext
  have hblank {s : Text} (hs : Text.isBlankText s = true) : '(' ∉ s := fun hmem =>
    absurd (List.all_eq_true.mp hs _ hmem) (by decide)
  have hfree : '(' ∉ name := fun hmem =>
    absurd (Text.isNameChar_of_mem hname hmem) (by decide)
  rw [htext, List.mem_append, List.mem_append, not_or, not_or]
  exact ⟨hblank hbefore, hfree, hblank hafter⟩

/-- A stage is recovered from what is written for it. -/
theorem ofSource_of_spells (h : stage.Spells text) (hname : Text.isName stage.name = true)
    (harguments : ∀ argument ∈ stage.arguments, IsPiece argument) :
    Stage.ofSource text = stage.trimmed := by
  cases h with
  | @bare name text haround =>
      have hgroup : lastGroup? start text = none :=
        lastGroup?_of_not_mem (paren_not_mem_of_around haround hname)
      simp only [ofSource, hgroup, trimmed, List.map_nil]
      rw [haround, Text.trim_of_isName hname]
  | @called name before inner after arguments haround hlisted hafter =>
      have hparen := paren_not_mem_of_around haround hname
      have hbefore : Passes false before := haround.passes_name hname
      have hgroup : lastGroup? start (before ++ '(' :: (inner ++ ')' :: after)) = some inner := by
        refine lastGroup?_append (lastGroup?_group (atTop_start.foldl hbefore) ?_ ?_)
        · exact hlisted.passes harguments
        · exact fun hmem => absurd (List.all_eq_true.mp hafter _ hmem) (by decide)
      simp only [ofSource, hgroup, trimmed]
      rw [Text.takeWhile_trim (by decide) hparen, Text.trim_trimStart, haround,
        Text.trim_of_isName hname]
      by_cases hne : arguments = []
      · subst hne
        cases hlisted with
        | nil hblank => rw [if_pos hblank, List.map_nil]
      · rw [hlisted.isBlankText harguments hne, hlisted.headsOf harguments hne]
        rfl

end Stage

end HtmlTemplate
