import Mathlib.Data.List.Forall2
import HtmlTemplate.Proofs.Pieces
import HtmlTemplate.Proofs.Markup.Unescape
import HtmlTemplate.Proofs.Static
/-!
Interpolation.  A text is cut at its mustaches, from the left, in one way only.  What it is
interpolated to stands for its literal pieces with the displayed values between them, and where an
expression fails the error is that of the first which does.  A mustache around an escaped source has
the outcome of the source evaluated by itself.
-/

namespace HtmlTemplate

/-! ### Padded sources -/

theorem Scope.evaluate_eq_of_trim_eq {scope : Scope} {source other : Text}
    (h : source.trim = other.trim) : scope.evaluate source = scope.evaluate other := by
  unfold evaluate Expr.parse
  rw [h]

theorem ServiceM.evaluate_eq_of_trim_eq (scope : Scope) {source other : Text}
    (h : source.trim = other.trim) :
    ServiceM.evaluate scope source = ServiceM.evaluate scope other := by
  unfold ServiceM.evaluate parse Cache.parse
  rw [h]

namespace Mustache

open Markup

/-! ### Cutting a text -/

/-- A text consists of mustaches, each given by the text before it and the source in it, and of the
text after the last of them.  A mustache goes from the first opening mark to the next closing mark,
and in the text after the last there is none. -/
inductive Cuts : Text → List (Text × Text) → Text → Prop where
  | last {last : Text} : ¬ HasExpression last → Cuts last [] last
  | mustache {literal source rest last : Text} {mustaches : List (Text × Text)} :
      ¬ opening <:+: literal ++ opening.dropLast → ¬ closing <:+: source ++ closing.dropLast →
      Cuts rest mustaches last →
      Cuts (literal ++ (opening ++ (source ++ (closing ++ rest)))) ((literal, source) :: mustaches)
        last

def piecesOf (last : Text) : List (Text × Text) → List Piece
  | [] => [.literal last]
  | (literal, source) :: mustaches =>
      .literal literal :: .expression source :: piecesOf last mustaches

theorem pieces_append {literal source : Text}
    (hopening : ¬ opening <:+: literal ++ opening.dropLast)
    (hclosing : ¬ closing <:+: source ++ closing.dropLast) (rest : Text) :
    pieces (literal ++ (opening ++ (source ++ (closing ++ rest)))) =
      .literal literal :: .expression source :: pieces rest := by
  have hopen := Text.breakOn_append (by decide : opening ≠ []) hopening
    (source ++ (closing ++ rest))
  have hclose := Text.breakOn_append (by decide : closing ≠ []) hclosing rest
  rw [pieces_eq, hopen, Option.bind_some, hclose, Option.map_some, Option.getD_some]

theorem Cuts.pieces_eq {s last : Text} {mustaches : List (Text × Text)}
    (h : Cuts s mustaches last) : pieces s = piecesOf last mustaches := by
  induction h with
  | last hlast => exact pieces_eq_literal_iff.mpr hlast
  | mustache hopening hclosing _ ih => rw [pieces_append hopening hclosing, ih, piecesOf]

theorem exists_cuts (s : Text) : ∃ mustaches last, Cuts s mustaches last := by
  have hlast {s : Text} (h : pieces s = [.literal s]) : ∃ mustaches last, Cuts s mustaches last :=
    ⟨[], s, .last (pieces_eq_literal_iff.mp h)⟩
  fun_induction pieces s with
  | case1 s hopen =>
      apply hlast
      rw [pieces_eq, hopen]
      rfl
  | case2 s before afterOpening hopen hclose =>
      apply hlast
      rw [pieces_eq, hopen, Option.bind_some, hclose]
      rfl
  | case3 s before afterOpening hopen source rest hclose ih =>
      obtain ⟨mustaches, last, hrest⟩ := ih
      refine ⟨(before, source) :: mustaches, last, ?_⟩
      rw [Text.eq_append_of_breakOn hopen, Text.eq_append_of_breakOn hclose]
      exact .mustache (Text.not_infix_of_breakOn (by decide) hopen)
        (Text.not_infix_of_breakOn (by decide) hclose) hrest

theorem piecesOf_injective {last other : Text} {mustaches others : List (Text × Text)}
    (h : piecesOf last mustaches = piecesOf other others) :
    mustaches = others ∧ last = other := by
  induction mustaches generalizing others with
  | nil =>
      cases others with
      | nil =>
          cases h
          exact ⟨rfl, rfl⟩
      | cons mustache others => cases h
  | cons mustache mustaches ih =>
      cases others with
      | nil => cases h
      | cons mustache' others =>
          simp only [piecesOf, List.cons.injEq, Piece.literal.injEq, Piece.expression.injEq] at h
          obtain ⟨hliteral, hsource, hrest⟩ := h
          obtain ⟨hmustaches, hlast⟩ := ih hrest
          exact ⟨by rw [Prod.ext hliteral hsource, hmustaches], hlast⟩

/-- There is one way only to cut a text. -/
theorem Cuts.unique {s last other : Text} {mustaches others : List (Text × Text)}
    (h : Cuts s mustaches last) (hother : Cuts s others other) :
    others = mustaches ∧ other = last :=
  piecesOf_injective (hother.pieces_eq.symm.trans h.pieces_eq)

/-! ### Inserting values -/

/-- What a text shows: the displayed values between what its literal pieces stand for. -/
def shown (last : Text) : List (Text × Text) → List Value → Text
  | (literal, _) :: mustaches, value :: values =>
      unescapeText literal ++ (value.display ++ shown last mustaches values)
  | _, _ => unescapeText last

variable {scope : Scope} {last : Text} {mustaches : List (Text × Text)}

/-- The values of the expressions in some mustaches. -/
def Evaluate (scope : Scope) : List (Text × Text) → List Value → Prop :=
  List.Forall₂ fun mustache value => scope.evaluate (unescapeText mustache.2) = .ok value

theorem renderPieces_mustache (scope : Scope) (last literal source : Text)
    (mustaches : List (Text × Text)) :
    renderPieces scope (piecesOf last ((literal, source) :: mustaches)) =
      (scope.evaluate (unescapeText source)).bind fun value =>
        (renderPieces scope (piecesOf last mustaches)).map fun others =>
          literal ++ (escapeText value.display ++ others) := by
  rw [piecesOf, renderPieces, renderPieces, renderPiece, renderPiece]
  cases scope.evaluate (unescapeText source) with
  | error error => rfl
  | ok value =>
      cases renderPieces scope (piecesOf last mustaches) with
      | error error => rfl
      | ok others => rfl

theorem exists_renderPieces {values : List Value}
    (hwritten : ∀ mustache ∈ mustaches, IsWritten mustache.1)
    (h : Evaluate scope mustaches values) :
    ∃ out, renderPieces scope (piecesOf last mustaches) = .ok out ∧
      unescapeText out = shown last mustaches values := by
  induction h with
  | nil =>
      refine ⟨last ++ [], rfl, ?_⟩
      rw [List.append_nil, shown]
      simp
  | @cons mustache value mustaches values hvalue _ ih =>
      obtain ⟨literal, source⟩ := mustache
      obtain ⟨hliteral, hothers⟩ := List.forall_mem_cons.mp hwritten
      obtain ⟨others, hrender, hshown⟩ := ih hothers
      refine ⟨literal ++ (escapeText value.display ++ others), ?_, ?_⟩
      · rw [renderPieces_mustache, hvalue, Except.bind, hrender, Except.map]
      · rw [hliteral.unescapeText_append, unescapeText_escapeText_append, hshown, shown]

theorem renderPieces_of_error {before after : List (Text × Text)} {values : List Value}
    {literal source : Text} {error : RenderError} (hbefore : Evaluate scope before values)
    (herror : scope.evaluate (unescapeText source) = .error error) :
    renderPieces scope (piecesOf last (before ++ (literal, source) :: after)) = .error error := by
  induction hbefore with
  | nil => rw [List.nil_append, renderPieces_mustache, herror, Except.bind]
  | @cons mustache value before values hvalue _ ih =>
      rw [List.cons_append, renderPieces_mustache, hvalue, Except.bind, ih, Except.map]

theorem mem_piecesOf {mustache : Text × Text} (h : mustache ∈ mustaches) :
    .literal mustache.1 ∈ piecesOf last mustaches := by
  induction mustaches with
  | nil => cases h
  | cons first mustaches ih =>
      rw [piecesOf]
      rcases List.mem_cons.mp h with rfl | h
      · exact List.mem_cons_self ..
      · exact List.mem_cons_of_mem _ (List.mem_cons_of_mem _ (ih h))

/-- A text in the written form is cut at its mustaches in one way.  If each of the expressions has a
value, interpolation gives a text that stands for the literal pieces with the displayed values in
between, and otherwise the error of the first expression that has none. -/
theorem interpolate_cuts {s : Text} (h : normalize s = s) (scope : Scope) :
    ∃ mustaches last, Cuts s mustaches last ∧
      (∀ others other, Cuts s others other → others = mustaches ∧ other = last) ∧
      (∀ values, Evaluate scope mustaches values →
        ∃ out, interpolate scope s = .ok out ∧
          unescapeText out = shown last mustaches values) ∧
      ∀ before literal source after error, mustaches = before ++ (literal, source) :: after →
        (∃ values, Evaluate scope before values) →
        scope.evaluate (unescapeText source) = .error error →
        interpolate scope s = .error error := by
  obtain ⟨mustaches, last, hcuts⟩ := exists_cuts s
  have hs : IsWritten s := h ▸ isWritten_normalize s
  have hwritten : ∀ mustache ∈ mustaches, IsWritten mustache.1 := by
    intro mustache hmem
    refine isWritten_of_mem_pieces hs ?_
    rw [hcuts.pieces_eq]
    exact mem_piecesOf hmem
  refine ⟨mustaches, last, hcuts, fun others other hother => hcuts.unique hother, ?_, ?_⟩
  · intro values hvalues
    rw [interpolate, hcuts.pieces_eq]
    exact exists_renderPieces hwritten hvalues
  · rintro before literal source after error rfl ⟨values, hvalues⟩ herror
    rw [interpolate, hcuts.pieces_eq]
    exact renderPieces_of_error hvalues herror

theorem interpolate_cuts_braces :
    let s := "1 &lt; \x7b\x7b '&lt;\x7d' \x7d\x7d\x7b \x7b\x7b 2 \x7d\x7d\x7d \x7b\x7b".toList
    normalize s = s ∧ ∃ out, interpolate (.ofBindings [] .empty) s = .ok out ∧
      unescapeText out = "1 < <\x7d\x7b 2\x7d \x7b\x7b".toList := by
  intro s
  have hs : normalize s = s := by decide
  obtain ⟨mustaches, last, -, hunique, hvalues, -⟩ :=
    interpolate_cuts hs (.ofBindings [] .empty)
  have hlast : Cuts "\x7d \x7b\x7b".toList [] "\x7d \x7b\x7b".toList := .last (by decide +kernel)
  have hcuts : Cuts s [("1 &lt; ".toList, " '&lt;\x7d' ".toList), ("\x7b ".toList, " 2 ".toList)]
      "\x7d \x7b\x7b".toList := by
    have hfirst : ¬ opening <:+: "1 &lt; ".toList ++ opening.dropLast := by decide +kernel
    have hsecond : ¬ opening <:+: "\x7b ".toList ++ opening.dropLast := by decide +kernel
    have hstring : ¬ closing <:+: " '&lt;\x7d' ".toList ++ closing.dropLast := by decide +kernel
    have hnumber : ¬ closing <:+: " 2 ".toList ++ closing.dropLast := by decide +kernel
    exact .mustache hfirst hstring (.mustache hsecond hnumber hlast)
  obtain ⟨rfl, rfl⟩ := hunique _ _ hcuts
  have hvalue (source displayed : Text)
      (h : ((Scope.ofBindings [] .empty).evaluate (unescapeText source)).toOption.map
        Value.display = some displayed) :
      ∃ value, (Scope.ofBindings [] .empty).evaluate (unescapeText source) = .ok value ∧
        value.display = displayed := by
    obtain ⟨value, hvalue, hdisplay⟩ := Option.map_eq_some_iff.mp h
    exact ⟨value, Outcome.eq_ok_of_toOption hvalue, hdisplay⟩
  obtain ⟨first, hfirst, hstring⟩ :=
    hvalue " '&lt;\x7d' ".toList "<\x7d".toList (by decide +kernel)
  obtain ⟨second, hsecond, hnumber⟩ := hvalue " 2 ".toList "2".toList (by decide +kernel)
  obtain ⟨out, hout, hshown⟩ := hvalues [first, second] (.cons hfirst (.cons hsecond .nil))
  refine ⟨hs, out, hout, hshown.trans ?_⟩
  rw [shown, shown, shown, hstring, hnumber]
  · decide +kernel
  · simp

/-! ### A mustache around a source -/

theorem isBreak_of_mem_opening : ∀ c ∈ opening, isBreak c = true :=
  Text.forall_eq_of_all (by decide)

theorem isBreak_of_mem_closing : ∀ c ∈ closing, isBreak c = true :=
  Text.forall_eq_of_all (by decide)

/-- The written form of a source in a mustache, with a space on either side. -/
def enclose (source : Text) : Text := opening ++ ' ' :: (escapeText source ++ ' ' :: closing)

theorem cuts_enclose {source : Text} (h : ¬ closing <:+: source) :
    Cuts (enclose source) [([], ' ' :: (escapeText source ++ [' ']))] [] := by
  have hclosing : ¬ closing <:+: ' ' :: (escapeText source ++ [' ']) ++ closing.dropLast := by
    have htext : ' ' :: (escapeText source ++ [' ']) ++ closing.dropLast =
        [] ++ ' ' :: (escapeText source ++ ' ' :: ['\x7d']) := by
      simp [closing]
    rw [htext]
    intro hinfix
    rcases Text.infix_or_infix_of_not_mem (by decide) hinfix with hnil | hrest
    · exact absurd hnil (by decide)
    · rcases Text.infix_or_infix_of_not_mem (by decide) hrest with hsource | hbrace
      · have hescapes := escapes_escapeText source
        exact h (hescapes.infix_of_infix (by decide) isBreak_of_mem_closing hsource)
      · exact absurd hbrace (by decide)
  have hlast : ¬ HasExpression [] := by
    rintro ⟨before, source, rest, hnil⟩
    simp [opening] at hnil
  have hopening : ¬ opening <:+: [] ++ opening.dropLast := by decide
  have htext : enclose source =
      [] ++ (opening ++ (' ' :: (escapeText source ++ [' ']) ++ (closing ++ []))) := by
    simp [enclose]
  rw [htext]
  exact .mustache hopening hclosing (.last hlast)

theorem unescapeText_enclosed (source : Text) :
    unescapeText (' ' :: (escapeText source ++ [' '])) = ' ' :: (source ++ [' ']) := by
  rw [unescapeText_cons (by decide), unescapeText_escapeText_append]
  rfl

theorem trim_enclosed (source : Text) : Text.trim (' ' :: (source ++ [' '])) = source.trim := by
  have hleft : Text.trim ([' '] ++ (source ++ [' '])) = Text.trim (source ++ [' ']) :=
    Text.trim_append_of_blank_left (by decide)
  exact hleft.trans (Text.trim_append_of_blank (by decide))

/-- A mustache around a source is interpolated to the written form of the value of the source, or
fails with the error of the source.  In service both come to the same also with what is remembered,
and remember the same. -/
theorem interpolate_enclose (app : App) (data : Bindings) {source : Text}
    (h : ¬ closing <:+: source) :
    interpolate (.ofBindings data app.methods) (enclose source) =
      (app.evaluate source data).map (fun value => escapeText value.display) ∧
    ∀ instantiate memory, ∃ (outcome : Except RenderError Value) (after : Memory),
      (app.answer (.evaluate source data)).run memory = (outcome.map .value, after) ∧
      ((ServiceM.host instantiate).renderPieces (.ofBindings data app.methods)
        (pieces (enclose source))).run memory =
          (outcome.map (fun value => escapeText value.display), after) := by
  have hpieces := (cuts_enclose h).pieces_eq
  have htrim : Text.trim (unescapeText (' ' :: (escapeText source ++ [' ']))) = source.trim := by
    rw [unescapeText_enclosed, trim_enclosed]
  constructor
  · rw [interpolate, hpieces, renderPieces_mustache, Scope.evaluate_eq_of_trim_eq htrim]
    show _ = ((Scope.ofBindings data app.methods).evaluate source).map _
    cases (Scope.ofBindings data app.methods).evaluate source with
    | error error => rfl
    | ok value =>
        show Except.ok (escapeText value.display ++ []) = _
        rw [List.append_nil]
        rfl
  · intro instantiate memory
    generalize hrun : (ServiceM.evaluate (.ofBindings data app.methods) source).run memory = result
    obtain ⟨outcome, after⟩ := result
    refine ⟨outcome, after, ?_, ?_⟩
    · rw [App.answer, Outcome.run_bind, hrun]
      cases outcome <;> rfl
    · have hevaluate : (ServiceM.host instantiate).evaluate (.ofBindings data app.methods)
          (unescapeText (' ' :: (escapeText source ++ [' ']))) =
            ServiceM.evaluate (.ofBindings data app.methods) source :=
        ServiceM.evaluate_eq_of_trim_eq _ htrim
      rw [hpieces, piecesOf, piecesOf, Host.renderPieces, Host.renderPieces, hevaluate, bind_assoc,
        Outcome.run_bind, hrun]
      cases outcome with
      | error error => rfl
      | ok value =>
          show (Except.ok (escapeText value.display ++ []), after) = _
          rw [List.append_nil]
          rfl

theorem interpolate_enclose_characters :
    let app := App.ofMethods .empty
    let data : Bindings := [("x".toList, .string "<&\x7d\x7d>".toList)]
    let source := "[x, '\x7b\x7b&amp;']".toList
    let missing := "x == y".toList
    ¬ closing <:+: source ∧ ¬ closing <:+: missing ∧
    interpolate (.ofBindings data app.methods) (enclose source) =
      .ok "[\"&lt;&amp;\x7d\x7d&gt;\",\"\x7b\x7b&amp;amp;\"]".toList ∧
    interpolate (.ofBindings data app.methods) (enclose missing) =
      .error (.eval missing (.undefinedVariable "y".toList)) := by
  intro app data source missing
  have hsource : ¬ closing <:+: source := by decide +kernel
  have hmissing : ¬ closing <:+: missing := by decide +kernel
  refine ⟨hsource, hmissing, (interpolate_enclose app data hsource).1.trans ?_,
    (interpolate_enclose app data hmissing).1.trans ?_⟩
  · decide +kernel
  · decide +kernel

end Mustache

end HtmlTemplate
