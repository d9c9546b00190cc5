import HtmlTemplate.Template.Error
/-!
Expressions in text, between double braces.
-/

namespace HtmlTemplate.Mustache

def opening : Text := "\x7b\x7b".toList

def closing : Text := "\x7d\x7d".toList

inductive Piece where
  | literal (text : Text)
  | expression (source : Text)
  deriving DecidableEq

set_option linter.unusedVariables false in
/-- Cuts a text at its expressions, each from an opening mark to the next closing mark.  An opening
mark that is never closed is literal, with all that follows. -/
def pieces (s : Text) : List Piece :=
  match hopen : Text.breakOn opening s with
  | none => [.literal s]
  | some (before, afterOpening) =>
      match hclose : Text.breakOn closing afterOpening with
      | none => [.literal s]
      | some (source, rest) => .literal before :: .expression source :: pieces rest
termination_by s.length
decreasing_by
  have hshort := Text.length_lt_of_breakOn (by decide) hopen
  have hshorter := Text.length_lt_of_breakOn (by decide) hclose
  omega

/-- The written form of a piece: an expression becomes the escaped text of its value. -/
def renderPiece (scope : Scope) : Piece → Except RenderError Text
  | .literal text => .ok text
  | .expression source => do
      let value ← scope.evaluate (Markup.unescapeText source)
      .ok (Markup.escapeText value.display)

def renderPieces (scope : Scope) : List Piece → Except RenderError Text
  | [] => .ok []
  | piece :: rest => do
      let first ← renderPiece scope piece
      let others ← renderPieces scope rest
      .ok (first ++ others)

def interpolate (scope : Scope) (s : Text) : Except RenderError Text :=
  renderPieces scope (pieces s)

end HtmlTemplate.Mustache
