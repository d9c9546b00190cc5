import HtmlTemplate.Expr.Grammar
import HtmlTemplate.Expr.Pipeline
/-!
Reading an expression from its source, alone or at the head of a pipeline.  A stage applies a
filter to what is piped into it: the heads for the first stage, the stage before for any other.
-/

namespace HtmlTemplate

/-- Why a source is no expression: at a column none of the expected symbols was found, or a numeral
is out of range. -/
inductive ParseError where
  | unexpected (source : Text) (expected : List Symbol) (column : Nat)
  | outOfRange (literal : Text)
  deriving DecidableEq

namespace ParseError

def alternatives : List String → String
  | [] => ""
  | [a] => a
  | [a, b] => a ++ " or " ++ b
  | a :: b :: c :: rest =>
      let names := a :: b :: c :: rest
      ", ".intercalate names.dropLast ++ ", or " ++ names.getLast?.getD ""

def message : ParseError → String
  | .unexpected source expected column =>
      "invalid expression `" ++ String.ofList source ++ "`: expected " ++
        alternatives (expected.map Symbol.name) ++ " at column " ++ toString column
  | .outOfRange literal => "numeric literal `" ++ String.ofList literal ++ "` is out of range"

/-- Names the source in an error about an empty piece of it. -/
def within (source : Text) : ParseError → ParseError
  | .unexpected [] expected column => .unexpected source expected column
  | error => error

end ParseError

namespace Attempts

def expected (attempts : Attempts) : List Symbol :=
  Symbol.all.filter fun symbol => attempts.symbols.contains symbol

/-- The column of the place of the attempts in its line of the source, counted from 1. -/
def column (attempts : Attempts) (source : Text) : Nat :=
  let before := source.take (source.length - attempts.remaining)
  (before.reverse.takeWhile (· ≠ '\n')).length + 1

end Attempts

namespace Expr

def ofSource (source : Text) : Except ParseError Expr :=
  let outcome := Grammar.expression (source.length + 1) source
  match outcome.read with
  | some (.ok e, _) => .ok e
  | some (.error literal, _) => .error (.outOfRange literal)
  | none =>
      .error (.unexpected source outcome.attempts.expected (outcome.attempts.column source))

def ofSources : List Text → Except ParseError (List Expr)
  | [] => .ok []
  | source :: rest => do
      let e ← ofSource source
      let others ← ofSources rest
      .ok (e :: others)

/-- The stages of a pipeline as filters, each with the expressions of its arguments. -/
def readStages : List Stage → Except ParseError (List (Text × List Expr))
  | [] => .ok []
  | stage :: rest => do
      let arguments ← ofSources stage.arguments
      let others ← readStages rest
      .ok ((stage.name, arguments) :: others)

/-- Applies filters to the expressions of the heads, from left to right. -/
def applyFilters (heads : List Expr) (name : Text) (arguments : List Expr)
    (rest : List (Text × List Expr)) : Expr :=
  rest.foldl (fun piped stage => .filter stage.1 (piped :: stage.2))
    (.filter name (heads ++ arguments))

/-- Reads a pipeline; one without stages is the single expression of its source. -/
def ofPipeline (source : Text) (pipeline : Pipeline) : Except ParseError Expr :=
  match pipeline.stages with
  | [] => ofSource source
  | stage :: rest => do
      let heads ← ofSources pipeline.heads
      let arguments ← ofSources stage.arguments
      let others ← readStages rest
      .ok (applyFilters heads stage.name arguments others)

/-- Reads a source: an expression, or a pipeline.  Blanks around it do not count, and an error
about an empty piece of it names the whole. -/
def parse (source : Text) : Except ParseError Expr :=
  let trimmed := source.trim
  (ofPipeline trimmed (.ofSource trimmed)).mapError (ParseError.within trimmed)

end Expr

end HtmlTemplate
