import HtmlTemplate.Text.Basic
/-!
Readers for a grammar with ordered choice.  Besides what it reads, a reader reports which symbols
it looked for in vain at the furthest place of its input.  What is read never depends on these
reports: each combinator's `read` is determined by the `read` of its parts.
-/

namespace HtmlTemplate

/-- The symbols of the grammar that messages name, in the order in which messages list them. -/
inductive Symbol where
  | endOfInput
  | expression
  | expr
  | relational
  | unary
  | equality
  | relation
  | not
  | null
  | boolean
  | number
  | string
  | singleChars
  | doubleChars
  | ident
  | call
  | member
  | dotAccess
  | indexAccess
  | array
  | object
  | property
  | computedKey
  deriving DecidableEq, Repr

namespace Symbol

def all : List Symbol :=
  [.endOfInput, .expression, .expr, .relational, .unary, .equality, .relation, .not, .null,
    .boolean, .number, .string, .singleChars, .doubleChars, .ident, .call, .member, .dotAccess,
    .indexAccess, .array, .object, .property, .computedKey]

def name : Symbol → String
  | .endOfInput => "EOI"
  | .expression => "expression"
  | .expr => "expr"
  | .relational => "relational"
  | .unary => "unary"
  | .equality => "eq_op"
  | .relation => "rel_op"
  | .not => "not"
  | .null => "null"
  | .boolean => "boolean"
  | .number => "number"
  | .string => "string"
  | .singleChars => "single_chars"
  | .doubleChars => "double_chars"
  | .ident => "ident"
  | .call => "call"
  | .member => "member"
  | .dotAccess => "dot_access"
  | .indexAccess => "index_access"
  | .array => "array"
  | .object => "object"
  | .property => "property"
  | .computedKey => "computed_key"

theorem mem_all (symbol : Symbol) : symbol ∈ all := by
  cases symbol <;> decide

end Symbol

/-- The symbols looked for in vain at one place, which is given by how much input remains there. -/
structure Attempts where
  remaining : Nat
  symbols : List Symbol

namespace Attempts

def none : Attempts := ⟨0, []⟩

/-- The attempts at the further of two places, or those of both if it is the same place. -/
def merge (a b : Attempts) : Attempts :=
  if b.symbols.isEmpty then a
  else if a.symbols.isEmpty then b
  else if a.remaining < b.remaining then a
  else if b.remaining < a.remaining then b
  else ⟨a.remaining, a.symbols ++ b.symbols⟩

/-- The attempts of a symbol whose body failed: those of the body if it got beyond its start or
missed exactly one symbol, and else the symbol itself. -/
def ofFailure (symbol : Symbol) (start : Nat) (body : Attempts) : Attempts :=
  if body.symbols.isEmpty then ⟨start, [symbol]⟩
  else if body.remaining < start then body
  else if body.symbols.length = 1 then body
  else ⟨start, [symbol]⟩

end Attempts

/-- What a reader makes of an input: what it read and what remains, if it succeeds, and in any case
its attempts. -/
structure Outcome (α : Type) where
  read : Option (α × Text)
  attempts : Attempts

/-- A reader takes what it reads off the head of its input. -/
def Reader (α : Type) := Text → Outcome α

namespace Reader

variable {α β : Type}

/-- Blanks that may stand between any two parts of an expression. -/
def isGap (c : Char) : Bool := c = ' ' || c = '\t' || c = '\r' || c = '\n'

def skipGap (s : Text) : Text := s.dropWhile isGap

/-- A reader without symbols of its own. -/
def leaf (read : Text → Option (α × Text)) : Reader α := fun s => ⟨read s, .none⟩

def fail : Reader α := leaf fun _ => none

def word (text : Text) : Reader Unit :=
  leaf fun s => (Text.after? text s).map fun rest => ((), rest)

def map (f : α → β) (p : Reader α) : Reader β := fun s =>
  ⟨(p s).read.map fun read => (f read.1, read.2), (p s).attempts⟩

def both (p : Reader α) (q : Reader β) : Reader (α × β) := fun s =>
  let first := p s
  match first.read with
  | none => ⟨none, first.attempts⟩
  | some (a, rest) =>
      let second := q (skipGap rest)
      ⟨second.read.map fun read => ((a, read.1), read.2), first.attempts.merge second.attempts⟩

/-- Reads with `p` or, where that fails, with `q`. -/
def orElse (p q : Reader α) : Reader α := fun s =>
  let first := p s
  match first.read with
  | some _ => first
  | none =>
      let second := q s
      ⟨second.read, first.attempts.merge second.attempts⟩

def oneOf : List (Reader α) → Reader α
  | [] => fail
  | [p] => p
  | p :: rest => orElse p (oneOf rest)

def optional (p : Reader α) : Reader (Option α) := fun s =>
  let first := p s
  match first.read with
  | some (a, rest) => ⟨some (some a, rest), first.attempts⟩
  | none => ⟨some (none, s), first.attempts⟩

/-- Reads with `p`, at most `limit` times, as often as it succeeds, passing over a gap each time. -/
def upTo (p : Reader α) : Nat → Reader (List α)
  | 0 => fun s => ⟨some ([], s), .none⟩
  | limit + 1 => fun s =>
      let first := p (skipGap s)
      match first.read with
      | none => ⟨some ([], s), first.attempts⟩
      | some (a, rest) =>
          let others := upTo p limit rest
          ⟨others.read.map fun read => (a :: read.1, read.2),
            first.attempts.merge others.attempts⟩

/-- Reads with `p` as often as it succeeds.  The length of the input bounds the number of times, as
`p` never succeeds without reading, and one more time it is tried in vain. -/
def many (p : Reader α) : Reader (List α) := fun s => upTo p (s.length + 1) s

def named (symbol : Symbol) (p : Reader α) : Reader α := fun s =>
  let body := p s
  match body.read with
  | some _ => body
  | none => ⟨none, .ofFailure symbol s.length body.attempts⟩

@[simp] theorem read_leaf (read : Text → Option (α × Text)) (s : Text) :
    (leaf read s).read = read s := rfl

@[simp] theorem read_map (f : α → β) (p : Reader α) (s : Text) :
    (map f p s).read = (p s).read.map fun read => (f read.1, read.2) := rfl

theorem read_both (p : Reader α) (q : Reader β) (s : Text) :
    (both p q s).read = (p s).read.bind fun first =>
      (q (skipGap first.2)).read.map fun second => ((first.1, second.1), second.2) := by
  simp only [both]
  split <;> simp_all

theorem read_orElse (p q : Reader α) (s : Text) :
    (orElse p q s).read = (p s).read.or (q s).read := by
  simp only [orElse]
  split <;> simp_all

theorem read_optional (p : Reader α) (s : Text) :
    (optional p s).read =
      some (match (p s).read with
        | some (a, rest) => (some a, rest)
        | none => (none, s)) := by
  simp only [optional]
  split <;> simp_all

@[simp] theorem read_named (symbol : Symbol) (p : Reader α) (s : Text) :
    (named symbol p s).read = (p s).read := by
  simp only [named]
  split <;> simp_all

end Reader

end HtmlTemplate
