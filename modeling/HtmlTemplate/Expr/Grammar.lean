import HtmlTemplate.Expr.Basic
import HtmlTemplate.Expr.Literal
import HtmlTemplate.Expr.Reader
/-!
The grammar of expressions.  A comparison binds to the left, and `<`, `<=`, `>` and `>=` bind
tighter than the equalities.  Brackets nest through the parameter `inner`, which reads the
expressions inside them.
-/

namespace HtmlTemplate.Grammar

open Reader

/-- A reading that is void if a numeral in it is out of range; the first such numeral is kept. -/
abbrev Checked (α : Type) := Except Text α

def collect {α : Type} : List (Checked α) → Checked (List α)
  | [] => .ok []
  | first :: rest => do
      let a ← first
      let others ← collect rest
      .ok (a :: others)

def ident : Reader Text := named .ident (leaf Literal.name?)

def null : Reader (Checked Expr) :=
  named .null (leaf fun s => (Literal.keyword? "null".toList s).map fun rest => (.ok .null, rest))

def boolean : Reader (Checked Expr) :=
  named .boolean (leaf fun s =>
    match Literal.keyword? "true".toList s with
    | some rest => some (.ok (.bool true), rest)
    | none => (Literal.keyword? "false".toList s).map fun rest => (.ok (.bool false), rest))

def numberOf (literal : Text) : Checked Expr :=
  match Number.ofLiteral? literal with
  | some n => .ok (.number n)
  | none => .error literal

def number : Reader (Checked Expr) := named .number (map numberOf (leaf Literal.numeral?))

def string : Reader Text := named .string (leaf Literal.quoted?)

def equality : Reader Comparison :=
  named .equality (oneOf
    [map (fun _ => .strictEq) (word "===".toList), map (fun _ => .strictNe) (word "!==".toList),
      map (fun _ => .looseEq) (word "==".toList), map (fun _ => .looseNe) (word "!=".toList)])

def relation : Reader Comparison :=
  named .relation (oneOf
    [map (fun _ => .le) (word "<=".toList), map (fun _ => .ge) (word ">=".toList),
      map (fun _ => .lt) (word "<".toList), map (fun _ => .gt) (word ">".toList)])

/-- One or more readings between commas. -/
def separated {α : Type} (p : Reader α) : Reader (List α) :=
  map (fun read => read.1 :: read.2) (both p (many (map Prod.snd (both (word [',']) p))))

/-- Any number of readings between commas, and perhaps a comma after the last. -/
def trailing {α : Type} (p : Reader α) : Reader (List α) :=
  map (fun read => (read.map Prod.fst).getD [])
    (optional (both (separated p) (optional (word [',']))))

def between {α : Type} (opening : Char) (p : Reader α) (closing : Char) : Reader α :=
  map (fun read => read.2.1) (both (word [opening]) (both p (word [closing])))

def call (inner : Reader (Checked Expr)) : Reader (Checked Expr) :=
  named .call (map (fun read => (collect read.2).map (.call read.1))
    (both ident (between '(' (map (·.getD []) (optional (separated inner))) ')')))

def dotAccess : Reader (Checked Step) :=
  named .dotAccess (map (fun read => .ok (.name read.2)) (both (word ['.']) ident))

def indexAccess (inner : Reader (Checked Expr)) : Reader (Checked Step) :=
  named .indexAccess (map (Except.map .computed) (between '[' inner ']'))

def member (inner : Reader (Checked Expr)) : Reader (Checked Expr) :=
  named .member (map (fun read => (collect read.2).map (.access read.1))
    (both ident (many (orElse dotAccess (indexAccess inner)))))

def array (inner : Reader (Checked Expr)) : Reader (Checked Expr) :=
  named .array (map (fun read => (collect read).map .list) (between '[' (trailing inner) ']'))

def computedKey (inner : Reader (Checked Expr)) : Reader (Checked Expr) :=
  named .computedKey (between '[' inner ']')

def key (inner : Reader (Checked Expr)) : Reader (Text ⊕ Checked Expr) :=
  oneOf [map .inl string, map .inl ident, map .inr (computedKey inner)]

def propertyOf : Text ⊕ Checked Expr → Checked Expr → Checked Property
  | .inl key, value => value.map (.static key)
  | .inr key, value => do
      let key ← key
      let value ← value
      .ok (.computed key value)

def property (inner : Reader (Checked Expr)) : Reader (Checked Property) :=
  named .property (map (fun read => propertyOf read.1 read.2.2)
    (both (key inner) (both (word [':']) inner)))

def object (inner : Reader (Checked Expr)) : Reader (Checked Expr) :=
  named .object (map (fun read => (collect read).map .map)
    (between '\x7b' (trailing (property inner)) '\x7d'))

def primary (inner : Reader (Checked Expr)) : Reader (Checked Expr) :=
  oneOf [null, boolean, number, map (fun s => .ok (.string s)) string, call inner, array inner,
    object inner, member inner, between '(' inner ')']

def negate : Nat → Expr → Expr
  | 0, e => e
  | times + 1, e => .not (negate times e)

def unary (inner : Reader (Checked Expr)) : Reader (Checked Expr) :=
  named .unary (map (fun read => read.2.map (negate read.1.length))
    (both (many (named .not (word ['!']))) (primary inner)))

def compareAll (first : Expr) (rest : List (Comparison × Expr)) : Expr :=
  rest.foldl (fun left next => .compare left next.1 next.2) first

/-- Operands with operators between them. -/
def chain (operand : Reader (Checked Expr)) (operator : Reader Comparison) :
    Reader (Checked Expr) :=
  map (fun read => do
      let first ← read.1
      let rest ← collect (read.2.map fun next => next.2.map fun operand => (next.1, operand))
      .ok (compareAll first rest))
    (both operand (many (both operator operand)))

def relational (inner : Reader (Checked Expr)) : Reader (Checked Expr) :=
  named .relational (chain (unary inner) relation)

/-- An expression whose brackets nest less deep than the given number. -/
def expr : Nat → Reader (Checked Expr)
  | 0 => fail
  | depth + 1 => named .expr (chain (relational (expr depth)) equality)

def endOfInput : Reader Unit :=
  named .endOfInput (leaf fun s => if s.isEmpty then some ((), []) else none)

/-- An expression that takes up the whole input, apart from gaps at both ends. -/
def expression (depth : Nat) : Reader (Checked Expr) :=
  named .expression (map (fun read => read.2.1)
    (both (word []) (both (expr depth) endOfInput)))

end HtmlTemplate.Grammar
