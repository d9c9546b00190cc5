import HtmlTemplate.Number.Basic
/-!
Expressions of the template language, and the text that stands for an expression in messages and
in printed form.
-/

namespace HtmlTemplate

inductive Comparison where
  | strictEq
  | strictNe
  | looseEq
  | looseNe
  | lt
  | le
  | gt
  | ge
  deriving DecidableEq, Repr

namespace Comparison

def symbol : Comparison → String
  | .strictEq => "==="
  | .strictNe => "!=="
  | .looseEq => "=="
  | .looseNe => "!="
  | .lt => "<"
  | .le => "<="
  | .gt => ">"
  | .ge => ">="

/-- The two operators that also accept null. -/
def isIdentity : Comparison → Bool
  | .strictEq | .strictNe => true
  | _ => false

end Comparison

mutual

/-- An expression.  `access name path` reads a variable and then a member of it per step of the
path.  The arguments of a filter are what is piped into it, followed by its own arguments. -/
inductive Expr where
  | null
  | bool (b : Bool)
  | number (n : Number)
  | string (s : Text)
  | access (name : Text) (path : List Step)
  | not (operand : Expr)
  | compare (left : Expr) (operator : Comparison) (right : Expr)
  | call (name : Text) (arguments : List Expr)
  | filter (name : Text) (arguments : List Expr)
  | list (items : List Expr)
  | map (properties : List Property)

inductive Step where
  | name (name : Text)
  | computed (key : Expr)

inductive Property where
  | static (key : Text) (value : Expr)
  | computed (key value : Expr)

end

instance : Inhabited Expr := ⟨.null⟩

namespace Expr

def isCompare : Expr → Bool
  | .compare .. => true
  | _ => false

def quoteChar (c : Char) : Text :=
  if c = '\\' then "\\\\".toList
  else if c = '\'' then "\\'".toList
  else if c = '\n' then "\\n".toList
  else [c]

def quote (s : Text) : Text := '\'' :: (s.flatMap quoteChar ++ ['\''])

/-- Puts the text of a comparison in parentheses when it is an operand. -/
def asOperand (e : Expr) (text : Text) : Text :=
  if e.isCompare then '(' :: (text ++ [')']) else text

mutual

def render : Expr → Text
  | .null => "null".toList
  | .bool true => "true".toList
  | .bool false => "false".toList
  | .number n => n.render
  | .string s => quote s
  | .access name path => name ++ renderPath path
  | .not operand => '!' :: asOperand operand (render operand)
  | .compare left operator right =>
      asOperand left (render left) ++ ' ' :: (operator.symbol.toList ++
        ' ' :: asOperand right (render right))
  | .call name arguments => name ++ '(' :: (renderItems arguments ++ [')'])
  | .filter name [] => name ++ "()".toList
  | .filter name [head] => render head ++ " | ".toList ++ name
  | .filter name (head :: rest) =>
      render head ++ " | ".toList ++ name ++ '(' :: (renderItems rest ++ [')'])
  | .list items => '[' :: (renderItems items ++ [']'])
  | .map [] => "\x7b\x7d".toList
  | .map properties => "\x7b ".toList ++ renderProperties properties ++ " \x7d".toList

def renderItems : List Expr → Text
  | [] => []
  | [item] => render item
  | item :: rest => render item ++ ", ".toList ++ renderItems rest

def renderPath : List Step → Text
  | [] => []
  | .name name :: rest => '.' :: (name ++ renderPath rest)
  | .computed key :: rest => '[' :: (render key ++ ']' :: renderPath rest)

def renderProperties : List Property → Text
  | [] => []
  | [property] => renderProperty property
  | property :: rest => renderProperty property ++ ", ".toList ++ renderProperties rest

def renderProperty : Property → Text
  | .static key value => quote key ++ ": ".toList ++ render value
  | .computed key value => '[' :: (render key ++ "]: ".toList ++ render value)

end

end Expr

end HtmlTemplate
