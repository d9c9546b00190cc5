import HtmlTemplate.Value.Basic
/-!
The compact JSON text of a value: no blanks, entries in insertion order.
-/

namespace HtmlTemplate

namespace Json

def hexDigit (n : Nat) : Char := Char.ofNat (if n < 10 then 48 + n else 87 + n)

/-- A character inside a quoted text.  Quotes, backslashes and the characters below the blank are
escaped, all others stand for themselves. -/
def escapeChar (c : Char) : Text :=
  if c = '"' then "\\\"".toList
  else if c = '\\' then "\\\\".toList
  else if 32 ≤ c.toNat then [c]
  else if c = '\n' then "\\n".toList
  else if c = '\r' then "\\r".toList
  else if c = '\t' then "\\t".toList
  else if c.toNat = 8 then "\\b".toList
  else if c.toNat = 12 then "\\f".toList
  else "\\u00".toList ++ [hexDigit (c.toNat / 16), hexDigit (c.toNat % 16)]

def quote (s : Text) : Text := '"' :: (s.flatMap escapeChar ++ ['"'])

end Json

namespace Value

mutual

def compact : Value → Text
  | .null => "null".toList
  | .bool true => "true".toList
  | .bool false => "false".toList
  | .number n => n.render
  | .string s => Json.quote s
  | .list items => '[' :: (compactItems items ++ [']'])
  | .map entries => '\x7b' :: (compactEntries entries ++ ['\x7d'])

def compactItems : List Value → Text
  | [] => []
  | [item] => compact item
  | item :: rest => compact item ++ ',' :: compactItems rest

def compactEntries : List (Text × Value) → Text
  | [] => []
  | [(name, value)] => Json.quote name ++ ':' :: compact value
  | (name, value) :: rest => Json.quote name ++ ':' :: compact value ++ ',' :: compactEntries rest

end

end Value

end HtmlTemplate
