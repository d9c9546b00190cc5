import HtmlTemplate.Text.Invisible
/-!
A name in double quotes as diagnostics show it: characters without a visible form of their own are
given by their codes.
-/

namespace HtmlTemplate.Text

def hexDigits (n : Nat) : Text := Nat.toDigits 16 n

/-- A character of a quoted name. -/
def quotedChar (c : Char) : Text :=
  if c = '"' then "\\\"".toList
  else if c = '\\' then "\\\\".toList
  else if c = '\n' then "\\n".toList
  else if c = '\r' then "\\r".toList
  else if c = '\t' then "\\t".toList
  else if c.toNat = 0 then "\\0".toList
  else if isInvisible c then "\\u\x7b".toList ++ hexDigits c.toNat ++ ['\x7d']
  else [c]

def quoted (s : Text) : Text := '"' :: (s.flatMap quotedChar ++ ['"'])

end HtmlTemplate.Text
