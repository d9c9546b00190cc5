import HtmlTemplate.Text.Basic
/-!
The words of the expression language that hold no blanks between their parts: names, numerals and
quoted texts.  Each is the longest one at the head of a text.
-/

namespace HtmlTemplate.Literal

def name? : Text → Option (Text × Text)
  | [] => none
  | c :: rest =>
      if Text.isNameStart c then
        some (c :: rest.takeWhile Text.isNameChar, rest.dropWhile Text.isNameChar)
      else none

/-- A keyword that is not the beginning of a longer name. -/
def keyword? (word s : Text) : Option Text :=
  (Text.after? word s).filter fun rest => !(rest.head?.any Text.isNameChar)

/-- The digits at the head of a text, at least one, and what remains. -/
def digits? (s : Text) : Option (Text × Text) :=
  let digits := s.takeWhile Char.isDigit
  if digits.isEmpty then none else some (digits, s.dropWhile Char.isDigit)

/-- A point followed by digits; nothing where there is no such point. -/
def fraction : Text → Text × Text
  | '.' :: rest =>
      match digits? rest with
      | some (digits, rest) => ('.' :: digits, rest)
      | none => ([], '.' :: rest)
  | s => ([], s)

def exponentSign : Text → Text × Text
  | '+' :: rest => (['+'], rest)
  | '-' :: rest => (['-'], rest)
  | s => ([], s)

/-- The letter `e`, an optional sign and digits; nothing where they are not complete. -/
def exponent : Text → Text × Text
  | [] => ([], [])
  | c :: rest =>
      if c = 'e' || c = 'E' then
        let (sign, unsigned) := exponentSign rest
        match digits? unsigned with
        | some (digits, rest) => (c :: (sign ++ digits), rest)
        | none => ([], c :: rest)
      else ([], c :: rest)

def unsigned? (s : Text) : Option (Text × Text) :=
  (digits? s).map fun (whole, rest) =>
    let (fraction, rest) := fraction rest
    let (exponent, rest) := exponent rest
    (whole ++ fraction ++ exponent, rest)

def numeral? : Text → Option (Text × Text)
  | '-' :: rest => (unsigned? rest).map fun (text, rest) => ('-' :: text, rest)
  | s => unsigned? s

def escaped (c : Char) : Char :=
  if c = 'n' then '\n'
  else if c = 't' then '\t'
  else if c = 'r' then '\r'
  else c

/-- The text up to the closing quote, with its escapes replaced. -/
def upToQuote (quote : Char) : Text → Option (Text × Text)
  | [] => none
  | '\\' :: c :: rest => (upToQuote quote rest).map fun (text, rest) => (escaped c :: text, rest)
  | c :: rest =>
      if c = quote then some ([], rest)
      else if c = '\\' then none
      else (upToQuote quote rest).map fun (text, rest) => (c :: text, rest)

/-- A text in single or double quotes at the head of a text, and what remains. -/
def quoted? : Text → Option (Text × Text)
  | '\'' :: rest => upToQuote '\'' rest
  | '"' :: rest => upToQuote '"' rest
  | _ => none

end HtmlTemplate.Literal
