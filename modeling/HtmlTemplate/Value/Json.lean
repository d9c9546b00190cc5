import HtmlTemplate.Value.Basic
/-!
Reading a value from JSON text.  Lists and maps nest at most 127 deep.  A repeated name in a map
keeps its first place and its last value.
-/

namespace HtmlTemplate

namespace Json

def isSpace (c : Char) : Bool := c = ' ' || c = '\n' || c = '\t' || c = '\r'

def skipSpace (s : Text) : Text := s.dropWhile isSpace

/-- Digits gathered into a word of 64 bits until the next would not fit, and the number of digits
left out from there on. -/
def gatherDigits (value : Nat) : Text → Nat × Nat
  | [] => (value, 0)
  | c :: rest =>
      let next := value * 10 + (c.toNat - 48)
      if next < Nat.pow 2 64 then gatherDigits next rest else (value, rest.length + 1)

def powerOfTen (n : Nat) : Extended := .ofRatio false (Nat.pow 10 n) 1

def scale (x : Binary64) (exponent : Int) : Extended :=
  match powerOfTen exponent.natAbs with
  | .infinite _ => .infinite false
  | .finite power =>
      if 0 ≤ exponent then .ofRatio false (x.scaled * power.scaled) (Binary64.unit * Binary64.unit)
      else .ofRatio false x.scaled power.scaled

/-- The magnitude of a fraction: its leading digits as a binary number, scaled by powers of ten of
at most 308, each step rounded.  Too large a magnitude is no number. -/
def fractionMagnitude (digits : Nat) (exponent : Int) : Option Binary64 := do
  let x ← (Extended.ofRatio false digits 1).finite?
  if x.code = 0 then some x
  else if 308 < exponent then none
  else if -308 ≤ exponent then (scale x exponent).finite?
  else
    let once ← (scale x (-308)).finite?
    if -616 ≤ exponent then (scale once (exponent + 308)).finite?
    else some (.zero false)

def withSign (negative : Bool) (x : Binary64) : Binary64 := { x with negative := negative }

/-- The exponent of a numeral, if there is one: a letter, an optional sign and digits. -/
def readExponent : Text → Option (Option Int × Text)
  | c :: rest =>
      if c = 'e' || c = 'E' then
        let (negative, unsigned) := Text.takeSign rest
        let digits := unsigned.takeWhile Char.isDigit
        if digits.isEmpty then none
        else
          let magnitude : Int := Text.digitsValue 10 digits
          some (some (if negative then -magnitude else magnitude), unsigned.dropWhile Char.isDigit)
      else some (none, c :: rest)
  | [] => some (none, [])

/-- The digits after a point, if there is one; at least one digit follows it. -/
def readFraction : Text → Option (Option Text × Text)
  | '.' :: rest =>
      let digits := rest.takeWhile Char.isDigit
      if digits.isEmpty then none else some (some digits, rest.dropWhile Char.isDigit)
  | s => some (none, s)

/-- Reads the numeral after an optional minus sign.  Without point and exponent it is an integer
if it fits a word of 64 bits, signed where it is negative; minus zero is a fraction. -/
def readNumber (negative : Bool) (s : Text) : Option (Number × Text) := do
  let whole := s.takeWhile Char.isDigit
  if whole.isEmpty || (whole.head? = some '0' && whole.length ≠ 1) then none
  else
    let (fraction, afterFraction) ← readFraction (s.dropWhile Char.isDigit)
    let (exponent, rest) ← readExponent afterFraction
    let (digits, dropped) := gatherDigits 0 whole
    if fraction.isNone && exponent.isNone && dropped = 0 &&
        (!negative || (0 < digits && digits ≤ Nat.pow 2 63)) then
      some (.int (if negative then -(digits : Int) else digits), rest)
    else
      let fractionDigits := fraction.getD []
      let (all, droppedFraction) := gatherDigits digits fractionDigits
      let place : Int := exponent.getD 0 + dropped - (fractionDigits.length - droppedFraction : Nat)
      let magnitude ← fractionMagnitude all place
      some (.float (withSign negative magnitude), rest)

def readHex4 : Text → Option (Nat × Text)
  | a :: b :: c :: d :: rest =>
      if [a, b, c, d].all Text.isHexDigit then some (Text.digitsValue 16 [a, b, c, d], rest)
      else none
  | _ => none

/-- The character of a `\u` escape.  One beyond the basic plane takes two escapes, and half of such
a pair is no character. -/
def readUnicode (s : Text) : Option (Char × Text) := do
  let (code, rest) ← readHex4 s
  if 0xDC00 ≤ code ∧ code ≤ 0xDFFF then none
  else if 0xD800 ≤ code ∧ code ≤ 0xDBFF then
    match rest with
    | '\\' :: 'u' :: more =>
        let (second, rest) ← readHex4 more
        if 0xDC00 ≤ second ∧ second ≤ 0xDFFF then
          some (Char.ofNat (0x10000 + (code - 0xD800) * 0x400 + (second - 0xDC00)), rest)
        else none
    | _ => none
  else some (Char.ofNat code, rest)

def readEscape : Text → Option (Char × Text)
  | '"' :: rest => some ('"', rest)
  | '\\' :: rest => some ('\\', rest)
  | '/' :: rest => some ('/', rest)
  | 'b' :: rest => some ('\x08', rest)
  | 'f' :: rest => some ('\x0c', rest)
  | 'n' :: rest => some ('\n', rest)
  | 'r' :: rest => some ('\r', rest)
  | 't' :: rest => some ('\t', rest)
  | 'u' :: rest => readUnicode rest
  | _ => none

/-- The rest of a quoted text after its opening quote.  `fuel` exceeds the length of the input. -/
def readQuoted : Nat → Text → Option (Text × Text)
  | 0, _ => none
  | _ + 1, [] => none
  | fuel + 1, c :: rest =>
      if c = '"' then some ([], rest)
      else if c = '\\' then do
        let (escaped, rest) ← readEscape rest
        let (more, rest) ← readQuoted fuel rest
        some (escaped :: more, rest)
      else if c.toNat < 32 then none
      else do
        let (more, rest) ← readQuoted fuel rest
        some (c :: more, rest)

def readString : Text → Option (Text × Text)
  | '"' :: rest => readQuoted (rest.length + 1) rest
  | _ => none

def readItems {α : Type} (item : Text → Option (α × Text)) (close : Char) :
    Nat → Text → Option (List α × Text)
  | 0, _ => none
  | fuel + 1, s => do
      let (first, rest) ← item (skipSpace s)
      match skipSpace rest with
      | ',' :: more => do
          let (others, rest) ← readItems item close fuel more
          some (first :: others, rest)
      | c :: more => if c = close then some ([first], more) else none
      | [] => none

def readBracketed {α : Type} (item : Text → Option (α × Text)) (close : Char) (s : Text) :
    Option (List α × Text) :=
  match skipSpace s with
  | [] => none
  | c :: rest =>
      if c = close then some ([], rest) else readItems item close (s.length + 1) (c :: rest)

def readEntry (value : Text → Option (Value × Text)) (s : Text) :
    Option ((Text × Value) × Text) := do
  let (name, rest) ← readString s
  match skipSpace rest with
  | ':' :: rest =>
      let (content, rest) ← value (skipSpace rest)
      some ((name, content), rest)
  | _ => none

/-- Reads a value at the head of a text; `depth` is how many brackets may still open. -/
def readValue : Nat → Text → Option (Value × Text)
  | _, 'n' :: 'u' :: 'l' :: 'l' :: rest => some (.null, rest)
  | _, 't' :: 'r' :: 'u' :: 'e' :: rest => some (.bool true, rest)
  | _, 'f' :: 'a' :: 'l' :: 's' :: 'e' :: rest => some (.bool false, rest)
  | _, '"' :: rest => (readString ('"' :: rest)).map fun read => (.string read.1, read.2)
  | depth + 1, '[' :: rest =>
      (readBracketed (readValue depth) ']' rest).map fun read => (.list read.1, read.2)
  | depth + 1, '\x7b' :: rest =>
      (readBracketed (readEntry (readValue depth)) '\x7d' rest).map fun read =>
        (.map (Fields.ofList read.1), read.2)
  | _, '-' :: rest => (readNumber true rest).map fun read => (.number read.1, read.2)
  | _, s => (readNumber false s).map fun read => (.number read.1, read.2)

def read? (s : Text) : Option Value := do
  let (value, rest) ← readValue 127 (skipSpace s)
  if (skipSpace rest).isEmpty then some value else none

end Json

end HtmlTemplate
