import HtmlTemplate.Markup.ReferenceNames
/-!
Decoding character references as a reader of HTML does: by name, with the longest name that fits,
or by code, in decimal or hexadecimal digits; the semicolon may be missing after a code and after
some names.  Inside an attribute a name without semicolon stays as it is where a letter, a digit or
an equals sign follows.
-/

namespace HtmlTemplate.Markup

/-- Codes that stand for other characters than those with the code. -/
def replacedCodes : List (Nat × Nat) :=
  [(0x80, 0x20AC), (0x82, 0x201A), (0x83, 0x0192), (0x84, 0x201E), (0x85, 0x2026), (0x86, 0x2020),
    (0x87, 0x2021), (0x88, 0x02C6), (0x89, 0x2030), (0x8A, 0x0160), (0x8B, 0x2039), (0x8C, 0x0152),
    (0x8E, 0x017D), (0x91, 0x2018), (0x92, 0x2019), (0x93, 0x201C), (0x94, 0x201D), (0x95, 0x2022),
    (0x96, 0x2013), (0x97, 0x2014), (0x98, 0x02DC), (0x99, 0x2122), (0x9A, 0x0161), (0x9B, 0x203A),
    (0x9C, 0x0153), (0x9E, 0x017E), (0x9F, 0x0178)]

def replacement : Char := '\ufffd'

def charOfReference (code : Nat) : Char :=
  match replacedCodes.lookup code with
  | some other => Char.ofNat other
  | none => if code ≠ 0 ∧ code.isValidChar then Char.ofNat code else replacement

/-- A numeric reference by its digits: the character, and the length of the digits and of the
semicolon after them. -/
def numericReference? (base : Nat) (isDigit : Char → Bool) (s : Text) : Option (Text × Nat) :=
  let digits := s.takeWhile isDigit
  if digits.isEmpty then none
  else
    let semicolon := if (s.dropWhile isDigit).head? = some ';' then 1 else 0
    some ([charOfReference (Text.digitsValue base digits)], digits.length + semicolon)

/-- The longest beginning of a run of letters and digits that may stand for a character without a
semicolon. -/
def unfinishedName? (run : Text) : Option Text :=
  let start := run.take unfinishedLength
  ((List.range start.length).map fun less => start.take (start.length - less)).find?
    unfinishedNames.contains

def namedReference? (inAttribute : Bool) (s : Text) : Option (Text × Nat) :=
  let run := s.takeWhile Char.isAlphanum
  let finished :=
    if (s.dropWhile Char.isAlphanum).head? = some ';' then
      (charsOfName? run).map fun chars => (chars, run.length + 1)
    else none
  match finished with
  | some found => some found
  | none => do
      let name ← unfinishedName? run
      let next := (s.drop name.length).head?
      if inAttribute && next.any (fun c => c = '=' || c.isAlphanum) then none
      else
        let chars ← charsOfName? name
        some (chars, name.length)

def reference? (inAttribute : Bool) : Text → Option (Text × Nat)
  | '#' :: 'x' :: rest =>
      (numericReference? 16 Text.isHexDigit rest).map fun found => (found.1, found.2 + 2)
  | '#' :: 'X' :: rest =>
      (numericReference? 16 Text.isHexDigit rest).map fun found => (found.1, found.2 + 2)
  | '#' :: rest => (numericReference? 10 Char.isDigit rest).map fun found => (found.1, found.2 + 1)
  | s => namedReference? inAttribute s

/-- Replaces references, after passing over the first `skip` characters. -/
def decodeFrom (inAttribute : Bool) : Nat → Text → Text
  | _, [] => []
  | skip + 1, _ :: rest => decodeFrom inAttribute skip rest
  | 0, c :: rest =>
      if c = '&' then
        match reference? inAttribute rest with
        | some (chars, length) => chars ++ decodeFrom inAttribute length rest
        | none => '&' :: decodeFrom inAttribute 0 rest
      else c :: decodeFrom inAttribute 0 rest

def decodeText (s : Text) : Text := decodeFrom false 0 s

def decodeAttribute (s : Text) : Text := decodeFrom true 0 s

end HtmlTemplate.Markup
