import HtmlTemplate.Text.Basic
/-!
The written form of text.  In text content the characters `&`, `<`, `>` and the no-break space are
written as references, and in attribute values `&`, `"` and the no-break space.  Text that is markup
already is brought into the written form without touching the references in it.
-/

namespace HtmlTemplate.Markup

def nbsp : Char := '\u00a0'

def escapeChar (c : Char) : Text :=
  if c = '&' then "&amp;".toList
  else if c = '<' then "&lt;".toList
  else if c = '>' then "&gt;".toList
  else if c = nbsp then "&nbsp;".toList
  else [c]

def escapeText (s : Text) : Text := s.flatMap escapeChar

theorem escapeChar_ne_nil (c : Char) : escapeChar c ≠ [] := by
  unfold escapeChar
  repeat' split
  all_goals simp

theorem escapeText_eq_nil_iff {s : Text} : escapeText s = [] ↔ s = [] := by
  cases s with
  | nil => simp [escapeText]
  | cons c s => simp [escapeText, escapeChar_ne_nil]

def escapeAttributeChar (c : Char) : Text :=
  if c = '&' then "&amp;".toList
  else if c = '"' then "&quot;".toList
  else if c = nbsp then "&nbsp;".toList
  else [c]

def escapeAttribute (s : Text) : Text := s.flatMap escapeAttributeChar

def isReferenceChar (c : Char) : Bool := c = '#' || c.isAlphanum

/-- What may stand between `&` and `;`: a name, `#` and digits, or `#x` and hexadecimal digits. -/
def isReferenceBody : Text → Bool
  | [] => false
  | '#' :: 'x' :: digits => !digits.isEmpty && digits.all Text.isHexDigit
  | '#' :: 'X' :: digits => !digits.isEmpty && digits.all Text.isHexDigit
  | '#' :: digits => !digits.isEmpty && digits.all Char.isDigit
  | name => name.all Char.isAlphanum

/-- The body of the reference that a text begins, given what follows its `&`. -/
def referenceBody? (s : Text) : Option Text :=
  let body := s.takeWhile isReferenceChar
  if (s.dropWhile isReferenceChar).head? = some ';' && isReferenceBody body then some body
  else none

/-- Brings markup into the written form: references stay, and any other `&` is escaped. -/
def normalize : Text → Text
  | [] => []
  | c :: rest =>
      if c = '&' && (referenceBody? rest).isSome then '&' :: normalize rest
      else escapeChar c ++ normalize rest

theorem normalize_eq_nil_iff {s : Text} : normalize s = [] ↔ s = [] := by
  cases s with
  | nil => simp [normalize]
  | cons c s =>
      rw [normalize]
      split <;> simp [escapeChar_ne_nil]

def charOfCode? (code : Nat) : Option Char :=
  if h : code.isValidChar then some (Char.ofNatAux code h) else none

def namedChar? (name : Text) : Option Char :=
  if name = "amp".toList then some '&'
  else if name = "lt".toList then some '<'
  else if name = "gt".toList then some '>'
  else if name = "quot".toList then some '"'
  else if name = "apos".toList then some '\''
  else if name = "nbsp".toList then some nbsp
  else none

/-- The character that a reference stands for, if it is one of those that text is written with or
is given by its code. -/
def decodeBody? : Text → Option Char
  | '#' :: 'x' :: digits => charOfCode? (Text.digitsValue 16 digits)
  | '#' :: 'X' :: digits => charOfCode? (Text.digitsValue 16 digits)
  | '#' :: digits => charOfCode? (Text.digitsValue 10 digits)
  | name => namedChar? name

/-- Replaces references, after passing over the first `skip` characters. -/
def unescapeFrom : Nat → Text → Text
  | _, [] => []
  | skip + 1, _ :: rest => unescapeFrom skip rest
  | 0, c :: rest =>
      if c = '&' then
        match referenceBody? rest with
        | none => '&' :: unescapeFrom 0 rest
        | some body =>
            match decodeBody? body with
            | none => '&' :: unescapeFrom 0 rest
            | some decoded => decoded :: unescapeFrom (body.length + 1) rest
      else c :: unescapeFrom 0 rest

/-- The plain text that written text stands for.  References by other names stay as they are. -/
def unescapeText (s : Text) : Text := unescapeFrom 0 s

end HtmlTemplate.Markup
