import HtmlTemplate.Markup.Reference
/-!
Text in an HTML source: where it ends, what it stands for, and which part of the source it is.
Ordinary text ends at the next markup, and the text in some elements at their end tag.  Line breaks
are line feeds, and a null character is replaced except in ordinary text.
-/

namespace HtmlTemplate.Markup

/-- How the source after a start tag is read: as markup, or as text up to the end tag, with or
without references, or as text up to the end of the source. -/
inductive Content where
  | markup
  | replaceable
  | verbatim
  | script
  | plain
  deriving DecidableEq

def verbatimContentTags : List Text :=
  ["style".toList, "iframe".toList, "xmp".toList, "noembed".toList, "noframe".toList,
    "noscript".toList]

def Content.ofTag (tag : Text) : Content :=
  if tag = "title".toList || tag = "textarea".toList then .replaceable
  else if tag = "script".toList then .script
  else if tag = "plaintext".toList then .plain
  else if verbatimContentTags.contains tag then .verbatim
  else .markup

/-! ### What a text stands for -/

/-- Line breaks of one or two characters, as line feeds. -/
def unifyBreaks : Text → Text
  | [] => []
  | '\r' :: '\n' :: rest => '\n' :: unifyBreaks rest
  | '\r' :: rest => '\n' :: unifyBreaks rest
  | c :: rest => c :: unifyBreaks rest

def replaceNull (s : Text) : Text := s.map fun c => if c = '\x00' then replacement else c

/-- The text that a part of the source other than ordinary text stands for, references apart. -/
def cleaned (s : Text) : Text := replaceNull (unifyBreaks s)

/-- An end tag without a name, which stands for nothing. -/
def namelessEndTag : Text := "</>".toList

def pieces : Text → List Text
  | [] => [[]]
  | '<' :: '/' :: '>' :: rest => [] :: pieces rest
  | c :: rest =>
      match pieces rest with
      | [] => [[c]]
      | piece :: others => (c :: piece) :: others

theorem pieces_ne_nil (s : Text) : pieces s ≠ [] := by
  fun_cases pieces s <;> simp_all

theorem intercalate_pieces (s : Text) : namelessEndTag.intercalate (pieces s) = s := by
  fun_induction pieces s with
  | case1 => rfl
  | case2 rest ih =>
      obtain ⟨piece, others, h⟩ := List.exists_cons_of_ne_nil (pieces_ne_nil rest)
      rw [h] at ih ⊢
      simp only [List.intercalate, List.intersperse, List.flatten_cons, namelessEndTag] at ih ⊢
      rw [ih]
      rfl
  | case3 c rest _ h => exact absurd h (pieces_ne_nil rest)
  | case4 c rest _ piece others h ih =>
      rw [h] at ih
      rw [← ih]
      cases others <;> simp [List.intercalate, List.intersperse]

def Content.decode : Content → Text → Text
  | .markup, run => (pieces run).flatMap fun piece => decodeText (unifyBreaks piece)
  | .replaceable, run => decodeText (cleaned run)
  | .verbatim, run | .script, run | .plain, run => cleaned run

/-! ### Where a text ends -/

def isTagSpace (c : Char) : Bool :=
  c = ' ' || c = '\t' || c = '\n' || c = '\x0c' || c = '\r'

def endsTagName (c : Char) : Bool := isTagSpace c || c = '/' || c = '>'

def beginsWith (word s : Text) : Bool := Text.lower (s.take word.length) = word

/-- Whether an opening angle bracket begins markup, given what follows it. -/
def opensMarkup : Text → Bool
  | [] => false
  | ['/'] => false
  | '/' :: '>' :: _ => false
  | c :: _ => c.isAlpha || c = '/' || c = '!' || c = '?'

def textRun : Text → Text × Text
  | [] => ([], [])
  | c :: rest =>
      if c = '<' && opensMarkup rest then ([], c :: rest)
      else
        let (run, remaining) := textRun rest
        (c :: run, remaining)

theorem textRun_append (s : Text) : (textRun s).1 ++ (textRun s).2 = s := by
  fun_induction textRun s <;> simp_all

def closesElement (name : Text) : Text → Bool
  | '/' :: rest => beginsWith name rest && (rest.drop name.length).head?.any endsTagName
  | _ => false

def upToEndTag (name : Text) : Text → Text × Text
  | [] => ([], [])
  | c :: rest =>
      if c = '<' && closesElement name rest then ([], c :: rest)
      else
        let (run, remaining) := upToEndTag name rest
        (c :: run, remaining)

/-- How deep a place in a script is inside of comments: not at all, in a comment, or in a script
inside a comment. -/
inductive ScriptLevel where
  | code
  | comment
  | nested
  deriving DecidableEq

def scriptName : Text := "script".toList

def ScriptLevel.afterBracket (level : ScriptLevel) (rest : Text) : ScriptLevel :=
  let named (s : Text) : Bool :=
    beginsWith scriptName s && (s.drop scriptName.length).head?.any endsTagName
  match level with
  | .code => if rest.take 3 = "!--".toList then .comment else .code
  | .comment => if named rest then .nested else .comment
  | .nested => if rest.head? = some '/' && named (rest.drop 1) then .comment else .nested

/-- A place in a script: its level, and how many dashes stand before it. -/
structure ScriptPlace where
  level : ScriptLevel
  dashes : Nat

namespace ScriptPlace

def start : ScriptPlace := ⟨.code, 0⟩

def next (place : ScriptPlace) (c : Char) (rest : Text) : ScriptPlace :=
  if c = '<' then ⟨place.level.afterBracket rest, 0⟩
  else if c = '-' then ⟨place.level, place.dashes + 1⟩
  else if c = '>' && 2 ≤ place.dashes then ⟨.code, 0⟩
  else ⟨place.level, 0⟩

def atEnd (place : ScriptPlace) : Text → ScriptPlace
  | [] => place
  | c :: rest => (place.next c rest).atEnd rest

end ScriptPlace

/-- The text of a script before its end tag, and the rest from there on.  An end tag does not count
in a script inside a comment. -/
def upToScriptEnd (place : ScriptPlace) : Text → Text × Text
  | [] => ([], [])
  | c :: rest =>
      if c = '<' && place.level ≠ .nested && closesElement scriptName rest then ([], c :: rest)
      else
        let (run, remaining) := upToScriptEnd (place.next c rest) rest
        (c :: run, remaining)

def Content.split (content : Content) (tag s : Text) : Text × Text :=
  match content with
  | .markup => ([], s)
  | .replaceable | .verbatim => upToEndTag tag s
  | .script => upToScriptEnd .start s
  | .plain => (s, [])

/-! ### Which part of the source a text is -/

/-- Whether a text ends in an ampersand, in a reference by code that lacks its digits, or in a
reference by name: what follows has to be known before these are read. -/
def endsInReference (s : Text) : Bool :=
  let back := s.reverse
  let last := (back.takeWhile (· ≠ '&')).reverse
  back.contains '&' &&
    (last.isEmpty || last = ['#'] || last = ['#', 'x'] || last = ['#', 'X'] ||
      (namedReference? false last).any fun found => found.2 = last.length)

def endsInEndTag (s : Text) : Bool :=
  let back := s.reverse
  back.head? = some '<' || (back.dropWhile Char.isAlpha).take 2 = ['/', '<']

/-- Whether a run at the end of the source breaks off in a reference or an end tag that more source
might continue. -/
def Content.breaksOff : Content → Text → Bool
  | .markup, run => endsInReference run
  | .replaceable, run => endsInReference run || endsInEndTag run
  | .verbatim, run => endsInEndTag run
  | .script, run => (ScriptPlace.start.atEnd run).level ≠ .nested && endsInEndTag run
  | .plain, _ => false

def trimEmpty (texts : List Text) : List Text :=
  ((texts.dropWhile List.isEmpty).reverse.dropWhile List.isEmpty).reverse

/-- A run from the first character that it stands for to the last: without end tags that lack a name
at either end. -/
def Content.extent : Content → Text → Text
  | .markup, run => namelessEndTag.intercalate (trimEmpty (pieces run))
  | _, run => run

/-- The part of the source that a text is, given what follows it.  A run that breaks off at the end
of the source lacks its last character. -/
def Content.part (content : Content) (run remaining : Text) : Text :=
  if remaining.isEmpty && content.breaksOff run then (content.extent run).dropLast
  else content.extent run

end HtmlTemplate.Markup
