import HtmlTemplate.Markup.Attributes
import HtmlTemplate.Markup.Content
/-!
The tokens of an HTML source: start tags, end tags, texts and comments.  Names are in lower case,
line breaks are line feeds, and a null character is replaced except in ordinary text.  Document
types and tags cut short by the end of the source leave no token.
-/

namespace HtmlTemplate.Markup

/-- A text token holds the text as it stands in the source, and decoded. -/
inductive Token where
  | startTag (name : Text) (attributes : Attributes) (selfClosing : Bool)
  | endTag (name : Text)
  | text (source decoded : Text)
  | comment (content : Text)

def endsAttributeName (c : Char) : Bool := endsTagName c || c = '='

/-- The value of an attribute, after its name, and what remains.  There is no value without an
equals sign, and it has no end where a closing quote is missing. -/
def readValue (s : Text) : Option (Text × Text) :=
  match s.dropWhile isTagSpace with
  | '=' :: rest =>
      match rest.dropWhile isTagSpace with
      | '"' :: quoted => Text.breakOn ['"'] quoted
      | '\'' :: quoted => Text.breakOn ['\''] quoted
      | unquoted =>
          let ends (c : Char) : Bool := isTagSpace c || c = '>'
          some (unquoted.takeWhile fun c => !ends c, unquoted.dropWhile fun c => !ends c)
  | unassigned => some ([], unassigned)

/-- The rest of a tag after its name: attributes as written, whether the tag closes itself, and
what follows the tag.  `fuel` exceeds the length of the source. -/
def readAttributes : Nat → Text → Option (List (Text × Text) × Bool × Text)
  | 0, _ => none
  | _ + 1, [] => none
  | fuel + 1, c :: rest =>
      if isTagSpace c then readAttributes fuel rest
      else if c = '>' then some ([], false, rest)
      else if c = '/' then
        match rest with
        | '>' :: more => some ([], true, more)
        | _ => readAttributes fuel rest
      else do
        let name := c :: rest.takeWhile fun d => !endsAttributeName d
        let (value, afterValue) ← readValue (rest.dropWhile fun d => !endsAttributeName d)
        let (others, selfClosing, remaining) ← readAttributes fuel afterValue
        some ((Text.lower (cleaned name), decodeAttribute (cleaned value)) :: others, selfClosing,
          remaining)

def readTag (s : Text) : Option (Text × Attributes × Bool × Text) := do
  let name := s.takeWhile fun c => !endsTagName c
  let rest := s.dropWhile fun c => !endsTagName c
  let (attributes, selfClosing, remaining) ← readAttributes (rest.length + 1) rest
  some (Text.lower (cleaned name), .ofFirsts attributes, selfClosing, remaining)

/-- The content of a comment up to its end mark, or up to the end of the source without the
beginning of such a mark. -/
def upToCommentEnd : Text → Text × Text
  | [] => ([], [])
  | ['-'] => ([], [])
  | ['-', '-'] => ([], [])
  | ['-', '-', '!'] => ([], [])
  | '-' :: '-' :: '>' :: rest => ([], rest)
  | '-' :: '-' :: '!' :: '>' :: rest => ([], rest)
  | c :: rest =>
      let (content, remaining) := upToCommentEnd rest
      (c :: content, remaining)

/-- A comment after its opening mark: content and what follows.  It may end at once. -/
def readComment : Text → Text × Text
  | '>' :: rest => ([], rest)
  | '-' :: '>' :: rest => ([], rest)
  | s => upToCommentEnd s

def upToBracket (s : Text) : Text × Text :=
  (s.takeWhile (· ≠ '>'), (s.dropWhile (· ≠ '>')).drop 1)

def doctype : Text := "doctype".toList

/-- What an opening angle bracket begins, given what follows it: a token, if there is one, and the
rest of the source. -/
def readMarkup : Text → Option Token × Text
  | '/' :: rest =>
      if rest.head?.any Char.isAlpha then
        match readTag rest with
        | some (name, _, _, remaining) => (some (.endTag name), remaining)
        | none => (none, [])
      else
        let (content, remaining) := upToBracket rest
        (some (.comment (cleaned content)), remaining)
  | '!' :: '-' :: '-' :: rest =>
      let (content, remaining) := readComment rest
      (some (.comment (cleaned content)), remaining)
  | '!' :: rest =>
      let (content, remaining) := upToBracket rest
      if beginsWith doctype rest then (none, remaining)
      else (some (.comment (cleaned content)), remaining)
  | '?' :: rest =>
      let (content, remaining) := upToBracket ('?' :: rest)
      (some (.comment (cleaned content)), remaining)
  | s =>
      match readTag s with
      | some (name, attributes, selfClosing, remaining) =>
          (some (.startTag name attributes selfClosing), remaining)
      | none => (none, [])

/-- The token of a run of text, given what follows it, unless the run stands for nothing. -/
def textToken (content : Content) (run remaining : Text) : List Token :=
  let decoded := content.decode run
  if decoded.isEmpty then [] else [.text (content.part run remaining) decoded]

/-- The tokens of a source; `fuel` exceeds its length. -/
def tokensWithin : Nat → Text → List Token
  | 0, _ => []
  | _ + 1, [] => []
  | fuel + 1, c :: rest =>
      if c = '<' && opensMarkup rest then
        match readMarkup rest with
        | (none, remaining) => tokensWithin fuel remaining
        | (some (.startTag name attributes selfClosing), remaining) =>
            let content := Content.ofTag name
            let (run, remaining) := content.split name remaining
            .startTag name attributes selfClosing ::
              (textToken content run remaining ++ tokensWithin fuel remaining)
        | (some token, remaining) => token :: tokensWithin fuel remaining
      else
        let (run, remaining) := textRun (c :: rest)
        textToken .markup run remaining ++ tokensWithin fuel remaining

def tokens (source : Text) : List Token := tokensWithin (source.length + 1) source

end HtmlTemplate.Markup
