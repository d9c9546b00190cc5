import HtmlTemplate.Text.Blank
/-!
Cutting a source at its top-level pipes and commas.  Quoted texts, patterns between slashes and
brackets hide what they contain, and a double bar is no pipe.  The pieces before the first pipe are
the heads of a pipeline, and each piece after it is a stage: a name, perhaps with arguments in
parentheses.
-/

namespace HtmlTemplate

/-- What is known of the characters before a place: the delimiter that ends the literal it is in, if
it is in one, the brackets open there, the last character, and the last that is no blank. -/
structure Scan where
  closing : Option Char
  curly : Int
  square : Int
  paren : Int
  last : Option Char
  lastSolid : Option Char
  deriving DecidableEq

namespace Scan

def start : Scan := ⟨none, 0, 0, 0, none, none⟩

def inCode (scan : Scan) : Bool := scan.closing.isNone

def isTop (scan : Scan) : Bool := scan.curly = 0 && scan.square = 0 && scan.paren = 0

/-- Characters after which a slash divides, while elsewhere it begins a pattern. -/
def precedesDivision (c : Char) : Bool :=
  c.isAlphanum || c = ')' || c = '.' || c = '+' || c = '-' || c = '_' || c = '$' || c = ']'

/-- Passes a character, as to literals and brackets. -/
def pass (scan : Scan) (c : Char) : Scan :=
  match scan.closing with
  | some closing =>
      if c = closing && scan.last != some '\\' then { scan with closing := none } else scan
  | none =>
      if c = '"' || c = '\'' || c = '`' then { scan with closing := some c }
      else if c = '(' then { scan with paren := scan.paren + 1 }
      else if c = ')' then { scan with paren := scan.paren - 1 }
      else if c = '[' then { scan with square := scan.square + 1 }
      else if c = ']' then { scan with square := scan.square - 1 }
      else if c = '\x7b' then { scan with curly := scan.curly + 1 }
      else if c = '\x7d' then { scan with curly := scan.curly - 1 }
      else if c = '/' && !(scan.lastSolid.any precedesDivision) then
        { scan with closing := some '/' }
      else scan

def step (scan : Scan) (c : Char) : Scan :=
  { scan.pass c with
    last := some c
    lastSolid := if c = ' ' then scan.lastSolid else some c }

end Scan

inductive Separator where
  | comma
  | pipe
  deriving DecidableEq

namespace Separator

def char : Separator → Char
  | .comma => ','
  | .pipe => '|'

/-- Whether a character separates, given what is before it and after it. -/
def separates (sep : Separator) (scan : Scan) (c : Char) (rest : Text) : Bool :=
  c = sep.char && scan.inCode && scan.isTop &&
    match sep with
    | .comma => true
    | .pipe => rest.head? != some '|' && scan.last != some '|'

/-- The pieces of a text between its separators: one more than there are separators. -/
def cutFrom (sep : Separator) (scan : Scan) : Text → List Text
  | [] => [[]]
  | c :: rest =>
      if sep.separates scan c rest then [] :: cutFrom sep (scan.step c) rest
      else
        match cutFrom sep (scan.step c) rest with
        | [] => [[c]]
        | piece :: pieces => (c :: piece) :: pieces

def cut (sep : Separator) (s : Text) : List Text := cutFrom sep .start s

theorem cutFrom_ne_nil (sep : Separator) (scan : Scan) (s : Text) : cutFrom sep scan s ≠ [] := by
  cases s with
  | nil => simp [cutFrom]
  | cons c s =>
      rw [cutFrom]
      split
      · simp
      · split <;> simp

/-- Cutting loses nothing but the separators. -/
theorem intercalate_cutFrom (sep : Separator) (scan : Scan) (s : Text) :
    [sep.char].intercalate (cutFrom sep scan s) = s := by
  induction s generalizing scan with
  | nil => simp [cutFrom]
  | cons c s ih =>
      rw [cutFrom]
      have htail := ih (scan.step c)
      have hne := cutFrom_ne_nil sep (scan.step c) s
      split
      · next hsep =>
          simp only [separates, Bool.and_eq_true, decide_eq_true_eq] at hsep
          obtain ⟨first, others, heq⟩ := List.exists_cons_of_ne_nil hne
          rw [heq] at htail ⊢
          rw [List.intercalate_cons_cons, htail, hsep.1.1.1]
          rfl
      · split
        · next heq => exact absurd heq hne
        · next first others heq =>
            rw [heq] at htail
            cases others with
            | nil => simpa using htail
            | cons second others =>
                rw [List.intercalate_cons_cons] at htail ⊢
                rw [← htail]
                rfl

end Separator

structure Stage where
  name : Text
  arguments : List Text
  deriving DecidableEq

/-- The sources of a pipeline: its heads, and its stages from left to right. -/
structure Pipeline where
  heads : List Text
  stages : List Stage
  deriving DecidableEq

namespace Pipeline

/-- The heads of a source: what stands between commas before its first pipe. -/
def headsOf (s : Text) : List Text :=
  (Separator.cut .comma ((Separator.cut .pipe s).headD [])).map Text.trim

end Pipeline

namespace Stage

/-- The text up to the parenthesis that closes the only one open. -/
def upToClosing (scan : Scan) : Text → Text
  | [] => []
  | c :: rest =>
      if c = ')' && scan.inCode && scan.paren = 1 then []
      else c :: upToClosing (scan.step c) rest

/-- What stands in the last parentheses that open where no parenthesis is open. -/
def lastGroup? (scan : Scan) : Text → Option Text
  | [] => none
  | c :: rest =>
      match lastGroup? (scan.step c) rest with
      | some group => some group
      | none =>
          if c = '(' && scan.inCode && scan.paren = 0 then some (upToClosing (scan.step c) rest)
          else none

/-- Reads a stage.  Its name ends before the first parenthesis, and its arguments are the heads of
its last group of parentheses. -/
def ofSource (source : Text) : Stage :=
  match lastGroup? .start source with
  | none => ⟨source.trim, []⟩
  | some group =>
      ⟨Text.trim (source.trim.takeWhile (· ≠ '(')),
        if Text.isBlankText group then [] else Pipeline.headsOf group⟩

end Stage

namespace Pipeline

/-- Reads a source as a pipeline.  Without a top-level pipe it has no stages. -/
def ofSource (s : Text) : Pipeline :=
  ⟨headsOf s, (Separator.cut .pipe s).tail.map Stage.ofSource⟩

end Pipeline

end HtmlTemplate
