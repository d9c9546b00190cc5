import HtmlTemplate.Markup.Escape
import HtmlTemplate.Markup.Node
import HtmlTemplate.Markup.Token
/-!
From tokens to nodes.  The elements still open form a stack.  A start tag opens an element unless it
closes itself or its element is void; an end tag closes the innermost open element of its name with
all that was opened inside, or nothing if there is none; the end of the source closes what is open.
-/

namespace HtmlTemplate.Markup

/-- An element whose end tag has not been met. -/
structure OpenElement where
  tag : Text
  attributes : Attributes
  children : List Node

def OpenElement.toNode (e : OpenElement) : Node := .element e.tag e.attributes e.children

/-- A forest under construction: its finished roots, and the open elements, innermost first. -/
structure Forest where
  roots : List Node
  unclosed : List OpenElement

namespace Forest

def empty : Forest := ⟨[], []⟩

/-- Changes the list of siblings that the next node belongs to. -/
def modifySiblings (f : List Node → List Node) : Forest → Forest
  | ⟨roots, []⟩ => ⟨f roots, []⟩
  | ⟨roots, e :: outer⟩ => ⟨roots, { e with children := f e.children } :: outer⟩

def attach (forest : Forest) (node : Node) : Forest := forest.modifySiblings (· ++ [node])

def appendText (text : Text) (siblings : List Node) : List Node :=
  match siblings.getLast? with
  | some (.text previous) => siblings.dropLast ++ [.text (previous ++ text)]
  | _ => siblings ++ [.text text]

def attachText (forest : Forest) (text : Text) : Forest :=
  if text.isEmpty then forest else forest.modifySiblings (appendText text)

def closeOne : Forest → Forest
  | ⟨roots, []⟩ => ⟨roots, []⟩
  | ⟨roots, e :: outer⟩ => attach ⟨roots, outer⟩ e.toNode

def close : Nat → Forest → Forest
  | 0, forest => forest
  | count + 1, forest => close count forest.closeOne

def closeTag (forest : Forest) (tag : Text) : Forest :=
  match forest.unclosed.findIdx? fun e => e.tag = tag with
  | some index => forest.close (index + 1)
  | none => forest

/-- Whether text at this place is kept as it is. -/
def isVerbatim (forest : Forest) : Bool := forest.unclosed.head?.any fun e => isVerbatimTag e.tag

/-- The stored form of a text.  References stay as the source writes them; a source that differs
from what it stands for by line breaks alone is stored with line feeds. -/
def storedText (source decoded : Text) : Text :=
  if source = decoded || source.contains '&' then normalize source else escapeText decoded

/-- The stored form of a text is empty only if the text is. -/
theorem storedText_eq_nil_iff {source decoded : Text} :
    storedText source decoded = [] ↔ decoded = [] ∧ '&' ∉ source := by
  rw [storedText]
  split
  · next hkept =>
      rw [normalize_eq_nil_iff]
      constructor
      · rintro rfl
        have hdecoded : [] = decoded := by simpa using hkept
        exact ⟨hdecoded.symm, List.not_mem_nil⟩
      · rintro ⟨rfl, hamp⟩
        simpa [hamp] using hkept
  · next hkept =>
      have hamp : '&' ∉ source := by
        intro hmem
        simp [hmem] at hkept
      rw [escapeText_eq_nil_iff, and_iff_left hamp]

def step (forest : Forest) : Token → Forest
  | .startTag tag attributes selfClosing =>
      if selfClosing || isVoidTag tag then forest.attach (.element tag attributes [])
      else { forest with unclosed := ⟨tag, attributes, []⟩ :: forest.unclosed }
  | .endTag tag => forest.closeTag tag
  | .text source decoded =>
      forest.attachText (if forest.isVerbatim then decoded else storedText source decoded)
  | .comment content => forest.attach (.comment content)

def finish (forest : Forest) : List Node := (forest.close forest.unclosed.length).roots

def ofTokens (tokens : List Token) : List Node := (tokens.foldl step empty).finish

end Forest

def parse (source : Text) : List Node := Forest.ofTokens (tokens source)

end HtmlTemplate.Markup
