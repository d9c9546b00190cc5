import HtmlTemplate.Markup.Attributes
import HtmlTemplate.Text.Blank
/-!
Nodes of a document.
-/

namespace HtmlTemplate

/-- An element, a text or a comment.  A text is kept in its written form: character references in
it stand as they were written. -/
inductive Node where
  | element (tag : Text) (attributes : Attributes) (children : List Node)
  | text (markup : Text)
  | comment (content : Text)
  deriving Inhabited

def voidTags : List Text :=
  ["area".toList, "base".toList, "br".toList, "col".toList, "embed".toList, "hr".toList,
    "img".toList, "input".toList, "link".toList, "meta".toList, "param".toList, "source".toList,
    "track".toList, "wbr".toList]

def isVoidTag (tag : Text) : Bool := voidTags.contains (Text.lower tag)

/-- Tags of elements whose text is never escaped. -/
def isVerbatimTag (tag : Text) : Bool := tag = "script".toList || tag = "style".toList

namespace Node

/-- Comments and blank texts do not count where the root of a template is looked for. -/
def isSubstantial : Node → Bool
  | .element .. => true
  | .text markup => !Text.isBlankText markup
  | .comment _ => false

end Node

end HtmlTemplate
