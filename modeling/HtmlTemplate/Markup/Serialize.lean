import HtmlTemplate.Markup.Escape
import HtmlTemplate.Markup.Node
/-!
The source of nodes.  Texts hold markup already and are written as they are, an attribute with an
empty value is written without value, and void elements have neither content nor end tag.
-/

namespace HtmlTemplate

namespace Markup

def serializeAttribute (name value : Text) : Text :=
  if value.isEmpty then ' ' :: name
  else ' ' :: (name ++ "=\"".toList ++ escapeAttribute value ++ ['"'])

def serializeAttributes (attributes : Attributes) : Text :=
  attributes.entries.flatMap fun entry => serializeAttribute entry.1 entry.2

mutual

def serializeNode : Node → Text
  | .text markup => markup
  | .comment content => "<!--".toList ++ content ++ "-->".toList
  | .element tag attributes children =>
      '<' :: (tag ++ serializeAttributes attributes ++ '>' ::
        (if isVoidTag tag then []
          else serializeNodes children ++ "</".toList ++ tag ++ ['>']))

def serializeNodes : List Node → Text
  | [] => []
  | node :: rest => serializeNode node ++ serializeNodes rest

end

theorem serializeNodes_append (a b : List Node) :
    serializeNodes (a ++ b) = serializeNodes a ++ serializeNodes b := by
  induction a with
  | nil => rfl
  | cons node a ih => simp [serializeNodes, ih]

end Markup

end HtmlTemplate
