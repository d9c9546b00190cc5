import HtmlTemplate.Proofs.Markup.Attributes
import HtmlTemplate.Proofs.Markup.Elements
import HtmlTemplate.Proofs.Traversal
/-!
The expressions that are written in the nodes of a template: in its text, in the conditions, loops
and bindings of its elements, and in its markup from expressions.  A binding whose value becomes the
text of another binding writes an expression that stands in no template; elements without such
bindings are settled.
-/

namespace HtmlTemplate

/-! ### Where expressions stand -/

namespace Mustache

def Piece.source? : Piece → Option Text
  | .literal _ => none
  | .expression source => some (Markup.unescapeText source)

end Mustache

namespace AttributeKind

/-- The expression in the value of an attribute. -/
def source? (value : Text) : AttributeKind → Option Text
  | .binding _ => some value
  | .directive .whenTrue | .directive .elseWhen | .directive .html => some value
  | .directive .forEach => (Loop.ofDirective? value).map Loop.source
  | .directive .otherwise | .event _ | .literal => none

end AttributeKind

namespace Attributes

def sources (attributes : Attributes) : List Text :=
  attributes.entries.filterMap fun entry => (AttributeKind.ofName entry.1).source? entry.2

end Attributes

mutual

/-- The expressions written in a node, at any depth of it. -/
def Node.sources : Node → List Text
  | .text markup => (Mustache.pieces markup).filterMap Mustache.Piece.source?
  | .comment _ => []
  | .element _ attributes children => attributes.sources ++ Node.sourcesAmong children

def Node.sourcesAmong : List Node → List Text
  | [] => []
  | node :: nodes => node.sources ++ Node.sourcesAmong nodes

end

/-! ### Settled bindings -/

namespace Attributes

/-- No binding gives its value to the name of a binding that stands after it. -/
def IsSettled (attributes : Attributes) : Prop :=
  attributes.names.Pairwise fun name later =>
    AttributeKind.target? name = some later → AttributeKind.target? later = none

instance (attributes : Attributes) : Decidable attributes.IsSettled :=
  inferInstanceAs (Decidable (List.Pairwise _ _))

end Attributes

end HtmlTemplate
