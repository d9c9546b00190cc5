import HtmlTemplate.Value.Coercion
/-!
Merging the classes of an element with those that a value gives it.
-/

namespace HtmlTemplate.Classes

/-- The keys of the truthy entries of a map, or the texts of the truthy items of a list, or the text
of a text or a number. -/
def contributed : Value → List Text
  | .list items => (items.filter Value.isTruthy).map Value.display
  | .map entries => (entries.filter fun entry => entry.2.isTruthy).map Prod.fst
  | .bool _ | .null => []
  | value => [value.display]

def isMap : Value → Bool
  | .map _ => true
  | _ => false

def ofValue (value : Value) : List Text := (contributed value).flatMap Text.words

/-- The classes of an element and of a value, in order: those of a map come first, those of another
value last. -/
def ordered (fixed : List Text) (value : Value) : List Text :=
  if isMap value then ofValue value ++ fixed else fixed ++ ofValue value

def distinct : List Text → List Text
  | [] => []
  | word :: rest => word :: (distinct rest).filter fun other => other != word

/-- The classes of an element, as written in its attribute, merged with those of a value. -/
def merge (fixed : Text) (value : Value) : Text :=
  [' '].intercalate (distinct (ordered (Text.words fixed) value))

end HtmlTemplate.Classes
