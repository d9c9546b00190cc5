import HtmlTemplate.Template.Error
/-!
Loop directives: `item in list`, `item of list` or `(item, index) in list`.
-/

namespace HtmlTemplate

structure Loop where
  item : Text
  index : Option Text
  source : Text
  deriving DecidableEq

namespace Loop

/-- The two sides of a directive, about its first `in` or else its first `of`. -/
def sides? (directive : Text) : Option (Text × Text) :=
  (Text.breakOn " in ".toList directive).or (Text.breakOn " of ".toList directive)

def unwrapped (s : Text) : Text :=
  match s with
  | '(' :: rest => if rest.getLast? = some ')' then rest.dropLast else s
  | _ => s

/-- The names on the left: one, or two between a comma. -/
def names? (left : Text) : Option (Text × Option Text) :=
  match (Text.splitWhere (· = ',') left).map Text.trim with
  | [item] => if Text.isName item then some (item, none) else none
  | [item, index] =>
      if Text.isName item && Text.isName index then some (item, some index) else none
  | _ => none

def ofDirective? (directive : Text) : Option Loop := do
  let (left, right) ← sides? directive
  let (item, index) ← names? (unwrapped (Text.trim left))
  let source := Text.trim right
  if source.isEmpty then none else some ⟨item, index, source⟩

def parse (directive : Text) : Except RenderError Loop :=
  match ofDirective? directive with
  | some loop => .ok loop
  | none => .error (.invalidLoop directive)

/-- The items of a list with their positions, or the values of a map with their keys. -/
def entriesOf? : Value → Option (List (Value × Value))
  | .list items => some (items.zipIdx.map fun entry => (entry.1, .ofNat entry.2))
  | .map entries => some (entries.map fun entry => (entry.2, .string entry.1))
  | _ => none

def entries (loop : Loop) (scope : Scope) : Except RenderError (List (Value × Value)) := do
  let value ← scope.evaluate loop.source
  match entriesOf? value with
  | some entries => .ok entries
  | none => .error (.notIterable loop.source value.kind)

def bindings (loop : Loop) (entry : Value × Value) : Bindings :=
  match loop.index with
  | none => [(loop.item, entry.1)]
  | some index => Fields.insert index entry.2 [(loop.item, entry.1)]

end Loop

end HtmlTemplate
