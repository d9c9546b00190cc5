import HtmlTemplate.Template.Classes
import HtmlTemplate.Template.Error
import HtmlTemplate.Template.Naming
/-!
Attributes that take their values from expressions.
-/

namespace HtmlTemplate.Binding

def className : Text := "class".toList

/-- Puts the value of a binding in its place.  Classes are merged; true leaves the attribute without
value, false and null leave none, and a collection cannot be bound. -/
def assign (attributes : Attributes) (name target source : Text) (value : Value) :
    Except RenderError Attributes :=
  if target = className then
    let merged := Classes.merge ((attributes.get? className).getD []) value
    if merged.isEmpty then .ok ((attributes.remove name).remove className)
    else .ok (attributes.replace name className merged)
  else
    match value with
    | .bool true => .ok (attributes.replace name target [])
    | .bool false | .null => .ok (attributes.remove name)
    | .list _ | .map _ => .error (.collectionBinding target source.trim)
    | .number _ | .string _ => .ok (attributes.replace name target value.display)

def bindOne (scope : Scope) (attributes : Attributes) (name : Text) :
    Except RenderError Attributes :=
  match AttributeKind.ofName name with
  | .binding target => do
      let source := (attributes.get? name).getD []
      let value ← scope.evaluate source
      assign attributes name target source value
  | _ => .ok attributes

def bindAll (scope : Scope) (attributes : Attributes) : List Text → Except RenderError Attributes
  | [] => .ok attributes
  | name :: rest => do
      let attributes ← bindOne scope attributes name
      bindAll scope attributes rest

def bind (scope : Scope) (attributes : Attributes) : Except RenderError Attributes :=
  bindAll scope attributes attributes.names

/-- The properties that an element gives to its component: literal attributes as texts, and the
values of bindings, under names in camel case. -/
def propertiesFrom (scope : Scope) (properties : Bindings) :
    Fields Text → Except RenderError Bindings
  | [] => .ok properties
  | (name, value) :: rest =>
      match AttributeKind.ofName name with
      | .literal =>
          propertiesFrom scope (Fields.insert (camelCase name) (.string value) properties) rest
      | .binding target => do
          let bound ← scope.evaluate value
          propertiesFrom scope (Fields.insert (camelCase target) bound properties) rest
      | .event _ | .directive _ => propertiesFrom scope properties rest

def properties (scope : Scope) (attributes : Attributes) : Except RenderError Bindings :=
  propertiesFrom scope [] attributes.entries

end HtmlTemplate.Binding
