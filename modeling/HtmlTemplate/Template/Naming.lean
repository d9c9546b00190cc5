import HtmlTemplate.Text.Uppercase
/-!
What the names of tags and attributes mean in a template.
-/

namespace HtmlTemplate

inductive Directive where
  | whenTrue
  | elseWhen
  | otherwise
  | forEach
  | html
  deriving DecidableEq

def Directive.name : Directive → Text
  | .whenTrue => "v-if".toList
  | .elseWhen => "v-else-if".toList
  | .otherwise => "v-else".toList
  | .forEach => "v-for".toList
  | .html => "v-html".toList

/-- An attribute is taken literally, binds its target to the value of an expression, handles an
event, or is a directive. -/
inductive AttributeKind where
  | literal
  | binding (target : Text)
  | event (name : Text)
  | directive (directive : Directive)
  deriving DecidableEq

namespace AttributeKind

def directive? (name : Text) : Option Directive :=
  [Directive.whenTrue, .elseWhen, .otherwise, .forEach, .html].find? fun d => d.name = name

/-- The target of a binding: what follows a colon or `v-bind:`. -/
def target? (name : Text) : Option Text :=
  (Text.after? [':'] name).or (Text.after? "v-bind:".toList name)

def event? (name : Text) : Option Text :=
  (Text.after? ['@'] name).or (Text.after? "v-on:".toList name)

def ofName (name : Text) : AttributeKind :=
  match target? name with
  | some found => .binding found
  | none =>
      match event? name with
      | some found => .event found
      | none =>
          match directive? name with
          | some found => .directive found
          | none => .literal

def isEvent : AttributeKind → Bool
  | .event _ => true
  | _ => false

end AttributeKind

def isComponentTag (tag : Text) : Bool := tag.contains '-'

def templateTag : Text := "template".toList

/-- Drops hyphens and raises the character after each; `started` tells whether a character was kept
before, and `raised` whether the next is to be raised. -/
def camelFrom (started raised : Bool) : Text → Text
  | [] => []
  | c :: rest =>
      if c = '-' then camelFrom started started rest
      else if raised then Text.upperChars c ++ camelFrom true false rest
      else c :: camelFrom true false rest

def camelCase (name : Text) : Text := camelFrom false false name

end HtmlTemplate
