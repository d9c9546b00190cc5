import HtmlTemplate.Template.Error
import HtmlTemplate.Template.Naming
/-!
Chains of conditions among siblings.  A branch with a condition of its own begins a chain; the
alternatives after it are considered only until one branch is kept.  Whatever stands between
branches is kept.
-/

namespace HtmlTemplate

/-- The part of an element in a chain: it begins one, it is an alternative with a condition, or it
is an alternative without. -/
inductive Branch where
  | first (condition : Text)
  | other (condition : Text)
  | last
  deriving DecidableEq

namespace Branch

/-- The part that attributes give to their element: that of the first directive, of the three, that
is present. -/
def ofAttributes? (attributes : Attributes) : Option Branch :=
  match attributes.get? Directive.whenTrue.name with
  | some condition => some (.first condition)
  | none =>
      match attributes.get? Directive.elseWhen.name with
      | some condition => some (.other condition)
      | none => if attributes.contains Directive.otherwise.name then some .last else none

def ofNode? : Node → Option Branch
  | .element _ attributes _ => ofAttributes? attributes
  | _ => none

def directive : Branch → Directive
  | .first _ => .whenTrue
  | .other _ => .elseWhen
  | .last => .otherwise

def strip (attributes : Attributes) : Attributes :=
  match ofAttributes? attributes with
  | some branch => attributes.remove branch.directive.name
  | none => attributes

end Branch

/-- Where a list of siblings stands: before any chain, or in one that has or has not kept a
branch. -/
inductive Chain where
  | before
  | matched
  | unmatched
  deriving DecidableEq

namespace Chain

def ofAnswer (answer : Bool) : Chain := if answer then .matched else .unmatched

/-- Whether a sibling is kept, and where the list stands after it. -/
def decide (scope : Scope) (chain : Chain) : Option Branch → Except RenderError (Bool × Chain)
  | none => .ok (true, chain)
  | some (.first condition) => do
      let value ← scope.evaluate condition
      .ok (value.isTruthy, ofAnswer value.isTruthy)
  | some (.other condition) =>
      match chain with
      | .before => .ok (true, .before)
      | .matched => .ok (false, .matched)
      | .unmatched => do
          let value ← scope.evaluate condition
          .ok (value.isTruthy, ofAnswer value.isTruthy)
  | some .last =>
      match chain with
      | .before => .ok (true, .before)
      | .matched => .ok (false, .matched)
      | .unmatched => .ok (true, .unmatched)

def resolveFrom (scope : Scope) (chain : Chain) : List (Option Branch) →
    Except RenderError (List Bool)
  | [] => .ok []
  | branch :: rest => do
      let (kept, next) ← decide scope chain branch
      let others ← resolveFrom scope next rest
      .ok (kept :: others)

def resolve (scope : Scope) (nodes : List Node) : Except RenderError (List Bool) :=
  resolveFrom scope .before (nodes.map Branch.ofNode?)

end Chain

end HtmlTemplate
