import HtmlTemplate.Expr.Basic
import HtmlTemplate.Scope
import HtmlTemplate.Value.Coercion
/-!
The value of an expression in a scope.
-/

namespace HtmlTemplate

/-- Why an expression has no value. -/
inductive EvalError where
  | undefinedVariable (path : Text)
  | undefinedMethod (name : Text)
  | undefinedFilter (name : Text)
  | mismatch (operator : Comparison) (left right : String)
  deriving DecidableEq

def EvalError.message : EvalError → String
  | .undefinedVariable path => "undefined variable `" ++ String.ofList path ++ "`"
  | .undefinedMethod name => "method `" ++ String.ofList name ++ "` is undefined"
  | .undefinedFilter name => "filter `" ++ String.ofList name ++ "` is undefined"
  | .mismatch operator left right =>
      "operator `" ++ operator.symbol ++ "` cannot compare " ++ left ++ " with " ++ right

namespace Value

def lengthKey : Text := "length".toList

/-- The member of a value that a key selects.  Maps have their entries, lists their items, and
lists and texts a length. -/
def member? (target key : Value) : Option Value :=
  match target, key with
  | .map entries, key => Fields.get? key.toKey entries
  | .list items, .string s =>
      if s = lengthKey then some (ofNat items.length)
      else (Value.string s).toIndex?.bind (items[·]?)
  | .list items, key => key.toIndex?.bind (items[·]?)
  | .string s, .string k => if k = lengthKey then some (ofNat s.length) else none
  | _, _ => none

/-- How two scalars are ordered: two texts by their code points, any other pair as the numbers that
they stand for.  There is no order where one of them stands for no number. -/
def order? : Value → Value → Option Ordering
  | .string a, .string b => some (if a < b then .lt else if a = b then .eq else .gt)
  | a, b =>
      match a.toNumber?, b.toNumber? with
      | some x, some y => some (compare x.key y.key)
      | _, _ => none

end Value

namespace Comparison

def accepts (operator : Comparison) (left right : Value) : Bool :=
  (operator.isIdentity && (left.isNull || right.isNull)) || (left.isScalar && right.isScalar)

def holds (operator : Comparison) (left right : Value) : Bool :=
  match operator with
  | .strictEq => left.strictEquals right
  | .strictNe => !left.strictEquals right
  | .looseEq => left.looseEquals right
  | .looseNe => !left.looseEquals right
  | .lt => (left.order? right).any Ordering.isLT
  | .le => (left.order? right).any Ordering.isLE
  | .gt => (left.order? right).any Ordering.isGT
  | .ge => (left.order? right).any Ordering.isGE

def apply (operator : Comparison) (left right : Value) : Except EvalError Bool :=
  if operator.accepts left right then .ok (operator.holds left right)
  else .error (.mismatch operator left.kind right.kind)

end Comparison

namespace Expr

mutual

/-- The value of an expression.  Operands and arguments are evaluated from left to right, and a
method is looked up before the arguments of its call. -/
def eval (scope : Scope) : Expr → Except EvalError Value
  | .null => .ok .null
  | .bool b => .ok (.bool b)
  | .number n => .ok (.number n)
  | .string s => .ok (.string s)
  | .access name path =>
      match scope.lookup name with
      | none => .error (.undefinedVariable (Expr.access name path).render)
      | some value => evalPath scope (.access name path) value path
  | .not operand => do
      let value ← eval scope operand
      .ok (.bool (!value.isTruthy))
  | .compare left operator right => do
      let a ← eval scope left
      let b ← eval scope right
      let answer ← operator.apply a b
      .ok (.bool answer)
  | .call name arguments =>
      match scope.methods.get? name with
      | none => .error (.undefinedMethod name)
      | some method => do
          let values ← evalAll scope arguments
          .ok (method values)
  | .filter name arguments =>
      match scope.methods.get? name with
      | none => .error (.undefinedFilter name)
      | some method => do
          let values ← evalAll scope arguments
          .ok (method values)
  | .list items => do
      let values ← evalAll scope items
      .ok (.list values)
  | .map properties => do
      let entries ← evalProperties scope properties
      .ok (.map (Fields.ofList entries))

def evalAll (scope : Scope) : List Expr → Except EvalError (List Value)
  | [] => .ok []
  | item :: rest => do
      let value ← eval scope item
      let values ← evalAll scope rest
      .ok (value :: values)

/-- Follows a path from a value; `whole` is the access that it belongs to. -/
def evalPath (scope : Scope) (whole : Expr) (value : Value) :
    List Step → Except EvalError Value
  | [] => .ok value
  | .name name :: rest =>
      match value.member? (.string name) with
      | none => .error (.undefinedVariable whole.render)
      | some member => evalPath scope whole member rest
  | .computed key :: rest => do
      let k ← eval scope key
      match value.member? k with
      | none => .error (.undefinedVariable whole.render)
      | some member => evalPath scope whole member rest

/-- The entries of a map literal, in the order of the literal. -/
def evalProperties (scope : Scope) : List Property → Except EvalError (List (Text × Value))
  | [] => .ok []
  | .static key value :: rest => do
      let v ← eval scope value
      let entries ← evalProperties scope rest
      .ok ((key, v) :: entries)
  | .computed key value :: rest => do
      let k ← eval scope key
      let v ← eval scope value
      let entries ← evalProperties scope rest
      .ok ((k.toKey, v) :: entries)

end

end Expr

end HtmlTemplate
