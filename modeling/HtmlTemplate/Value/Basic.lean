import HtmlTemplate.Number.Basic
import HtmlTemplate.Value.Fields
/-!
The values that templates compute with: those of JSON.  Two values are the same when they have the
same structure, whatever the order of the entries of a map.
-/

namespace HtmlTemplate

inductive Value where
  | null
  | bool (b : Bool)
  | number (n : Number)
  | string (s : Text)
  | list (items : List Value)
  | map (entries : List (Text × Value))
  deriving Inhabited

namespace Value

def ofNat (n : Nat) : Value := .number (.int n)

def kind : Value → String
  | .null => "null"
  | .bool _ => "bool"
  | .number _ => "number"
  | .string _ => "string"
  | .list _ => "array"
  | .map _ => "object"

def isScalar : Value → Bool
  | .bool _ | .number _ | .string _ => true
  | .null | .list _ | .map _ => false

def isNull : Value → Bool
  | .null => true
  | _ => false

mutual

def same : Value → Value → Bool
  | .null, .null => true
  | .bool a, .bool b => a = b
  | .number a, .number b => a.same b
  | .string a, .string b => a = b
  | .list a, .list b => sameItems a b
  | .map a, .map b => a.length = b.length && sameEntries a b
  | _, _ => false

def sameItems : List Value → List Value → Bool
  | [], [] => true
  | a :: as, b :: bs => same a b && sameItems as bs
  | _, _ => false

/-- Whether every entry of the first list has a same entry of its name in the second. -/
def sameEntries : List (Text × Value) → List (Text × Value) → Bool
  | [], _ => true
  | (name, a) :: as, bs =>
      (match Fields.get? name bs with
        | some b => same a b
        | none => false) && sameEntries as bs

end

end Value

/-- The data that a template is rendered against. -/
abbrev Bindings := Fields Value

end HtmlTemplate
