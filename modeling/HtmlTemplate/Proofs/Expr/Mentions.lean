import HtmlTemplate.Template.Error
/-!
The variables that an expression reads.  Scopes with the same methods in which these stand for the
same give an expression the same value, or refuse it for the same reason.
-/

namespace HtmlTemplate

namespace Expr

mutual

/-- The names that an expression looks up, also for its arguments and the keys that it computes. -/
def mentions : Expr → List Text
  | .null | .bool _ | .number _ | .string _ => []
  | .access name path => name :: mentionsOfPath path
  | .not operand => mentions operand
  | .compare left _ right => mentions left ++ mentions right
  | .call _ arguments | .filter _ arguments => mentionsAmong arguments
  | .list items => mentionsAmong items
  | .map properties => mentionsOfProperties properties

def mentionsAmong : List Expr → List Text
  | [] => []
  | item :: rest => mentions item ++ mentionsAmong rest

def mentionsOfPath : List Step → List Text
  | [] => []
  | .name _ :: rest => mentionsOfPath rest
  | .computed key :: rest => mentions key ++ mentionsOfPath rest

def mentionsOfProperties : List Property → List Text
  | [] => []
  | .static _ value :: rest => mentions value ++ mentionsOfProperties rest
  | .computed key value :: rest =>
      mentions key ++ (mentions value ++ mentionsOfProperties rest)

end

/-- The variables of the expression that a source stands for. -/
def mentionsOfSource (source : Text) : List Text :=
  (parse source).toOption.elim [] mentions

end Expr

namespace Scope

/-- Scopes with the same methods in which some names stand for the same. -/
structure AgreeOn (names : List Text) (first second : Scope) : Prop where
  methods : first.methods = second.methods
  lookup : ∀ name ∈ names, first.lookup name = second.lookup name

namespace AgreeOn

variable {first second : Scope} {names others : List Text}

theorem of_subset (h : AgreeOn names first second) (hsubset : ∀ name ∈ others, name ∈ names) :
    AgreeOn others first second :=
  ⟨h.methods, fun name hname => h.lookup name (hsubset name hname)⟩

theorem left (h : AgreeOn (names ++ others) first second) : AgreeOn names first second :=
  h.of_subset fun _ => List.mem_append_left others

theorem right (h : AgreeOn (names ++ others) first second) : AgreeOn others first second :=
  h.of_subset fun _ => List.mem_append_right names

theorem extendWith (h : AgreeOn names first second) (bindings : Bindings) :
    AgreeOn names (first.extendWith bindings) (second.extendWith bindings) where
  methods := h.methods
  lookup name hname := by rw [lookup_extendWith, lookup_extendWith, h.lookup name hname]

end AgreeOn

end Scope

namespace Expr

mutual

theorem eval_congr {first second : Scope} (e : Expr)
    (h : Scope.AgreeOn e.mentions first second) : e.eval first = e.eval second := by
  cases e with
  | null | bool | number | string => rfl
  | access name path =>
      rw [mentions] at h
      rw [eval, eval, h.lookup name (List.mem_cons_self ..)]
      have hpath := h.of_subset fun _ => List.mem_cons_of_mem name
      cases second.lookup name with
      | none => rfl
      | some value => exact evalPath_congr _ value path hpath
  | not operand =>
      rw [eval, eval, eval_congr operand h]
  | compare left operator right =>
      rw [mentions] at h
      rw [eval, eval, eval_congr left h.left, eval_congr right h.right]
  | call name arguments =>
      rw [eval, eval, h.methods, evalAll_congr arguments h]
  | filter name arguments =>
      rw [eval, eval, h.methods, evalAll_congr arguments h]
  | list items =>
      rw [eval, eval, evalAll_congr items h]
  | map properties =>
      rw [eval, eval, evalProperties_congr properties h]

theorem evalAll_congr {first second : Scope} (items : List Expr)
    (h : Scope.AgreeOn (mentionsAmong items) first second) :
    evalAll first items = evalAll second items := by
  cases items with
  | nil => rfl
  | cons item rest =>
      rw [mentionsAmong] at h
      rw [evalAll, evalAll, eval_congr item h.left, evalAll_congr rest h.right]

theorem evalPath_congr {first second : Scope} (whole : Expr) (value : Value) (path : List Step)
    (h : Scope.AgreeOn (mentionsOfPath path) first second) :
    evalPath first whole value path = evalPath second whole value path := by
  cases path with
  | nil => rfl
  | cons step rest =>
      cases step with
      | name name =>
          rw [evalPath, evalPath]
          cases value.member? (.string name) with
          | none => rfl
          | some member => exact evalPath_congr whole member rest h
      | computed key =>
          rw [mentionsOfPath] at h
          rw [evalPath, evalPath, eval_congr key h.left]
          congr 1
          funext k
          cases value.member? k with
          | none => rfl
          | some member => exact evalPath_congr whole member rest h.right

theorem evalProperties_congr {first second : Scope} (properties : List Property)
    (h : Scope.AgreeOn (mentionsOfProperties properties) first second) :
    evalProperties first properties = evalProperties second properties := by
  cases properties with
  | nil => rfl
  | cons property rest =>
      cases property with
      | static key value =>
          rw [mentionsOfProperties] at h
          rw [evalProperties, evalProperties, eval_congr value h.left,
            evalProperties_congr rest h.right]
      | computed key value =>
          rw [mentionsOfProperties] at h
          rw [evalProperties, evalProperties, eval_congr key h.left, eval_congr value h.right.left,
            evalProperties_congr rest h.right.right]

end

end Expr

/-- The outcome of a source depends on the methods and on the variables of its expression only. -/
theorem Scope.evaluate_congr {first second : Scope} {source : Text}
    (h : AgreeOn (Expr.mentionsOfSource source) first second) :
    first.evaluate source = second.evaluate source := by
  unfold Expr.mentionsOfSource at h
  unfold evaluate
  cases hparse : Expr.parse source with
  | error cause => rfl
  | ok e =>
      rw [hparse] at h
      dsimp only
      rw [e.eval_congr h]

end HtmlTemplate
