import HtmlTemplate.Expr.Parse
import HtmlTemplate.Value.Fields
/-!
Remembering parsed expressions.  An expression is kept under its trimmed source from the first time
that it parses, and the same instance is handed out from then on; errors are not kept.
-/

namespace HtmlTemplate

/-- An expression and the number of the parse that made it, by which instances are told apart. -/
structure Instance where
  serial : Nat
  expr : Expr

/-- The instances made so far, by trimmed source, and how often the parser was called. -/
structure Cache where
  instances : Fields Instance
  calls : Nat

namespace Cache

def empty : Cache := ⟨[], 0⟩

def size (cache : Cache) : Nat := cache.instances.length

def isEmpty (cache : Cache) : Bool := cache.size = 0

/-- Parses a source unless that has been done before. -/
def parse (parser : Text → Except ParseError Expr) (cache : Cache) (source : Text) :
    Except ParseError Instance × Cache :=
  let key := source.trim
  match Fields.get? key cache.instances with
  | some hit => (.ok hit, cache)
  | none =>
      match parser key with
      | .error error => (.error error, { cache with calls := cache.calls + 1 })
      | .ok expr =>
          let made : Instance := ⟨cache.calls, expr⟩
          (.ok made, ⟨Fields.insert key made cache.instances, cache.calls + 1⟩)

end Cache

end HtmlTemplate
