import HtmlTemplate.Expr.Eval
import HtmlTemplate.Expr.Parse
import HtmlTemplate.Markup.Document
/-!
Why a template cannot be rendered.
-/

namespace HtmlTemplate

inductive RenderError where
  | malformed (cause : DocumentError)
  | parse (cause : ParseError)
  | eval (source : Text) (cause : EvalError)
  | collectionBinding (target source : Text)
  | notIterable (source : Text) (found : String)
  | invalidLoop (directive : Text)
  | unknownComponent (name : Text)
  | load (name reason : Text)
  | tooDeep (name : Text) (limit : Nat)
  deriving DecidableEq

namespace RenderError

def message : RenderError → String
  | .malformed cause => "malformed template: " ++ cause.message
  | .parse cause => cause.message
  | .eval source cause =>
      "failed to evaluate `" ++ String.ofList source ++ "`: " ++ cause.message
  | .collectionBinding target source =>
      "cannot bind array or object from `" ++ String.ofList source ++ "` to attribute `" ++
        String.ofList target ++ "`"
  | .notIterable source found =>
      "`" ++ String.ofList source ++ "` must evaluate to a list or object to loop over, got " ++
        found
  | .invalidLoop directive =>
      "invalid loop directive `" ++ String.ofList directive ++ "`, expected `item in list`"
  | .unknownComponent name => "unknown component: " ++ String.ofList name
  | .load name reason =>
      "failed to load template for component `" ++ String.ofList name ++ "`: " ++
        String.ofList reason
  | .tooDeep name limit =>
      "component `" ++ String.ofList name ++ "` exceeds the nesting limit of " ++ toString limit

end RenderError

namespace Scope

def evaluate (scope : Scope) (source : Text) : Except RenderError Value :=
  match Expr.parse source with
  | .error cause => .error (.parse cause)
  | .ok e =>
      match e.eval scope with
      | .error cause => .error (.eval source.trim cause)
      | .ok value => .ok value

end Scope

end HtmlTemplate
