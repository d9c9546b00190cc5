import HtmlTemplate.Template.Binding
import HtmlTemplate.Template.Conditional
import HtmlTemplate.Template.Loop
import HtmlTemplate.Template.Mustache
import HtmlTemplate.Template.Store
/-!
Rendering nodes.  Among siblings the chains of conditions are resolved first.  Then, for each
element that is kept, event handlers go, a loop repeats it, markup from an expression replaces its
children, a component replaces it altogether, and otherwise its attributes are bound and its
children rendered in turn; a `template` element leaves only its children.
-/

namespace HtmlTemplate

abbrev Instantiate := Text → Bindings → RenderM (List Node)

namespace Engine

def dropEvents (attributes : Attributes) : Attributes :=
  attributes.retain fun name _ => !(AttributeKind.ofName name).isEvent

def dropLoop (attributes : Attributes) : Attributes :=
  ((attributes.remove Directive.forEach.name).remove ":key".toList).remove
    "v-bind:key".toList

/-- Renders an element outside of loops.  `content` renders its children. -/
def renderElement (instantiate : Instantiate) (tag : Text) (attributes : Attributes)
    (content : Scope → RenderM (List Node)) (scope : Scope) : RenderM (List Node) := do
  let injected ←
    match attributes.get? Directive.html.name with
    | none => pure none
    | some source => do
        let value ← RenderM.ofExcept (scope.evaluate source)
        pure (some (Markup.parseFragment value.display))
  let attributes := attributes.remove Directive.html.name
  if isComponentTag tag then
    let properties ← RenderM.ofExcept (Binding.properties scope attributes)
    instantiate tag properties
  else
    let attributes ← RenderM.ofExcept (Binding.bind scope attributes)
    let children ←
      match injected with
      | some nodes => pure nodes
      | none => content scope
    if tag = templateTag then pure children
    else pure [.element tag attributes children]

def renderRounds (render : Scope → RenderM (List Node)) (loop : Loop) (scope : Scope) :
    List (Value × Value) → RenderM (List Node)
  | [] => pure []
  | entry :: rest => do
      let first ← render (scope.extendWith (loop.bindings entry))
      let others ← renderRounds render loop scope rest
      pure (first ++ others)

def renderKept (instantiate : Instantiate) (tag : Text) (attributes : Attributes)
    (content : Scope → RenderM (List Node)) (scope : Scope) : RenderM (List Node) :=
  let attributes := dropEvents attributes
  match attributes.get? Directive.forEach.name with
  | none => renderElement instantiate tag attributes content scope
  | some directive => do
      let loop ← RenderM.ofExcept (Loop.parse directive)
      let entries ← RenderM.ofExcept (loop.entries scope)
      renderRounds (renderElement instantiate tag (dropLoop attributes) content) loop scope entries

mutual

def renderNode (instantiate : Instantiate) (scope : Scope) : Node → RenderM (List Node)
  | .text markup => do
      let text ← RenderM.ofExcept (Mustache.interpolate scope markup)
      pure [.text text]
  | .comment content => pure [.comment content]
  | .element tag attributes children =>
      renderKept instantiate tag (Branch.strip attributes)
        (fun inner => do
          let kept ← RenderM.ofExcept (Chain.resolve inner children)
          renderChosen instantiate inner kept children)
        scope

def renderChosen (instantiate : Instantiate) (scope : Scope) (kept : List Bool) :
    List Node → RenderM (List Node)
  | [] => pure []
  | node :: rest => do
      let first ← if kept.headD true then renderNode instantiate scope node else pure []
      let others ← renderChosen instantiate scope kept.tail rest
      pure (first ++ others)

end

def renderNodes (instantiate : Instantiate) (scope : Scope) (nodes : List Node) :
    RenderM (List Node) := do
  let kept ← RenderM.ofExcept (Chain.resolve scope nodes)
  renderChosen instantiate scope kept nodes

end Engine

end HtmlTemplate
