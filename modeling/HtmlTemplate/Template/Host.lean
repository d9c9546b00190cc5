import HtmlTemplate.Template.Engine
/-!
The engine over any host.  A host evaluates expressions, instantiates components and fails, each in
steps of a kind of its own; the engine only puts the steps of its host in order.  With steps that
remember roots and nothing else this is the engine itself.
-/

namespace HtmlTemplate

/-- What rendering asks of its surroundings. -/
structure Host (m : Type → Type) where
  fail : {α : Type} → RenderError → m α
  evaluate : Scope → Text → m Value
  instantiate : Text → Bindings → m (List Node)

namespace Chain

/-- The condition that decides a sibling, where one is asked for. -/
def condition? (chain : Chain) : Option Branch → Option Text
  | some (.first condition) => some condition
  | some (.other condition) => if chain = .unmatched then some condition else none
  | some .last | none => none

/-- Whether a sibling is kept that no condition is asked of, and where the list stands after it. -/
def pass (chain : Chain) : Option Branch → Bool × Chain
  | none => (true, chain)
  | some _ => (chain ≠ .matched, chain)

end Chain

/-- What an element leaves in its place. -/
def placed (tag : Text) (attributes : Attributes) (children : List Node) : List Node :=
  if tag = templateTag then children else [.element tag attributes children]

namespace Host

variable {m : Type → Type} [Monad m] (host : Host m)

/-! ### Conditions and text -/

def decide (scope : Scope) (chain : Chain) (branch : Option Branch) : m (Bool × Chain) :=
  match chain.condition? branch with
  | none => pure (chain.pass branch)
  | some condition => do
      let value ← host.evaluate scope condition
      pure (value.isTruthy, Chain.ofAnswer value.isTruthy)

def resolveFrom (scope : Scope) (chain : Chain) : List (Option Branch) → m (List Bool)
  | [] => pure []
  | branch :: rest => do
      let (kept, next) ← host.decide scope chain branch
      let others ← resolveFrom scope next rest
      pure (kept :: others)

def resolve (scope : Scope) (nodes : List Node) : m (List Bool) :=
  host.resolveFrom scope .before (nodes.map Branch.ofNode?)

def renderPieces (scope : Scope) : List Mustache.Piece → m Text
  | [] => pure []
  | .literal text :: rest => do
      let others ← renderPieces scope rest
      pure (text ++ others)
  | .expression source :: rest => do
      let value ← host.evaluate scope (Markup.unescapeText source)
      let others ← renderPieces scope rest
      pure (Markup.escapeText value.display ++ others)

/-! ### Attributes -/

def bindAll (scope : Scope) (attributes : Attributes) : List Text → m Attributes
  | [] => pure attributes
  | name :: rest =>
      match AttributeKind.ofName name with
      | .binding target => do
          let source := (attributes.get? name).getD []
          let value ← host.evaluate scope source
          match Binding.assign attributes name target source value with
          | .error error => host.fail error
          | .ok bound => bindAll scope bound rest
      | _ => bindAll scope attributes rest

def propertiesFrom (scope : Scope) (properties : Bindings) : Fields Text → m Bindings
  | [] => pure properties
  | (name, value) :: rest =>
      match AttributeKind.ofName name with
      | .literal =>
          propertiesFrom scope (Fields.insert (camelCase name) (.string value) properties) rest
      | .binding target => do
          let bound ← host.evaluate scope value
          propertiesFrom scope (Fields.insert (camelCase target) bound properties) rest
      | .event _ | .directive _ => propertiesFrom scope properties rest

/-! ### Elements -/

/-- The children that markup from an expression puts in the place of those of an element. -/
def injected (scope : Scope) (attributes : Attributes) : m (Option (List Node)) :=
  match attributes.get? Directive.html.name with
  | none => pure none
  | some source => do
      let value ← host.evaluate scope source
      pure (some (Markup.parseFragment value.display))

def renderElement (tag : Text) (attributes : Attributes) (content : Scope → m (List Node))
    (scope : Scope) : m (List Node) := do
  let fragment ← host.injected scope attributes
  let bare := attributes.remove Directive.html.name
  if isComponentTag tag then
    let properties ← host.propertiesFrom scope [] bare.entries
    host.instantiate tag properties
  else
    let bound ← host.bindAll scope bare bare.names
    let children ← fragment.elim (content scope) pure
    pure (placed tag bound children)

def renderRounds (render : Scope → m (List Node)) (loop : Loop) (scope : Scope) :
    List (Value × Value) → m (List Node)
  | [] => pure []
  | entry :: rest => do
      let first ← render (scope.extendWith (loop.bindings entry))
      let others ← renderRounds render loop scope rest
      pure (first ++ others)

def renderLoop (render : Scope → m (List Node)) (directive : Text) (scope : Scope) :
    m (List Node) :=
  match Loop.parse directive with
  | .error error => host.fail error
  | .ok loop => do
      let value ← host.evaluate scope loop.source
      match Loop.entriesOf? value with
      | none => host.fail (.notIterable loop.source value.kind)
      | some entries => renderRounds render loop scope entries

def renderKept (tag : Text) (attributes : Attributes) (content : Scope → m (List Node))
    (scope : Scope) : m (List Node) :=
  let attributes := Engine.dropEvents attributes
  match attributes.get? Directive.forEach.name with
  | none => host.renderElement tag attributes content scope
  | some directive =>
      host.renderLoop (host.renderElement tag (Engine.dropLoop attributes) content) directive scope

mutual

def renderNode (scope : Scope) : Node → m (List Node)
  | .text markup => do
      let text ← host.renderPieces scope (Mustache.pieces markup)
      pure [.text text]
  | .comment content => pure [.comment content]
  | .element tag attributes children =>
      host.renderKept tag (Branch.strip attributes)
        (fun inner => do
          let kept ← host.resolve inner children
          renderChosen inner kept children)
        scope

def renderChosen (scope : Scope) (kept : List Bool) : List Node → m (List Node)
  | [] => pure []
  | node :: rest => do
      let first ← if kept.headD true then renderNode scope node else pure []
      let others ← renderChosen scope kept.tail rest
      pure (first ++ others)

end

def renderNodes (scope : Scope) (nodes : List Node) : m (List Node) := do
  let kept ← host.resolve scope nodes
  host.renderChosen scope kept nodes

end Host

end HtmlTemplate
