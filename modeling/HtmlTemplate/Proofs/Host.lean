import HtmlTemplate.Proofs.Outcome
import HtmlTemplate.Template.Host
/-!
The engine is what its host comes to whose steps evaluate expressions without remembering anything.
Every function of the engine equals that of the host, so that what is shown of related hosts holds
of the engine.
-/

namespace HtmlTemplate

namespace Host

/-- The host of the engine: expressions are evaluated without a trace. -/
def ofInstantiate (instantiate : Instantiate) : Host RenderM where
  fail error := throw error
  evaluate scope source := RenderM.ofExcept (scope.evaluate source)
  instantiate := instantiate

variable (instantiate : Instantiate) (scope : Scope)

theorem decide_ofInstantiate (chain : Chain) (branch : Option Branch) :
    (ofInstantiate instantiate).decide scope chain branch =
      RenderM.ofExcept (Chain.decide scope chain branch) := by
  rcases branch with - | ⟨condition | condition | -⟩
  · rfl
  · show RenderM.ofExcept (scope.evaluate condition) >>= _ = _
    rw [Chain.decide]
    cases scope.evaluate condition <;> rfl
  · cases chain with
    | before | matched => rfl
    | unmatched =>
        show RenderM.ofExcept (scope.evaluate condition) >>= _ = _
        rw [Chain.decide]
        cases scope.evaluate condition <;> rfl
  · cases chain <;> rfl

theorem resolveFrom_ofInstantiate (chain : Chain) (branches : List (Option Branch)) :
    (ofInstantiate instantiate).resolveFrom scope chain branches =
      RenderM.ofExcept (Chain.resolveFrom scope chain branches) := by
  induction branches generalizing chain with
  | nil => rfl
  | cons branch branches ih =>
      rw [resolveFrom, Chain.resolveFrom, decide_ofInstantiate]
      cases Chain.decide scope chain branch with
      | error error => rfl
      | ok answer =>
          show (ofInstantiate instantiate).resolveFrom scope answer.2 branches >>= _ =
            RenderM.ofExcept (Chain.resolveFrom scope answer.2 branches >>= _)
          rw [ih]
          cases Chain.resolveFrom scope answer.2 branches <;> rfl

theorem renderPieces_ofInstantiate (pieces : List Mustache.Piece) :
    (ofInstantiate instantiate).renderPieces scope pieces =
      RenderM.ofExcept (Mustache.renderPieces scope pieces) := by
  induction pieces with
  | nil => rfl
  | cons piece pieces ih =>
      cases piece with
      | literal text =>
          rw [renderPieces, Mustache.renderPieces, ih]
          rw [Mustache.renderPiece]
          cases Mustache.renderPieces scope pieces <;> rfl
      | expression source =>
          rw [renderPieces, Mustache.renderPieces, Mustache.renderPiece, ih]
          show RenderM.ofExcept (scope.evaluate (Markup.unescapeText source)) >>= _ = _
          cases scope.evaluate (Markup.unescapeText source) with
          | error error => rfl
          | ok value =>
              show RenderM.ofExcept (Mustache.renderPieces scope pieces) >>= _ =
                RenderM.ofExcept (Mustache.renderPieces scope pieces >>= _)
              cases Mustache.renderPieces scope pieces <;> rfl

theorem bindAll_ofInstantiate (names : List Text) (attributes : Attributes) :
    (ofInstantiate instantiate).bindAll scope attributes names =
      RenderM.ofExcept (Binding.bindAll scope attributes names) := by
  induction names generalizing attributes with
  | nil => rfl
  | cons name names ih =>
      rw [bindAll, Binding.bindAll, Binding.bindOne]
      cases AttributeKind.ofName name with
      | binding target =>
          show RenderM.ofExcept (scope.evaluate ((attributes.get? name).getD [])) >>= _ = _
          dsimp only
          cases scope.evaluate ((attributes.get? name).getD []) with
          | error error => rfl
          | ok value =>
              rw [RenderM.ofExcept_ok_bind, Outcome.ok_bind]
              cases Binding.assign attributes name target ((attributes.get? name).getD []) value with
              | error error => rfl
              | ok bound => exact ih bound
      | literal | event | directive => exact ih attributes

theorem propertiesFrom_ofInstantiate (entries : Fields Text) (properties : Bindings) :
    (ofInstantiate instantiate).propertiesFrom scope properties entries =
      RenderM.ofExcept (Binding.propertiesFrom scope properties entries) := by
  induction entries generalizing properties with
  | nil => rfl
  | cons entry entries ih =>
      obtain ⟨name, value⟩ := entry
      rw [propertiesFrom, Binding.propertiesFrom]
      cases AttributeKind.ofName name with
      | binding target =>
          show RenderM.ofExcept (scope.evaluate value) >>= _ = _
          dsimp only
          cases scope.evaluate value with
          | error error => rfl
          | ok bound => exact ih _
      | literal | event | directive => exact ih _

theorem renderElement_ofInstantiate (tag : Text) (attributes : Attributes)
    (content : Scope → RenderM (List Node)) :
    (ofInstantiate instantiate).renderElement tag attributes content scope =
      Engine.renderElement instantiate tag attributes content scope := by
  unfold renderElement Engine.renderElement injected
  extract_lets bare rest
  have hplaced (bound : Attributes) :
      (fun children => pure (placed tag bound children) : List Node → RenderM (List Node)) =
        fun children =>
          if tag = templateTag then pure children else pure [.element tag bound children] := by
    funext children
    unfold placed
    split <;> rfl
  have hrest (fragment : Option (List Node)) :
      (if isComponentTag tag then do
        let properties ← (ofInstantiate instantiate).propertiesFrom scope [] bare.entries
        (ofInstantiate instantiate).instantiate tag properties
      else do
        let bound ← (ofInstantiate instantiate).bindAll scope bare bare.names
        let children ← fragment.elim (content scope) pure
        pure (placed tag bound children)) = rest fragment := by
    simp only [rest, propertiesFrom_ofInstantiate, bindAll_ofInstantiate, hplaced]
    split
    · rfl
    · congr 1
      funext bound
      cases fragment <;> rfl
  simp only [hrest]
  cases attributes.get? Directive.html.name with
  | none => rfl
  | some source =>
      show RenderM.ofExcept (scope.evaluate source) >>= _ >>= _ = _
      dsimp only
      cases scope.evaluate source <;> rfl

theorem renderRounds_eq (render : Scope → RenderM (List Node)) (loop : Loop)
    (entries : List (Value × Value)) :
    renderRounds render loop scope entries = Engine.renderRounds render loop scope entries := by
  induction entries with
  | nil => rfl
  | cons entry entries ih => rw [renderRounds, Engine.renderRounds, ih]

theorem renderKept_ofInstantiate (tag : Text) (attributes : Attributes)
    (content : Scope → RenderM (List Node)) :
    (ofInstantiate instantiate).renderKept tag attributes content scope =
      Engine.renderKept instantiate tag attributes content scope := by
  have helement (attributes : Attributes) :
      (ofInstantiate instantiate).renderElement tag attributes content =
        Engine.renderElement instantiate tag attributes content := by
    funext inner
    exact renderElement_ofInstantiate instantiate inner tag attributes content
  unfold renderKept Engine.renderKept
  simp only [helement]
  cases (Engine.dropEvents attributes).get? Directive.forEach.name with
  | none => rfl
  | some directive =>
      dsimp only
      unfold renderLoop
      cases Loop.parse directive with
      | error error => rfl
      | ok loop =>
          show RenderM.ofExcept (scope.evaluate loop.source) >>= _ =
            RenderM.ofExcept (loop.entries scope) >>= _
          unfold Loop.entries
          cases scope.evaluate loop.source with
          | error error => rfl
          | ok value =>
              rw [RenderM.ofExcept_ok_bind, Outcome.ok_bind]
              cases Loop.entriesOf? value with
              | none => rfl
              | some entries => exact renderRounds_eq scope _ loop entries

mutual

theorem renderNode_ofInstantiate (instantiate : Instantiate) (scope : Scope) (node : Node) :
    (ofInstantiate instantiate).renderNode scope node =
      Engine.renderNode instantiate scope node := by
  cases node with
  | text markup =>
      rw [renderNode, Engine.renderNode, renderPieces_ofInstantiate]
      rfl
  | comment content => rfl
  | element tag attributes children =>
      rw [renderNode, Engine.renderNode, renderKept_ofInstantiate]
      congr 1
      funext inner
      rw [resolve, resolveFrom_ofInstantiate]
      congr 1
      funext kept
      exact renderChosen_ofInstantiate instantiate inner kept children
termination_by sizeOf node

theorem renderChosen_ofInstantiate (instantiate : Instantiate) (scope : Scope) (kept : List Bool)
    (nodes : List Node) :
    (ofInstantiate instantiate).renderChosen scope kept nodes =
      Engine.renderChosen instantiate scope kept nodes := by
  cases nodes with
  | nil => rfl
  | cons node nodes =>
      rw [renderChosen, Engine.renderChosen,
        renderChosen_ofInstantiate instantiate scope kept.tail nodes,
        renderNode_ofInstantiate instantiate scope node]
termination_by sizeOf nodes

end

theorem renderNodes_ofInstantiate (nodes : List Node) :
    (ofInstantiate instantiate).renderNodes scope nodes =
      Engine.renderNodes instantiate scope nodes := by
  rw [renderNodes, Engine.renderNodes, resolve, resolveFrom_ofInstantiate]
  congr 1
  funext kept
  exact renderChosen_ofInstantiate instantiate scope kept nodes

end Host

end HtmlTemplate
