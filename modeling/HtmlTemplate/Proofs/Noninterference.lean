import HtmlTemplate.Proofs.Expr.Mentions
import HtmlTemplate.Proofs.Host
import HtmlTemplate.Proofs.Simulation
/-!
Data is not read as expressions.  What nodes are rendered to depends on the methods and on the
variables of the expressions that are written in them, provided that no binding puts its value in
the place of another binding of the same element.
-/

namespace HtmlTemplate

/-- The variables of all expressions that are written in some nodes. -/
def Node.mentionsAmong (nodes : List Node) : List Text :=
  (Node.sourcesAmong nodes).flatMap Expr.mentionsOfSource

namespace Host

variable (instantiate : Instantiate)

/-- An engine answers alike in scopes in which expressions have the same outcomes. -/
theorem related_of_evaluate_eq {C : Scope → Scope → Prop} {P : Text → Prop}
    (hevaluate : ∀ {s t source}, C s t → P source → s.evaluate source = t.evaluate source)
    (hextend : ∀ {s t} bindings, C s t → C (s.extendWith bindings) (t.extendWith bindings)) :
    Related (fun _ x y => x = y) C P (ofInstantiate instantiate) (ofInstantiate instantiate) where
  pure a := rfl
  bind {_ _ x y f g} hfirst hrest := by
    subst hfirst
    show x >>= f = x >>= g
    rw [funext hrest]
  fail error := rfl
  evaluate {s t source} hst hsource := by
    show RenderM.ofExcept (s.evaluate source) = RenderM.ofExcept (t.evaluate source)
    rw [hevaluate hst hsource]
  instantiate name properties := rfl
  extend := hextend

/-- An engine answers alike in scopes that agree on the variables of an expression. -/
theorem related_of_agreeOn (names : List Text) :
    Related (fun _ x y => x = y) (Scope.AgreeOn names)
      (fun source => ∀ name ∈ Expr.mentionsOfSource source, name ∈ names)
      (ofInstantiate instantiate) (ofInstantiate instantiate) :=
  related_of_evaluate_eq instantiate
    (fun hst hsource => Scope.evaluate_congr (hst.of_subset hsource))
    fun bindings hst => hst.extendWith bindings

end Host

namespace Engine

variable {first second : Scope} {nodes : List Node}

/-- Nodes are rendered the same in scopes with the same methods that agree on the variables of the
nodes. -/
theorem renderNodes_congr (app : App) (remaining : Nat)
    (hsettled : AllElements (fun tag attributes =>
      isComponentTag tag = false → (prepared attributes).IsSettled) nodes)
    (h : Scope.AgreeOn (Node.mentionsAmong nodes) first second) :
    renderNodes (app.instantiate remaining) first nodes =
      renderNodes (app.instantiate remaining) second nodes := by
  have hrelated := Host.related_of_agreeOn (app.instantiate remaining) (Node.mentionsAmong nodes)
  have hwrites : Writes (fun source => ∀ name ∈ Expr.mentionsOfSource source,
      name ∈ Node.mentionsAmong nodes) nodes := by
    refine ⟨fun source hsource name hname => ?_, .inr hsettled⟩
    exact List.mem_flatMap.mpr ⟨source, hsource, hname⟩
  have hequal := hrelated.renderNodes h hwrites
  rwa [Host.renderNodes_ofInstantiate, Host.renderNodes_ofInstantiate] at hequal

theorem renderNodes_congr_unread :
    let attributes : Attributes := ⟨[(":title".toList, "t".toList)], by decide⟩
    let nodes : List Node := [.element "p".toList attributes [.text "{{ t }}".toList]]
    let first : Scope := .ofBindings [("t".toList, .string "u".toList)] .empty
    let second := first.extend "u".toList (.string "v".toList)
    let instantiate := (App.ofMethods .empty).instantiate 0
    first.lookup "u".toList ≠ second.lookup "u".toList ∧
    ((renderNodes instantiate second nodes).run .empty).1.toOption.map Markup.serializeNodes =
      some "<p title=\"u\">u</p>".toList ∧
    renderNodes instantiate first nodes = renderNodes instantiate second nodes := by
  intro attributes nodes first second instantiate
  have hmentions : Node.mentionsAmong nodes = ["t".toList, "t".toList] := by decide +kernel
  have hsettled : ∀ entry ∈ HasElement.amongNodes nodes,
      isComponentTag entry.1 = false → (prepared entry.2).IsSettled := by decide +kernel
  refine ⟨nofun, by decide +kernel, renderNodes_congr _ 0 (fun tag attributes helement => ?_) ?_⟩
  · exact hsettled (tag, attributes) (HasElement.mem_amongNodes helement)
  · refine ⟨rfl, fun name hname => ?_⟩
    rw [hmentions] at hname
    obtain rfl : name = "t".toList := by simpa using hname
    rfl

/-- A binding whose value takes the place of another one is read as an expression: the variable that
it names is in no expression of the nodes. -/
theorem renderNodes_ne_of_unsettled :
    let attributes : Attributes :=
      ⟨[("::b".toList, "x".toList), (":b".toList, "1".toList)], by decide⟩
    let nodes : List Node := [.element "p".toList attributes []]
    let first : Scope := .ofBindings [("x".toList, .string "y".toList)] .empty
    let second := first.extend "y".toList (.string "leak".toList)
    let instantiate := (App.ofMethods .empty).instantiate 0
    Scope.AgreeOn (Node.mentionsAmong nodes) first second ∧
    renderNodes instantiate first nodes ≠ renderNodes instantiate second nodes := by
  intro attributes nodes first second instantiate
  have hmentions : Node.mentionsAmong nodes = ["x".toList] := by decide +kernel
  constructor
  · refine ⟨rfl, fun name hname => ?_⟩
    rw [hmentions] at hname
    obtain rfl : name = "x".toList := by simpa using hname
    rfl
  · intro hequal
    have hmarkup := congrArg (fun rendered : RenderM (List Node) =>
      (rendered.run .empty).1.toOption.map Markup.serializeNodes) hequal
    have hsecond : ((renderNodes instantiate second nodes).run .empty).1.toOption.map
        Markup.serializeNodes = some "<p b=\"leak\"></p>".toList := by decide +kernel
    exact absurd (hmarkup.trans hsecond) (by decide +kernel)

end Engine

end HtmlTemplate
