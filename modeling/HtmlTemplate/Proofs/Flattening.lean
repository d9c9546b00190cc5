import HtmlTemplate.Proofs.Noninterference
/-!
Nested scopes as one map.  A map that gives every name what the innermost scope that binds it gives
stands for the nested scopes in every expression and every render, and goes on doing so when loops
extend both.
-/

namespace HtmlTemplate

namespace Scope

/-! ### One map -/

/-- Puts the entries of a scope over those of a map. -/
def overlay (frame rest : Bindings) : Bindings :=
  frame.foldr (fun entry fields => Fields.insert entry.1 entry.2 fields) rest

theorem get?_overlay (name : Text) (frame rest : Bindings) :
    Fields.get? name (overlay frame rest) =
      (Fields.get? name frame).or (Fields.get? name rest) := by
  induction frame with
  | nil => rfl
  | cons entry frame ih =>
      obtain ⟨key, value⟩ := entry
      show Fields.get? name (Fields.insert key value (overlay frame rest)) = _
      rw [Fields.get?_insert, Fields.get?, ih]
      split <;> rfl

theorem nodup_overlay {rest : Bindings} (frame : Bindings) (h : (Fields.names rest).Nodup) :
    (Fields.names (overlay frame rest)).Nodup := by
  induction frame with
  | nil => exact h
  | cons entry frame ih => exact Fields.nodup_names_insert ih

/-- The map of nested scopes. -/
def merged : List Bindings → Bindings
  | [] => []
  | frame :: rest => overlay frame (merged rest)

theorem get?_merged (name : Text) (frames : List Bindings) :
    Fields.get? name (merged frames) = find? name frames := by
  induction frames with
  | nil => rfl
  | cons frame rest ih =>
      rw [merged, get?_overlay, find?, ih]
      cases Fields.get? name frame <;> rfl

theorem nodup_merged (frames : List Bindings) : (Fields.names (merged frames)).Nodup := by
  induction frames with
  | nil => exact List.nodup_nil
  | cons frame rest ih => exact nodup_overlay frame ih

/-! ### Scopes that cannot be told apart -/

/-- Scopes with the same methods in which every name stands for the same. -/
structure Alike (first second : Scope) : Prop where
  methods : first.methods = second.methods
  lookup : ∀ name, first.lookup name = second.lookup name

namespace Alike

variable {first second : Scope}

theorem agreeOn (h : Alike first second) (names : List Text) : AgreeOn names first second :=
  ⟨h.methods, fun name _ => h.lookup name⟩

theorem extendWith (h : Alike first second) (bindings : Bindings) :
    Alike (first.extendWith bindings) (second.extendWith bindings) where
  methods := h.methods
  lookup name := by rw [lookup_extendWith, lookup_extendWith, h.lookup name]

theorem foldl_extendWith (h : Alike first second) (inner : List Bindings) :
    Alike (inner.foldl Scope.extendWith first) (inner.foldl Scope.extendWith second) := by
  induction inner generalizing first second with
  | nil => exact h
  | cons bindings inner ih => exact ih (h.extendWith bindings)

theorem eval_eq (h : Alike first second) (e : Expr) : e.eval first = e.eval second :=
  e.eval_congr (h.agreeOn e.mentions)

theorem renderNodes_eq (h : Alike first second) (instantiate : Instantiate) (nodes : List Node) :
    Engine.renderNodes instantiate first nodes = Engine.renderNodes instantiate second nodes := by
  have hrelated : Host.Related (fun _ x y => x = y) Alike (fun _ => True)
      (Host.ofInstantiate instantiate) (Host.ofInstantiate instantiate) :=
    Host.related_of_evaluate_eq instantiate (fun hst _ => evaluate_congr (hst.agreeOn _))
      fun bindings hst => hst.extendWith bindings
  have hnodes := hrelated.renderNodes h (Writes.of_forall (fun _ => trivial) nodes)
  rwa [Host.renderNodes_ofInstantiate, Host.renderNodes_ofInstantiate] at hnodes

end Alike

theorem alike_ofBindings {scope : Scope} {flat : Bindings}
    (h : ∀ name, Fields.get? name flat = scope.lookup name) :
    Alike scope (.ofBindings flat scope.methods) where
  methods := rfl
  lookup name := by
    show scope.lookup name = find? name [flat]
    rw [← h name, find?]
    cases Fields.get? name flat <;> rfl

/-- Nested scopes have a map that gives each name the value of the innermost scope that binds it.
Whatever map does so, expressions have the same outcome in the scopes and in the map, and nodes are
rendered the same by every application and at every depth; also after both were extended alike. -/
theorem eval_and_renderNodes_flat (scope : Scope) :
    (∃ flat : Bindings, (Fields.names flat).Nodup ∧
      ∀ name, Fields.get? name flat = scope.lookup name) ∧
    ∀ flat : Bindings, (∀ name, Fields.get? name flat = scope.lookup name) →
      ∀ inner : List Bindings,
        let nested := inner.foldl extendWith scope
        let single := inner.foldl extendWith (.ofBindings flat scope.methods)
        (∀ e : Expr, e.eval nested = e.eval single) ∧
        ∀ (app : App) (remaining : Nat) (nodes : List Node),
          Engine.renderNodes (app.instantiate remaining) nested nodes =
            Engine.renderNodes (app.instantiate remaining) single nodes := by
  constructor
  · exact ⟨merged scope.frames, nodup_merged _, fun name => get?_merged name scope.frames⟩
  · intro flat hflat inner nested single
    have halike : Alike nested single := (alike_ofBindings hflat).foldl_extendWith inner
    exact ⟨halike.eval_eq, fun app remaining => halike.renderNodes_eq (app.instantiate remaining)⟩

theorem eval_and_renderNodes_flat_shadowed :
    let x := "x".toList
    let items : Value := .list [.string "a".toList]
    let scope := (Scope.ofBindings [(x, .null), ("xs".toList, items)] .empty).extend x items
    let flat : Bindings := [("xs".toList, items), (x, items)]
    let nodes : List Node := [.element "b".toList
      ⟨[(Directive.forEach.name, "x in x".toList)], by decide⟩
      [.text "\x7b\x7b x \x7d\x7d\x7b\x7b xs[0] \x7d\x7d".toList]]
    let instantiate := (App.ofMethods .empty).instantiate 0
    (∀ name, Fields.get? name flat = scope.lookup name) ∧
    Engine.renderNodes instantiate scope nodes =
      Engine.renderNodes instantiate (.ofBindings flat .empty) nodes ∧
    ((Engine.renderNodes instantiate scope nodes).run .empty).1.toOption.map
      Markup.serializeNodes = some "<b>aa</b>".toList := by
  intro x items scope flat nodes instantiate
  have hflat : ∀ name, Fields.get? name flat = scope.lookup name :=
    fun name => get?_merged name scope.frames
  have hnodes :=
    ((eval_and_renderNodes_flat scope).2 flat hflat []).2 (App.ofMethods .empty) 0 nodes
  exact ⟨hflat, hnodes, by decide +kernel⟩

end Scope

end HtmlTemplate
