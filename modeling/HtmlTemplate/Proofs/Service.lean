import HtmlTemplate.Proofs.Expr.Cache
import HtmlTemplate.Proofs.Host
import HtmlTemplate.Proofs.Simulation
import HtmlTemplate.Template.Service
/-!
What the calls of a service do.  An instantiation of a component has one of three courses, and what
the steps of a service respect is respected by every call.  Answers are those of the application
without a cache.
-/

namespace HtmlTemplate

theorem Scope.evaluate_eq (scope : Scope) (source : Text) :
    scope.evaluate source = ((Expr.parse source).mapError .parse).bind fun e =>
      (e.eval scope).mapError (.eval source.trim) := by
  unfold Scope.evaluate
  cases Expr.parse source with
  | error cause => rfl
  | ok e =>
      show _ = (e.eval scope).mapError _
      dsimp only
      cases e.eval scope <;> rfl

/-! ### Instantiations -/

namespace Component

/-- The root of a template that was asked for `loads` times before. -/
def load (component : Component) (name : Text) (loads : Nat) : Except RenderError Node :=
  (component.markupOf name loads).bind rootOf

/-- How many setups go with an instantiation whose root is known. -/
def setups (component : Component) : Nat := if component.setup.isSome then 1 else 0

/-- The properties of a component after a setup that was made `runs` times before. -/
def adjusted (component : Component) (runs : Nat) (properties : Bindings) : Bindings :=
  component.setup.elim properties fun setup => setup (runs + 1) properties

/-- The courses of an instantiation: from the root that is remembered, from one that is loaded, or
to the failure of a load. -/
inductive Enters (component : Component) (name : Text) :
    Record → Except RenderError Node → Record → Prop where
  | remembered {node : Node} {loads setups : Nat} :
      Enters component name ⟨some node, loads, setups⟩ (.ok node)
        ⟨some node, loads, setups + component.setups⟩
  | loaded {node : Node} {loads setups : Nat} (h : component.load name loads = .ok node) :
      Enters component name ⟨none, loads, setups⟩ (.ok node)
        ⟨some node, loads + 1, setups + component.setups⟩
  | failed {error : RenderError} {loads setups : Nat}
      (h : component.load name loads = .error error) :
      Enters component name ⟨none, loads, setups⟩ (.error error) ⟨none, loads + 1, setups⟩

variable (component : Component) (name : Text) (properties : Bindings) (store : Store)

theorem run_root : (component.root name).run store =
    match store.get component.id with
    | ⟨some node, _, _⟩ => (.ok node, store)
    | ⟨none, loads, setups⟩ =>
        match component.load name loads with
        | .ok node => (.ok node, store.set component.id ⟨some node, loads + 1, setups⟩)
        | .error error => (.error error, store.set component.id ⟨none, loads + 1, setups⟩) := by
  have hget (f : Store → RenderM Node) : (get >>= f).run store = (f store).run store := rfl
  unfold root
  rw [hget]
  dsimp only
  rcases store.get component.id with ⟨node | node, loads, setups⟩
  · dsimp only
    unfold load
    cases (component.markupOf name loads).bind rootOf <;> rfl
  · rfl

theorem run_prepare : ∃ next, (component.prepare properties).run store =
      (.ok (component.adjusted (store.get component.id).setups properties), next) ∧
    (∀ id, component.id ≠ id → next.get id = store.get id) ∧
    next.get component.id = { store.get component.id with
      setups := (store.get component.id).setups + component.setups } := by
  unfold prepare adjusted setups
  cases component.setup with
  | none => exact ⟨store, rfl, fun _ _ => rfl, rfl⟩
  | some setup =>
      refine ⟨_, rfl, fun id hid => ?_, ?_⟩
      · rw [Store.get_set, if_neg hid]
      · rw [Store.get_set, if_pos rfl]
        rfl

end Component

namespace ServiceM

theorem run_evaluate (scope : Scope) (source : Text) (memory : Memory) :
    (evaluate scope source).run memory =
      (Except.bind (((memory.cache.parse Expr.parse source).1.map Instance.expr).mapError .parse)
        fun e => (e.eval scope).mapError (.eval source.trim),
      { memory with cache := (memory.cache.parse Expr.parse source).2 }) := by
  have hparse : (parse source).run memory =
      (((memory.cache.parse Expr.parse source).1.map Instance.expr).mapError .parse,
        { memory with cache := (memory.cache.parse Expr.parse source).2 }) := rfl
  unfold evaluate
  rw [Outcome.run_bind, hparse]
  cases (memory.cache.parse Expr.parse source).1 with
  | error cause => rfl
  | ok made => rfl

theorem run_ofRender {α : Type} {step : RenderM α} {memory : Memory} {store : Store}
    {outcome : Except RenderError α} (h : step.run memory.store = (outcome, store)) :
    (ofRender step).run memory = (outcome, { memory with store := store }) := by
  show ((step.run memory.store).1, { memory with store := (step.run memory.store).2 }) = _
  rw [h]

variable {component : Component} {name : Text} {memory : Memory} {store : Store}

theorem run_root {outcome : Except RenderError Node}
    (h : (component.root name).run memory.store = (outcome, store)) :
    (root component name).run memory =
      (outcome, { memory with store := store }.record ⟨name, some component.id, outcome⟩) := by
  show (((component.root name).run memory.store).1,
    { memory with store := ((component.root name).run memory.store).2 }.record
      ⟨name, some component.id, ((component.root name).run memory.store).1⟩) = _
  rw [h]

theorem run_enter_of_error {error : RenderError} (properties : Bindings)
    (h : (component.root name).run memory.store = (.error error, store)) :
    (enter component name properties).run memory = (.error error,
      { memory with store := store }.record ⟨name, some component.id, .error error⟩) := by
  unfold enter
  rw [Outcome.run_bind, run_root h]

theorem run_enter_of_ok {node : Node} (properties : Bindings)
    (h : (component.root name).run memory.store = (.ok node, store)) :
    ∃ next, (enter component name properties).run memory =
        (.ok (node, component.adjusted (store.get component.id).setups properties),
        { memory with store := next }.record ⟨name, some component.id, .ok node⟩) ∧
      (∀ id, component.id ≠ id → next.get id = store.get id) ∧
      next.get component.id = { store.get component.id with
        setups := (store.get component.id).setups + component.setups } := by
  obtain ⟨next, hnext, hkept, hrecord⟩ := component.run_prepare properties store
  refine ⟨next, ?_, hkept, hrecord⟩
  unfold enter
  rw [Outcome.run_bind, run_root h]
  dsimp only
  rw [Outcome.run_bind, run_ofRender hnext]
  rfl

/-- What an instantiation of a component comes to, and what is remembered after it. -/
theorem run_enter (component : Component) (name : Text) (properties : Bindings) (memory : Memory) :
    ∃ outcome store, (enter component name properties).run memory =
        (outcome.map fun node =>
          (node, component.adjusted (memory.store.get component.id).setups properties),
        { memory with store := store }.record ⟨name, some component.id, outcome⟩) ∧
      (∀ id, component.id ≠ id → store.get id = memory.store.get id) ∧
      component.Enters name (memory.store.get component.id) outcome
        (store.get component.id) := by
  have hroot := component.run_root name memory.store
  have hset {record : Record} (id : Nat) (hid : component.id ≠ id) :
      (memory.store.set component.id record).get id = memory.store.get id := by
    rw [Store.get_set, if_neg hid]
  rcases hrecord : memory.store.get component.id with ⟨node | node, loads, setups⟩
  · rw [hrecord] at hroot
    dsimp only at hroot
    cases hload : component.load name loads with
    | error error =>
        rw [hload] at hroot
        refine ⟨.error error, _, run_enter_of_error properties hroot, hset, ?_⟩
        rw [Store.get_set, if_pos rfl]
        exact .failed hload
    | ok node =>
        rw [hload] at hroot
        obtain ⟨next, hrun, hkept, hnext⟩ := run_enter_of_ok properties hroot
        rw [Store.get_set, if_pos rfl] at hrun hnext
        refine ⟨.ok node, next, hrun, fun id hid => (hkept id hid).trans (hset id hid), ?_⟩
        rw [hnext]
        exact .loaded hload
  · rw [hrecord] at hroot
    obtain ⟨next, hrun, hkept, hnext⟩ := run_enter_of_ok properties hroot
    rw [hrecord] at hrun hnext
    refine ⟨.ok node, next, hrun, hkept, ?_⟩
    rw [hnext]
    exact .remembered

end ServiceM

/-! ### What calls respect -/

namespace App

/-- Sequences of steps respect `Q`, and each step of an application in service has it. -/
structure Respects (app : App) (Q : {α : Type} → ServiceM α → Prop) : Prop where
  pure : ∀ {α : Type} (a : α), Q (pure a)
  bind : ∀ {α β : Type} {x : ServiceM α} {f : α → ServiceM β}, Q x → (∀ a, Q (f a)) → Q (x >>= f)
  fail : ∀ {α : Type} (error : RenderError), Q (throw error : ServiceM α)
  evaluate : ∀ scope source, Q (ServiceM.evaluate scope source)
  refuse : ∀ name error, Q (ServiceM.refuse name error : ServiceM (List Node))
  enter : ∀ {name component}, app.components.get? name = some component →
    ∀ properties, Q (ServiceM.enter component name properties)

namespace Respects

variable {app : App} {Q : {α : Type} → ServiceM α → Prop} (h : app.Respects Q)

include h

/-- What is respected wherever a component is met is respected by the nodes in which it is met. -/
theorem renderNodes {remaining : Nat}
    (hserve : ∀ name properties, Q (app.serve remaining name properties)) (scope : Scope)
    (nodes : List Node) : Q ((ServiceM.host (app.serve remaining)).renderNodes scope nodes) := by
  have hrelated : Host.Related (fun _ (x : ServiceM _) (_ : ServiceM _) => Q x) Eq
      (fun _ => True) (ServiceM.host (app.serve remaining))
      (ServiceM.host (app.serve remaining)) :=
    { pure := h.pure
      bind := h.bind
      fail := h.fail
      evaluate := fun _ _ => h.evaluate _ _
      instantiate := hserve
      extend := fun bindings hst => by rw [hst] }
  exact hrelated.renderNodes rfl (Writes.of_forall (fun _ => trivial) nodes)

theorem serve (remaining : Nat) (name : Text) (properties : Bindings) :
    Q (app.serve remaining name properties) := by
  induction remaining generalizing name properties with
  | zero => exact h.refuse name _
  | succ remaining ih =>
      rw [App.serve]
      split
      · exact h.refuse name _
      · next component hcomponent =>
          exact h.bind (h.enter hcomponent properties) fun entered => h.renderNodes ih _ _

/-- What the steps of an application respect is respected by each of its calls. -/
theorem answer (call : Call) : Q (app.answer call) := by
  cases call with
  | render name data => exact h.bind (h.serve _ name data) fun nodes => h.pure _
  | renderToNode name data =>
      refine h.bind (h.serve _ name data) fun nodes => ?_
      split
      · exact h.pure _
      · exact h.fail _
      · exact h.fail _
  | evaluate source data => exact h.bind (h.evaluate _ source) fun value => h.pure _

end Respects

end App

/-! ### Answers without a cache -/

/-- The answer to a call of an application that parses every expression anew. -/
def App.reply (app : App) : Call → RenderM Answer
  | .render name data => do
      let html ← app.render name data
      pure (.html html)
  | .renderToNode name data => do
      let node ← app.renderToNode name data
      pure (.node node)
  | .evaluate source data => do
      let value ← RenderM.ofExcept (app.evaluate source data)
      pure (.value value)

namespace ServiceM

/-- With a cache that remembers parses, a step comes to the outcome of another that needs none, and
components remember the same after it. -/
def Erases {α : Type} (step : ServiceM α) (bare : RenderM α) : Prop :=
  ∀ memory, memory.cache.Remembers Expr.parse →
    ∃ cache instantiations, cache.Remembers Expr.parse ∧ step.run memory =
      ((bare.run memory.store).1, ⟨cache, (bare.run memory.store).2, instantiations⟩)

namespace Erases

variable {α β : Type}

theorem ofRender (step : RenderM α) : Erases (ofRender step) step :=
  fun memory hcache => ⟨memory.cache, memory.instantiations, hcache, rfl⟩

protected theorem pure (a : α) : Erases (pure a) (pure a) :=
  fun memory hcache => ⟨memory.cache, memory.instantiations, hcache, rfl⟩

theorem fail (error : RenderError) : Erases (throw error : ServiceM α) (throw error) :=
  fun memory hcache => ⟨memory.cache, memory.instantiations, hcache, rfl⟩

theorem bind {step : ServiceM α} {bare : RenderM α} {f : α → ServiceM β} {g : α → RenderM β}
    (h : Erases step bare) (hrest : ∀ a, Erases (f a) (g a)) :
    Erases (step >>= f) (bare >>= g) := by
  intro memory hcache
  obtain ⟨cache, instantiations, hnext, hrun⟩ := h memory hcache
  rw [Outcome.run_bind, Outcome.run_bind, hrun]
  rcases bare.run memory.store with ⟨error | a, store⟩
  · exact ⟨cache, instantiations, hnext, rfl⟩
  · exact hrest a ⟨cache, store, instantiations⟩ hnext

theorem evaluate (scope : Scope) (source : Text) :
    Erases (evaluate scope source) (RenderM.ofExcept (scope.evaluate source)) := by
  intro memory hcache
  obtain ⟨hanswer, hnext⟩ := hcache.parse source
  refine ⟨_, memory.instantiations, hnext, ?_⟩
  rw [run_evaluate, hanswer, Expr.parse_trim, scope.evaluate_eq source]
  rfl

theorem refuse (name : Text) (error : RenderError) :
    Erases (refuse name error : ServiceM α) (throw error) :=
  fun memory hcache => ⟨memory.cache, _, hcache, rfl⟩

theorem root (component : Component) (name : Text) :
    Erases (root component name) (component.root name) :=
  fun memory hcache => ⟨memory.cache, _, hcache, rfl⟩

theorem enter (component : Component) (name : Text) (properties : Bindings) :
    Erases (enter component name properties) (do
      let node ← component.root name
      let bindings ← component.prepare properties
      pure (node, bindings)) := by
  refine (root component name).bind fun node => ?_
  exact (ofRender _).bind fun bindings => .pure _

theorem serve (app : App) (remaining : Nat) (name : Text) (properties : Bindings) :
    Erases (app.serve remaining name properties) (app.instantiate remaining name properties) := by
  induction remaining generalizing name properties with
  | zero => exact refuse name _
  | succ remaining ih =>
      have hrelated : Host.Related (fun _ => Erases) Eq (fun _ => True)
          (host (app.serve remaining)) (Host.ofInstantiate (app.instantiate remaining)) :=
        { pure := Erases.pure
          bind := Erases.bind
          fail := Erases.fail
          evaluate := fun hst _ => hst ▸ evaluate _ _
          instantiate := ih
          extend := fun bindings hst => by rw [hst] }
      rw [App.serve, App.instantiate]
      cases app.components.get? name with
      | none => exact refuse name _
      | some component =>
          have hstep := (enter component name properties).bind fun entered =>
            hrelated.renderNodes (s := .ofBindings entered.2 app.methods) rfl
              (Writes.of_forall (fun _ => trivial) [entered.1])
          simpa only [bind_assoc, pure_bind, Host.renderNodes_ofInstantiate] using hstep

end Erases

end ServiceM

/-- A call in service has the outcome of the same call without a cache, and components remember the
same after both. -/
theorem App.erases_answer (app : App) (call : Call) :
    (app.answer call).Erases (app.reply call) := by
  have hnodes := ServiceM.Erases.serve app (app.limit + 1)
  cases call with
  | render name data =>
      have hstep := (hnodes name data).bind fun nodes =>
        .pure (Answer.html (Markup.serializeNodes nodes))
      simpa only [answer, reply, render, renderToNodes, bind_assoc, pure_bind] using hstep
  | renderToNode name data =>
      rw [reply, renderToNode, bind_assoc]
      refine (hnodes name data).bind fun nodes => ?_
      rcases nodes with - | ⟨node, - | ⟨second, rest⟩⟩
      · exact .fail _
      · exact .pure (Answer.node node)
      · exact .fail _
  | evaluate source data =>
      exact (ServiceM.Erases.evaluate _ source).bind fun value => .pure (Answer.value value)

end HtmlTemplate
