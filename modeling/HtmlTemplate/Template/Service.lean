import HtmlTemplate.Expr.Cache
import HtmlTemplate.Template.App
import HtmlTemplate.Template.Host
/-!
An application in service: components are registered and calls are answered in any order.  From one
call to the next it remembers the expressions that were parsed and what its components remember.
With that goes an account of the instantiations of components, which no answer depends on.
-/

namespace HtmlTemplate

/-- An instantiation of a component and the root that it came to.  It belongs to a registration
unless no component has the name, or components are nested too deep. -/
structure Instantiation where
  name : Text
  registration : Option Nat
  outcome : Except RenderError Node

structure Memory where
  cache : Cache
  store : Store
  instantiations : List Instantiation

namespace Memory

def empty : Memory := ⟨.empty, .empty, []⟩

def record (memory : Memory) (instantiation : Instantiation) : Memory :=
  { memory with instantiations := memory.instantiations ++ [instantiation] }

/-- What the instantiations that belong to a registration came to. -/
def outcomesOf (memory : Memory) (registration : Nat) : List (Except RenderError Node) :=
  (memory.instantiations.filter (·.registration = some registration)).map Instantiation.outcome

end Memory

/-- A step of a call, which may fail.  What was remembered before a failure stays. -/
abbrev ServiceM := ExceptT RenderError (StateM Memory)

namespace ServiceM

/-- The expression of a source, parsed unless that has been done before. -/
def parse (source : Text) : ServiceM Expr := fun memory =>
  let parsed := memory.cache.parse Expr.parse source
  ((parsed.1.map Instance.expr).mapError .parse, { memory with cache := parsed.2 })

def evaluate (scope : Scope) (source : Text) : ServiceM Value := do
  let e ← parse source
  ExceptT.mk (pure ((e.eval scope).mapError (.eval source.trim)))

/-- A step of a component. -/
def ofRender {α : Type} (step : RenderM α) : ServiceM α := fun memory =>
  let rendered := step.run memory.store
  (rendered.1, { memory with store := rendered.2 })

/-- An instantiation that belongs to no registration. -/
def refuse {α : Type} (name : Text) (error : RenderError) : ServiceM α := fun memory =>
  (.error error, memory.record ⟨name, none, .error error⟩)

def root (component : Component) (name : Text) : ServiceM Node := fun memory =>
  let loaded := (component.root name).run memory.store
  (loaded.1, { memory with store := loaded.2 }.record ⟨name, some component.id, loaded.1⟩)

/-- An instantiation of a component: its root, and its properties after its setup. -/
def enter (component : Component) (name : Text) (properties : Bindings) :
    ServiceM (Node × Bindings) := do
  let node ← root component name
  let bindings ← ofRender (component.prepare properties)
  pure (node, bindings)

def host (instantiate : Text → Bindings → ServiceM (List Node)) : Host ServiceM where
  fail error := throw error
  evaluate := evaluate
  instantiate := instantiate

end ServiceM

/-- What is asked of an application. -/
inductive Call where
  | render (name : Text) (data : Bindings)
  | renderToNode (name : Text) (data : Bindings)
  | evaluate (source : Text) (data : Bindings)

inductive Answer where
  | html (html : Text)
  | node (node : Node)
  | value (value : Value)

namespace App

open ServiceM

/-- Renders a component, in service, in which at most `remaining - 1` more may be nested. -/
def serve (app : App) : Nat → Text → Bindings → ServiceM (List Node)
  | 0, name, _ => refuse name (.tooDeep name app.limit)
  | remaining + 1, name, properties =>
      match app.components.get? name with
      | none => refuse name (.unknownComponent name)
      | some component => do
          let (node, bindings) ← enter component name properties
          (host (app.serve remaining)).renderNodes (.ofBindings bindings app.methods) [node]

def answer (app : App) : Call → ServiceM Answer
  | .render name data => do
      let nodes ← app.serve (app.limit + 1) name data
      pure (.html (Markup.serializeNodes nodes))
  | .renderToNode name data => do
      match ← app.serve (app.limit + 1) name data with
      | [node] => pure (.node node)
      | [] => throw (.malformed .noRoot)
      | first :: rest => throw (.malformed (.severalRoots (first :: rest).length))
  | .evaluate source data => do
      let value ← ServiceM.evaluate (.ofBindings data app.methods) source
      pure (.value value)

end App

structure Registration where
  name : Text
  template : Template
  setup : Option Setup

def Registration.component (registration : Registration) (id : Nat) : Component :=
  ⟨id, registration.template, registration.setup⟩

inductive Operation where
  | register (registration : Registration)
  | call (call : Call)

structure Service where
  app : App
  memory : Memory

namespace Service

def start (methods : Methods) (limit : Nat) : Service :=
  ⟨{ App.ofMethods methods with limit := limit }, .empty⟩

def register (service : Service) (registration : Registration) : Service :=
  { service with
    app := service.app.register registration.name registration.template registration.setup }

def answer (service : Service) (call : Call) : Except RenderError Answer :=
  ((service.app.answer call).run service.memory).1

/-- The service after a call. -/
def after (service : Service) (call : Call) : Service :=
  { service with memory := ((service.app.answer call).run service.memory).2 }

def perform (service : Service) : Operation → Service
  | .register registration => service.register registration
  | .call call => service.after call

def run (service : Service) (operations : List Operation) : Service :=
  operations.foldl perform service

end Service

end HtmlTemplate
