import HtmlTemplate.Proofs.Lifecycle
/-!
Calls leave no trace in later answers.  Where the templates and setups of a service do the same
every time, what it remembers is what it would find out again, and each call is answered as if it
were the first.
-/

namespace HtmlTemplate

/-- A supplied template is the same every time that it is asked for, and a setup does the same every
time that it is made. -/
structure Registration.IsSteady (registration : Registration) : Prop where
  template : ∀ supplier, registration.template = .supplied supplier →
    ∀ loads others, supplier loads = supplier others
  setup : ∀ setup, registration.setup = some setup → ∀ runs others, setup runs = setup others

namespace Registration.IsSteady

variable {registration : Registration}

theorem load_eq (h : registration.IsSteady) (id loads : Nat) (name : Text) :
    (registration.component id).load name loads = (registration.component id).load name 0 := by
  obtain ⟨called, template, setup⟩ := registration
  unfold Component.load Component.markupOf component
  cases template with
  | markup source => rfl
  | supplied supplier =>
      dsimp only
      rw [h.template supplier rfl loads 0]

theorem adjusted_eq (h : registration.IsSteady) (id runs : Nat) (properties : Bindings) :
    (registration.component id).adjusted runs properties =
      (registration.component id).adjusted 0 properties := by
  obtain ⟨name, template, setup⟩ := registration
  cases setup with
  | none => rfl
  | some setup => exact congrFun (h.setup setup rfl (runs + 1) 1) properties

end Registration.IsSteady

/-- What an instantiation comes to, a load of the template comes to as well. -/
theorem Component.Lifecycle.exists_load {component : Component} {name : Text}
    {outcomes : List (Except RenderError Node)} {record next : Record}
    {outcome : Except RenderError Node} (h : component.Lifecycle name outcomes record)
    (henters : component.Enters name record outcome next) :
    ∃ loads, outcome = component.load name loads :=
  (h.enters henters).outcome_eq (List.mem_append_right outcomes (List.mem_singleton_self outcome))

namespace ServiceM

/-- A step with a single outcome in all memories with a property, which it keeps. -/
def Settles (I : Memory → Prop) {α : Type} (step : ServiceM α) : Prop :=
  ∃ outcome, ∀ memory, I memory → ∃ next, I next ∧ step.run memory = (outcome, next)

theorem Settles.bind {I : Memory → Prop} {α β : Type} {step : ServiceM α} {f : α → ServiceM β}
    (h : Settles I step) (hrest : ∀ a, Settles I (f a)) : Settles I (step >>= f) := by
  obtain ⟨outcome, h⟩ := h
  cases outcome with
  | error error =>
      refine ⟨.error error, fun memory hmemory => ?_⟩
      obtain ⟨next, hnext, hrun⟩ := h memory hmemory
      refine ⟨next, hnext, ?_⟩
      rw [Outcome.run_bind, hrun]
  | ok a =>
      obtain ⟨outcome, hrest⟩ := hrest a
      refine ⟨outcome, fun memory hmemory => ?_⟩
      obtain ⟨next, hnext, hrun⟩ := h memory hmemory
      obtain ⟨last, hlast, hfinish⟩ := hrest next hnext
      refine ⟨last, hlast, ?_⟩
      rw [Outcome.run_bind, hrun]
      exact hfinish

end ServiceM

namespace Memory

/-- A memory that holds the parses of expressions, and of each registration what its life up to now
has left. -/
structure IsSettled (registrations : List Registration) (memory : Memory) : Prop where
  accounts : memory.Accounts registrations
  cache : memory.cache.Remembers Expr.parse

variable {registrations : List Registration}

theorem settles_evaluate (scope : Scope) (source : Text) :
    ServiceM.Settles (IsSettled registrations) (ServiceM.evaluate scope source) := by
  refine ⟨scope.evaluate source, fun memory hmemory => ?_⟩
  obtain ⟨hanswer, hnext⟩ := hmemory.cache.parse source
  refine ⟨_, ⟨hmemory.accounts.cache _, hnext⟩, ?_⟩
  rw [ServiceM.run_evaluate, hanswer, Expr.parse_trim, scope.evaluate_eq source]

theorem settles_enter {id : Nat} {registration : Registration}
    (hid : registrations[id]? = some registration) (hsteady : registration.IsSteady)
    (properties : Bindings) :
    ServiceM.Settles (IsSettled registrations)
      (ServiceM.enter (registration.component id) registration.name properties) := by
  let component := registration.component id
  refine ⟨(component.load registration.name 0).map fun node =>
    (node, component.adjusted 0 properties), fun memory hmemory => ?_⟩
  obtain ⟨outcome, store, hrun, hother, henters⟩ :=
    ServiceM.run_enter component registration.name properties memory
  obtain ⟨loads, hload⟩ := (hmemory.accounts.lifecycle hid).exists_load henters
  refine ⟨_, ⟨hmemory.accounts.enter hid hother henters, hmemory.cache⟩, ?_⟩
  rw [hrun, hload, hsteady.load_eq, hsteady.adjusted_eq]
  rfl

end Memory

/-- Every call of an application whose registrations are steady has a single outcome. -/
theorem App.Registers.respects_settles {app : App} {registrations : List Registration}
    (h : app.Registers registrations) (hsteady : ∀ one ∈ registrations, one.IsSteady) :
    app.Respects (ServiceM.Settles (Memory.IsSettled registrations)) where
  pure a := ⟨.ok a, fun memory hmemory => ⟨memory, hmemory, rfl⟩⟩
  bind hfirst hrest := hfirst.bind hrest
  fail error := ⟨.error error, fun memory hmemory => ⟨memory, hmemory, rfl⟩⟩
  evaluate := Memory.settles_evaluate
  refuse name error := ⟨.error error, fun memory hmemory =>
    ⟨_, ⟨hmemory.accounts.refuse name (.error error), hmemory.cache⟩, rfl⟩⟩
  enter {name component} hcomponent properties := by
    obtain ⟨registration, hid, rfl, hregistration⟩ := h.found hcomponent
    rw [← hregistration]
    exact Memory.settles_enter hid (hsteady registration (List.mem_of_getElem? hid)) properties

namespace Service

theorem memory_run_register (service : Service) (registrations : List Registration) :
    (service.run (registrations.map .register)).memory = service.memory := by
  induction registrations generalizing service with
  | nil => rfl
  | cons registration registrations ih => exact ih (service.register registration)

/-- A service in which nothing was done but registrations. -/
theorem consistent_run_register (methods : Methods) (limit : Nat)
    (registrations : List Registration) :
    ((start methods limit).run (registrations.map .register)).Consistent registrations := by
  have hrun := (consistent_start methods limit).run (registrations.map .register)
  have hlist : (registrations.map Operation.register).flatMap Operation.registrations =
      registrations := by
    rw [List.flatMap_map]
    exact List.flatMap_singleton' registrations
  rwa [List.nil_append, hlist] at hrun

/-- Calls leave the components as they are, and a settled memory settled. -/
theorem settled_run_calls {service : Service} {registrations : List Registration}
    (h : service.app.Respects (ServiceM.Settles (Memory.IsSettled registrations)))
    (hmemory : service.memory.IsSettled registrations) (calls : List Call) :
    (service.run (calls.map .call)).app = service.app ∧
      (service.run (calls.map .call)).memory.IsSettled registrations := by
  induction calls generalizing service with
  | nil => exact ⟨rfl, hmemory⟩
  | cons call calls ih =>
      obtain ⟨outcome, houtcome⟩ := h.answer call
      obtain ⟨next, hnext, hrun⟩ := houtcome service.memory hmemory
      have hnext : (service.after call).memory.IsSettled registrations := by
        show Memory.IsSettled registrations ((service.app.answer call).run service.memory).2
        rw [hrun]
        exact hnext
      exact ih (show (service.after call).app.Respects _ from h) hnext

/-- In a service whose templates and setups do the same every time, a call is answered after any
other calls as it is when it comes first. -/
theorem answer_run_calls (methods : Methods) (limit : Nat) {registrations : List Registration}
    (hsteady : ∀ one ∈ registrations, one.IsSteady) (calls : List Call) (call : Call) :
    let built := (start methods limit).run (registrations.map .register)
    (built.run (calls.map .call)).answer call = built.answer call := by
  intro built
  have hconsistent := consistent_run_register methods limit registrations
  have hrespects := hconsistent.registers.respects_settles hsteady
  have hcache : built.memory.cache.Remembers Expr.parse := by
    rw [memory_run_register]
    exact Cache.remembers_empty Expr.parse
  have hbuilt : built.memory.IsSettled registrations := ⟨hconsistent.accounts, hcache⟩
  obtain ⟨happ, hmemory⟩ := settled_run_calls hrespects hbuilt calls
  obtain ⟨outcome, houtcome⟩ := hrespects.answer call
  have hanswer {memory : Memory} (hmemory : memory.IsSettled registrations) :
      ((built.app.answer call).run memory).1 = outcome := by
    obtain ⟨next, -, hrun⟩ := houtcome memory hmemory
    rw [hrun]
  unfold answer
  rw [happ, hanswer hmemory, hanswer hbuilt]

theorem answer_run_calls_nested :
    let supplier (_ : Nat) : Except Text Text := .ok "<b>{{ t }}</b>".toList
    let setup (_ : Nat) (properties : Bindings) : Bindings := properties
    let registrations : List Registration :=
      [⟨rootName, .markup "<p><x-a :t='v'/><x-a :t='w'/></p>".toList, none⟩,
        ⟨"x-a".toList, .supplied supplier, some setup⟩]
    let calls : List Call := [.render rootName [("v".toList, .bool true)], .evaluate "v".toList []]
    let call : Call := .renderToNode rootName [("v".toList, .null), ("w".toList, .bool true)]
    let built := (start .empty 1).run (registrations.map .register)
    let used := built.run (calls.map .call)
    (∀ one ∈ registrations, one.IsSteady) ∧
    (used.memory.cache.size = 3 ∧ (used.memory.store.get 1).setups = 1) ∧
    used.answer call = built.answer call := by
  intro supplier setup registrations calls call built used
  have hsteady : ∀ one ∈ registrations, one.IsSteady := by
    intro one hone
    rcases List.mem_cons.mp hone with rfl | hone
    · exact ⟨nofun, nofun⟩
    · obtain rfl := List.mem_singleton.mp hone
      refine ⟨fun supplier hsupplier loads others => ?_, fun setup hsetup runs others => ?_⟩
      · cases hsupplier
        rfl
      · cases hsetup
        rfl
  exact ⟨hsteady, by decide +kernel, answer_run_calls .empty 1 hsteady calls call⟩

end Service

end HtmlTemplate
