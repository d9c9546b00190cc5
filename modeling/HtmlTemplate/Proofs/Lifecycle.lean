import HtmlTemplate.Proofs.Service
/-!
The life of a registration.  Its template is asked for anew until a root comes of it; that root is
kept from then on, and the template is not asked for again.  Setups go with the instantiations that
have a root, and a call ends with the first that has none.
-/

namespace HtmlTemplate

namespace Outcome

variable {ε α : Type}

/-- How many outcomes there are up to the first success and with it. -/
def countToSuccess : List (Except ε α) → Nat
  | [] => 0
  | .ok _ :: _ => 1
  | .error _ :: rest => countToSuccess rest + 1

/-- Outcomes of failures only. -/
def AllFailed (outcomes : List (Except ε α)) : Prop := ∀ outcome ∈ outcomes, outcome.isOk = false

variable {failures : List (Except ε α)}

theorem AllFailed.countToSuccess_append (h : AllFailed failures) (rest : List (Except ε α)) :
    countToSuccess (failures ++ rest) = failures.length + countToSuccess rest := by
  induction failures with
  | nil => simp
  | cons outcome failures ih =>
      have hrest := ih fun other hother => h other (List.mem_cons_of_mem _ hother)
      cases outcome with
      | error error => simp only [List.cons_append, countToSuccess, hrest, List.length_cons]; omega
      | ok a => cases h (.ok a) (List.mem_cons_self ..)

theorem AllFailed.findSome?_append (h : AllFailed failures) (rest : List (Except ε α)) :
    (failures ++ rest).findSome? Except.toOption = rest.findSome? Except.toOption := by
  have hnone : failures.findSome? Except.toOption = none := by
    refine List.findSome?_eq_none_iff.mpr fun outcome houtcome => ?_
    have hfailed := h outcome houtcome
    cases outcome with
    | error error => rfl
    | ok a => cases hfailed
  rw [List.findSome?_append, hnone, Option.none_or]

theorem AllFailed.countP_append (h : AllFailed failures) (rest : List (Except ε α)) :
    (failures ++ rest).countP Except.isOk = rest.countP Except.isOk := by
  have hzero : failures.countP Except.isOk = 0 := by
    refine List.countP_eq_zero.mpr fun outcome houtcome => ?_
    rw [h outcome houtcome]
    nofun
  rw [List.countP_append, hzero, Nat.zero_add]

end Outcome

/-! ### One component -/

namespace Component

open Outcome

/-- What is remembered of a component after instantiations with some outcomes.  Either every load
failed up to now, or the first that did not has left its root to all that came after it. -/
inductive Lifecycle (component : Component) (name : Text) :
    List (Except RenderError Node) → Record → Prop where
  | waiting (loads : Nat) (hfailed : AllFailed ((List.range loads).map (component.load name))) :
      Lifecycle component name ((List.range loads).map (component.load name)) ⟨none, loads, 0⟩
  | settled {loads : Nat} (later : Nat) {node : Node}
      (hfailed : AllFailed ((List.range loads).map (component.load name)))
      (hloaded : component.load name loads = .ok node) :
      Lifecycle component name
        ((List.range loads).map (component.load name) ++ List.replicate (later + 1) (.ok node))
        ⟨some node, loads + 1, (later + 1) * component.setups⟩

variable {component : Component} {name : Text} {outcomes : List (Except RenderError Node)}
  {record next : Record}

/-- A root is missing because the supplier refuses the markup, or because it is malformed. -/
theorem load_eq_error {loads : Nat} {error : RenderError}
    (h : component.load name loads = .error error) :
    (∃ reason, error = .load name reason) ∨ ∃ cause, error = .malformed cause := by
  unfold load markupOf at h
  have hroot {source : Text} (hroot : rootOf source = .error error) :
      ∃ cause, error = .malformed cause := by
    unfold rootOf at hroot
    cases hdocument : (Document.ofText source).bind Document.root with
    | error cause =>
        rw [hdocument] at hroot
        cases hroot
        exact ⟨cause, rfl⟩
    | ok node =>
        rw [hdocument] at hroot
        cases hroot
  split at h
  · exact .inr (hroot h)
  · next supplier _ =>
      cases hsupplied : supplier loads with
      | error reason =>
          rw [hsupplied] at h
          cases h
          exact .inl ⟨reason, rfl⟩
      | ok source =>
          rw [hsupplied] at h
          exact .inr (hroot h)

theorem lifecycle_fresh (component : Component) (name : Text) :
    component.Lifecycle name [] .fresh := .waiting 0 nofun

namespace Lifecycle

theorem enters {outcome : Except RenderError Node} (h : component.Lifecycle name outcomes record)
    (henters : component.Enters name record outcome next) :
    component.Lifecycle name (outcomes ++ [outcome]) next := by
  cases h with
  | waiting loads hfailed =>
      cases henters with
      | loaded hload =>
          have hsettled : component.Lifecycle name _ _ := .settled 0 hfailed hload
          simpa using hsettled
      | failed hload =>
          have hrange : (List.range (loads + 1)).map (component.load name) =
              (List.range loads).map (component.load name) ++ [component.load name loads] := by
            rw [List.range_succ, List.map_append, List.map_singleton]
          rw [← hload, ← hrange]
          refine .waiting (loads + 1) fun outcome houtcome => ?_
          rw [hrange, hload] at houtcome
          rcases List.mem_append.mp houtcome with hmem | hmem
          · exact hfailed outcome hmem
          · rw [List.mem_singleton.mp hmem]
            rfl
  | settled later hfailed hloaded =>
      cases henters with
      | remembered =>
          rw [List.append_assoc, ← List.replicate_succ', ← Nat.succ_mul]
          exact .settled (later + 1) hfailed hloaded

theorem loads_eq (h : component.Lifecycle name outcomes record) :
    record.loads = countToSuccess outcomes := by
  cases h with
  | waiting loads hfailed =>
      have hcount := hfailed.countToSuccess_append []
      simpa [countToSuccess] using hcount.symm
  | settled later hfailed hloaded =>
      rw [hfailed.countToSuccess_append, List.replicate_succ, countToSuccess]
      simp

theorem root_eq (h : component.Lifecycle name outcomes record) :
    record.root = outcomes.findSome? Except.toOption := by
  cases h with
  | waiting loads hfailed => simpa using (hfailed.findSome?_append []).symm
  | settled later hfailed hloaded =>
      rw [hfailed.findSome?_append, List.replicate_succ, List.findSome?_cons]
      rfl

theorem setups_eq (h : component.Lifecycle name outcomes record) :
    record.setups = outcomes.countP Except.isOk * component.setups := by
  cases h with
  | waiting loads hfailed =>
      have hcount := hfailed.countP_append []
      rw [List.append_nil, List.countP_nil] at hcount
      rw [hcount, Nat.zero_mul]
  | settled later hfailed hloaded =>
      rw [hfailed.countP_append, List.countP_replicate]
      rfl

/-- The outcomes up to the first success are those of the loads, one after another. -/
theorem take_eq (h : component.Lifecycle name outcomes record) :
    outcomes.take record.loads = (List.range record.loads).map (component.load name) := by
  cases h with
  | waiting loads hfailed => exact List.take_of_length_le (by simp)
  | settled later hfailed hloaded =>
      rw [List.range_succ, List.map_append, List.map_singleton, hloaded, List.replicate_succ]
      rw [List.take_append, List.take_of_length_le (by simp)]
      simp

theorem outcome_eq (h : component.Lifecycle name outcomes record)
    {outcome : Except RenderError Node} (houtcome : outcome ∈ outcomes) :
    ∃ loads, outcome = component.load name loads := by
  cases h with
  | waiting loads hfailed =>
      obtain ⟨loads, -, hload⟩ := List.mem_map.mp houtcome
      exact ⟨loads, hload.symm⟩
  | settled later hfailed hloaded =>
      rcases List.mem_append.mp houtcome with hmem | hmem
      · obtain ⟨loads, -, hload⟩ := List.mem_map.mp hmem
        exact ⟨loads, hload.symm⟩
      · rw [List.eq_of_mem_replicate hmem]
        exact ⟨_, hloaded.symm⟩

end Lifecycle

end Component

/-! ### All registrations -/

/-- A property of memories that a step keeps, also where it fails. -/
def ServiceM.Keeps (I : Memory → Prop) {α : Type} (step : ServiceM α) : Prop :=
  ∀ memory, I memory → I (step.run memory).2

theorem ServiceM.Keeps.bind {I : Memory → Prop} {α β : Type} {step : ServiceM α}
    {f : α → ServiceM β} (h : Keeps I step) (hrest : ∀ a, Keeps I (f a)) :
    Keeps I (step >>= f) := by
  intro memory hmemory
  have hnext := h memory hmemory
  rw [Outcome.run_bind]
  generalize step.run memory = outcome at hnext
  obtain ⟨result, next⟩ := outcome
  cases result with
  | error error => exact hnext
  | ok a => exact hrest a next hnext

namespace Memory

/-- Each registration in a list has lived its life under its number, and none has another number. -/
structure Accounts (registrations : List Registration) (memory : Memory) : Prop where
  lifecycle : ∀ {id : Nat} {registration : Registration}, registrations[id]? = some registration →
    (registration.component id).Lifecycle registration.name (memory.outcomesOf id)
      (memory.store.get id)
  fresh : ∀ {id : Nat}, registrations.length ≤ id →
    memory.outcomesOf id = [] ∧ memory.store.get id = .fresh

variable {registrations : List Registration} {memory : Memory}

theorem outcomesOf_record (instantiation : Instantiation) (id : Nat) :
    (memory.record instantiation).outcomesOf id =
      memory.outcomesOf id ++
        if instantiation.registration = some id then [instantiation.outcome] else [] := by
  unfold outcomesOf record
  rw [List.filter_append, List.map_append]
  congr 1
  split
  · next hid => rw [List.filter_cons_of_pos (by simpa using hid)]; rfl
  · next hid => rw [List.filter_cons_of_neg (by simpa using hid)]; rfl

theorem outcomesOf_record_of_ne {instantiation : Instantiation} {id : Nat}
    (h : instantiation.registration ≠ some id) :
    (memory.record instantiation).outcomesOf id = memory.outcomesOf id := by
  rw [outcomesOf_record, if_neg h, List.append_nil]

namespace Accounts

theorem empty : Accounts [] Memory.empty := ⟨nofun, fun _ => ⟨rfl, rfl⟩⟩

theorem register (h : memory.Accounts registrations) (registration : Registration) :
    memory.Accounts (registrations ++ [registration]) where
  lifecycle {id found} hfound := by
    rcases Nat.lt_trichotomy id registrations.length with hlt | rfl | hgt
    · rw [List.getElem?_append_left hlt] at hfound
      exact h.lifecycle hfound
    · obtain ⟨houtcomes, hrecord⟩ := h.fresh (Nat.le_refl registrations.length)
      rw [List.getElem?_concat_length] at hfound
      cases hfound
      rw [houtcomes, hrecord]
      exact Component.lifecycle_fresh _ _
    · have hlength : (registrations ++ [registration]).length ≤ id := by
        rw [List.length_append, List.length_singleton]
        exact hgt
      rw [List.getElem?_eq_none hlength] at hfound
      cases hfound
  fresh {id} hid := by
    rw [List.length_append, List.length_singleton] at hid
    exact h.fresh (Nat.le_of_succ_le hid)

theorem cache (h : memory.Accounts registrations) (cache : Cache) :
    Accounts registrations { memory with cache := cache } :=
  ⟨h.lifecycle, h.fresh⟩

theorem refuse (h : memory.Accounts registrations) (name : Text)
    (outcome : Except RenderError Node) :
    (memory.record ⟨name, none, outcome⟩).Accounts registrations := by
  constructor
  · intro id registration hregistration
    rw [outcomesOf_record_of_ne (Option.some_ne_none id).symm]
    exact h.lifecycle hregistration
  · intro id hid
    rw [outcomesOf_record_of_ne (Option.some_ne_none id).symm]
    exact h.fresh hid

theorem enter {outcome : Except RenderError Node} {store : Store} {registration : Registration}
    {id : Nat} (h : memory.Accounts registrations) (hid : registrations[id]? = some registration)
    (hother : ∀ key, id ≠ key → store.get key = memory.store.get key)
    (henters : (registration.component id).Enters registration.name (memory.store.get id) outcome
      (store.get id)) :
    ({ memory with store := store }.record ⟨registration.name, some id, outcome⟩).Accounts
      registrations := by
  have hsome {key : Nat} (hkey : id ≠ key) : some id ≠ some key :=
    fun heq => hkey (Option.some.inj heq)
  constructor
  · intro key found hfound
    by_cases hkey : id = key
    · subst hkey
      rw [hid] at hfound
      cases hfound
      rw [outcomesOf_record, if_pos rfl]
      exact (h.lifecycle hid).enters henters
    · rw [outcomesOf_record_of_ne (hsome hkey)]
      show Component.Lifecycle _ _ (memory.outcomesOf key) (store.get key)
      rw [hother key hkey]
      exact h.lifecycle hfound
  · intro key hkey
    have hne : id ≠ key := by
      rintro rfl
      rw [List.getElem?_eq_none hkey] at hid
      cases hid
    rw [outcomesOf_record_of_ne (hsome hne)]
    show memory.outcomesOf key = [] ∧ store.get key = _
    rw [hother key hne]
    exact h.fresh hkey

end Accounts

end Memory

namespace App

/-- The components of an application are among the registrations in a list, under their numbers. -/
structure Registers (app : App) (registrations : List Registration) : Prop where
  count : app.registrations = registrations.length
  found : ∀ {name : Text} {component : Component}, app.components.get? name = some component →
    ∃ registration : Registration, registrations[component.id]? = some registration ∧
      registration.name = name ∧ registration.component component.id = component

namespace Registers

variable {app : App} {registrations : List Registration}

theorem register (h : app.Registers registrations) (registration : Registration) :
    (app.register registration.name registration.template registration.setup).Registers
      (registrations ++ [registration]) where
  count := by
    show app.registrations + 1 = _
    rw [h.count, List.length_append, List.length_singleton]
  found {name component} hcomponent := by
    rw [App.register, Registry.get?_register] at hcomponent
    split at hcomponent
    · next hname =>
        cases hcomponent
        refine ⟨registration, ?_, hname, rfl⟩
        rw [h.count]
        exact List.getElem?_concat_length
    · obtain ⟨found, hfound, hname⟩ := h.found hcomponent
      refine ⟨found, ?_, hname⟩
      obtain ⟨hlt, -⟩ := List.getElem?_eq_some_iff.mp hfound
      rw [List.getElem?_append_left hlt]
      exact hfound

theorem accounts_enter (h : app.Registers registrations) {name : Text} {component : Component}
    (hcomponent : app.components.get? name = some component) (properties : Bindings) :
    ServiceM.Keeps (Memory.Accounts registrations)
      (ServiceM.enter component name properties) := by
  intro memory hmemory
  obtain ⟨registration, hid, rfl, hregistration⟩ := h.found hcomponent
  obtain ⟨outcome, store, hrun, hother, henters⟩ :=
    ServiceM.run_enter component registration.name properties memory
  rw [hrun]
  rw [← hregistration] at henters
  exact hmemory.enter hid hother henters

/-- Every call of an application keeps account of its registrations. -/
theorem respects_keeps (h : app.Registers registrations) :
    app.Respects (ServiceM.Keeps (Memory.Accounts registrations)) where
  pure a := fun _ hmemory => hmemory
  bind hfirst hrest := hfirst.bind hrest
  fail error := fun _ hmemory => hmemory
  evaluate scope source := fun memory hmemory => by
    rw [ServiceM.run_evaluate]
    exact hmemory.cache _
  refuse name error := fun memory hmemory => hmemory.refuse name (.error error)
  enter hcomponent properties := h.accounts_enter hcomponent properties

end Registers

end App

/-! ### Instantiations of a call -/

/-- The instantiations of a call that comes to some outcome: all of them have a root, or all but the
last, and then the call fails for the same reason as that one. -/
inductive Course {α : Type} : List Instantiation → Except RenderError α → Prop where
  | through {made : List Instantiation} (hmade : ∀ one ∈ made, one.outcome.isOk = true)
      (outcome : Except RenderError α) : Course made outcome
  | stopped {made : List Instantiation} {last : Instantiation} {error : RenderError}
      (hmade : ∀ one ∈ made, one.outcome.isOk = true) (hlast : last.outcome = .error error) :
      Course (made ++ [last]) (.error error)

theorem Course.failed {α : Type} (name : Text) (registration : Option Nat) (error : RenderError) :
    Course [⟨name, registration, .error error⟩] (.error error : Except RenderError α) :=
  have hmade : ∀ one ∈ ([] : List Instantiation), one.outcome.isOk = true := List.forall_mem_nil _
  .stopped hmade rfl

namespace ServiceM

/-- A step adds to the account the instantiations that it makes. -/
def Recounts {α : Type} (step : ServiceM α) : Prop :=
  ∀ memory, ∃ made, (step.run memory).2.instantiations = memory.instantiations ++ made ∧
    Course made (step.run memory).1

namespace Recounts

variable {α β : Type}

theorem of_unchanged {step : ServiceM α}
    (h : ∀ memory, (step.run memory).2.instantiations = memory.instantiations) : Recounts step :=
  fun memory => ⟨[], by rw [h, List.append_nil], .through (List.forall_mem_nil _) _⟩

theorem bind {step : ServiceM α} {f : α → ServiceM β} (h : Recounts step)
    (hrest : ∀ a, Recounts (f a)) : Recounts (step >>= f) := by
  intro memory
  obtain ⟨made, hmade, hcourse⟩ := h memory
  rw [Outcome.run_bind]
  generalize step.run memory = outcome at hmade hcourse
  obtain ⟨result, next⟩ := outcome
  cases result with
  | error error =>
      refine ⟨made, hmade, ?_⟩
      cases hcourse with
      | through hall => exact .through hall _
      | stopped hall hlast => exact .stopped hall hlast
  | ok a =>
      obtain ⟨others, hothers, hrest⟩ := hrest a next
      cases hcourse with
      | through hall =>
          refine ⟨made ++ others, by rw [hothers, hmade, List.append_assoc], ?_⟩
          have happend {rest : List Instantiation} (h : ∀ one ∈ rest, one.outcome.isOk = true) :
              ∀ one ∈ made ++ rest, one.outcome.isOk = true :=
            fun one hone => (List.mem_append.mp hone).elim (hall one) (h one)
          generalize ((f a).run next).1 = result at hrest
          cases hrest with
          | through hrest => exact .through (happend hrest) _
          | stopped hrest hlast =>
              rw [← List.append_assoc]
              exact .stopped (happend hrest) hlast

theorem refuse (name : Text) (error : RenderError) : Recounts (refuse name error : ServiceM α) :=
  fun _ => ⟨[⟨name, none, .error error⟩], rfl, .failed name none error⟩

theorem enter (component : Component) (name : Text) (properties : Bindings) :
    Recounts (enter component name properties) := by
  intro memory
  obtain ⟨outcome, store, hrun, -⟩ := run_enter component name properties memory
  rw [hrun]
  refine ⟨[⟨name, some component.id, outcome⟩], rfl, ?_⟩
  cases outcome with
  | error error => exact .failed name (some component.id) error
  | ok node =>
      refine .through (fun one hone => ?_) _
      rw [List.mem_singleton.mp hone]
      rfl

end Recounts

end ServiceM

theorem App.respects_recounts (app : App) : app.Respects ServiceM.Recounts where
  pure a := .of_unchanged fun _ => rfl
  bind hfirst hrest := hfirst.bind hrest
  fail error := .of_unchanged fun _ => rfl
  evaluate scope source := .of_unchanged fun memory => by rw [ServiceM.run_evaluate]
  refuse name error := .refuse name error
  enter _ properties := .enter _ _ properties

/-! ### The instantiation that is called for -/

namespace ServiceM

variable {α β : Type} {step : ServiceM α} {f : α → ServiceM β} {one : Instantiation}
  {memory : Memory}

/-- What a step adds first to the account is there first also when other steps follow. -/
theorem exists_instantiations_bind (hrest : ∀ a, Recounts (f a))
    (h : ∃ nested, (step.run memory).2.instantiations = memory.instantiations ++ one :: nested) :
    ∃ nested, ((step >>= f).run memory).2.instantiations =
      memory.instantiations ++ one :: nested := by
  obtain ⟨nested, hnested⟩ := h
  rw [Outcome.run_bind]
  generalize step.run memory = outcome at hnested
  obtain ⟨result, next⟩ := outcome
  cases result with
  | error error => exact ⟨nested, hnested⟩
  | ok a =>
      obtain ⟨others, hothers, -⟩ := hrest a next
      refine ⟨nested ++ others, ?_⟩
      rw [hothers, hnested, List.append_assoc, List.cons_append]

theorem exists_instantiations_enter (component : Component) (name : Text) (properties : Bindings)
    (memory : Memory) : ∃ nested, ((enter component name properties).run memory).2.instantiations =
      memory.instantiations ++
        ⟨name, some component.id, ((component.root name).run memory.store).1⟩ :: nested := by
  refine exists_instantiations_bind (fun node => ?_) ⟨[], rfl⟩
  exact Recounts.bind (.of_unchanged fun _ => rfl) fun bindings => .of_unchanged fun _ => rfl

end ServiceM

/-- A component that is met within the limit adds its own instantiation to the account, with what
its root comes to, before those that are nested in it. -/
theorem App.exists_instantiations_serve {app : App} {name : Text} {component : Component}
    (h : app.components.get? name = some component) (remaining : Nat) (properties : Bindings)
    (memory : Memory) :
    ∃ nested, ((app.serve (remaining + 1) name properties).run memory).2.instantiations =
      memory.instantiations ++
        ⟨name, some component.id, ((component.root name).run memory.store).1⟩ :: nested := by
  have hrecounts := app.respects_recounts
  rw [App.serve]
  simp only [h]
  refine ServiceM.exists_instantiations_bind (fun entered => ?_)
    (ServiceM.exists_instantiations_enter component name properties memory)
  exact hrecounts.renderNodes (hrecounts.serve remaining) _ _

/-! ### Services -/

/-- The registration that an operation makes. -/
def Operation.registrations : Operation → List Registration
  | .register registration => [registration]
  | .call _ => []

namespace Service

/-- A service in which some registrations were made, and nothing was done but by operations. -/
structure Consistent (service : Service) (registrations : List Registration) : Prop where
  registers : service.app.Registers registrations
  accounts : service.memory.Accounts registrations

variable {service : Service} {registrations : List Registration}

theorem consistent_start (methods : Methods) (limit : Nat) : (start methods limit).Consistent [] :=
  ⟨⟨rfl, nofun⟩, .empty⟩

namespace Consistent

theorem perform (h : service.Consistent registrations) (operation : Operation) :
    (service.perform operation).Consistent (registrations ++ operation.registrations) := by
  cases operation with
  | register registration =>
      exact ⟨h.registers.register registration, h.accounts.register registration⟩
  | call call =>
      rw [Operation.registrations, List.append_nil]
      exact ⟨h.registers, h.registers.respects_keeps.answer call _ h.accounts⟩

theorem run (h : service.Consistent registrations) (operations : List Operation) :
    (service.run operations).Consistent
      (registrations ++ operations.flatMap Operation.registrations) := by
  induction operations generalizing service registrations with
  | nil => rwa [List.flatMap_nil, List.append_nil]
  | cons operation operations ih =>
      have hrest := ih (h.perform operation)
      rwa [List.append_assoc, ← List.flatMap_cons] at hrest

end Consistent

/-- A call for a component that is registered adds the instantiation of that component. -/
theorem exists_instantiations_after {name : Text} {component : Component}
    (h : service.app.components.get? name = some component) {data : Bindings} {call : Call}
    (hcall : call = .render name data ∨ call = .renderToNode name data) :
    ∃ nested, (service.after call).memory.instantiations = service.memory.instantiations ++
      ⟨name, some component.id, ((component.root name).run service.memory.store).1⟩ :: nested := by
  have hserve := App.exists_instantiations_serve h service.app.limit data service.memory
  have hrecounts := service.app.respects_recounts
  rcases hcall with rfl | rfl
  · exact ServiceM.exists_instantiations_bind (fun nodes => hrecounts.pure _) hserve
  · refine ServiceM.exists_instantiations_bind (fun nodes => ?_) hserve
    split
    · exact hrecounts.pure _
    · exact hrecounts.fail _
    · exact hrecounts.fail _

theorem exists_instantiations_run (service : Service) (operations : List Operation) :
    ∃ made, (service.run operations).memory.instantiations =
      service.memory.instantiations ++ made := by
  induction operations generalizing service with
  | nil => exact ⟨[], (List.append_nil _).symm⟩
  | cons operation operations ih =>
      obtain ⟨others, hothers⟩ := ih (service.perform operation)
      cases operation with
      | register registration => exact ⟨others, hothers⟩
      | call call =>
          obtain ⟨made, hmade, -⟩ := service.app.respects_recounts.answer call service.memory
          refine ⟨made ++ others, hothers.trans ?_⟩
          show ((service.app.answer call).run service.memory).2.instantiations ++ others = _
          rw [hmade, List.append_assoc]

theorem exists_outcomesOf_run (service : Service) (operations : List Operation) (id : Nat) :
    ∃ later, (service.run operations).memory.outcomesOf id =
      service.memory.outcomesOf id ++ later := by
  obtain ⟨made, hmade⟩ := service.exists_instantiations_run operations
  unfold Memory.outcomesOf
  rw [hmade, List.filter_append, List.map_append]
  exact ⟨_, rfl⟩

/-- A root that is remembered stays. -/
theorem root_run (h : service.Consistent registrations) {id : Nat} {registration : Registration}
    (hid : registrations[id]? = some registration) (operations : List Operation) {node : Node}
    (hnode : (service.memory.store.get id).root = some node) :
    ((service.run operations).memory.store.get id).root = some node := by
  have hlater := h.run operations
  obtain ⟨hlt, -⟩ := List.getElem?_eq_some_iff.mp hid
  have hid' : (registrations ++ operations.flatMap Operation.registrations)[id]? =
      some registration := by
    rw [List.getElem?_append_left hlt]
    exact hid
  obtain ⟨later, houtcomes⟩ := service.exists_outcomesOf_run operations id
  rw [(h.accounts.lifecycle hid).root_eq] at hnode
  rw [(hlater.accounts.lifecycle hid').root_eq, houtcomes, List.findSome?_append, hnode]
  rfl

/-- The life of a template that is supplied when it is needed, in any run of a service from its
registration on.  In the outcomes of the instantiations that belong to the registration: the
supplier is called up to the first success; the loads up to there come to what the supplier gives
call by call; the root is that of the first success, and stays; the setup is run once for each
success; and loads fail for the two reasons that there are.  A call ends with the first
instantiation that fails, for its reason.  Beyond the limit an instantiation leaves everything that
components remember. -/
theorem lifecycle_of_supplied (methods : Methods) (limit : Nat) (before after : List Operation)
    (name : Text) (supplier : Nat → Except Text Text) (setup : Option Setup) :
    let registration : Registration := ⟨name, .supplied supplier, setup⟩
    let id := ((start methods limit).run before).app.registrations
    let service := (start methods limit).run (before ++ .register registration :: after)
    let record := service.memory.store.get id
    let outcomes := service.memory.outcomesOf id
    record.loads = Outcome.countToSuccess outcomes ∧
    outcomes.take record.loads = (List.range record.loads).map (fun loads =>
      ((supplier loads).mapError (.load name)).bind Component.rootOf) ∧
    record.root = outcomes.findSome? Except.toOption ∧
    (∀ operations node, record.root = some node →
      ((service.run operations).memory.store.get id).root = some node) ∧
    record.setups = (if setup.isSome then outcomes.countP Except.isOk else 0) ∧
    (∀ error, .error error ∈ outcomes →
      (∃ reason, error = .load name reason) ∨ ∃ cause, error = .malformed cause) ∧
    (∀ call, ∃ made, (service.after call).memory.instantiations =
      service.memory.instantiations ++ made ∧ Course made (service.answer call)) ∧
    ∀ other properties memory, (service.app.serve 0 other properties).run memory =
      (.error (.tooDeep other service.app.limit),
        memory.record ⟨other, none, .error (.tooDeep other service.app.limit)⟩) := by
  intro registration id service record outcomes
  have hstart := consistent_start methods limit
  have hservice := hstart.run (before ++ .register registration :: after)
  have hid : ([] ++ (before ++ .register registration :: after).flatMap
      Operation.registrations)[id]? = some registration := by
    have hcount : id = (before.flatMap Operation.registrations).length :=
      (hstart.run before).registers.count
    rw [hcount, List.nil_append, List.flatMap_append,
      List.getElem?_append_right (Nat.le_refl _), Nat.sub_self]
    rfl
  have hlife : (registration.component id).Lifecycle name outcomes record :=
    hservice.accounts.lifecycle hid
  refine ⟨hlife.loads_eq, hlife.take_eq, hlife.root_eq, fun operations node hnode => ?_, ?_,
    fun error herror => ?_, fun call => ?_, fun other properties memory => rfl⟩
  · exact root_run hservice hid operations hnode
  · rw [hlife.setups_eq]
    cases setup with
    | none => exact Nat.mul_zero _
    | some setup => exact Nat.mul_one _
  · obtain ⟨loads, hload⟩ := hlife.outcome_eq herror
    exact Component.load_eq_error hload.symm
  · exact service.app.respects_recounts.answer call service.memory

example :
    let supplier (loads : Nat) : Except Text Text :=
      if loads = 0 then .error "later".toList else .ok "<b>x</b>".toList
    let operations : List Operation :=
      [.register ⟨rootName, .markup "<p><x-a/><x-a/></p>".toList, none⟩,
        .register ⟨"x-a".toList, .supplied supplier, some fun _ properties => properties⟩,
        .call (.render rootName []), .call (.render rootName []), .call (.render rootName [])]
    let record := ((start .empty 1).run operations).memory.store.get 1
    record.loads = 2 ∧ record.setups = 4 ∧ record.root.isSome = true := by decide +kernel

end Service

end HtmlTemplate
