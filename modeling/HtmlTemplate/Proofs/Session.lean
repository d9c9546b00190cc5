import HtmlTemplate.Proofs.Traversal
/-!
Sessions of an application: registrations, changes of the limit and renders in any order, together
with what the renders leave behind.  Whatever happened in a session, a component remembers no root
but one of its own template.
-/

namespace HtmlTemplate

/-- An application and what it remembers, from its methods on. -/
inductive Session : App → Store → Prop where
  | start (methods : Methods) : Session (.ofMethods methods) .empty
  | limit {app : App} {store : Store} (limit : Nat) : Session app store →
      Session { app with limit := limit } store
  | register {app : App} {store : Store} (name : Text) (template : Template)
      (setup : Option Setup) : Session app store → Session (app.register name template setup) store
  | render {app : App} {store : Store} (name : Text) (data : Bindings) : Session app store →
      Session app ((app.renderToNodes name data).run store).2

/-- A root that the template of a component can have, at some load of it. -/
def Component.IsRoot (component : Component) (node : Node) : Prop :=
  ∃ name loads, (component.markupOf name loads).bind Component.rootOf = .ok node

namespace App

/-- Registrations have numbers of their own, and what is remembered under the number of a component
is a root of it. -/
structure Remembers (app : App) (store : Store) : Prop where
  below : ∀ {name component}, app.components.get? name = some component →
    component.id < app.registrations
  distinct : ∀ {name other component found}, app.components.get? name = some component →
    app.components.get? other = some found → component.id = found.id → component = found
  fresh : ∀ {id}, app.registrations ≤ id → (store.get id).root = none
  roots : ∀ {name component node}, app.components.get? name = some component →
    (store.get component.id).root = some node → component.IsRoot node

namespace Remembers

variable {app : App} {store : Store} {name : Text} {component : Component}

theorem set {record : Record} (h : app.Remembers store)
    (hcomponent : app.components.get? name = some component)
    (hrecord : ∀ node, record.root = some node → component.IsRoot node) :
    app.Remembers (store.set component.id record) where
  below := h.below
  distinct := h.distinct
  fresh := by
    intro id hid
    have hlt := h.below hcomponent
    rw [Store.get_set, if_neg (by omega)]
    exact h.fresh hid
  roots := by
    intro other found node hfound hnode
    rw [Store.get_set] at hnode
    split at hnode
    · next hid =>
        rw [← h.distinct hcomponent hfound hid]
        exact hrecord node hnode
    · exact h.roots hfound hnode

theorem register (h : app.Remembers store) (name : Text) (template : Template)
    (setup : Option Setup) : (app.register name template setup).Remembers store := by
  have hget {other : Text} {found : Component}
      (hfound : (app.register name template setup).components.get? other = some found) :
      found = ⟨app.registrations, template, setup⟩ ∨ app.components.get? other = some found := by
    rw [App.register, Registry.get?_register] at hfound
    split at hfound
    · exact .inl (Option.some.inj hfound).symm
    · exact .inr hfound
  constructor
  · intro other found hfound
    show found.id < app.registrations + 1
    rcases hget hfound with rfl | hfound
    · exact Nat.lt_succ_self _
    · exact Nat.lt_succ_of_lt (h.below hfound)
  · intro other other' found found' hfound hfound' hid
    rcases hget hfound with rfl | hfound <;> rcases hget hfound' with rfl | hfound'
    · rfl
    · exact absurd (h.below hfound') (by simp [← hid])
    · exact absurd (h.below hfound) (by simp [hid])
    · exact h.distinct hfound hfound' hid
  · intro id hid
    exact h.fresh (Nat.le_of_succ_le hid)
  · intro other found node hfound hnode
    rcases hget hfound with rfl | hfound
    · rw [h.fresh (Nat.le_refl _)] at hnode
      cases hnode
    · exact h.roots hfound hnode

end Remembers

open RenderM

variable {app : App} {name : Text} {component : Component}

theorem ensures_isRoot (hcomponent : app.components.get? name = some component) :
    Ensures app.Remembers component.IsRoot (component.root name) := by
  unfold Component.root
  refine Ensures.get_bind fun store hstore => ?_
  dsimp only
  split
  · next node hnode => exact Ensures.pure (hstore.roots hcomponent hnode)
  · next hroot =>
      split
      · next node hload =>
          have hnode : component.IsRoot node := ⟨_, _, hload⟩
          refine Ensures.set_bind (hstore.set hcomponent ?_) (Ensures.pure hnode)
          rintro found ⟨⟩
          exact hnode
      · refine Ensures.set_bind (hstore.set hcomponent ?_) Ensures.throw
        intro node hnode
        rw [hroot] at hnode
        cases hnode

/-- A registration of markup gives its name the root of the markup, and leaves the other names as they
are. -/
theorem isRoot_of_register {other source : Text} {setup : Option Setup} {root : Node}
    (hcomponent : (app.register name (.markup source) setup).components.get? other = some component)
    (hroot : component.IsRoot root) :
    (other = name ∧ root ∈ (Component.rootOf source).toOption) ∨
      app.components.get? other = some component := by
  rw [register, Registry.get?_register] at hcomponent
  split at hcomponent
  · next hname =>
      cases hcomponent
      obtain ⟨called, loads, hroot⟩ := hroot
      change Component.rootOf source = .ok root at hroot
      exact .inl ⟨hname.symm, by rw [hroot]; rfl⟩
  · exact .inr hcomponent

theorem ensures_prepare (hcomponent : app.components.get? name = some component)
    (properties : Bindings) :
    Ensures app.Remembers (fun _ => True) (component.prepare properties) := by
  unfold Component.prepare
  split
  · exact Ensures.pure trivial
  · refine Ensures.get_bind fun store hstore => ?_
    exact Ensures.set_bind (hstore.set hcomponent fun node hnode => hstore.roots hcomponent hnode)
      (Ensures.pure trivial)

/-- What rendering preserves holds of every render of a session, provided that it holds of every
root that a template can have. -/
theorem ensures_renderToNodes {P Q : Option Text → List Node → Prop}
    (hpreserves : Engine.Preserves P Q)
    (hroots : ∀ name component node, app.components.get? name = some component →
      component.IsRoot node → P none [node]) (name : Text) (data : Bindings) :
    Ensures app.Remembers (Q none) (app.renderToNodes name data) := by
  refine hpreserves.renderComponent (fun name component hcomponent => ⟨?_, ?_⟩) _ name data
  · exact (ensures_isRoot hcomponent).imp fun node hnode =>
      hroots name component node hcomponent hnode
  · exact ensures_prepare hcomponent

end App

theorem Session.remembers {app : App} {store : Store} (h : Session app store) :
    app.Remembers store := by
  induction h with
  | start methods => exact ⟨nofun, nofun, fun _ => rfl, nofun⟩
  | limit limit _ ih => exact ⟨ih.below, ih.distinct, ih.fresh, ih.roots⟩
  | register name template setup _ ih => exact ih.register name template setup
  | render name data _ ih =>
      have hall : Engine.Preserves (fun _ _ => True) (fun _ _ => True) := by
        constructor <;> intros <;> trivial
      exact (App.ensures_renderToNodes hall (fun _ _ _ _ _ => trivial) name data _ ih).1

end HtmlTemplate
