import HtmlTemplate.Proofs.Markup.Inert
import HtmlTemplate.Proofs.Traversal
/-!
Rendering comes to inert trees.  The values of a render reach a tree through interpolation and
through fragments only, and both come to the written form, whatever the values are.
-/

namespace HtmlTemplate

def Store.IsInert (store : Store) : Prop :=
  ∀ id node, (store.get id).root = some node → Inert none [node]

theorem Store.IsInert.set {store : Store} {id : Nat} {record : Record} (h : store.IsInert)
    (hrecord : ∀ node, record.root = some node → Inert none [node]) :
    (store.set id record).IsInert := by
  intro key node hnode
  rw [Store.get_set] at hnode
  split at hnode
  · exact hrecord node hnode
  · exact h key node hnode

theorem Store.isInert_empty : Store.empty.IsInert := by
  rintro id node ⟨⟩

namespace Engine

/-- A rendered `template` element leaves its children where it stood, which may be anywhere. -/
theorem inert_preserves : Preserves Inert Inert where
  nil := Inert.nil
  append := Inert.append
  head h := h.of_mem (List.mem_cons_self ..)
  tail h := h.of_subset (List.subset_cons_self ..)
  children h := h.children (List.mem_singleton_self _)
  text h hinterpolate := Inert.text fun hparent =>
    Mustache.isWritten_of_interpolate (h.isWritten_of_mem (List.mem_singleton_self _) hparent)
      hinterpolate
  comment := Inert.comment _
  component _ _ hnodes := hnodes.of_parent rfl
  injected _ _ := (Markup.inert_parseFragment _).of_parent rfl
  template _ hnodes := hnodes.of_parent (by decide)
  element _ _ _ _ hnodes := Inert.element hnodes

end Engine

namespace Component

open RenderM

theorem inert_of_rootOf {source : Text} {node : Node} (h : rootOf source = .ok node) :
    Inert none [node] := by
  unfold rootOf at h
  cases hdocument : Document.ofText source with
  | error error =>
      rw [hdocument] at h
      cases h
  | ok document =>
      rw [hdocument] at h
      have hnodes : Inert none document.nodes := by
        unfold Document.ofText at hdocument
        split at hdocument
        · cases hdocument
        · cases hdocument
          exact Markup.inert_parse source
      cases hroot : document.root with
      | error error =>
          rw [Except.bind, hroot] at h
          cases h
      | ok found =>
          rw [Except.bind, hroot] at h
          cases h
          exact Document.inert_of_root hnodes hroot

theorem ensures_root (component : Component) (name : Text) :
    Ensures Store.IsInert (fun node => Inert none [node]) (component.root name) := by
  unfold root
  refine Ensures.get_bind fun store hstore => ?_
  dsimp only
  split
  · next node hnode => exact Ensures.pure (hstore _ node hnode)
  · next hroot =>
      split
      · next node hload =>
          have hnode : Inert none [node] := by
            cases hmarkup : component.markupOf name (store.get component.id).loads with
            | error error =>
                rw [hmarkup] at hload
                cases hload
            | ok source =>
                rw [hmarkup] at hload
                exact inert_of_rootOf hload
          refine Ensures.set_bind (hstore.set ?_) (Ensures.pure hnode)
          rintro found ⟨⟩
          exact hnode
      · refine Ensures.set_bind (hstore.set ?_) Ensures.throw
        intro node hnode
        rw [hroot] at hnode
        cases hnode

theorem ensures_prepare (component : Component) (properties : Bindings) :
    Ensures Store.IsInert (fun _ => True) (component.prepare properties) := by
  unfold prepare
  split
  · exact Ensures.pure trivial
  · refine Ensures.get_bind fun store hstore => ?_
    exact Ensures.set_bind (hstore.set fun node hnode => hstore _ node hnode) (Ensures.pure trivial)

end Component

namespace App

open RenderM

theorem ensures_instantiate (app : App) (remaining : Nat) (name : Text) (properties : Bindings) :
    Ensures Store.IsInert (Inert none) (app.instantiate remaining name properties) :=
  Engine.inert_preserves.renderComponent
    (fun name component _ => ⟨component.ensures_root name, component.ensures_prepare⟩)
    remaining name properties

end App

/-- What may be remembered: nothing at first, and then what any render of any component leaves. -/
inductive Store.Reachable : Store → Prop where
  | empty : Reachable .empty
  | render {store : Store} (app : App) (name : Text) (data : Bindings) : Reachable store →
      Reachable ((app.renderToNodes name data).run store).2

theorem Store.Reachable.isInert {store : Store} (h : store.Reachable) : store.IsInert := by
  induction h with
  | empty => exact isInert_empty
  | render app name data _ ih => exact (app.ensures_instantiate _ name data _ ih).1

namespace App

/-- The texts of a rendered tree are in the written form, but for the children of scripts and
styles. -/
theorem isWritten_of_renderToNodes {app : App} {name : Text} {data : Bindings} {store : Store}
    {nodes : List Node} (hstore : store.Reachable)
    (hrender : ((app.renderToNodes name data).run store).1 = .ok nodes) {owner : Option Text}
    {markup : Text} (htext : HasText none nodes owner markup)
    (howner : owner.any isVerbatimTag = false) : Markup.IsWritten markup :=
  (app.ensures_instantiate _ name data store hstore.isInert).2 nodes hrender owner markup htext
    howner

theorem isWritten_of_renderToNodes_paragraph :
    let app := (ofMethods .empty).register rootName
      (.markup "<p>\x7b\x7b x \x7d\x7d &amp; <</p>".toList) none
    let data : Bindings := [("x".toList, .string "<b>".toList)]
    ∃ nodes, ((app.renderToNodes rootName data).run .empty).1 = .ok nodes ∧
      HasText none nodes (some "p".toList) "&lt;b&gt; &amp; &lt;".toList ∧
      Markup.IsWritten "&lt;b&gt; &amp; &lt;".toList := by
  intro app data
  have h : ∃ nodes ∈ ((app.renderToNodes rootName data).run .empty).1.toOption,
      HasText none nodes (some "p".toList) "&lt;b&gt; &amp; &lt;".toList := by decide +kernel
  obtain ⟨nodes, hnodes, htext⟩ := h
  have hrender := Outcome.eq_ok_of_toOption hnodes
  exact ⟨nodes, hrender, htext, isWritten_of_renderToNodes .empty hrender htext (by decide)⟩

end App

end HtmlTemplate
