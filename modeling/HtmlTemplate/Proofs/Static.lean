import HtmlTemplate.Proofs.Conditional
import HtmlTemplate.Proofs.Pieces
import HtmlTemplate.Proofs.Markup.Attributes
import HtmlTemplate.Proofs.Markup.Elements
import HtmlTemplate.Proofs.Markup.Inert
import HtmlTemplate.Proofs.Service
/-!
Static markup.  Nodes in which nothing is asked of the renderer are rendered to themselves, in every
scope and without a trace: the engine takes each element apart and puts it together again as it was.
So a template of such nodes is rendered to the source of its root.
-/

namespace HtmlTemplate

/-! ### Texts -/

namespace Mustache

/-- An opening mark stands in a text and a closing mark after it. -/
def HasExpression (s : Text) : Prop :=
  ∃ before source rest, s = before ++ (opening ++ (source ++ (closing ++ rest)))

theorem pieces_eq (s : Text) :
    pieces s = ((Text.breakOn opening s).bind fun cut =>
      (Text.breakOn closing cut.2).map fun inner =>
        .literal cut.1 :: .expression inner.1 :: pieces inner.2).getD [.literal s] := by
  conv => lhs; rw [pieces]
  split
  · next hopen => rw [hopen, Option.bind_none, Option.getD_none]
  · next before afterOpening hopen =>
      rw [hopen, Option.bind_some]
      split
      · next hclose => rw [hclose, Option.map_none, Option.getD_none]
      · next source rest hclose => rw [hclose, Option.map_some, Option.getD_some]

theorem pieces_eq_literal_iff {s : Text} : pieces s = [.literal s] ↔ ¬ HasExpression s := by
  rw [pieces_eq]
  constructor
  · rintro hpieces ⟨before, source, rest, rfl⟩
    -- The first opening mark need not be the given one, but the closing mark still follows it.
    obtain ⟨first, tail, hopen, before', htail⟩ :=
      Text.exists_breakOn_append (by decide : opening ≠ []) before (source ++ (closing ++ rest))
    rw [← List.append_assoc] at htail
    obtain ⟨second, tail', hclose, -⟩ :=
      Text.exists_breakOn_append (by decide : closing ≠ []) (before' ++ source) rest
    rw [htail] at hclose
    rw [hopen, Option.bind_some, hclose] at hpieces
    cases hpieces
  · intro h
    cases hopen : Text.breakOn opening s with
    | none => rfl
    | some cut =>
        cases hclose : Text.breakOn closing cut.2 with
        | none => rw [Option.bind_some, hclose]; rfl
        | some inner =>
            refine absurd ⟨cut.1, inner.1, inner.2, ?_⟩ h
            rw [← Text.eq_append_of_breakOn hclose]
            exact Text.eq_append_of_breakOn hopen

instance (s : Text) : Decidable (HasExpression s) :=
  decidable_of_iff (¬ pieces s = [.literal s])
    ((not_congr pieces_eq_literal_iff).trans Classical.not_not)

theorem interpolate_eq_self {s : Text} (h : ¬ HasExpression s) (scope : Scope) :
    interpolate scope s = .ok s := by
  rw [interpolate, pieces_eq_literal_iff.mpr h]
  show Except.ok (s ++ []) = _
  rw [List.append_nil]

end Mustache

/-! ### Attributes -/

namespace Attributes

/-- Every name is taken literally. -/
def IsLiteral (attributes : Attributes) : Prop :=
  ∀ name ∈ attributes.names, AttributeKind.ofName name = .literal

instance (attributes : Attributes) : Decidable attributes.IsLiteral :=
  inferInstanceAs (Decidable (∀ name ∈ attributes.names, AttributeKind.ofName name = .literal))

variable {attributes : Attributes}

namespace IsLiteral

variable (h : attributes.IsLiteral)

include h

theorem not_mem_directive (directive : Directive) : directive.name ∉ attributes.names := by
  intro hmem
  have hliteral := h _ hmem
  cases directive <;> revert hliteral <;> decide

theorem get?_directive (directive : Directive) : attributes.get? directive.name = none :=
  get?_eq_none_iff.mpr (h.not_mem_directive directive)

theorem ofAttributes? : Branch.ofAttributes? attributes = none := by
  simp [Branch.ofAttributes?, contains, h.get?_directive]

theorem strip : Branch.strip attributes = attributes := by
  rw [Branch.strip, h.ofAttributes?]

theorem dropEvents : Engine.dropEvents attributes = attributes := by
  refine retain_eq_self fun name hname => ?_
  rw [h name hname]
  rfl

theorem bind (scope : Scope) : Binding.bind scope attributes = .ok attributes := by
  suffices hall : ∀ names ⊆ attributes.names,
      Binding.bindAll scope attributes names = .ok attributes from
    hall attributes.names (List.Subset.refl _)
  intro names hnames
  induction names with
  | nil => rfl
  | cons name names ih =>
      have hone : Binding.bindOne scope attributes name = .ok attributes := by
        rw [Binding.bindOne, h name (hnames (List.mem_cons_self ..))]
      rw [Binding.bindAll, hone]
      exact ih fun other hother => hnames (List.mem_cons_of_mem _ hother)

end IsLiteral

end Attributes

/-! ### Nodes -/

/-- Nodes without component, wrapper, directive, binding, event or expression. -/
structure IsStatic (nodes : List Node) : Prop where
  elements : AllElements (fun tag attributes =>
    isComponentTag tag = false ∧ tag ≠ templateTag ∧ attributes.IsLiteral) nodes
  texts : ∀ owner markup, HasText none nodes owner markup → ¬ Mustache.HasExpression markup

theorem HasText.of_parent {parent owner : Option Text} {nodes : List Node} {markup : Text}
    (h : HasText parent nodes owner markup) (parent' : Option Text) :
    ∃ owner', HasText parent' nodes owner' markup := by
  cases h with
  | child hmem => exact ⟨parent', .child hmem⟩
  | deeper hmem hdeeper => exact ⟨owner, .deeper hmem hdeeper⟩

namespace IsStatic

variable {nodes : List Node}

instance (nodes : List Node) : Decidable (IsStatic nodes) :=
  decidable_of_iff
    ((∀ entry ∈ HasElement.amongNodes nodes, isComponentTag entry.1 = false ∧
        entry.1 ≠ templateTag ∧ entry.2.IsLiteral) ∧
      ∀ entry ∈ HasText.amongNodes none nodes, ¬ Mustache.HasExpression entry.2)
    ⟨fun h => ⟨fun tag attributes helement => h.1 (tag, attributes) helement.mem_amongNodes,
        fun owner markup htext => h.2 (owner, markup) htext.mem_amongNodes⟩,
      fun h => ⟨fun entry hentry => h.elements entry.1 entry.2 (.of_mem_amongNodes hentry),
        fun entry hentry => h.texts entry.1 entry.2 (.of_mem_amongNodes hentry)⟩⟩

theorem of_subset {others : List Node} (h : IsStatic nodes) (hsubset : others ⊆ nodes) :
    IsStatic others where
  elements := h.elements.of_subset hsubset
  texts owner markup htext := by
    cases htext with
    | child hmem => exact h.texts none markup (.child (hsubset hmem))
    | deeper hmem hdeeper => exact h.texts owner markup (.deeper (hsubset hmem) hdeeper)

theorem head {node : Node} (h : IsStatic (node :: nodes)) : IsStatic [node] :=
  h.of_subset (by simp)

theorem tail {node : Node} (h : IsStatic (node :: nodes)) : IsStatic nodes :=
  h.of_subset (List.subset_cons_self ..)

theorem root {tag : Text} {attributes : Attributes} {children : List Node}
    (h : IsStatic [.element tag attributes children]) : isComponentTag tag = false ∧
      tag ≠ templateTag ∧ attributes.IsLiteral :=
  h.elements tag attributes (.here (List.mem_singleton_self _))

theorem children {tag : Text} {attributes : Attributes} {children : List Node}
    (h : IsStatic [.element tag attributes children]) : IsStatic children where
  elements := h.elements.children (List.mem_singleton_self _)
  texts owner markup htext := by
    obtain ⟨owner', htext⟩ := htext.of_parent (some tag)
    exact h.texts owner' markup (.deeper (List.mem_singleton_self _) htext)

theorem ofNode?_eq_none {node : Node} (h : IsStatic [node]) : Branch.ofNode? node = none := by
  cases node with
  | text markup => rfl
  | comment content => rfl
  | element tag attributes children => exact h.root.2.2.ofAttributes?

theorem map_ofNode? (h : IsStatic nodes) :
    nodes.map Branch.ofNode? = nodes.map fun _ => none := by
  refine List.map_congr_left fun node hnode => ?_
  exact (h.of_subset (by simpa using hnode)).ofNode?_eq_none

theorem resolve (h : IsStatic nodes) (scope : Scope) :
    Chain.resolve scope nodes = .ok (nodes.map fun _ => true) := by
  have hrun : Chain.run scope .before (nodes.map Branch.ofNode?) =
      .ok ((nodes.map Branch.ofNode?).map fun _ => true, .before) := by
    refine Chain.run_before fun branch hbranch => ?_
    rw [h.map_ofNode?] at hbranch
    obtain ⟨node, -, rfl⟩ := List.mem_map.mp hbranch
    rintro ⟨condition, hcondition⟩
    cases hcondition
  refine Chain.resolve_eq_ok_iff.mpr ⟨.before, ?_⟩
  rw [hrun, List.map_map]
  rfl

end IsStatic

namespace Engine

variable (instantiate : Instantiate) (scope : Scope)

theorem renderElement_eq_pure {tag : Text} {attributes : Attributes} {children : List Node}
    {content : Scope → RenderM (List Node)} (hcomponent : isComponentTag tag = false)
    (htemplate : tag ≠ templateTag) (hliteral : attributes.IsLiteral)
    (hcontent : content scope = pure children) :
    renderElement instantiate tag attributes content scope =
      pure [.element tag attributes children] := by
  have hremove : attributes.remove Directive.html.name = attributes :=
    Attributes.remove_eq_self (hliteral.not_mem_directive .html)
  simp only [renderElement, hliteral.get?_directive, hremove, hcomponent, hliteral.bind scope,
    hcontent, htemplate, RenderM.ofExcept_ok_bind, pure_bind]
  rfl

mutual

theorem renderNode_eq_pure (instantiate : Instantiate) (scope : Scope) (node : Node)
    (h : IsStatic [node]) : renderNode instantiate scope node = pure [node] := by
  cases node with
  | text markup =>
      have hmarkup := h.texts none markup (.child (List.mem_singleton_self _))
      rw [renderNode, Mustache.interpolate_eq_self hmarkup, RenderM.ofExcept_ok_bind]
  | comment content => rw [renderNode]
  | element tag attributes children =>
      obtain ⟨hcomponent, htemplate, hliteral⟩ := h.root
      rw [renderNode, renderKept, hliteral.strip, hliteral.dropEvents]
      simp only [hliteral.get?_directive]
      refine renderElement_eq_pure instantiate scope hcomponent htemplate hliteral ?_
      rw [h.children.resolve scope, RenderM.ofExcept_ok_bind]
      exact renderChosen_eq_pure instantiate scope children h.children
termination_by sizeOf node

theorem renderChosen_eq_pure (instantiate : Instantiate) (scope : Scope) (nodes : List Node)
    (h : IsStatic nodes) :
    renderChosen instantiate scope (nodes.map fun _ => true) nodes = pure nodes := by
  cases nodes with
  | nil => rw [List.map_nil, renderChosen]
  | cons node nodes =>
      rw [List.map_cons, renderChosen, List.headD_cons, if_pos rfl, List.tail_cons,
        renderNode_eq_pure instantiate scope node h.head,
        renderChosen_eq_pure instantiate scope nodes h.tail]
      rfl
termination_by sizeOf nodes

end

theorem renderNodes_eq_pure {nodes : List Node} (h : IsStatic nodes) :
    renderNodes instantiate scope nodes = pure nodes := by
  rw [renderNodes, h.resolve scope, RenderM.ofExcept_ok_bind]
  exact renderChosen_eq_pure instantiate scope nodes h

end Engine

/-! ### Templates -/

theorem Component.run_root_of_load {component : Component} {name : Text} {store : Store}
    {root : Node} {loads setups : Nat} (hrecord : store.get component.id = ⟨none, loads, setups⟩)
    (hload : component.load name loads = .ok root) :
    (component.root name).run store =
      (.ok root, store.set component.id ⟨some root, loads + 1, setups⟩) := by
  rw [run_root, hrecord]
  dsimp only
  rw [hload]

namespace App

variable {app : App} {name : Text} {component : Component} {root : Node} {store next : Store}

theorem run_instantiate_of_isStatic (hcomponent : app.components.get? name = some component)
    (hroot : (component.root name).run store = (.ok root, next)) (hstatic : IsStatic [root])
    (remaining : Nat) (properties : Bindings) :
    ((app.instantiate (remaining + 1) name properties).run store).1 = .ok [root] := by
  obtain ⟨final, hprepare, -⟩ := component.run_prepare properties next
  rw [instantiate, hcomponent]
  dsimp only
  rw [Outcome.run_bind, hroot]
  dsimp only
  rw [Outcome.run_bind, hprepare]
  dsimp only
  rw [Engine.renderNodes_eq_pure _ _ hstatic]
  rfl

/-- The markup of a render is the source of its nodes. -/
theorem run_render (app : App) (name : Text) (data : Bindings) (store : Store) :
    ((app.render name data).run store).1 =
      ((app.renderToNodes name data).run store).1.map Markup.serializeNodes := by
  rw [render, Outcome.run_bind]
  rcases (app.renderToNodes name data).run store with ⟨error | nodes, next⟩ <;> rfl

end App

/-- Static nodes are rendered to themselves by every application, at every depth and in every scope;
and a template with a static root is rendered to the source of the root, with any data and
methods. -/
theorem render_of_isStatic :
    (∀ (app : App) (remaining : Nat) (scope : Scope) (nodes : List Node), IsStatic nodes →
      Engine.renderNodes (app.instantiate remaining) scope nodes = pure nodes) ∧
    ∀ (template : Text) (root : Node) (data : Bindings) (methods : Methods),
      (Document.ofText template).bind Document.root = .ok root → IsStatic [root] →
      render template data methods = .ok (Markup.serializeNode root) := by
  constructor
  · intro app remaining scope nodes h
    exact Engine.renderNodes_eq_pure (app.instantiate remaining) scope h
  · intro template root data methods hroot hstatic
    let app := (App.ofMethods methods).register rootName (.markup template) none
    let component : Component := ⟨0, .markup template, none⟩
    have hcomponent : app.components.get? rootName = some component := rfl
    have hload : component.load rootName 0 = .ok root := by
      show ((Document.ofText template).bind Document.root).mapError _ = _
      rw [hroot]
      rfl
    have hnodes : ((app.renderToNodes rootName data).run .empty).1 = .ok [root] :=
      App.run_instantiate_of_isStatic hcomponent (Component.run_root_of_load rfl hload) hstatic
        app.limit data
    show ((app.render rootName data).run .empty).1 = _
    rw [App.run_render, hnodes]
    show Except.ok (Markup.serializeNode root ++ []) = _
    rw [List.append_nil]

theorem render_of_isStatic_paragraph :
    let template :=
      "<p id=\"a\">\x7b\x7b <b>y</b>\x7d\x7d<!-- \x7b\x7b x \x7d\x7d --><br></p>".toList
    ∃ root, (Document.ofText template).bind Document.root = .ok root ∧ IsStatic [root] ∧
      Markup.serializeNode root = template ∧ render template [] .empty = .ok template := by
  intro template
  have h : ∃ root ∈ ((Document.ofText template).bind Document.root).toOption,
      IsStatic [root] ∧ Markup.serializeNode root = template := by decide +kernel
  obtain ⟨root, hroot, hstatic, hsource⟩ := h
  have hroot := Outcome.eq_ok_of_toOption hroot
  have hrender := render_of_isStatic.2 template root [] .empty hroot hstatic
  rw [hsource] at hrender
  exact ⟨root, hroot, hstatic, hsource, hrender⟩

end HtmlTemplate
