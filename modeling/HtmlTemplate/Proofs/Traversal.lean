import HtmlTemplate.Proofs.Host
import HtmlTemplate.Proofs.Markup.Attributes
import HtmlTemplate.Template.App
/-!
What rendering comes to.  Rendered nodes are described node by node, with what components come to as
a parameter, and every render is as described.  A property of template nodes and one of rendered
nodes that agree at texts, at comments and at each kind of element then carry over to every render,
at any nesting of loops, conditions and components.
-/

namespace HtmlTemplate

namespace Branch

variable {attributes : Attributes}

theorem mem_names_of_ofAttributes? {branch : Branch} (h : ofAttributes? attributes = some branch) :
    branch.directive.name ∈ attributes.names := by
  unfold ofAttributes? at h
  split at h
  · next condition hfirst =>
      cases h
      exact Attributes.mem_names_of_get? hfirst
  · split at h
    · next condition hother =>
        cases h
        exact Attributes.mem_names_of_get? hother
    · split at h
      · next hlast =>
          cases h
          exact Attributes.contains_iff.mp hlast
      · cases h

theorem mem_entries_of_mem_strip {entry : Text × Text} (h : entry ∈ (strip attributes).entries) :
    entry ∈ attributes.entries := by
  unfold strip at h
  split at h
  · exact Attributes.mem_entries_of_mem_remove h
  · exact h

theorem mem_names_of_mem_names_strip {key : Text} (h : key ∈ (strip attributes).names) :
    key ∈ attributes.names := by
  obtain ⟨value, hvalue⟩ := Attributes.mem_names_iff.mp h
  exact Attributes.mem_names_iff.mpr ⟨value, mem_entries_of_mem_strip hvalue⟩

end Branch

namespace Engine

/-- The attributes of an element as they stand in one of its rounds. -/
def prepared (attributes : Attributes) : Attributes :=
  let kept := dropEvents (Branch.strip attributes)
  if kept.contains Directive.forEach.name then dropLoop kept else kept

theorem mem_names_dropEvents_strip {attributes : Attributes} {key : Text}
    (h : key ∈ (dropEvents (Branch.strip attributes)).names) :
    key ∈ (Branch.strip attributes).names ∧ (AttributeKind.ofName key).isEvent = false := by
  obtain ⟨hmem, hkind⟩ := Attributes.mem_names_retain_iff.mp h
  exact ⟨hmem, by simpa using hkind⟩

theorem mem_names_prepared {attributes : Attributes} {key : Text}
    (h : key ∈ (prepared attributes).names) :
    key ∈ (Branch.strip attributes).names ∧ (AttributeKind.ofName key).isEvent = false ∧
      key ≠ Directive.forEach.name := by
  simp only [prepared] at h
  split at h
  · have hloop := Attributes.mem_names_remove_iff.mp (Attributes.mem_names_remove_iff.mp
      (Attributes.mem_names_remove_iff.mp h).1).1
    obtain ⟨hmem, hkind⟩ := mem_names_dropEvents_strip hloop.1
    exact ⟨hmem, hkind, hloop.2⟩
  · next hloop =>
      obtain ⟨hmem, hkind⟩ := mem_names_dropEvents_strip h
      refine ⟨hmem, hkind, ?_⟩
      rintro rfl
      exact hloop (Attributes.contains_iff.mpr h)

/-! ### What nodes are rendered to -/

/-- An element with a condition, an alternative or a loop may be rendered to nothing. -/
def IsOptional (attributes : Attributes) : Prop :=
  ∃ directive ∈ [Directive.whenTrue, .elseWhen, .otherwise, .forEach],
    directive.name ∈ attributes.names

instance (attributes : Attributes) : Decidable (IsOptional attributes) :=
  inferInstanceAs (Decidable (∃ directive ∈ _, _))

/-- What is to be rendered after a round of an element: the siblings after it, and in a loop the
element once more. -/
inductive Remainder (tag : Text) (attributes : Attributes) (children nodes : List Node) :
    List Node → Prop where
  | done : Remainder tag attributes children nodes nodes
  | again : Directive.forEach.name ∈ attributes.names →
      Remainder tag attributes children nodes (.element tag attributes children :: nodes)

/-- Nodes, and what they may come to where a component may come to the nodes that `C` says.  Every
element that is not left out is replaced by a component, or it keeps its place with attributes that
are bound, round after round. -/
inductive Renders (C : Text → List Node → Prop) : List Node → List Node → Prop where
  | nil : Renders C [] []
  | text {scope : Scope} {markup text : Text} {nodes others : List Node} :
      Mustache.interpolate scope markup = .ok text → Renders C nodes others →
      Renders C (.text markup :: nodes) (.text text :: others)
  | comment {content : Text} {nodes others : List Node} : Renders C nodes others →
      Renders C (.comment content :: nodes) (.comment content :: others)
  | skipped {tag : Text} {attributes : Attributes} {children nodes others : List Node} :
      IsOptional attributes → Renders C nodes others →
      Renders C (.element tag attributes children :: nodes) others
  | component {tag : Text} {attributes : Attributes} {children nodes rest first others : List Node} :
      isComponentTag tag = true → C tag first →
      Remainder tag attributes children nodes rest → Renders C rest others →
      Renders C (.element tag attributes children :: nodes) (first ++ others)
  | injected {scope : Scope} {tag source : Text} {attributes bound : Attributes}
      {children nodes rest others : List Node} :
      isComponentTag tag = false → (prepared attributes).contains Directive.html.name = true →
      Binding.bind scope ((prepared attributes).remove Directive.html.name) = .ok bound →
      Remainder tag attributes children nodes rest → Renders C rest others →
      Renders C (.element tag attributes children :: nodes)
        (placed tag bound (Markup.parseFragment source) ++ others)
  | element {scope : Scope} {tag : Text} {attributes bound : Attributes}
      {children nodes rest inner others : List Node} :
      isComponentTag tag = false → (prepared attributes).contains Directive.html.name = false →
      Binding.bind scope ((prepared attributes).remove Directive.html.name) = .ok bound →
      Renders C children inner →
      Remainder tag attributes children nodes rest → Renders C rest others →
      Renders C (.element tag attributes children :: nodes) (placed tag bound inner ++ others)

/-- The children that markup from an expression puts in the place of those of an element. -/
def Injects (attributes : Attributes) : Option (List Node) → Prop
  | none => attributes.contains Directive.html.name = false
  | some nodes => attributes.contains Directive.html.name = true ∧
      ∃ source, nodes = Markup.parseFragment source

/-- What a round of an element may leave before what the nodes after it come to. -/
def IsRound (C : Text → List Node → Prop) (tag : Text) (attributes : Attributes)
    (children first : List Node) : Prop :=
  ∀ nodes rest others, Remainder tag attributes children nodes rest → Renders C rest others →
    Renders C (.element tag attributes children :: nodes) (first ++ others)

/-- What a node may leave before what the nodes after it come to. -/
def Leaves (C : Text → List Node → Prop) (node : Node) (first : List Node) : Prop :=
  ∀ nodes others, Renders C nodes others → Renders C (node :: nodes) (first ++ others)

open RenderM

section Sound

variable {C : Text → List Node → Prop} {I : Store → Prop} {instantiate : Instantiate}
  {tag : Text} {attributes : Attributes} {children : List Node}

variable (hinstantiate : ∀ name properties, Ensures I (C name) (instantiate name properties))

include hinstantiate

omit hinstantiate in
theorem ensures_injected (scope : Scope) (attributes : Attributes) :
    Ensures I (Injects attributes)
      ((Host.ofInstantiate instantiate).injected scope attributes) := by
  unfold Host.injected
  split
  · next hnone =>
      refine Ensures.pure ?_
      rw [Injects, Attributes.contains, hnone]
      rfl
  · next source hsource =>
      refine Ensures.bind (Ensures.ofExcept fun _ _ => trivial) fun value _ => Ensures.pure ?_
      have hmem := Attributes.mem_names_of_get? hsource
      exact ⟨Attributes.contains_iff.mpr hmem, value.display, rfl⟩

theorem ensures_renderElement {content : Scope → RenderM (List Node)} (scope : Scope)
    (hcontent : ∀ inner, Ensures I (Renders C children) (content inner)) :
    Ensures I (IsRound C tag attributes children)
      (renderElement instantiate tag (prepared attributes) content scope) := by
  rw [← Host.renderElement_ofInstantiate, Host.renderElement]
  refine (ensures_injected scope (prepared attributes)).bind fun fragment hfragment => ?_
  dsimp only
  split
  · next hcomponent =>
      rw [Host.propertiesFrom_ofInstantiate]
      refine Ensures.bind (Ensures.ofExcept fun _ _ => trivial) fun properties _ => ?_
      refine (hinstantiate tag properties).imp fun first hfirst => ?_
      intro nodes rest others hremainder hothers
      exact .component hcomponent hfirst hremainder hothers
  · next hcomponent =>
      have hplain := Bool.eq_false_iff.mpr hcomponent
      rw [Host.bindAll_ofInstantiate]
      refine Ensures.bind (Ensures.ofExcept fun _ heq => heq) fun bound hbound => ?_
      cases fragment with
      | none =>
          refine (hcontent scope).bind fun inner hinner => Ensures.pure ?_
          intro nodes rest others hremainder hothers
          exact .element hplain hfragment hbound hinner hremainder hothers
      | some injected =>
          obtain ⟨hhtml, source, rfl⟩ := hfragment
          refine Ensures.pure fun nodes rest others hremainder hothers => ?_
          exact .injected hplain hhtml hbound hremainder hothers

omit hinstantiate in
/-- A loop goes through rounds of its element, and none are left at the end. -/
theorem ensures_renderRounds {render : Scope → RenderM (List Node)} (loop : Loop) (scope : Scope)
    (hloop : Directive.forEach.name ∈ attributes.names)
    (h : ∀ inner, Ensures I (IsRound C tag attributes children) (render inner))
    (entries : List (Value × Value)) :
    Ensures I (Leaves C (.element tag attributes children))
      (renderRounds render loop scope entries) := by
  induction entries with
  | nil => exact Ensures.pure fun nodes others => .skipped ⟨.forEach, by decide, hloop⟩
  | cons entry entries ih =>
      refine (h _).bind fun first hfirst => ?_
      refine ih.bind fun more hmore => Ensures.pure fun nodes others hothers => ?_
      rw [List.append_assoc]
      exact hfirst nodes _ _ (.again hloop) (hmore nodes others hothers)

theorem ensures_renderKept {content : Scope → RenderM (List Node)} (scope : Scope)
    (hcontent : ∀ inner, Ensures I (Renders C children) (content inner)) :
    Ensures I (Leaves C (.element tag attributes children))
      (renderKept instantiate tag (Branch.strip attributes) content scope) := by
  have hround (inner : Scope) : Ensures I (IsRound C tag attributes children) _ :=
    ensures_renderElement hinstantiate inner hcontent
  unfold renderKept
  simp only [prepared, Attributes.contains] at hround ⊢
  split
  · next hloop =>
      simp only [hloop] at hround
      exact (hround scope).imp fun first hfirst nodes others => hfirst nodes nodes others .done
  · next directive hloop =>
      simp only [hloop] at hround
      refine Ensures.bind (Ensures.ofExcept fun _ _ => trivial) fun loop _ => ?_
      refine Ensures.bind (Ensures.ofExcept fun _ _ => trivial) fun entries _ => ?_
      have hstrip := mem_names_dropEvents_strip (Attributes.mem_names_of_get? hloop)
      have hloop := Branch.mem_names_of_mem_names_strip hstrip.1
      exact ensures_renderRounds loop scope hloop hround entries

end Sound

theorem leaves_nil_of_dropped {C : Text → List Node → Prop} {scope : Scope} {chain next : Chain}
    {node : Node} (h : Chain.decide scope chain (Branch.ofNode? node) = .ok (false, next)) :
    Leaves C node [] := by
  have hbranch : ∃ branch, Branch.ofNode? node = some branch := by
    cases hbranch : Branch.ofNode? node with
    | none =>
        rw [hbranch] at h
        cases h
    | some branch => exact ⟨branch, rfl⟩
  obtain ⟨branch, hbranch⟩ := hbranch
  cases node with
  | text markup => cases hbranch
  | comment content => cases hbranch
  | element tag attributes children =>
      intro nodes others hothers
      refine .skipped ⟨branch.directive, ?_, Branch.mem_names_of_ofAttributes? hbranch⟩ hothers
      cases branch <;> simp [Branch.directive]

mutual

theorem ensures_renderNode {C : Text → List Node → Prop} {I : Store → Prop}
    {instantiate : Instantiate}
    (hinstantiate : ∀ name properties, Ensures I (C name) (instantiate name properties))
    (scope : Scope) (node : Node) :
    Ensures I (Leaves C node) (renderNode instantiate scope node) := by
  cases node with
  | text markup =>
      rw [renderNode]
      refine Ensures.bind (Ensures.ofExcept fun _ heq => heq) fun text htext => ?_
      exact Ensures.pure fun nodes others => .text htext
  | comment content =>
      rw [renderNode]
      exact Ensures.pure fun nodes others => .comment
  | element tag attributes children =>
      rw [renderNode]
      refine ensures_renderKept hinstantiate scope fun inner => ?_
      refine Ensures.bind (Ensures.ofExcept fun _ heq => heq) fun kept hkept => ?_
      exact ensures_renderChosen hinstantiate inner children hkept
termination_by sizeOf node

theorem ensures_renderChosen {C : Text → List Node → Prop} {I : Store → Prop}
    {instantiate : Instantiate}
    (hinstantiate : ∀ name properties, Ensures I (C name) (instantiate name properties))
    (scope : Scope) (nodes : List Node) {chain : Chain} {kept : List Bool}
    (h : Chain.resolveFrom scope chain (nodes.map Branch.ofNode?) = .ok kept) :
    Ensures I (Renders C nodes) (renderChosen instantiate scope kept nodes) := by
  cases nodes with
  | nil =>
      rw [renderChosen]
      exact Ensures.pure .nil
  | cons node nodes =>
      rw [List.map_cons, Chain.resolveFrom] at h
      obtain ⟨⟨keep, next⟩, hdecide, h⟩ := Outcome.bind_eq_ok_iff.mp h
      obtain ⟨others, hothers, h⟩ := Outcome.bind_eq_ok_iff.mp h
      cases h
      rw [renderChosen, List.headD_cons, List.tail_cons]
      have hrest (first : List Node) (hfirst : Leaves C node first) :
          Ensures I (Renders C (node :: nodes)) (do
            let others ← renderChosen instantiate scope others nodes
            pure (first ++ others)) := by
        have hnodes := ensures_renderChosen hinstantiate scope nodes hothers
        exact hnodes.bind fun others hothers => Ensures.pure (hfirst nodes others hothers)
      cases keep with
      | true => exact (ensures_renderNode hinstantiate scope node).bind hrest
      | false => exact hrest [] (leaves_nil_of_dropped hdecide)
termination_by sizeOf nodes

end

/-- Rendering comes to what its nodes may be rendered to. -/
theorem ensures_renderNodes {C : Text → List Node → Prop} {I : Store → Prop}
    {instantiate : Instantiate}
    (hinstantiate : ∀ name properties, Ensures I (C name) (instantiate name properties))
    (scope : Scope) (nodes : List Node) :
    Ensures I (Renders C nodes) (renderNodes instantiate scope nodes) := by
  unfold renderNodes
  refine Ensures.bind (Ensures.ofExcept fun _ heq => heq) fun kept hkept => ?_
  exact ensures_renderChosen hinstantiate scope nodes hkept

/-! ### What rendering preserves -/

/-- Rendering nodes with `P` comes to nodes with `Q`.  Both are told the tag of the element that the
nodes are children of, and components are rendered without one. -/
structure Preserves (P Q : Option Text → List Node → Prop) : Prop where
  nil : ∀ {parent}, Q parent []
  append : ∀ {parent first second}, Q parent first → Q parent second → Q parent (first ++ second)
  head : ∀ {parent node nodes}, P parent (node :: nodes) → P parent [node]
  tail : ∀ {parent node nodes}, P parent (node :: nodes) → P parent nodes
  children : ∀ {parent tag attributes children}, P parent [.element tag attributes children] →
    P (some tag) children
  text : ∀ {parent scope markup text}, P parent [.text markup] →
    Mustache.interpolate scope markup = .ok text → Q parent [.text text]
  comment : ∀ {parent content}, Q parent [.comment content]
  component : ∀ {parent tag attributes children nodes},
    P parent [.element tag attributes children] →
    isComponentTag tag = true → Q none nodes → Q parent nodes
  injected : ∀ {parent tag attributes children source},
    P parent [.element tag attributes children] →
    (prepared attributes).contains Directive.html.name = true →
    Q (some tag) (Markup.parseFragment source)
  template : ∀ {parent attributes children nodes},
    P parent [.element templateTag attributes children] →
    Q (some templateTag) nodes → Q parent nodes
  element : ∀ {parent scope tag attributes bound children nodes},
    P parent [.element tag attributes children] → isComponentTag tag = false → tag ≠ templateTag →
    Binding.bind scope ((prepared attributes).remove Directive.html.name) = .ok bound →
    Q (some tag) nodes → Q parent [.element tag bound nodes]

namespace Preserves

variable {P Q : Option Text → List Node → Prop} {I : Store → Prop} {instantiate : Instantiate}

theorem of_placed (hpreserves : Preserves P Q) {parent : Option Text} {scope : Scope} {tag : Text}
    {attributes bound : Attributes} {children nodes : List Node}
    (h : P parent [.element tag attributes children]) (hcomponent : isComponentTag tag = false)
    (hbound : Binding.bind scope ((prepared attributes).remove Directive.html.name) = .ok bound)
    (hnodes : Q (some tag) nodes) : Q parent (placed tag bound nodes) := by
  unfold placed
  split
  · next htag =>
      subst htag
      exact hpreserves.template h hnodes
  · next htag => exact hpreserves.element h hcomponent htag hbound hnodes

theorem of_remainder (hpreserves : Preserves P Q) {parent : Option Text} {tag : Text}
    {attributes : Attributes} {children nodes rest : List Node}
    (h : P parent (.element tag attributes children :: nodes))
    (hremainder : Remainder tag attributes children nodes rest) : P parent rest := by
  cases hremainder with
  | done => exact hpreserves.tail h
  | again => exact h

/-- What rendering preserves holds of all that nodes may be rendered to. -/
theorem of_renders (hpreserves : Preserves P Q) {nodes others : List Node}
    (hrenders : Renders (fun _ => Q none) nodes others) {parent : Option Text} (h : P parent nodes) :
    Q parent others := by
  induction hrenders generalizing parent with
  | nil => exact hpreserves.nil
  | text htext _ ih =>
      exact hpreserves.append (hpreserves.text (hpreserves.head h) htext) (ih (hpreserves.tail h))
  | comment _ ih => exact hpreserves.append hpreserves.comment (ih (hpreserves.tail h))
  | skipped _ _ ih => exact ih (hpreserves.tail h)
  | component hcomponent hfirst hremainder _ ih =>
      refine hpreserves.append ?_ (ih (hpreserves.of_remainder h hremainder))
      exact hpreserves.component (hpreserves.head h) hcomponent hfirst
  | injected hcomponent hhtml hbound hremainder _ ih =>
      have hhead := hpreserves.head h
      refine hpreserves.append ?_ (ih (hpreserves.of_remainder h hremainder))
      exact hpreserves.of_placed hhead hcomponent hbound (hpreserves.injected hhead hhtml)
  | element hcomponent _ hbound _ hremainder _ ihchildren ih =>
      have hhead := hpreserves.head h
      refine hpreserves.append ?_ (ih (hpreserves.of_remainder h hremainder))
      exact hpreserves.of_placed hhead hcomponent hbound (ihchildren (hpreserves.children hhead))

theorem renderNodes (hpreserves : Preserves P Q)
    (hinstantiate : ∀ name properties, Ensures I (Q none) (instantiate name properties))
    {parent : Option Text} (scope : Scope) {nodes : List Node} (h : P parent nodes) :
    Ensures I (Q parent) (renderNodes instantiate scope nodes) :=
  (ensures_renderNodes hinstantiate scope nodes).imp fun _ hrenders =>
    hpreserves.of_renders hrenders h

/-- What rendering preserves holds of every component at every depth, provided that it holds of the
roots of the templates. -/
theorem renderComponent (hpreserves : Preserves P Q) {app : App}
    (hcomponents : ∀ name component, app.components.get? name = some component →
      Ensures I (fun root => P none [root]) (component.root name) ∧
      ∀ properties, Ensures I (fun _ => True) (component.prepare properties))
    (remaining : Nat) (name : Text) (properties : Bindings) :
    Ensures I (Q none) (app.instantiate remaining name properties) := by
  induction remaining generalizing name properties with
  | zero => exact Ensures.throw
  | succ remaining ih =>
      rw [App.instantiate]
      split
      · exact Ensures.throw
      · next component hcomponent =>
          obtain ⟨hroot, hprepare⟩ := hcomponents name component hcomponent
          refine hroot.bind fun root hroot => ?_
          refine (hprepare properties).bind fun bindings _ => ?_
          exact hpreserves.renderNodes ih _ hroot

end Preserves

end Engine

end HtmlTemplate
