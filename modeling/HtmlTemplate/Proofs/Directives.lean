import HtmlTemplate.Proofs.Binding
import HtmlTemplate.Proofs.Markup.Elements
import HtmlTemplate.Proofs.Session
/-!
Which attributes rendered elements have.  Handlers, loops, bindings and the first condition of an
element are gone after rendering.  What a template can leave in the result beside literal attributes
are further conditions of an element, and attributes that are themselves named by a binding.
-/

namespace HtmlTemplate

/-- What rendering leaves of the directives of an element: the name that a binding gives to its
value, and alternatives beside a condition that stands before them. -/
inductive Leftover (attributes : Attributes) : Text → Prop where
  | target {name target : Text} : name ∈ attributes.names →
      AttributeKind.ofName name = .binding target → Leftover attributes target
  | elseWhen : Directive.elseWhen.name ∈ attributes.names →
      Directive.whenTrue.name ∈ attributes.names → Leftover attributes Directive.elseWhen.name
  | otherwise {other : Directive} : Directive.otherwise.name ∈ attributes.names →
      other = .whenTrue ∨ other = .elseWhen → other.name ∈ attributes.names →
      Leftover attributes Directive.otherwise.name

namespace Branch

variable {attributes : Attributes}

theorem ofAttributes?_of_whenTrue (h : Directive.whenTrue.name ∈ attributes.names) :
    ∃ condition, ofAttributes? attributes = some (.first condition) := by
  rw [← Attributes.contains_iff, Attributes.contains, Option.isSome_iff_exists] at h
  obtain ⟨condition, h⟩ := h
  exact ⟨condition, by simp only [ofAttributes?, h]⟩

theorem ofAttributes?_of_elseWhen (hfirst : Directive.whenTrue.name ∉ attributes.names)
    (h : Directive.elseWhen.name ∈ attributes.names) :
    ∃ condition, ofAttributes? attributes = some (.other condition) := by
  rw [← Attributes.contains_iff, Attributes.contains, Option.isSome_iff_exists] at h
  obtain ⟨condition, h⟩ := h
  exact ⟨condition, by simp only [ofAttributes?, Attributes.get?_eq_none_iff.mpr hfirst, h]⟩

theorem ofAttributes?_of_otherwise (hfirst : Directive.whenTrue.name ∉ attributes.names)
    (hother : Directive.elseWhen.name ∉ attributes.names)
    (h : Directive.otherwise.name ∈ attributes.names) :
    ofAttributes? attributes = some .last := by
  simp only [ofAttributes?, Attributes.get?_eq_none_iff.mpr hfirst,
    Attributes.get?_eq_none_iff.mpr hother, Attributes.contains_iff.mpr h, if_true]

theorem not_mem_names_strip {branch : Branch} (h : ofAttributes? attributes = some branch) :
    branch.directive.name ∉ (strip attributes).names := by
  intro hmem
  rw [strip, h] at hmem
  exact (Attributes.mem_names_remove_iff.mp hmem).2 rfl

end Branch

namespace Engine

variable {attributes : Attributes} {key : Text}

/-- An element keeps no condition but those beside its part in the chain. -/
theorem leftover_of_mem_names_prepared {directive : Directive}
    (h : directive.name ∈ (prepared attributes).names) (hhtml : directive ≠ .html) :
    Leftover attributes directive.name := by
  obtain ⟨hstrip, -, hloop⟩ := mem_names_prepared h
  have hmem := Branch.mem_names_of_mem_names_strip hstrip
  cases directive with
  | whenTrue =>
      obtain ⟨condition, hbranch⟩ := Branch.ofAttributes?_of_whenTrue hmem
      exact absurd hstrip (Branch.not_mem_names_strip hbranch)
  | elseWhen =>
      by_cases hfirst : Directive.whenTrue.name ∈ attributes.names
      · exact .elseWhen hmem hfirst
      · obtain ⟨condition, hbranch⟩ := Branch.ofAttributes?_of_elseWhen hfirst hmem
        exact absurd hstrip (Branch.not_mem_names_strip hbranch)
  | otherwise =>
      by_cases hfirst : Directive.whenTrue.name ∈ attributes.names
      · exact .otherwise hmem (.inl rfl) hfirst
      · by_cases hother : Directive.elseWhen.name ∈ attributes.names
        · exact .otherwise hmem (.inr rfl) hother
        · have hbranch := Branch.ofAttributes?_of_otherwise hfirst hother hmem
          exact absurd hstrip (Branch.not_mem_names_strip hbranch)
  | forEach => exact absurd rfl hloop
  | html => exact absurd rfl hhtml

/-- The attributes of a rendered element are literal, or left over from the directives of the
element of the template. -/
theorem literal_or_leftover_of_bind {scope : Scope} {bound : Attributes}
    (hbind : Binding.bind scope ((prepared attributes).remove Directive.html.name) = .ok bound)
    (h : key ∈ bound.names) :
    AttributeKind.ofName key = .literal ∨ Leftover attributes key := by
  rcases Binding.mem_names_bind hbind h with ⟨name, hname, htarget⟩ | ⟨hmem, htarget⟩
  · have hprepared := (Attributes.mem_names_remove_iff.mp hname).1
    have hname := Branch.mem_names_of_mem_names_strip (mem_names_prepared hprepared).1
    exact .inr (.target hname htarget)
  · obtain ⟨hprepared, hhtml⟩ := Attributes.mem_names_remove_iff.mp hmem
    have hevent := (mem_names_prepared hprepared).2.1
    cases hkind : AttributeKind.ofName key with
    | literal => exact .inl rfl
    | binding target =>
        rw [AttributeKind.ofName_eq_binding_iff, htarget] at hkind
        cases hkind
    | event name =>
        rw [hkind] at hevent
        cases hevent
    | directive directive =>
        obtain rfl := AttributeKind.eq_name_of_ofName hkind
        refine .inr (leftover_of_mem_names_prepared hprepared ?_)
        rintro rfl
        exact hhtml rfl

end Engine

namespace App

/-- An element that a template of the application can bring into a render. -/
def HasTemplateElement (app : App) (tag : Text) (attributes : Attributes) : Prop :=
  ∃ name component root, app.components.get? name = some component ∧ component.IsRoot root ∧
    HasElement [root] tag attributes

/-- What a rendered element may carry: literal attributes, and what is left of the directives of an
element of a template with the same tag. -/
def Carries (app : App) (tag : Text) (attributes : Attributes) : Prop :=
  ∀ key ∈ attributes.names, AttributeKind.ofName key = .literal ∨
    ∃ origin, app.HasTemplateElement tag origin ∧ Leftover origin key

/-- Where no template injects markup, rendered elements are elements of templates that kept their
place, with their attributes bound. -/
theorem preserves_allElements {app : App} {R : Text → Attributes → Prop}
    (hhtml : ∀ tag attributes, app.HasTemplateElement tag attributes →
      Directive.html.name ∉ attributes.names)
    (helement : ∀ scope tag origin bound, app.HasTemplateElement tag origin →
      isComponentTag tag = false → tag ≠ templateTag →
      Binding.bind scope ((Engine.prepared origin).remove Directive.html.name) = .ok bound →
      R tag bound) :
    Engine.Preserves (fun _ => AllElements app.HasTemplateElement) (fun _ => AllElements R) where
  nil := AllElements.nil
  append := AllElements.append
  head h := h.of_mem (List.mem_cons_self ..)
  tail h := h.of_subset (List.subset_cons_self ..)
  children h := h.children (List.mem_singleton_self _)
  text _ _ := AllElements.text _
  comment := AllElements.comment _
  component _ _ hnodes := hnodes
  injected h hinjected := by
    have hmem := Engine.mem_names_prepared (Attributes.contains_iff.mp hinjected)
    have horigin := h _ _ (.here (List.mem_singleton_self _))
    exact absurd (Branch.mem_names_of_mem_names_strip hmem.1) (hhtml _ _ horigin)
  template _ hnodes := hnodes
  element h hcomponent htag hbind hnodes := by
    have horigin := h _ _ (.here (List.mem_singleton_self _))
    exact AllElements.element (helement _ _ _ _ horigin hcomponent htag hbind) hnodes

theorem carries_preserves {app : App}
    (hhtml : ∀ tag attributes, app.HasTemplateElement tag attributes →
      Directive.html.name ∉ attributes.names) :
    Engine.Preserves (fun _ => AllElements app.HasTemplateElement)
      (fun _ => AllElements app.Carries) := by
  refine preserves_allElements hhtml fun scope tag origin bound horigin _ _ hbind key hkey => ?_
  exact (Engine.literal_or_leftover_of_bind hbind hkey).imp id fun hleft => ⟨origin, horigin, hleft⟩

/-- Where no template injects markup, the attributes of rendered elements are literal, or left over
from an element of a template: a further condition of it, or an attribute named by a binding. -/
theorem literal_or_leftover_of_renderToNodes {app : App} {store : Store} {name : Text}
    {data : Bindings} {nodes : List Node} (hsession : Session app store)
    (hhtml : ∀ tag attributes, app.HasTemplateElement tag attributes →
      Directive.html.name ∉ attributes.names)
    (hrender : ((app.renderToNodes name data).run store).1 = .ok nodes) {tag : Text}
    {attributes : Attributes} (helement : HasElement nodes tag attributes) {key : Text}
    (hkey : key ∈ attributes.names) : AttributeKind.ofName key = .literal ∨
      ∃ origin, app.HasTemplateElement tag origin ∧ Leftover origin key := by
  have hroots (other : Text) (component : Component) (node : Node)
      (hcomponent : app.components.get? other = some component) (hroot : component.IsRoot node) :
      AllElements app.HasTemplateElement [node] :=
    fun tag attributes h => ⟨other, component, node, hcomponent, hroot, h⟩
  have hensures := ensures_renderToNodes (carries_preserves hhtml) hroots name data
  exact (hensures store hsession.remembers).2 nodes hrender tag attributes helement key hkey

/-- The template elements of an application of one component are those of its root. -/
theorem forall_templateElement_register {methods : Methods} {name source : Text}
    {R : Text → Attributes → Prop}
    (h : ∀ root ∈ (Component.rootOf source).toOption,
      ∀ entry ∈ HasElement.amongNodes [root], R entry.1 entry.2) (tag : Text)
    (attributes : Attributes)
    (helement : ((ofMethods methods).register name (.markup source) none).HasTemplateElement tag
      attributes) : R tag attributes := by
  obtain ⟨other, component, root, hcomponent, hroot, helement⟩ := helement
  rcases isRoot_of_register hcomponent hroot with ⟨-, hmem⟩ | hold
  · exact h root hmem (tag, attributes) (HasElement.mem_amongNodes helement)
  · cases hold

theorem literal_or_leftover_of_renderToNodes_titled :
    let source := "<p v-if='true' @click='f' :title='t'>x</p>".toList
    let app := (ofMethods .empty).register rootName (.markup source) none
    let data : Bindings := [("t".toList, .string "b".toList)]
    ∃ nodes attributes, ((app.renderToNodes rootName data).run .empty).1 = .ok nodes ∧
      HasElement nodes "p".toList attributes ∧ "title".toList ∈ attributes.names ∧
      (AttributeKind.ofName "title".toList = .literal ∨
        ∃ origin, app.HasTemplateElement "p".toList origin ∧ Leftover origin "title".toList) := by
  intro source app data
  let attributes : Attributes := ⟨[("title".toList, "b".toList)], by decide⟩
  have hnodes : ∃ nodes ∈ ((app.renderToNodes rootName data).run .empty).1.toOption,
      HasElement nodes "p".toList attributes := by decide +kernel
  obtain ⟨nodes, hnodes, helement⟩ := hnodes
  have hrender := Outcome.eq_ok_of_toOption hnodes
  have hkey : "title".toList ∈ attributes.names := by decide
  have hhtml : ∀ root ∈ (Component.rootOf source).toOption,
      ∀ entry ∈ HasElement.amongNodes [root], Directive.html.name ∉ entry.2.names := by
    decide +kernel
  exact ⟨nodes, attributes, hrender, helement, hkey,
    literal_or_leftover_of_renderToNodes (.register _ _ _ (.start _))
      (forall_templateElement_register hhtml) hrender helement hkey⟩

/-- An alternative on an element that has a condition as well is left, although no template injects
markup. -/
theorem directive_of_renderToNodes_alternative :
    let source := "<p v-if='true' v-else>x</p>".toList
    let app := (ofMethods .empty).register rootName (.markup source) none
    (∀ tag attributes, app.HasTemplateElement tag attributes →
      Directive.html.name ∉ attributes.names) ∧
    ∃ nodes attributes, ((app.renderToNodes rootName []).run .empty).1 = .ok nodes ∧
      HasElement nodes "p".toList attributes ∧ Directive.otherwise.name ∈ attributes.names ∧
      AttributeKind.ofName Directive.otherwise.name = .directive .otherwise := by
  intro source app
  let attributes : Attributes := ⟨[(Directive.otherwise.name, [])], by decide⟩
  have hnodes : ∃ nodes ∈ ((app.renderToNodes rootName []).run .empty).1.toOption,
      HasElement nodes "p".toList attributes := by decide +kernel
  obtain ⟨nodes, hnodes, helement⟩ := hnodes
  have hhtml : ∀ root ∈ (Component.rootOf source).toOption,
      ∀ entry ∈ HasElement.amongNodes [root], Directive.html.name ∉ entry.2.names := by
    decide +kernel
  exact ⟨forall_templateElement_register hhtml, nodes, attributes,
    Outcome.eq_ok_of_toOption hnodes, helement, by decide, by decide⟩

end App

end HtmlTemplate
