import HtmlTemplate.Proofs.Flattening
/-!
The order of the attributes of a component does not count.  The properties that they give are
evaluated one after another, and any of them may fail; in another order the same of them fail, and
what the properties stand for is the same.  Nothing else of the properties is seen by the template of
the component.
-/

namespace HtmlTemplate

/-! ### Success in the same way -/

namespace RenderM

/-- From any store, a step succeeds if and only if another does, and then both come to the same and
remember the same. -/
def SucceedsAs {α : Type} (first second : RenderM α) : Prop :=
  ∀ store a last, first.run store = (.ok a, last) ↔ second.run store = (.ok a, last)

namespace SucceedsAs

variable {α β : Type} {first second : RenderM α}

theorem refl (m : RenderM α) : SucceedsAs m m := fun _ _ _ => Iff.rfl

theorem bind {f g : α → RenderM β} (h : SucceedsAs first second)
    (hrest : ∀ a, SucceedsAs (f a) (g a)) : SucceedsAs (first >>= f) (second >>= g) := by
  intro store b last
  rw [Outcome.run_bind_eq_ok_iff, Outcome.run_bind_eq_ok_iff]
  constructor
  · rintro ⟨a, middle, hfirst, hlast⟩
    exact ⟨a, middle, (h store a middle).mp hfirst, (hrest a middle b last).mp hlast⟩
  · rintro ⟨a, middle, hsecond, hlast⟩
    exact ⟨a, middle, (h store a middle).mpr hsecond, (hrest a middle b last).mpr hlast⟩

end SucceedsAs

end RenderM

/-! ### Properties -/

namespace Binding

/-- The property that an attribute of some name gives to a component. -/
def property? (name : Text) : Option Text :=
  match AttributeKind.ofName name with
  | .literal => some (camelCase name)
  | .binding target => some (camelCase target)
  | .event _ | .directive _ => none

/-- The value of the property that an attribute gives. -/
def given (scope : Scope) (entry : Text × Text) : Except RenderError Value :=
  match AttributeKind.ofName entry.1 with
  | .binding _ => scope.evaluate entry.2
  | .literal | .event _ | .directive _ => .ok (.string entry.2)

variable {scope : Scope} {start bindings : Bindings} {entry : Text × Text} {entries : Fields Text}

theorem propertiesFrom_cons_of_none (h : property? entry.1 = none) :
    propertiesFrom scope start (entry :: entries) = propertiesFrom scope start entries := by
  unfold property? at h
  rw [propertiesFrom]
  cases hkind : AttributeKind.ofName entry.1 with
  | literal | binding target =>
      rw [hkind] at h
      cases h
  | event | directive => rfl

theorem propertiesFrom_cons_of_some {property : Text} (h : property? entry.1 = some property) :
    propertiesFrom scope start (entry :: entries) = (do
      let value ← given scope entry
      propertiesFrom scope (Fields.insert property value start) entries) := by
  unfold property? at h
  rw [propertiesFrom, given]
  cases hkind : AttributeKind.ofName entry.1 with
  | literal | binding target =>
      rw [hkind] at h
      cases h
      rfl
  | event | directive =>
      rw [hkind] at h
      cases h

/-- Properties can be had if and only if each of them can. -/
theorem exists_propertiesFrom_iff :
    (∃ bindings, propertiesFrom scope start entries = .ok bindings) ↔
      ∀ entry ∈ entries, property? entry.1 ≠ none → ∃ value, given scope entry = .ok value := by
  induction entries generalizing start with
  | nil => simp [propertiesFrom]
  | cons entry entries ih =>
      rw [List.forall_mem_cons]
      cases hproperty : property? entry.1 with
      | none =>
          rw [propertiesFrom_cons_of_none hproperty, ih]
          simp
      | some property =>
          rw [propertiesFrom_cons_of_some hproperty]
          simp only [Outcome.bind_eq_ok_iff]
          constructor
          · rintro ⟨bindings, value, hvalue, hrest⟩
            exact ⟨fun _ => ⟨value, hvalue⟩, ih.mp ⟨bindings, hrest⟩⟩
          · rintro ⟨hfirst, hrest⟩
            obtain ⟨value, hvalue⟩ := hfirst (by simp)
            obtain ⟨bindings, hbindings⟩ := ih.mpr hrest
            exact ⟨bindings, value, hvalue, hbindings⟩

/-- What is given once stands for what was given. -/
theorem get?_propertiesFrom (hnodup : ((Fields.names entries).filterMap property?).Nodup)
    (h : propertiesFrom scope start entries = .ok bindings) (property : Text) :
    (∀ entry ∈ entries, property? entry.1 = some property →
      ∃ value, given scope entry = .ok value ∧ Fields.get? property bindings = some value) ∧
    ((∀ entry ∈ entries, property? entry.1 ≠ some property) →
      Fields.get? property bindings = Fields.get? property start) := by
  induction entries generalizing start with
  | nil =>
      cases h
      simp
  | cons entry entries ih =>
      rw [List.forall_mem_cons, List.forall_mem_cons]
      rw [Fields.names, List.map_cons] at hnodup
      cases hname : property? entry.1 with
      | none =>
          rw [List.filterMap_cons_none hname] at hnodup
          rw [propertiesFrom_cons_of_none hname] at h
          simpa using ih hnodup h
      | some found =>
          rw [List.filterMap_cons_some hname] at hnodup
          obtain ⟨hfound, hnodup⟩ := List.nodup_cons.mp hnodup
          rw [propertiesFrom_cons_of_some hname] at h
          obtain ⟨value, hvalue, hrest⟩ := Outcome.bind_eq_ok_iff.mp h
          obtain ⟨hgiven, hother⟩ := ih hnodup hrest
          have hlater : ∀ entry ∈ entries, property? entry.1 ≠ some found := by
            intro later hmem heq
            exact hfound (List.mem_filterMap.mpr ⟨later.1, List.mem_map_of_mem hmem, heq⟩)
          rw [Fields.get?_insert] at hother
          refine ⟨⟨?_, hgiven⟩, ?_⟩
          · rintro ⟨⟩
            exact ⟨value, hvalue, by rw [hother hlater, if_pos rfl]⟩
          · rintro ⟨hne, hrest⟩
            rw [hother hrest, if_neg]
            rintro rfl
            exact hne rfl

theorem nodup_properties_of_perm {others : Fields Text} (hperm : entries.Perm others)
    (h : ((Fields.names entries).filterMap property?).Nodup) :
    ((Fields.names others).filterMap property?).Nodup :=
  ((hperm.map Prod.fst).filterMap property?).nodup_iff.mp h

/-- Properties that are given in another order stand for the same. -/
theorem exists_propertiesFrom_of_perm {others : Fields Text} (hperm : entries.Perm others)
    (hnodup : ((Fields.names entries).filterMap property?).Nodup)
    (h : propertiesFrom scope start entries = .ok bindings) :
    ∃ reordered, propertiesFrom scope start others = .ok reordered ∧
      ∀ property, Fields.get? property reordered = Fields.get? property bindings := by
  have hall := exists_propertiesFrom_iff.mp ⟨bindings, h⟩
  have hothers := nodup_properties_of_perm hperm hnodup
  have hreads : ∃ reordered, propertiesFrom scope start others = .ok reordered :=
    exists_propertiesFrom_iff.mpr fun entry hmem => hall entry (hperm.mem_iff.mpr hmem)
  obtain ⟨reordered, hreordered⟩ := hreads
  refine ⟨reordered, hreordered, fun property => ?_⟩
  obtain ⟨hgiven, hnone⟩ := get?_propertiesFrom hnodup h property
  obtain ⟨hgiven', hnone'⟩ := get?_propertiesFrom hothers hreordered property
  by_cases hproperty : ∃ entry ∈ entries, property? entry.1 = some property
  · obtain ⟨entry, hmem, hname⟩ := hproperty
    obtain ⟨value, hvalue, hget⟩ := hgiven entry hmem hname
    obtain ⟨value', hvalue', hget'⟩ := hgiven' entry (hperm.mem_iff.mp hmem) hname
    rw [hvalue] at hvalue'
    cases hvalue'
    rw [hget, hget']
  · have habsent : ∀ entry ∈ entries, property? entry.1 ≠ some property := by
      intro entry hmem hname
      exact hproperty ⟨entry, hmem, hname⟩
    rw [hnone habsent, hnone' fun entry hmem => habsent entry (hperm.mem_iff.mpr hmem)]

end Binding

/-! ### Components -/

namespace Branch

variable {attributes others : Attributes}

theorem ofAttributes?_eq_of_perm (h : attributes.entries.Perm others.entries) :
    ofAttributes? attributes = ofAttributes? others := by
  have hget (name : Text) : attributes.get? name = others.get? name :=
    Fields.get?_eq_of_perm h attributes.nodup name
  rw [ofAttributes?, ofAttributes?, Attributes.contains, Attributes.contains, hget, hget, hget]

theorem strip_sublist (attributes : Attributes) :
    (strip attributes).entries.Sublist attributes.entries := by
  unfold strip
  split
  · exact List.filter_sublist
  · exact List.Sublist.refl _

theorem perm_strip (h : attributes.entries.Perm others.entries) :
    (strip attributes).entries.Perm (strip others).entries := by
  unfold strip
  rw [← ofAttributes?_eq_of_perm h]
  split
  · exact h.filter _
  · exact h

end Branch

namespace App

/-- Without a setup a component sees of its properties only what they stand for. -/
theorem instantiate_congr (app : App) (remaining : Nat) {name : Text}
    (hsetup : ∀ component, app.components.get? name = some component → component.setup = none)
    {properties others : Bindings}
    (h : ∀ property, Fields.get? property properties = Fields.get? property others) :
    app.instantiate remaining name properties = app.instantiate remaining name others := by
  cases remaining with
  | zero => rfl
  | succ remaining =>
      rw [instantiate, instantiate]
      cases hcomponent : app.components.get? name with
      | none => rfl
      | some component =>
          have hprepare (bindings : Bindings) : component.prepare bindings = pure bindings := by
            rw [Component.prepare, hsetup component hcomponent]
          have halike : (Scope.ofBindings properties app.methods).Alike
              (.ofBindings others app.methods) := by
            refine ⟨rfl, fun property => ?_⟩
            show Scope.find? property [properties] = Scope.find? property [others]
            simp only [Scope.find?, h property]
          simp only [hprepare, pure_bind, halike.renderNodes_eq]

end App

namespace Engine

variable {instantiate : Instantiate} {tag : Text} {attributes others : Attributes}

theorem renderNode_component (hcomponent : isComponentTag tag = true)
    (hloop : Directive.forEach.name ∉ attributes.names)
    (hhtml : Directive.html.name ∉ attributes.names) (scope : Scope) (children : List Node) :
    renderNode instantiate scope (.element tag attributes children) = (do
      let properties ← RenderM.ofExcept
        (Binding.properties scope (dropEvents (Branch.strip attributes)))
      instantiate tag properties) := by
  have habsent {name : Text} (hname : name ∉ attributes.names) :
      name ∉ (dropEvents (Branch.strip attributes)).names := by
    intro hmem
    exact hname (Branch.mem_names_of_mem_names_strip (mem_names_dropEvents_strip hmem).1)
  have hremove := Attributes.remove_eq_self (habsent hhtml)
  rw [renderNode, renderKept, Attributes.get?_eq_none_iff.mpr (habsent hloop)]
  dsimp only
  rw [renderElement, Attributes.get?_eq_none_iff.mpr (habsent hhtml), hremove]
  simp only [pure_bind, hcomponent, if_true]

/-- Reordered properties make a component render in the same way, where it renders at all. -/
theorem succeedsAs_properties (hperm : attributes.entries.Perm others.entries)
    (hnodup : (attributes.names.filterMap Binding.property?).Nodup) (scope : Scope)
    (hinstantiate : ∀ {properties reordered : Bindings},
      (∀ property, Fields.get? property reordered = Fields.get? property properties) →
      instantiate tag reordered = instantiate tag properties) :
    RenderM.SucceedsAs
      (RenderM.ofExcept (Binding.properties scope attributes) >>= instantiate tag)
      (RenderM.ofExcept (Binding.properties scope others) >>= instantiate tag) := by
  have hothers := Binding.nodup_properties_of_perm hperm hnodup
  intro store nodes last
  rw [RenderM.run_ofExcept_bind_eq_ok_iff, RenderM.run_ofExcept_bind_eq_ok_iff]
  constructor
  · rintro ⟨properties, hproperties, hrun⟩
    obtain ⟨reordered, hreordered, hget⟩ :=
      Binding.exists_propertiesFrom_of_perm hperm hnodup hproperties
    exact ⟨reordered, hreordered, by rw [hinstantiate hget, hrun]⟩
  · rintro ⟨properties, hproperties, hrun⟩
    obtain ⟨reordered, hreordered, hget⟩ :=
      Binding.exists_propertiesFrom_of_perm hperm.symm hothers hproperties
    exact ⟨reordered, hreordered, by rw [hinstantiate hget, hrun]⟩

/-- An element of a component without setup, in which the properties have distinct names and which
has neither a loop nor markup from an expression, is rendered with its attributes in any order if and
only if it is rendered with them in the order in which they stand, and to the same nodes. -/
theorem renderNodes_perm (app : App) (remaining : Nat) (scope : Scope) (children : List Node)
    (hperm : attributes.entries.Perm others.entries) (hcomponent : isComponentTag tag = true)
    (hloop : Directive.forEach.name ∉ attributes.names)
    (hhtml : Directive.html.name ∉ attributes.names)
    (hnodup : (attributes.names.filterMap Binding.property?).Nodup)
    (hsetup : ∀ component, app.components.get? tag = some component → component.setup = none)
    (store last : Store) (nodes : List Node) :
    (renderNodes (app.instantiate remaining) scope [.element tag others children]).run store =
        (.ok nodes, last) ↔
      (renderNodes (app.instantiate remaining) scope
        [.element tag attributes children]).run store = (.ok nodes, last) := by
  have hnames (name : Text) : name ∈ attributes.names ↔ name ∈ others.names :=
    (hperm.map Prod.fst).mem_iff
  have hkept : (dropEvents (Branch.strip attributes)).entries.Perm
      (dropEvents (Branch.strip others)).entries := (Branch.perm_strip hperm).filter _
  have hproperties : ((dropEvents (Branch.strip attributes)).names.filterMap
      Binding.property?).Nodup := by
    have hsublist : (dropEvents (Branch.strip attributes)).entries.Sublist attributes.entries :=
      List.filter_sublist.trans (Branch.strip_sublist attributes)
    exact hnodup.sublist ((hsublist.map Prod.fst).filterMap _)
  have hnode : RenderM.SucceedsAs
      (renderNode (app.instantiate remaining) scope (.element tag attributes children))
      (renderNode (app.instantiate remaining) scope (.element tag others children)) := by
    rw [renderNode_component hcomponent hloop hhtml, renderNode_component hcomponent
      (fun hmem => hloop ((hnames _).mpr hmem)) fun hmem => hhtml ((hnames _).mpr hmem)]
    exact succeedsAs_properties hkept hproperties scope fun hget =>
      app.instantiate_congr remaining hsetup hget
  have hresolve : Chain.resolve scope [.element tag attributes children] =
      Chain.resolve scope [.element tag others children] := by
    simp only [Chain.resolve, List.map_cons, Branch.ofNode?, Branch.ofAttributes?_eq_of_perm hperm]
  have hnodes : RenderM.SucceedsAs
      (renderNodes (app.instantiate remaining) scope [.element tag attributes children])
      (renderNodes (app.instantiate remaining) scope [.element tag others children]) := by
    rw [renderNodes, renderNodes, hresolve]
    refine (RenderM.SucceedsAs.refl _).bind fun kept => ?_
    simp only [renderChosen]
    split
    · exact hnode.bind fun first => .refl _
    · exact .refl _
  exact (hnodes store nodes last).symm

theorem renderNodes_perm_camel :
    let counter : Setup := fun runs _ => [("n".toList, .ofNat runs)]
    let app := ((App.ofMethods .empty).register "x-a".toList
      (.markup "<p>{{ aB }}{{ c }}<x-b></x-b></p>".toList) none).register "x-b".toList
      (.markup "<i>{{ n }}</i>".toList) (some counter)
    let attributes : Attributes := ⟨[("a-b".toList, "x".toList), (":c".toList, "d".toList),
      ("@click".toList, "e".toList), (Directive.whenTrue.name, "d".toList)], by decide⟩
    let others : Attributes := ⟨[(Directive.whenTrue.name, "d".toList), (":c".toList, "d".toList),
      ("@click".toList, "e".toList), ("a-b".toList, "x".toList)], by decide⟩
    let render (attributes : Attributes) :=
      (renderNodes (app.instantiate 2) (.ofBindings [("d".toList, .bool true)] .empty)
        [.element "x-a".toList attributes []]).run .empty
    attributes.entries.Perm others.entries ∧ isComponentTag "x-a".toList = true ∧
    Directive.forEach.name ∉ attributes.names ∧ Directive.html.name ∉ attributes.names ∧
    (attributes.names.filterMap Binding.property?).Nodup ∧
    (∀ component, app.components.get? "x-a".toList = some component → component.setup = none) ∧
    ∃ nodes last, render others = (.ok nodes, last) ∧ render attributes = (.ok nodes, last) ∧
      Markup.serializeNodes nodes = "<p>xtrue<i>1</i></p>".toList := by
  intro counter app attributes others render
  have hperm : attributes.entries.Perm others.entries := by decide
  have hcomponent : isComponentTag "x-a".toList = true := by decide
  have hloop : Directive.forEach.name ∉ attributes.names := by decide
  have hhtml : Directive.html.name ∉ attributes.names := by decide
  have hnodup : (attributes.names.filterMap Binding.property?).Nodup := by decide +kernel
  have hsetup : ∀ component, app.components.get? "x-a".toList = some component →
      component.setup = none := by
    rintro component ⟨⟩
    rfl
  have hmarkup : (render attributes).1.toOption.map Markup.serializeNodes =
      some "<p>xtrue<i>1</i></p>".toList := by decide +kernel
  obtain ⟨nodes, last, hrun, hsource⟩ := Outcome.exists_run_of_toOption hmarkup
  have hothers := (renderNodes_perm app 2 _ [] hperm hcomponent hloop hhtml hnodup hsetup .empty
    last nodes).mpr hrun
  exact ⟨hperm, hcomponent, hloop, hhtml, hnodup, hsetup, nodes, last, hothers, hrun, hsource⟩

end Engine

end HtmlTemplate
