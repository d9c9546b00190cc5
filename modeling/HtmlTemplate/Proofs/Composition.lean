import HtmlTemplate.Proofs.Directives
/-!
How components make up a render.  A component comes to its root with every component in it replaced
in turn, so that the elements that are left are neither components nor wrappers.  Components that
always lead to one another come to nothing at any depth.
-/

namespace HtmlTemplate

namespace Engine

/-! ### Elements that every render gets to -/

mutual

/-- Whatever is rendered, an element with a tag of `S` comes up: no condition or loop stands on the
way to it, no markup replaces it, and no component does. -/
def Encounters (S : Text → Prop) : Node → Prop
  | .text _ => False
  | .comment _ => False
  | .element tag attributes children =>
      ¬ IsOptional attributes ∧ (S tag ∨ (isComponentTag tag = false ∧
        Directive.html.name ∉ attributes.names ∧ EncountersAmong S children))

def EncountersAmong (S : Text → Prop) : List Node → Prop
  | [] => False
  | node :: nodes => Encounters S node ∨ EncountersAmong S nodes

end

mutual

instance decidableEncounters (S : Text → Prop) [DecidablePred S] :
    (node : Node) → Decidable (Encounters S node)
  | .text _ => inferInstanceAs (Decidable False)
  | .comment _ => inferInstanceAs (Decidable False)
  | .element tag attributes children =>
      have := decidableEncountersAmong S children
      inferInstanceAs (Decidable (¬ IsOptional attributes ∧ (S tag ∨ (isComponentTag tag = false ∧
        Directive.html.name ∉ attributes.names ∧ EncountersAmong S children))))

instance decidableEncountersAmong (S : Text → Prop) [DecidablePred S] :
    (nodes : List Node) → Decidable (EncountersAmong S nodes)
  | [] => inferInstanceAs (Decidable False)
  | node :: nodes =>
      have := decidableEncounters S node
      have := decidableEncountersAmong S nodes
      inferInstanceAs (Decidable (Encounters S node ∨ EncountersAmong S nodes))

end

variable {C : Text → List Node → Prop} {S : Text → Prop}

theorem encountersAmong_of_remainder {tag : Text} {attributes : Attributes}
    {children nodes rest : List Node} (h : EncountersAmong S nodes)
    (hremainder : Remainder tag attributes children nodes rest) : EncountersAmong S rest := by
  cases hremainder with
  | done => exact h
  | again => exact .inr h

/-- Where nodes may be rendered, a component that they lead to may be. -/
theorem exists_of_renders (hcomponents : ∀ tag, S tag → isComponentTag tag = true)
    {nodes others : List Node} (hrenders : Renders C nodes others) (h : EncountersAmong S nodes) :
    ∃ tag first, S tag ∧ C tag first := by
  -- The way to the element goes either into the first node, which cannot have been left out, or to
  -- one of the others, which are rendered after any round of the first.
  induction hrenders with
  | nil => exact absurd h id
  | text _ _ ih => exact ih (h.resolve_left id)
  | comment _ ih => exact ih (h.resolve_left id)
  | skipped hoptional _ ih => exact ih (h.resolve_left fun hhead => hhead.1 hoptional)
  | component hcomponent hfirst hremainder _ ih =>
      rcases h with ⟨-, htag | ⟨hplain, -⟩⟩ | h
      · exact ⟨_, _, htag, hfirst⟩
      · exact absurd hcomponent (Bool.eq_false_iff.mp hplain)
      · exact ih (encountersAmong_of_remainder h hremainder)
  | injected hplain hhtml _ hremainder _ ih =>
      rcases h with ⟨-, htag | ⟨-, hnone, -⟩⟩ | h
      · exact absurd (hcomponents _ htag) (Bool.eq_false_iff.mp hplain)
      · have hmem := mem_names_prepared (Attributes.contains_iff.mp hhtml)
        exact absurd (Branch.mem_names_of_mem_names_strip hmem.1) hnone
      · exact ih (encountersAmong_of_remainder h hremainder)
  | element hplain _ _ _ hremainder _ ihchildren ih =>
      rcases h with ⟨-, htag | ⟨-, -, hchildren⟩⟩ | h
      · exact absurd (hcomponents _ htag) (Bool.eq_false_iff.mp hplain)
      · exact ihchildren hchildren
      · exact ih (encountersAmong_of_remainder h hremainder)

end Engine

namespace App

open RenderM

/-! ### Components as they may be rendered -/

/-- What a component may come to where at most `remaining - 1` others may be nested in it: its root,
with every component in it replaced in turn. -/
def MayRender (app : App) : Nat → Text → List Node → Prop
  | 0, _, _ => False
  | remaining + 1, name, nodes => ∃ component root, app.components.get? name = some component ∧
      component.IsRoot root ∧ Engine.Renders (app.MayRender remaining) [root] nodes

theorem ensures_mayRender (app : App) (remaining : Nat) (name : Text) (properties : Bindings) :
    Ensures app.Remembers (app.MayRender remaining name)
      (app.instantiate remaining name properties) := by
  induction remaining generalizing name properties with
  | zero => exact Ensures.throw
  | succ remaining ih =>
      rw [instantiate]
      split
      · exact Ensures.throw
      · next component hcomponent =>
          refine (ensures_isRoot hcomponent).bind fun root hroot => ?_
          refine (ensures_prepare hcomponent properties).bind fun bindings _ => ?_
          refine (Engine.ensures_renderNodes ih _ [root]).imp fun nodes hnodes => ?_
          exact ⟨component, root, hcomponent, hroot, hnodes⟩

/-- Where no template injects markup, a render that succeeds has replaced every component by what
that component comes to and every wrapper by its children, at any depth. -/
theorem isPlain_of_renderToNodes {app : App} {store : Store} {name : Text} {data : Bindings}
    {nodes : List Node} (hsession : Session app store)
    (hhtml : ∀ tag attributes, app.HasTemplateElement tag attributes →
      Directive.html.name ∉ attributes.names)
    (hrender : ((app.renderToNodes name data).run store).1 = .ok nodes) :
    app.MayRender (app.limit + 1) name nodes ∧
      ∀ tag attributes, HasElement nodes tag attributes →
        isComponentTag tag = false ∧ tag ≠ templateTag := by
  constructor
  · exact (app.ensures_mayRender _ name data store hsession.remembers).2 nodes hrender
  · have hplain : Engine.Preserves (fun _ => AllElements app.HasTemplateElement)
        (fun _ => AllElements fun tag _ => isComponentTag tag = false ∧ tag ≠ templateTag) :=
      preserves_allElements hhtml fun _ _ _ _ _ hcomponent htemplate _ => ⟨hcomponent, htemplate⟩
    have hroots (other : Text) (component : Component) (node : Node)
        (hcomponent : app.components.get? other = some component)
        (hroot : component.IsRoot node) : AllElements app.HasTemplateElement [node] :=
      fun tag attributes h => ⟨other, component, node, hcomponent, hroot, h⟩
    exact (ensures_renderToNodes hplain hroots name data store hsession.remembers).2 nodes hrender

theorem isPlain_of_renderToNodes_wrapped :
    let source := "<div><x-a v-for='i in l' :t='i'></x-a><p v-if='l'>c</p></div>".toList
    let item := "<template><template><b>{{ t }}</b></template></template>".toList
    let app := ((ofMethods .empty).register rootName (.markup source) none).register "x-a".toList
      (.markup item) none
    let data : Bindings := [("l".toList, .list [.string ['1'], .string ['2']])]
    ∃ nodes, ((app.renderToNodes rootName data).run .empty).1 = .ok nodes ∧
      Markup.serializeNodes nodes = "<div><b>1</b><b>2</b><p>c</p></div>".toList ∧
      app.MayRender (app.limit + 1) rootName nodes ∧
      ∀ tag attributes, HasElement nodes tag attributes →
        isComponentTag tag = false ∧ tag ≠ templateTag := by
  intro source item app data
  have hnodes : ∃ nodes ∈ ((app.renderToNodes rootName data).run .empty).1.toOption,
      Markup.serializeNodes nodes = "<div><b>1</b><b>2</b><p>c</p></div>".toList := by decide +kernel
  obtain ⟨nodes, hnodes, hhtml⟩ := hnodes
  have hrender := Outcome.eq_ok_of_toOption hnodes
  have hplain (markup : Text) (h : markup = source ∨ markup = item) :
      ∀ root ∈ (Component.rootOf markup).toOption,
        ∀ entry ∈ HasElement.amongNodes [root], Directive.html.name ∉ entry.2.names := by
    rcases h with rfl | rfl <;> decide +kernel
  have htemplates (tag : Text) (attributes : Attributes)
      (h : app.HasTemplateElement tag attributes) : Directive.html.name ∉ attributes.names := by
    obtain ⟨other, component, root, hcomponent, hroot, helement⟩ := h
    have hamong := HasElement.mem_amongNodes helement
    rcases isRoot_of_register hcomponent hroot with ⟨-, hmem⟩ | hcomponent
    · exact hplain item (.inr rfl) root hmem _ hamong
    · rcases isRoot_of_register hcomponent hroot with ⟨-, hmem⟩ | hnone
      · exact hplain source (.inl rfl) root hmem _ hamong
      · cases hnone
  exact ⟨nodes, hrender, hhtml,
    isPlain_of_renderToNodes (.register _ _ _ (.register _ _ _ (.start _))) htemplates hrender⟩

/-! ### Components that lead to one another -/

variable {app : App} {S : Text → Prop}

theorem not_mayRender_of_encounters
    (hmembers : ∀ name component root, S name → app.components.get? name = some component →
      component.IsRoot root →
      Engine.Encounters (fun tag => S tag ∧ isComponentTag tag = true) root)
    (remaining : Nat) {name : Text} (hname : S name) (nodes : List Node) :
    ¬ app.MayRender remaining name nodes := by
  induction remaining generalizing name nodes with
  | zero => exact id
  | succ remaining ih =>
      rintro ⟨component, root, hcomponent, hroot, hrenders⟩
      have hencounters := hmembers name component root hname hcomponent hroot
      obtain ⟨tag, first, ⟨htag, -⟩, hfirst⟩ :=
        Engine.exists_of_renders (fun _ h => h.2) hrenders (.inl hencounters)
      exact ih htag first hfirst

/-- Components that always lead to one another never render, under any limit. -/
theorem exists_error_of_encounters {store : Store} (hsession : Session app store)
    (hmembers : ∀ name component root, S name → app.components.get? name = some component →
      component.IsRoot root →
      Engine.Encounters (fun tag => S tag ∧ isComponentTag tag = true) root)
    {name : Text} (hname : S name) (data : Bindings) :
    (∃ error, ((app.render name data).run store).1 = .error error) ∧
      ∃ error, ((app.renderToNode name data).run store).1 = .error error := by
  have hnodes : ∃ error, ((app.renderToNodes name data).run store).1 = .error error := by
    cases hrender : ((app.renderToNodes name data).run store).1 with
    | error error => exact ⟨error, rfl⟩
    | ok nodes =>
        have hensures := app.ensures_mayRender (app.limit + 1) name data store hsession.remembers
        have hrenders := hensures.2 nodes hrender
        exact absurd hrenders (not_mayRender_of_encounters hmembers _ hname nodes)
  obtain ⟨error, herror⟩ := hnodes
  exact ⟨⟨error, Outcome.run_bind_error herror⟩, ⟨error, Outcome.run_bind_error herror⟩⟩

theorem exists_error_of_encounters_mutual :
    let first := "<p>{{ t }}<x-b></x-b></p>".toList
    let second := "<div><template><x-a v-html='t'></x-a></template></div>".toList
    let app := ((ofMethods .empty).register "x-a".toList (.markup first) none).register "x-b".toList
      (.markup second) none
    let S (name : Text) : Prop := name = "x-a".toList ∨ name = "x-b".toList
    (∀ name component root, S name → app.components.get? name = some component →
      component.IsRoot root →
      Engine.Encounters (fun tag => S tag ∧ isComponentTag tag = true) root) ∧
    (∃ error, ((app.render "x-a".toList []).run .empty).1 = .error error) ∧
      ∃ error, ((app.renderToNode "x-a".toList []).run .empty).1 = .error error := by
  intro first second app S
  have hencounters (markup : Text) (h : markup = first ∨ markup = second) :
      ∀ root ∈ (Component.rootOf markup).toOption, Engine.Encounters
        (fun tag => (tag = "x-a".toList ∨ tag = "x-b".toList) ∧ isComponentTag tag = true) root := by
    rcases h with rfl | rfl <;> decide +kernel
  have hmembers (name : Text) (component : Component) (root : Node) (_ : S name)
      (hcomponent : app.components.get? name = some component) (hroot : component.IsRoot root) :
      Engine.Encounters (fun tag => S tag ∧ isComponentTag tag = true) root := by
    rcases isRoot_of_register hcomponent hroot with ⟨-, hmem⟩ | hcomponent
    · exact hencounters second (.inr rfl) root hmem
    · rcases isRoot_of_register hcomponent hroot with ⟨-, hmem⟩ | hnone
      · exact hencounters first (.inl rfl) root hmem
      · cases hnone
  have hsession : Session app .empty := .register _ _ _ (.register _ _ _ (.start _))
  exact ⟨hmembers, exists_error_of_encounters hsession hmembers (.inl rfl) []⟩

/-- A component whose name is not that of component tags renders, although its root has the name of
the component. -/
theorem render_encounters_plain :
    let source := "<root></root>".toList
    let app := (ofMethods .empty).register rootName (.markup source) none
    (∀ component root, app.components.get? rootName = some component → component.IsRoot root →
      Engine.Encounters (fun tag => tag = rootName) root) ∧
    ((app.render rootName []).run .empty).1 = .ok source := by
  intro source app
  have hencounters : ∀ root ∈ (Component.rootOf source).toOption,
      Engine.Encounters (fun tag => tag = rootName) root := by decide +kernel
  refine ⟨fun component root hcomponent hroot => ?_, Outcome.eq_ok_of_toOption (by decide +kernel)⟩
  rcases isRoot_of_register hcomponent hroot with ⟨-, hmem⟩ | hnone
  · exact hencounters root hmem
  · cases hnone

end App

end HtmlTemplate
