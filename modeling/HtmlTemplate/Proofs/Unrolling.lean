import HtmlTemplate.Proofs.Flattening
/-!
Loops unroll.  An element with a loop is rendered as the element without it is, once for each entry
of what is looped over, in a scope that binds the names of the loop.  The rounds are made one after
another, each from what the one before it remembered, and the first that fails ends the loop.
-/

namespace HtmlTemplate

/-! ### Rounds -/

namespace RenderM

variable {α β : Type}

/-- A step is made for one entry after another, each time from what the one before remembered; with
what the steps come to. -/
inductive Runs (step : α → RenderM β) : List α → Store → List β → Store → Prop where
  | nil {store : Store} : Runs step [] store [] store
  | cons {entry : α} {entries : List α} {part : β} {parts : List β} {store middle last : Store} :
      (step entry).run store = (.ok part, middle) → Runs step entries middle parts last →
      Runs step (entry :: entries) store (part :: parts) last

end RenderM

/-- A whole that is made of rounds.  It succeeds if and only if every round does, and then it comes
to what they come to, one after the other; else it fails as the first round that fails. -/
structure Unrolls {α : Type} (whole : RenderM (List Node)) (round : α → RenderM (List Node))
    (entries : List α) : Prop where
  ok : ∀ store nodes last, whole.run store = (.ok nodes, last) ↔
    ∃ parts, RenderM.Runs round entries store parts last ∧ nodes = parts.flatten
  error : ∀ store error last, whole.run store = (.error error, last) ↔
    ∃ before entry after parts middle, entries = before ++ entry :: after ∧
      RenderM.Runs round before store parts middle ∧
      (round entry).run middle = (.error error, last)

namespace Unrolls

variable {α : Type} {whole rest : RenderM (List Node)} {round : α → RenderM (List Node)}
  {entries : List α}

theorem nil (round : α → RenderM (List Node)) : Unrolls (pure []) round [] where
  ok store nodes last := by
    constructor
    · rintro ⟨⟩
      exact ⟨[], .nil, rfl⟩
    · rintro ⟨parts, ⟨⟩, rfl⟩
      rfl
  error store error last := by
    constructor
    · rintro ⟨⟩
    · rintro ⟨before, entry, after, parts, middle, hentries, -⟩
      exact absurd hentries (by simp)

theorem cons (entry : α) (h : Unrolls rest round entries) :
    Unrolls (do
      let first ← round entry
      let others ← rest
      pure (first ++ others)) round (entry :: entries) where
  ok store nodes last := by
    simp only [Outcome.run_bind_eq_ok_iff]
    constructor
    · rintro ⟨first, middle, hfirst, others, final, hothers, hlast⟩
      cases hlast
      obtain ⟨parts, hparts, rfl⟩ := (h.ok middle others last).mp hothers
      exact ⟨first :: parts, .cons hfirst hparts, rfl⟩
    · rintro ⟨parts, hparts, rfl⟩
      cases hparts with
      | cons hfirst hparts =>
          exact ⟨_, _, hfirst, _, last, (h.ok _ _ last).mpr ⟨_, hparts, rfl⟩, rfl⟩
  error store error last := by
    rw [Outcome.run_bind_eq_error_iff]
    constructor
    · rintro (hfirst | ⟨first, middle, hfirst, hrest⟩)
      · exact ⟨[], entry, entries, [], store, rfl, .nil, hfirst⟩
      · rcases Outcome.run_bind_eq_error_iff.mp hrest with hothers | ⟨others, final, -, hlast⟩
        · obtain ⟨before, failing, after, parts, final, rfl, hparts, hfailing⟩ :=
            (h.error middle error last).mp hothers
          exact ⟨entry :: before, failing, after, first :: parts, final, rfl,
            .cons hfirst hparts, hfailing⟩
        · cases hlast
    · rintro ⟨before, failing, after, parts, final, hentries, hparts, hfailing⟩
      cases hparts with
      | nil =>
          cases hentries
          exact .inl hfailing
      | cons hfirst hparts =>
          cases hentries
          refine .inr ⟨_, _, hfirst, Outcome.run_bind_eq_error_iff.mpr (.inl ?_)⟩
          exact (h.error _ error last).mpr ⟨_, _, _, _, _, rfl, hparts, hfailing⟩

end Unrolls

namespace Engine

theorem unrolls_renderRounds (render : Scope → RenderM (List Node)) (loop : Loop) (scope : Scope)
    (entries : List (Value × Value)) :
    Unrolls (renderRounds render loop scope entries)
      (fun entry => render (scope.extendWith (loop.bindings entry))) entries := by
  induction entries with
  | nil => exact .nil _
  | cons entry entries ih => exact ih.cons entry

end Engine

/-! ### The scope of a round -/

namespace Loop

/-- The scope in which a loop renders an entry: its item is bound and then, where it is named, its
index. -/
def inner (loop : Loop) (scope : Scope) (entry : Value × Value) : Scope :=
  match loop.index with
  | none => scope.extend loop.item entry.1
  | some index => (scope.extend loop.item entry.1).extend index entry.2

theorem alike_inner (loop : Loop) (scope : Scope) (entry : Value × Value) :
    (scope.extendWith (loop.bindings entry)).Alike (loop.inner scope entry) := by
  obtain ⟨item, index, source⟩ := loop
  cases index with
  | none => exact ⟨rfl, fun name => rfl⟩
  | some index =>
      refine ⟨rfl, fun name => ?_⟩
      show (scope.extendWith (Fields.insert index entry.2 [(item, entry.1)])).lookup name =
        ((scope.extendWith [(item, entry.1)]).extendWith [(index, entry.2)]).lookup name
      simp only [Scope.lookup_extendWith, Fields.get?_insert, Fields.get?]
      by_cases hindex : index = name
      · simp [hindex]
      · simp [hindex]

end Loop

/-! ### Elements -/

namespace Branch

variable {attributes : Attributes}

theorem ofAttributes?_eq_none (h : ∀ branch ∈ [Directive.whenTrue, .elseWhen, .otherwise],
    branch.name ∉ attributes.names) : ofAttributes? attributes = none := by
  simp only [List.mem_cons, List.not_mem_nil, or_false, forall_eq_or_imp, forall_eq,
    ← Attributes.get?_eq_none_iff] at h
  simp [ofAttributes?, Attributes.contains, h]

end Branch

namespace Engine

variable (instantiate : Instantiate) (scope : Scope) {tag : Text} {attributes : Attributes}
  (children : List Node)

theorem mem_names_of_mem_names_dropLoop {name : Text} (h : name ∈ (dropLoop attributes).names) :
    name ∈ attributes.names ∧ name ≠ Directive.forEach.name := by
  simp only [dropLoop, Attributes.mem_names_remove_iff] at h
  exact h.1.1

theorem dropEvents_dropLoop (attributes : Attributes) :
    dropEvents (dropLoop attributes) = dropLoop (dropEvents attributes) := by
  apply Attributes.ext_entries
  simp only [dropEvents, dropLoop, Attributes.remove, Attributes.retain, List.filter_filter]
  congr 1
  funext entry
  ac_rfl

theorem get?_dropEvents (directive : Directive) (attributes : Attributes) :
    (dropEvents attributes).get? directive.name = attributes.get? directive.name := by
  rw [dropEvents, Attributes.get?_retain]
  cases directive <;> rfl

/-- An element without part in a chain is rendered where it stands. -/
theorem renderNodes_element (h : Branch.ofAttributes? attributes = none) :
    renderNodes instantiate scope [.element tag attributes children] =
      renderKept instantiate tag attributes (renderNodes instantiate · children) scope := by
  have hresolve : Chain.resolve scope [.element tag attributes children] = .ok [true] := by
    rw [Chain.resolve, List.map_cons, Branch.ofNode?, h]
    rfl
  have hstrip : Branch.strip attributes = attributes := by
    rw [Branch.strip, h]
  rw [renderNodes, hresolve, RenderM.ofExcept_ok_bind, renderChosen, List.headD_cons, if_pos rfl,
    renderNode, hstrip]
  simp only [renderChosen, pure_bind, List.append_nil, bind_pure]
  rfl

theorem renderNodes_dropLoop (h : Branch.ofAttributes? (dropLoop attributes) = none) :
    renderNodes instantiate scope [.element tag (dropLoop attributes) children] =
      renderElement instantiate tag (dropLoop (dropEvents attributes))
        (renderNodes instantiate · children) scope := by
  have hnone : (dropEvents (dropLoop attributes)).get? Directive.forEach.name = none := by
    rw [get?_dropEvents, Attributes.get?_eq_none_iff]
    intro hmem
    exact (mem_names_of_mem_names_dropLoop hmem).2 rfl
  rw [renderNodes_element _ _ _ h, renderKept, hnone, dropEvents_dropLoop]

section Loop

variable {directive : Text} {loop : Loop}
  (hbranch : ∀ branch ∈ [Directive.whenTrue, .elseWhen, .otherwise],
    branch.name ∉ attributes.names)
  (hdirective : attributes.get? Directive.forEach.name = some directive)
  (hloop : Loop.parse directive = .ok loop)

include hbranch hdirective hloop

theorem renderNodes_forEach :
    renderNodes instantiate scope [.element tag attributes children] = (do
      let entries ← RenderM.ofExcept (loop.entries scope)
      renderRounds
        (fun inner => renderNodes instantiate inner [.element tag (dropLoop attributes) children])
        loop scope entries) := by
  have hnone := Branch.ofAttributes?_eq_none hbranch
  have hrest : Branch.ofAttributes? (dropLoop attributes) = none := by
    apply Branch.ofAttributes?_eq_none
    intro branch hmem hname
    exact hbranch branch hmem (mem_names_of_mem_names_dropLoop hname).1
  have hrounds : (fun inner => renderNodes instantiate inner
      [.element tag (dropLoop attributes) children]) =
      renderElement instantiate tag (dropLoop (dropEvents attributes))
        (renderNodes instantiate · children) := by
    funext inner
    exact renderNodes_dropLoop instantiate inner children hrest
  rw [renderNodes_element _ _ _ hnone, hrounds, renderKept, get?_dropEvents, hdirective]
  dsimp only
  rw [hloop, RenderM.ofExcept_ok_bind]

theorem unrolls_of_entries {value : Value} {entries : List (Value × Value)}
    (hvalue : scope.evaluate loop.source = .ok value)
    (hentries : Loop.entriesOf? value = some entries) :
    Unrolls (renderNodes instantiate scope [.element tag attributes children])
      (fun entry => renderNodes instantiate (loop.inner scope entry)
        [.element tag (dropLoop attributes) children]) entries := by
  have hok : loop.entries scope = .ok entries := by
    rw [Loop.entries, hvalue, Outcome.ok_bind, hentries]
  have hrounds : (fun entry => renderNodes instantiate (loop.inner scope entry)
      [.element tag (dropLoop attributes) children]) =
      fun entry => renderNodes instantiate (scope.extendWith (loop.bindings entry))
        [.element tag (dropLoop attributes) children] := by
    funext entry
    exact ((loop.alike_inner scope entry).renderNodes_eq instantiate _).symm
  rw [renderNodes_forEach instantiate scope children hbranch hdirective hloop, hok,
    RenderM.ofExcept_ok_bind, hrounds]
  exact unrolls_renderRounds _ loop scope entries

end Loop

/-- A loop over the items of a list with their positions, or over the values of a map with their
keys, is made of the rounds of its element without the loop and without keys, each in the scope that
is extended by the names of the loop.  There is nothing to loop over in any other value. -/
theorem renderNodes_unrolls (app : App) (remaining : Nat) (scope : Scope) (tag : Text)
    {attributes : Attributes} (children : List Node) {directive : Text} {loop : Loop}
    (hbranch : ∀ branch ∈ [Directive.whenTrue, .elseWhen, .otherwise],
      branch.name ∉ attributes.names)
    (hdirective : attributes.get? Directive.forEach.name = some directive)
    (hloop : Loop.parse directive = .ok loop) :
    let whole := renderNodes (app.instantiate remaining) scope [.element tag attributes children]
    let round (entry : Value × Value) := renderNodes (app.instantiate remaining)
      (loop.inner scope entry) [.element tag (dropLoop attributes) children]
    (∀ items, scope.evaluate loop.source = .ok (.list items) →
      Unrolls whole round (items.zipIdx.map fun item => (item.1, .ofNat item.2))) ∧
    (∀ fields, scope.evaluate loop.source = .ok (.map fields) →
      Unrolls whole round (fields.map fun field => (field.2, .string field.1))) ∧
    (∀ value, scope.evaluate loop.source = .ok value → (∀ items, value ≠ .list items) →
      (∀ fields, value ≠ .map fields) →
      whole = throw (.notIterable loop.source value.kind)) ∧
    (∀ value, scope.evaluate loop.source = .ok value → value = .list [] ∨ value = .map [] →
      whole = pure []) ∧
    ∀ error, scope.evaluate loop.source = .error error → whole = throw error := by
  intro whole round
  have hwhole : whole = _ := renderNodes_forEach (app.instantiate remaining) scope children
    hbranch hdirective hloop
  refine ⟨fun items hitems => ?_, fun fields hfields => ?_, fun value hvalue hlist hmap => ?_,
    fun value hvalue hempty => ?_, fun error herror => ?_⟩
  · exact unrolls_of_entries _ scope children hbranch hdirective hloop hitems rfl
  · exact unrolls_of_entries _ scope children hbranch hdirective hloop hfields rfl
  · have hnone : Loop.entriesOf? value = none := by
      cases value with
      | list items => exact absurd rfl (hlist items)
      | map fields => exact absurd rfl (hmap fields)
      | null | bool _ | number _ | string _ => rfl
    rw [hwhole, Loop.entries, hvalue, Outcome.ok_bind, hnone]
    rfl
  · rw [hwhole, Loop.entries, hvalue, Outcome.ok_bind]
    rcases hempty with rfl | rfl
    · rfl
    · rfl
  · rw [hwhole, Loop.entries, herror]
    rfl

theorem renderNodes_unrolls_keyed :
    let counter : Setup := fun runs properties =>
      Fields.insert "n".toList (.ofNat runs) properties
    let app := (App.ofMethods .empty).register "x-a".toList
      (.markup "<i>{{ t }}{{ n }}</i>".toList) (some counter)
    let directive := "(x, i) in xs".toList
    let loop : Loop := ⟨"x".toList, some "i".toList, "xs".toList⟩
    let bare : Attributes := ⟨[(":t".toList, "x".toList)], by decide⟩
    let attributes : Attributes := ⟨[(Directive.forEach.name, directive),
      (":key".toList, "i".toList), (":t".toList, "x".toList)], by decide⟩
    let items : List Value := [.string "a".toList, .string "b".toList]
    let scope : Scope := .ofBindings [("xs".toList, .list items)] .empty
    let whole := renderNodes (app.instantiate 1) scope [.element "x-a".toList attributes []]
    let round (entry : Value × Value) :=
      renderNodes (app.instantiate 1) (loop.inner scope entry) [.element "x-a".toList bare []]
    (∀ branch ∈ [Directive.whenTrue, .elseWhen, .otherwise], branch.name ∉ attributes.names) ∧
    attributes.get? Directive.forEach.name = some directive ∧ Loop.parse directive = .ok loop ∧
    scope.evaluate loop.source = .ok (.list items) ∧
    Unrolls whole round [(.string "a".toList, .ofNat 0), (.string "b".toList, .ofNat 1)] ∧
    (whole.run .empty).1.toOption.map Markup.serializeNodes =
      some "<i>a1</i><i>b2</i>".toList := by
  intro counter app directive loop bare attributes items scope whole round
  have hbranch : ∀ branch ∈ [Directive.whenTrue, .elseWhen, .otherwise],
      branch.name ∉ attributes.names := by decide
  have hdirective : attributes.get? Directive.forEach.name = some directive := rfl
  have hloop : Loop.parse directive = .ok loop := by
    apply Outcome.eq_ok_of_toOption
    decide +kernel
  have hvalue : scope.evaluate loop.source = .ok (.list items) := by rfl
  have hbare : dropLoop attributes = bare := by decide
  have hunrolls := (renderNodes_unrolls app 1 scope "x-a".toList [] hbranch hdirective
    hloop).1 items hvalue
  rw [hbare] at hunrolls
  exact ⟨hbranch, hdirective, hloop, hvalue, hunrolls, by decide +kernel⟩

end Engine

end HtmlTemplate
