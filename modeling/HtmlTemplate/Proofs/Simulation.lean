import HtmlTemplate.Proofs.Binding
import HtmlTemplate.Proofs.Sources
import HtmlTemplate.Template.Host
/-!
Hosts that answer alike.  A relation between the steps of two hosts that sequences respect, and that
holds of their answers, holds of whatever nodes are rendered by them.  Statements about two runs of
a render are instances of this, and so is the equality of the engine with its host.
-/

namespace HtmlTemplate

/-! ### What is required of nodes -/

/-- The expressions written in some nodes satisfy `P`, and where not every text does, no value comes
to stand where an expression is read. -/
structure Writes (P : Text → Prop) (nodes : List Node) : Prop where
  sources : ∀ source ∈ Node.sourcesAmong nodes, P source
  settled : (∀ text, P text) ∨
    AllElements (fun tag attributes =>
      isComponentTag tag = false → (Engine.prepared attributes).IsSettled) nodes

namespace Writes

variable {P : Text → Prop} {nodes : List Node} {node : Node}

theorem of_forall (h : ∀ text, P text) (nodes : List Node) : Writes P nodes :=
  ⟨fun source _ => h source, .inl h⟩

theorem head (h : Writes P (node :: nodes)) : Writes P [node] where
  sources source hsource := by
    apply h.sources
    rw [Node.sourcesAmong, Node.sourcesAmong, List.append_nil] at hsource
    rw [Node.sourcesAmong]
    exact List.mem_append_left _ hsource
  settled := h.settled.imp id fun hall => hall.of_mem (List.mem_cons_self ..)

theorem tail (h : Writes P (node :: nodes)) : Writes P nodes where
  sources source hsource := by
    apply h.sources
    rw [Node.sourcesAmong]
    exact List.mem_append_right _ hsource
  settled := h.settled.imp id fun hall => hall.of_subset (List.subset_cons_self ..)

theorem children {tag : Text} {attributes : Attributes} {children : List Node}
    (h : Writes P [.element tag attributes children]) : Writes P children where
  sources source hsource := by
    apply h.sources
    rw [Node.sourcesAmong, Node.sources]
    exact List.mem_append_left _ (List.mem_append_right _ hsource)
  settled := h.settled.imp id fun hall => hall.children (List.mem_singleton_self _)

theorem entry {tag name value source : Text} {attributes : Attributes} {children : List Node}
    (h : Writes P [.element tag attributes children])
    (hentry : (name, value) ∈ attributes.entries)
    (hsource : (AttributeKind.ofName name).source? value = some source) : P source := by
  apply h.sources
  rw [Node.sourcesAmong, Node.sources, Attributes.sources]
  refine List.mem_append_left _ (List.mem_append_left _ ?_)
  exact List.mem_filterMap.mpr ⟨(name, value), hentry, hsource⟩

theorem piece {markup source : Text} (h : Writes P [.text markup])
    (hsource : .expression source ∈ Mustache.pieces markup) : P (Markup.unescapeText source) := by
  apply h.sources
  rw [Node.sourcesAmong, Node.sources]
  refine List.mem_append_left _ ?_
  exact List.mem_filterMap.mpr ⟨.expression source, hsource, rfl⟩

theorem get? {tag name value source : Text} {attributes : Attributes} {children : List Node}
    (h : Writes P [.element tag attributes children]) (hget : attributes.get? name = some value)
    (hsource : (AttributeKind.ofName name).source? value = some source) : P source :=
  h.entry (Fields.mem_of_get? hget) hsource

theorem condition (h : Writes P [node]) {chain : Chain} {condition : Text}
    (hcondition : chain.condition? (Branch.ofNode? node) = some condition) : P condition := by
  cases node with
  | text markup => cases hcondition
  | comment content => cases hcondition
  | element tag attributes children =>
      simp only [Branch.ofNode?, Branch.ofAttributes?] at hcondition
      split at hcondition
      · next found hfound =>
          cases hcondition
          exact h.get? hfound rfl
      · split at hcondition
        · next found hfound =>
            rw [Chain.condition?] at hcondition
            split at hcondition <;> cases hcondition
            exact h.get? hfound rfl
        · split at hcondition <;> cases hcondition

end Writes

namespace Engine

variable {attributes : Attributes} {entry : Text × Text}

theorem mem_entries_of_mem_dropEvents
    (h : entry ∈ (dropEvents (Branch.strip attributes)).entries) : entry ∈ attributes.entries :=
  Branch.mem_entries_of_mem_strip (Attributes.mem_entries_of_mem_retain h)

theorem mem_entries_of_mem_prepared (h : entry ∈ (prepared attributes).entries) :
    entry ∈ attributes.entries := by
  simp only [prepared] at h
  split at h
  · have hkey := Attributes.mem_entries_of_mem_remove (Attributes.mem_entries_of_mem_remove h)
    exact mem_entries_of_mem_dropEvents (Attributes.mem_entries_of_mem_remove hkey)
  · exact mem_entries_of_mem_dropEvents h

end Engine

/-! ### Hosts step by step -/

namespace Host

variable {m n : Type → Type} [Monad m] [Monad n]

/-- Sequences of steps respect `R`, and the hosts answer with related steps: to an expression with
`P` in scopes related by `C`, to an instantiation, and where they fail. -/
structure Related (R : (α : Type) → m α → n α → Prop) (C : Scope → Scope → Prop)
    (P : Text → Prop) (first : Host m) (second : Host n) : Prop where
  pure : ∀ {α : Type} (a : α), R α (pure a) (pure a)
  bind : ∀ {α β : Type} {x : m α} {y : n α} {f : α → m β} {g : α → n β},
    R α x y → (∀ a, R β (f a) (g a)) → R β (x >>= f) (y >>= g)
  fail : ∀ {α : Type} (error : RenderError), R α (first.fail error) (second.fail error)
  evaluate : ∀ {s t : Scope} {source : Text}, C s t → P source →
    R Value (first.evaluate s source) (second.evaluate t source)
  instantiate : ∀ (name : Text) (properties : Bindings),
    R (List Node) (first.instantiate name properties) (second.instantiate name properties)
  extend : ∀ {s t : Scope} (bindings : Bindings), C s t →
    C (s.extendWith bindings) (t.extendWith bindings)

namespace Related

variable {R : (α : Type) → m α → n α → Prop} {C : Scope → Scope → Prop} {P : Text → Prop}
  {first : Host m} {second : Host n} (h : Related R C P first second) {s t : Scope}

include h

theorem decide (hst : C s t) {chain : Chain} {branch : Option Branch}
    (hbranch : ∀ condition, chain.condition? branch = some condition → P condition) :
    R (Bool × Chain) (first.decide s chain branch) (second.decide t chain branch) := by
  unfold Host.decide
  cases hcondition : chain.condition? branch with
  | none => exact h.pure _
  | some condition => exact h.bind (h.evaluate hst (hbranch condition hcondition)) fun _ => h.pure _

theorem resolveFrom (hst : C s t) {branches : List (Option Branch)}
    (hbranches : ∀ branch ∈ branches, ∀ (chain : Chain) condition,
      chain.condition? branch = some condition → P condition) (chain : Chain) :
    R (List Bool) (first.resolveFrom s chain branches) (second.resolveFrom t chain branches) := by
  induction branches generalizing chain with
  | nil => exact h.pure []
  | cons branch branches ih =>
      rw [Host.resolveFrom, Host.resolveFrom]
      refine h.bind (h.decide hst (hbranches branch (List.mem_cons_self ..) chain)) fun answer => ?_
      have hrest := ih (fun other hother => hbranches other (List.mem_cons_of_mem _ hother)) answer.2
      exact h.bind hrest fun others => h.pure _

theorem renderPieces (hst : C s t) {pieces : List Mustache.Piece}
    (hpieces : ∀ source, .expression source ∈ pieces → P (Markup.unescapeText source)) :
    R Text (first.renderPieces s pieces) (second.renderPieces t pieces) := by
  induction pieces with
  | nil => exact h.pure []
  | cons piece pieces ih =>
      have hrest := ih fun source hsource => hpieces source (List.mem_cons_of_mem _ hsource)
      cases piece with
      | literal text => exact h.bind hrest fun others => h.pure _
      | expression source =>
          have hsource := hpieces source (List.mem_cons_self ..)
          exact h.bind (h.evaluate hst hsource) fun value => h.bind hrest fun others => h.pure _

/-- What is required of the bindings that are still to be evaluated is kept by each of them: a value
that takes the place of an expression is an expression with `P` itself. -/
theorem bindAll (hst : C s t) {names : List Text} {attributes : Attributes}
    (hnodup : names.Nodup)
    (hsettled : (∀ text, P text) ∨ names.Pairwise fun name later =>
      AttributeKind.target? name = some later → AttributeKind.target? later = none)
    (hsources : ∀ name ∈ names, ∀ target, AttributeKind.target? name = some target →
      P ((attributes.get? name).getD [])) :
    R Attributes (first.bindAll s attributes names) (second.bindAll t attributes names) := by
  induction names generalizing attributes with
  | nil => exact h.pure attributes
  | cons name names ih =>
      obtain ⟨hname, hnodup⟩ := List.nodup_cons.mp hnodup
      have hrest := hsettled.imp id fun hpairs => (List.pairwise_cons.mp hpairs).2
      rw [Host.bindAll, Host.bindAll]
      cases hkind : AttributeKind.ofName name with
      | binding target =>
          have htarget := AttributeKind.ofName_eq_binding_iff.mp hkind
          refine h.bind (h.evaluate hst (hsources name (List.mem_cons_self ..) target htarget))
            fun value => ?_
          cases hbound : Binding.assign attributes name target ((attributes.get? name).getD [])
            value with
          | error error => exact h.fail error
          | ok bound =>
              refine ih hnodup hrest fun key hkey found hfound => ?_
              rcases hsettled with hall | hpairs
              · exact hall _
              · have hne : key ≠ name := fun heq => hname (heq ▸ hkey)
                have hother : key ≠ target := by
                  rintro rfl
                  rw [(List.pairwise_cons.mp hpairs).1 key hkey htarget] at hfound
                  cases hfound
                rw [Binding.get?_assign hbound hne hother]
                exact hsources key (List.mem_cons_of_mem _ hkey) found hfound
      | literal | event | directive =>
          exact ih hnodup hrest fun key hkey => hsources key (List.mem_cons_of_mem _ hkey)

theorem propertiesFrom (hst : C s t) {entries : Fields Text}
    (hsources : ∀ entry ∈ entries, ∀ target, AttributeKind.ofName entry.1 = .binding target →
      P entry.2) (properties : Bindings) :
    R Bindings (first.propertiesFrom s properties entries)
      (second.propertiesFrom t properties entries) := by
  induction entries generalizing properties with
  | nil => exact h.pure properties
  | cons entry entries ih =>
      have hrest := ih fun other hother => hsources other (List.mem_cons_of_mem _ hother)
      obtain ⟨name, value⟩ := entry
      rw [Host.propertiesFrom, Host.propertiesFrom]
      cases hkind : AttributeKind.ofName name with
      | binding target =>
          have hsource := hsources (name, value) (List.mem_cons_self ..) target hkind
          exact h.bind (h.evaluate hst hsource) fun bound => hrest _
      | literal | event | directive => exact hrest _

theorem injected (hst : C s t) {attributes : Attributes}
    (hsource : ∀ source, attributes.get? Directive.html.name = some source → P source) :
    R (Option (List Node)) (first.injected s attributes) (second.injected t attributes) := by
  unfold Host.injected
  cases hget : attributes.get? Directive.html.name with
  | none => exact h.pure none
  | some source => exact h.bind (h.evaluate hst (hsource source hget)) fun value => h.pure _

theorem renderRounds {render : Scope → m (List Node)} {render' : Scope → n (List Node)}
    (hrender : ∀ {s t}, C s t → R (List Node) (render s) (render' t)) (hst : C s t) (loop : Loop)
    (entries : List (Value × Value)) :
    R (List Node) (Host.renderRounds render loop s entries)
      (Host.renderRounds render' loop t entries) := by
  induction entries with
  | nil => exact h.pure []
  | cons entry entries ih =>
      refine h.bind (hrender (h.extend (loop.bindings entry) hst)) fun nodes => ?_
      exact h.bind ih fun others => h.pure _

theorem renderLoop {render : Scope → m (List Node)} {render' : Scope → n (List Node)}
    (hrender : ∀ {s t}, C s t → R (List Node) (render s) (render' t)) (hst : C s t)
    {directive : Text} (hsource : ∀ loop, Loop.parse directive = .ok loop → P loop.source) :
    R (List Node) (first.renderLoop render directive s) (second.renderLoop render' directive t) := by
  unfold Host.renderLoop
  cases hloop : Loop.parse directive with
  | error error => exact h.fail error
  | ok loop =>
      refine h.bind (h.evaluate hst (hsource loop hloop)) fun value => ?_
      cases Loop.entriesOf? value with
      | none => exact h.fail _
      | some entries => exact h.renderRounds hrender hst loop entries

theorem resolve (hst : C s t) {nodes : List Node} (hnodes : Writes P nodes) :
    R (List Bool) (first.resolve s nodes) (second.resolve t nodes) := by
  refine h.resolveFrom hst (fun branch hbranch chain condition hcondition => ?_) .before
  induction nodes with
  | nil => cases hbranch
  | cons node nodes ih =>
      rcases List.mem_cons.mp hbranch with rfl | hmem
      · exact hnodes.head.condition hcondition
      · exact ih hnodes.tail hmem

variable {content : Scope → m (List Node)} {content' : Scope → n (List Node)}
  (hcontent : ∀ {s t}, C s t → R (List Node) (content s) (content' t))
  {tag : Text} {attributes : Attributes} {children : List Node}

include hcontent

theorem renderElement (hst : C s t) (hnode : Writes P [.element tag attributes children]) :
    R (List Node) (first.renderElement tag (Engine.prepared attributes) content s)
      (second.renderElement tag (Engine.prepared attributes) content' t) := by
  unfold Host.renderElement
  have hsource {name value source : Text}
      (hentry : (name, value) ∈ (Engine.prepared attributes).entries)
      (hsource : (AttributeKind.ofName name).source? value = some source) : P source :=
    hnode.entry (Engine.mem_entries_of_mem_prepared hentry) hsource
  refine h.bind (h.injected hst fun source hget => hsource (Fields.mem_of_get? hget) rfl)
    fun fragment => ?_
  extract_lets bare
  have hbare {entry : Text × Text} (hentry : entry ∈ bare.entries) :
      entry ∈ (Engine.prepared attributes).entries := Attributes.mem_entries_of_mem_remove hentry
  split
  · refine h.bind (h.propertiesFrom hst (fun entry hentry target hkind => ?_) []) fun properties =>
      h.instantiate tag properties
    exact hsource (hbare hentry) (by rw [hkind]; rfl)
  · next hcomponent =>
      have hsettled : (∀ text, P text) ∨ bare.IsSettled := by
        refine hnode.settled.imp id fun hall => ?_
        have hprepared := hall tag attributes (.here (List.mem_singleton_self _))
          (Bool.eq_false_iff.mpr hcomponent)
        exact hprepared.sublist (List.filter_sublist.map Prod.fst)
      refine h.bind (h.bindAll hst bare.nodup hsettled fun name hname target htarget => ?_)
        fun bound => ?_
      · obtain ⟨value, hget⟩ := Option.isSome_iff_exists.mp (Attributes.contains_iff.mpr hname)
        rw [hget, Option.getD_some]
        have hkind := AttributeKind.ofName_eq_binding_iff.mpr htarget
        exact hsource (hbare (Fields.mem_of_get? hget)) (by rw [hkind]; rfl)
      · refine h.bind ?_ fun nodes => h.pure _
        cases fragment with
        | none => exact hcontent hst
        | some nodes => exact h.pure nodes

theorem renderKept (hst : C s t) (hnode : Writes P [.element tag attributes children]) :
    R (List Node) (first.renderKept tag (Branch.strip attributes) content s)
      (second.renderKept tag (Branch.strip attributes) content' t) := by
  have hround {s t : Scope} (hst : C s t) := h.renderElement hcontent hst hnode
  unfold Host.renderKept
  simp only [Engine.prepared, Attributes.contains] at hround ⊢
  split
  · next hloop =>
      simp only [hloop] at hround
      exact hround hst
  · next directive hloop =>
      simp only [hloop] at hround
      refine h.renderLoop hround hst fun loop hparse => ?_
      have hentry := Engine.mem_entries_of_mem_dropEvents (Fields.mem_of_get? hloop)
      refine hnode.entry hentry ?_
      unfold Loop.parse at hparse
      split at hparse <;> cases hparse
      next hloop => exact Option.map_eq_some_iff.mpr ⟨loop, hloop, rfl⟩

end Related

/-! ### Hosts on nodes -/

mutual

theorem Related.renderNode {R : (α : Type) → m α → n α → Prop} {C : Scope → Scope → Prop}
    {P : Text → Prop} {first : Host m} {second : Host n} (h : Related R C P first second)
    {s t : Scope} (hst : C s t) (node : Node) (hnode : Writes P [node]) :
    R (List Node) (first.renderNode s node) (second.renderNode t node) := by
  cases node with
  | text markup =>
      rw [Host.renderNode, Host.renderNode]
      exact h.bind (h.renderPieces hst fun source => hnode.piece) fun text => h.pure _
  | comment content =>
      rw [Host.renderNode, Host.renderNode]
      exact h.pure _
  | element tag attributes children =>
      rw [Host.renderNode, Host.renderNode]
      refine h.renderKept (fun hinner => ?_) hst hnode
      refine h.bind (h.resolve hinner hnode.children) fun kept => ?_
      exact h.renderChosen hinner kept children hnode.children
termination_by sizeOf node

theorem Related.renderChosen {R : (α : Type) → m α → n α → Prop} {C : Scope → Scope → Prop}
    {P : Text → Prop} {first : Host m} {second : Host n} (h : Related R C P first second)
    {s t : Scope} (hst : C s t) (kept : List Bool) (nodes : List Node) (hnodes : Writes P nodes) :
    R (List Node) (first.renderChosen s kept nodes) (second.renderChosen t kept nodes) := by
  cases nodes with
  | nil =>
      rw [Host.renderChosen, Host.renderChosen]
      exact h.pure []
  | cons node nodes =>
      rw [Host.renderChosen, Host.renderChosen]
      have hrest := h.renderChosen hst kept.tail nodes hnodes.tail
      split
      · exact h.bind (h.renderNode hst node hnodes.head) fun nodes =>
          h.bind hrest fun others => h.pure _
      · exact h.bind (h.pure []) fun nodes => h.bind hrest fun others => h.pure _
termination_by sizeOf nodes

end

/-- Nodes that write expressions with `P` are rendered alike by related hosts in related scopes. -/
theorem Related.renderNodes {R : (α : Type) → m α → n α → Prop} {C : Scope → Scope → Prop}
    {P : Text → Prop} {first : Host m} {second : Host n} (h : Related R C P first second)
    {s t : Scope} (hst : C s t) {nodes : List Node} (hnodes : Writes P nodes) :
    R (List Node) (first.renderNodes s nodes) (second.renderNodes t nodes) := by
  unfold Host.renderNodes
  exact h.bind (h.resolve hst hnodes) fun kept => h.renderChosen hst kept nodes hnodes

end Host

end HtmlTemplate
