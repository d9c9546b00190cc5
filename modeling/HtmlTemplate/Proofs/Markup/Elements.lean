import HtmlTemplate.Markup.Node
/-!
The elements that occur in a tree, at any depth.
-/

namespace HtmlTemplate

/-- An element with this tag and these attributes occurs among some nodes or deeper. -/
inductive HasElement : List Node → Text → Attributes → Prop where
  | here {nodes children : List Node} {tag : Text} {attributes : Attributes} :
      Node.element tag attributes children ∈ nodes → HasElement nodes tag attributes
  | deeper {nodes children : List Node} {tag outer : Text} {attributes others : Attributes} :
      Node.element outer others children ∈ nodes → HasElement children tag attributes →
      HasElement nodes tag attributes

namespace HasElement

mutual

/-- The elements of a node, itself included, each without its children. -/
def among : Node → List (Text × Attributes)
  | .text _ => []
  | .comment _ => []
  | .element tag attributes children => (tag, attributes) :: amongNodes children

def amongNodes : List Node → List (Text × Attributes)
  | [] => []
  | node :: nodes => among node ++ amongNodes nodes

end

theorem mem_amongNodes_iff {nodes : List Node} {entry : Text × Attributes} :
    entry ∈ amongNodes nodes ↔ ∃ node ∈ nodes, entry ∈ among node := by
  induction nodes with
  | nil => simp [amongNodes]
  | cons node nodes ih => simp [amongNodes, ih]

theorem mem_amongNodes {nodes : List Node} {tag : Text} {attributes : Attributes}
    (h : HasElement nodes tag attributes) : (tag, attributes) ∈ amongNodes nodes := by
  induction h with
  | here hmem => exact mem_amongNodes_iff.mpr ⟨_, hmem, by simp [among]⟩
  | deeper hmem _ ih => exact mem_amongNodes_iff.mpr ⟨_, hmem, by simp [among, ih]⟩

theorem of_mem_amongNodes {nodes : List Node} {tag : Text} {attributes : Attributes}
    (h : (tag, attributes) ∈ amongNodes nodes) : HasElement nodes tag attributes := by
  obtain ⟨node, hnode, h⟩ := mem_amongNodes_iff.mp h
  cases node with
  | text markup =>
      rw [among] at h
      cases h
  | comment content =>
      rw [among] at h
      cases h
  | element outer others children =>
      rw [among] at h
      rcases List.mem_cons.mp h with heq | h
      · cases heq
        exact .here hnode
      · exact .deeper hnode (of_mem_amongNodes h)
termination_by sizeOf nodes
decreasing_by
  have := List.sizeOf_lt_of_mem hnode
  simp only [Node.element.sizeOf_spec] at this
  omega

instance (nodes : List Node) (tag : Text) (attributes : Attributes) :
    Decidable (HasElement nodes tag attributes) :=
  decidable_of_iff ((tag, attributes) ∈ amongNodes nodes) ⟨of_mem_amongNodes, mem_amongNodes⟩

end HasElement

/-- What holds of all elements of a tree. -/
def AllElements (R : Text → Attributes → Prop) (nodes : List Node) : Prop :=
  ∀ tag attributes, HasElement nodes tag attributes → R tag attributes

namespace AllElements

variable {R : Text → Attributes → Prop} {nodes : List Node}

theorem nil : AllElements R [] := by
  intro tag attributes h
  cases h with
  | here hmem => cases hmem
  | deeper hmem _ => cases hmem

theorem text (markup : Text) : AllElements R [.text markup] := by
  intro tag attributes h
  cases h with
  | here hmem => cases List.mem_singleton.mp hmem
  | deeper hmem _ => cases List.mem_singleton.mp hmem

theorem comment (content : Text) : AllElements R [.comment content] := by
  intro tag attributes h
  cases h with
  | here hmem => cases List.mem_singleton.mp hmem
  | deeper hmem _ => cases List.mem_singleton.mp hmem

theorem element {tag : Text} {attributes : Attributes} (h : R tag attributes)
    (hnodes : AllElements R nodes) : AllElements R [.element tag attributes nodes] := by
  intro tag' attributes' hoccurs
  cases hoccurs with
  | here hmem =>
      cases List.mem_singleton.mp hmem
      exact h
  | deeper hmem hdeeper =>
      cases List.mem_singleton.mp hmem
      exact hnodes tag' attributes' hdeeper

theorem append {others : List Node} (h : AllElements R nodes) (hothers : AllElements R others) :
    AllElements R (nodes ++ others) := by
  intro tag attributes hoccurs
  cases hoccurs with
  | here hmem =>
      rcases List.mem_append.mp hmem with hmem | hmem
      · exact h tag attributes (.here hmem)
      · exact hothers tag attributes (.here hmem)
  | deeper hmem hdeeper =>
      rcases List.mem_append.mp hmem with hmem | hmem
      · exact h tag attributes (.deeper hmem hdeeper)
      · exact hothers tag attributes (.deeper hmem hdeeper)

theorem of_subset {others : List Node} (h : AllElements R nodes) (hsubset : others ⊆ nodes) :
    AllElements R others := by
  intro tag attributes hoccurs
  cases hoccurs with
  | here hmem => exact h tag attributes (.here (hsubset hmem))
  | deeper hmem hdeeper => exact h tag attributes (.deeper (hsubset hmem) hdeeper)

theorem of_mem {node : Node} (h : AllElements R nodes) (hmem : node ∈ nodes) :
    AllElements R [node] :=
  h.of_subset (by simpa using hmem)

theorem children {tag : Text} {attributes : Attributes} {children : List Node}
    (h : AllElements R nodes) (hmem : Node.element tag attributes children ∈ nodes) :
    AllElements R children := by
  intro tag' attributes' hoccurs
  exact h tag' attributes' (.deeper hmem hoccurs)

end AllElements

end HtmlTemplate
