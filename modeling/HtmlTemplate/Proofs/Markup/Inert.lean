import HtmlTemplate.Markup.Document
import HtmlTemplate.Proofs.Markup.Building
/-!
Trees whose texts are in the written form, except those that are children of a script or a style.
The tree builder comes to such trees only, whatever its source is.
-/

namespace HtmlTemplate

/-- A text occurs among some nodes or deeper, as a child of `owner`; the nodes themselves are the
children of `parent`. -/
inductive HasText : Option Text → List Node → Option Text → Text → Prop where
  | child {parent : Option Text} {nodes : List Node} {markup : Text} :
      Node.text markup ∈ nodes → HasText parent nodes parent markup
  | deeper {parent owner : Option Text} {nodes children : List Node} {tag markup : Text}
      {attributes : Attributes} : Node.element tag attributes children ∈ nodes →
      HasText (some tag) children owner markup → HasText parent nodes owner markup

namespace HasText

mutual

/-- The texts of a node, each with the element that it is a child of. -/
def among (parent : Option Text) : Node → List (Option Text × Text)
  | .text markup => [(parent, markup)]
  | .comment _ => []
  | .element tag _ children => amongNodes (some tag) children

def amongNodes (parent : Option Text) : List Node → List (Option Text × Text)
  | [] => []
  | node :: nodes => among parent node ++ amongNodes parent nodes

end

theorem mem_amongNodes_iff {parent : Option Text} {nodes : List Node} {entry : Option Text × Text} :
    entry ∈ amongNodes parent nodes ↔ ∃ node ∈ nodes, entry ∈ among parent node := by
  induction nodes with
  | nil => simp [amongNodes]
  | cons node nodes ih => simp [amongNodes, ih]

theorem mem_amongNodes {parent owner : Option Text} {nodes : List Node} {markup : Text}
    (h : HasText parent nodes owner markup) : (owner, markup) ∈ amongNodes parent nodes := by
  induction h with
  | child hmem => exact mem_amongNodes_iff.mpr ⟨_, hmem, by simp [among]⟩
  | deeper hmem _ ih => exact mem_amongNodes_iff.mpr ⟨_, hmem, by rwa [among]⟩

theorem of_mem_amongNodes {parent owner : Option Text} {nodes : List Node} {markup : Text}
    (h : (owner, markup) ∈ amongNodes parent nodes) : HasText parent nodes owner markup := by
  obtain ⟨node, hnode, h⟩ := mem_amongNodes_iff.mp h
  cases node with
  | text markup' =>
      rw [among, List.mem_singleton] at h
      cases h
      exact .child hnode
  | comment content =>
      rw [among] at h
      cases h
  | element tag attributes children =>
      rw [among] at h
      exact .deeper hnode (of_mem_amongNodes h)
termination_by sizeOf nodes
decreasing_by
  have := List.sizeOf_lt_of_mem hnode
  simp only [Node.element.sizeOf_spec] at this
  omega

instance (parent owner : Option Text) (nodes : List Node) (markup : Text) :
    Decidable (HasText parent nodes owner markup) :=
  decidable_of_iff ((owner, markup) ∈ amongNodes parent nodes) ⟨of_mem_amongNodes, mem_amongNodes⟩

end HasText

/-- All texts are in the written form, but for the children of scripts and styles. -/
def Inert (parent : Option Text) (nodes : List Node) : Prop :=
  ∀ owner markup, HasText parent nodes owner markup → owner.any isVerbatimTag = false →
    Markup.IsWritten markup

namespace Inert

variable {parent : Option Text} {nodes : List Node}

theorem nil : Inert parent [] := by
  intro owner markup h
  cases h with
  | child hmem => cases hmem
  | deeper hmem _ => cases hmem

theorem text {markup : Text} (h : parent.any isVerbatimTag = false → Markup.IsWritten markup) :
    Inert parent [.text markup] := by
  intro owner markup' hoccurs howner
  cases hoccurs with
  | child hmem =>
      cases List.mem_singleton.mp hmem
      exact h howner
  | deeper hmem _ => cases List.mem_singleton.mp hmem

theorem comment (content : Text) : Inert parent [.comment content] := by
  intro owner markup h
  cases h with
  | child hmem => cases List.mem_singleton.mp hmem
  | deeper hmem _ => cases List.mem_singleton.mp hmem

theorem element {tag : Text} {attributes : Attributes} (h : Inert (some tag) nodes) :
    Inert parent [.element tag attributes nodes] := by
  intro owner markup hoccurs howner
  cases hoccurs with
  | child hmem => cases List.mem_singleton.mp hmem
  | deeper hmem hdeeper =>
      cases List.mem_singleton.mp hmem
      exact h owner markup hdeeper howner

theorem append {others : List Node} (h : Inert parent nodes) (hothers : Inert parent others) :
    Inert parent (nodes ++ others) := by
  intro owner markup hoccurs howner
  cases hoccurs with
  | child hmem =>
      rcases List.mem_append.mp hmem with hmem | hmem
      · exact h _ markup (.child hmem) howner
      · exact hothers _ markup (.child hmem) howner
  | deeper hmem hdeeper =>
      rcases List.mem_append.mp hmem with hmem | hmem
      · exact h owner markup (.deeper hmem hdeeper) howner
      · exact hothers owner markup (.deeper hmem hdeeper) howner

theorem of_subset {others : List Node} (h : Inert parent nodes) (hsubset : others ⊆ nodes) :
    Inert parent others := by
  intro owner markup hoccurs howner
  cases hoccurs with
  | child hmem => exact h _ markup (.child (hsubset hmem)) howner
  | deeper hmem hdeeper => exact h owner markup (.deeper (hsubset hmem) hdeeper) howner

theorem of_mem {node : Node} (h : Inert parent nodes) (hmem : node ∈ nodes) :
    Inert parent [node] :=
  h.of_subset (by simpa using hmem)

theorem children {tag : Text} {attributes : Attributes} {children : List Node}
    (h : Inert parent nodes) (hmem : Node.element tag attributes children ∈ nodes) :
    Inert (some tag) children := by
  intro owner markup hoccurs howner
  exact h owner markup (.deeper hmem hoccurs) howner

/-- Nodes that may stand under a parent other than a script or a style may stand anywhere. -/
theorem of_parent {parent' : Option Text} (h : Inert parent nodes)
    (hparent : parent.any isVerbatimTag = false) : Inert parent' nodes := by
  intro owner markup hoccurs howner
  cases hoccurs with
  | child hmem => exact h parent markup (.child hmem) hparent
  | deeper hmem hdeeper => exact h owner markup (.deeper hmem hdeeper) howner

theorem isWritten_of_mem {markup : Text} (h : Inert parent nodes) (hmem : .text markup ∈ nodes)
    (hparent : parent.any isVerbatimTag = false) : Markup.IsWritten markup :=
  h parent markup (.child hmem) hparent

end Inert

namespace Markup

/-! ### The tree builder -/

theorem inert_appendText {parent : Option Text} {nodes : List Node} {text : Text}
    (h : Inert parent nodes) (htext : parent.any isVerbatimTag = false → IsWritten text) :
    Inert parent (Forest.appendText text nodes) := by
  unfold Forest.appendText
  split
  · next previous hlast =>
      have hmem : Node.text previous ∈ nodes := List.mem_of_getLast? hlast
      refine (h.of_subset (List.dropLast_subset nodes)).append (Inert.text ?_)
      intro hparent
      exact (h.isWritten_of_mem hmem hparent).append (htext hparent)
  · exact h.append (Inert.text htext)

theorem keeps_inert (tokens : List Token) : Forest.Keeps tokens Inert where
  nil _ := Inert.nil
  element _ _ hnodes hchildren := hnodes.append (Inert.element hchildren)
  comment content hnodes := hnodes.append (Inert.comment content)
  text _ htext hnodes := inert_appendText hnodes htext

theorem inert_parse (source : Text) : Inert none (parse source) :=
  (keeps_inert (tokens source)).ofTokens

end Markup

namespace Document

theorem element?_eq_some {node : Node} {e : Element} (h : node.element? = some e) :
    node = .element e.tag e.attributes e.children := by
  cases node with
  | element tag attributes children =>
      cases h
      rfl
  | text markup => cases h
  | comment content => cases h

theorem mem_of_mem_substantial {nodes : List Node} {node : Node} (h : node ∈ substantial nodes) :
    node ∈ nodes :=
  (List.mem_filter.mp h).1

theorem mem_of_only {nodes : List Node} {node : Node} (h : only nodes = .ok node) :
    node ∈ nodes := by
  unfold only at h
  split at h
  · cases h
  · next found hfound =>
      cases h
      exact mem_of_mem_substantial (by simp [hfound])
  · cases h

theorem inert_children {parent parent' : Option Text} {nodes : List Node} {node : Node}
    {e : Element} (h : Inert parent nodes) (hmem : node ∈ nodes) (he : node.element? = some e)
    (htag : isVerbatimTag e.tag = false) : Inert parent' e.children := by
  rw [element?_eq_some he] at hmem
  exact (h.children hmem).of_parent htag

theorem htmlElement?_eq_some {document : Document} {e : Element}
    (h : document.htmlElement? = some e) :
    (∃ node ∈ document.nodes, node.element? = some e) ∧ isVerbatimTag e.tag = false := by
  unfold htmlElement? at h
  split at h
  · next node hnode =>
      obtain ⟨he, htag⟩ := Option.filter_eq_some_iff.mp h
      rw [decide_eq_true_eq] at htag
      rw [htag]
      exact ⟨⟨node, mem_of_mem_substantial (by simp [hnode]), he⟩, by decide⟩
  · cases h

theorem bodyOf?_eq_some {nodes : List Node} {e : Element} (h : bodyOf? nodes = some e) :
    (∃ node ∈ nodes, node.element? = some e) ∧ isVerbatimTag e.tag = false := by
  have htag := List.find?_some h
  rw [decide_eq_true_eq] at htag
  rw [htag]
  obtain ⟨node, hmem, he⟩ := List.mem_filterMap.mp (List.mem_of_find?_eq_some h)
  exact ⟨⟨node, hmem, he⟩, by decide⟩

theorem componentTemplate?_eq_some {nodes : List Node} {e : Element}
    (h : componentTemplate? nodes = some e) :
    (∃ node ∈ nodes, node.element? = some e) ∧ isVerbatimTag e.tag = false := by
  simp only [componentTemplate?] at h
  split at h
  · split at h
    · next template hfilter =>
        cases h
        have hmem := List.mem_singleton_self e
        rw [← hfilter] at hmem
        obtain ⟨hmem, htag⟩ := List.mem_filter.mp hmem
        rw [decide_eq_true_eq] at htag
        rw [htag]
        simp only [List.mem_filterMap, List.mem_map, id] at hmem
        obtain ⟨found, ⟨node, hnode, rfl⟩, he⟩ := hmem
        exact ⟨⟨node, mem_of_mem_substantial hnode, he⟩, by decide⟩
    · cases h
  · cases h

theorem inert_of_sectionNodes {html : Element} {nodes : List Node}
    (h : Inert none html.children) (hnodes : sectionNodes html = .ok nodes) : Inert none nodes := by
  obtain ⟨node, honly, hrest⟩ := Outcome.bind_eq_ok_iff.mp hnodes
  split at hrest
  · cases hrest
  · next part hpart =>
      split at hrest
      · next htag =>
          cases hrest
          refine inert_children h (mem_of_only honly) hpart ?_
          simp only [Bool.or_eq_true, decide_eq_true_eq] at htag
          rcases htag with htag | htag <;> rw [htag] <;> decide
      · cases hrest

theorem inert_of_outerNodes {document : Document} {nodes : List Node}
    (h : Inert none document.nodes) (hnodes : document.outerNodes = .ok nodes) :
    Inert none nodes := by
  unfold outerNodes at hnodes
  split at hnodes
  · next html hhtml =>
      obtain ⟨⟨node, hmem, he⟩, htag⟩ := htmlElement?_eq_some hhtml
      exact inert_of_sectionNodes (inert_children h hmem he htag) hnodes
  · cases hnodes
    exact h

theorem inert_of_root {document : Document} {node : Node} (h : Inert none document.nodes)
    (hroot : document.root = .ok node) : Inert none [node] := by
  unfold root at hroot
  split at hroot
  · cases hroot
  · obtain ⟨nodes, houter, hroot⟩ := Outcome.bind_eq_ok_iff.mp hroot
    have hnodes := inert_of_outerNodes h houter
    split at hroot
    · next template htemplate =>
        obtain ⟨⟨found, hmem, he⟩, htag⟩ := componentTemplate?_eq_some htemplate
        have hchildren : Inert none template.children := inert_children hnodes hmem he htag
        exact hchildren.of_mem (mem_of_only hroot)
    · exact hnodes.of_mem (mem_of_only hroot)

end Document

namespace Markup

theorem inert_parseFragment (source : Text) : Inert none (parseFragment source) := by
  have h := inert_parse source
  simp only [parseFragment]
  split
  · exact h
  · next html hhtml =>
      obtain ⟨⟨node, hmem, he⟩, htag⟩ := Document.htmlElement?_eq_some hhtml
      have hchildren : Inert none html.children := Document.inert_children h hmem he htag
      cases hbody : Document.bodyOf? html.children with
      | none => exact hchildren
      | some body =>
          obtain ⟨⟨found, hfound, hbody⟩, htag⟩ := Document.bodyOf?_eq_some hbody
          exact Document.inert_children hchildren hfound hbody htag

end Markup

end HtmlTemplate
