import Mathlib.Logic.Relation
import HtmlTemplate.Proofs.Markup.Inert
/-!
The root of a document does not depend on padding.  At each level where a root is looked for, the
only node apart from comments and blank texts is taken, so such nodes may come and go among the
nodes of the document, in its `html` element, in the head or body of that, and in the `template`
that is unwrapped.
-/

namespace HtmlTemplate

/-- Comments and blank texts. -/
inductive Node.IsPadding : Node → Prop where
  | comment (content : Text) : IsPadding (.comment content)
  | text {markup : Text} : Text.isBlankText markup = true → IsPadding (.text markup)

namespace Document

/-- One comment or blank text more. -/
inductive Padded : List Node → List Node → Prop where
  | insert {node : Node} (before after : List Node) : node.IsPadding →
      Padded (before ++ after) (before ++ node :: after)

/-- Nodes that differ in the children of one element, which has one of some tags. -/
inductive Within (tags : List Text) (R : List Node → List Node → Prop) :
    List Node → List Node → Prop where
  | children {tag : Text} {children children' : List Node} (before after : List Node)
      (attributes : Attributes) : tag ∈ tags → R children children' →
      Within tags R (before ++ .element tag attributes children :: after)
        (before ++ .element tag attributes children' :: after)

/-- Padding where a root is looked for: among the nodes themselves or in a `template`. -/
inductive RootPadded : List Node → List Node → Prop where
  | outer {nodes nodes' : List Node} : Padded nodes nodes' → RootPadded nodes nodes'
  | template {nodes nodes' : List Node} : Within ["template".toList] Padded nodes nodes' →
      RootPadded nodes nodes'

/-- Padding in an `html` element. -/
inductive HtmlPadded : List Node → List Node → Prop where
  | outer {nodes nodes' : List Node} : Padded nodes nodes' → HtmlPadded nodes nodes'
  | part {nodes nodes' : List Node} :
      Within ["head".toList, "body".toList] RootPadded nodes nodes' → HtmlPadded nodes nodes'

/-- One comment or blank text more, at any of the levels where a root is looked for. -/
inductive DocumentPadded : Document → Document → Prop where
  | outer {document document' : Document} : RootPadded document.nodes document'.nodes →
      DocumentPadded document document'
  | html {document document' : Document} :
      Within ["html".toList] HtmlPadded document.nodes document'.nodes →
      DocumentPadded document document'

/-- The list that the root of a document is taken from where there is no `template` to unwrap: the
nodes of the document, or those in the only part of its `html` element. -/
inductive IsOuter (document : Document) : List Node → Prop where
  | document : document.htmlElement? = none → IsOuter document document.nodes
  | part {html : Element} {tag : Text} {attributes : Attributes} {children : List Node} :
      document.htmlElement? = some html →
      substantial html.children = [.element tag attributes children] →
      tag = "head".toList ∨ tag = "body".toList → IsOuter document children

/-- The list that the root of a document is taken from. -/
inductive IsRootList (document : Document) : List Node → Prop where
  | plain {nodes : List Node} : IsOuter document nodes → componentTemplate? nodes = none →
      IsRootList document nodes
  | template {nodes : List Node} {template : Element} : IsOuter document nodes →
      componentTemplate? nodes = some template → IsRootList document template.children

variable {before after nodes nodes' : List Node} {tag : Text} {attributes : Attributes}

theorem isSubstantial_eq_false {node : Node} (h : node.IsPadding) : node.isSubstantial = false := by
  cases h with
  | comment content => rfl
  | text hblank => rw [Node.isSubstantial, hblank, Bool.not_true]

theorem substantial_eq_of_padded (h : Padded nodes nodes') :
    substantial nodes = substantial nodes' := by
  cases h with
  | insert before after hpadding =>
      simp [substantial, List.filter_append, isSubstantial_eq_false hpadding]

theorem substantial_append_element (before after : List Node) (tag : Text) (attributes : Attributes)
    (children : List Node) : substantial (before ++ .element tag attributes children :: after) =
      substantial before ++ .element tag attributes children :: substantial after := by
  rw [substantial, List.filter_append, List.filter_cons_of_pos (by rfl)]
  rfl

theorem only_eq_ok_iff {node : Node} : only nodes = .ok node ↔ substantial nodes = [node] := by
  rw [only]
  split <;> simp_all

theorem only_eq_error_of_length (h : 1 < (substantial nodes).length) :
    only nodes = .error (.severalRoots (substantial nodes).length) := by
  rw [only]
  split
  · next hnil =>
      rw [hnil] at h
      cases h
  · next node hnode =>
      rw [hnode] at h
      exact absurd h (Nat.lt_irrefl 1)
  · next hmany => rw [hmany]

/-- An element stands alone, or it is counted with others whatever is in it. -/
theorem substantial_eq_or_only_eq (before after : List Node) (tag : Text)
    (attributes : Attributes) :
    (∀ children, substantial (before ++ .element tag attributes children :: after) =
      [.element tag attributes children]) ∨
    ∃ count, ∀ children, only (before ++ .element tag attributes children :: after) =
      .error (.severalRoots count) := by
  by_cases halone : substantial before = [] ∧ substantial after = []
  · refine .inl fun children => ?_
    rw [substantial_append_element, halone.1, halone.2, List.nil_append]
  · refine .inr ⟨(substantial before).length + ((substantial after).length + 1),
      fun children => ?_⟩
    have hlength : (substantial (before ++ .element tag attributes children :: after)).length =
        (substantial before).length + ((substantial after).length + 1) := by
      rw [substantial_append_element, List.length_append, List.length_cons]
    rw [← hlength]
    refine only_eq_error_of_length ?_
    rw [← List.length_eq_zero_iff, ← List.length_eq_zero_iff] at halone
    omega

/-! ### The list that holds the root -/

/-- The root that is taken from a list, after a `template` in it is unwrapped. -/
def rootAmong (nodes : List Node) : Except DocumentError Node :=
  match componentTemplate? nodes with
  | some template => only template.children
  | none => only nodes

theorem componentTemplate?_eq_of_substantial (h : substantial nodes = substantial nodes') :
    componentTemplate? nodes = componentTemplate? nodes' := by
  rw [componentTemplate?, h]
  rfl

theorem only_eq_of_substantial (h : substantial nodes = substantial nodes') :
    only nodes = only nodes' := by
  rw [only, h]
  rfl

theorem rootAmong_eq_of_substantial (h : substantial nodes = substantial nodes') :
    rootAmong nodes = rootAmong nodes' := by
  rw [rootAmong, componentTemplate?_eq_of_substantial h, only_eq_of_substantial h]
  rfl

/-- Whether there is nothing but templates, scripts and styles. -/
def isComponent (nodes : List Node) : Bool :=
  ((substantial nodes).map Node.element?).all fun e =>
    e.any fun e => e.tag = "template".toList || isVerbatimTag e.tag

def templates (nodes : List Node) : List Element :=
  (((substantial nodes).map Node.element?).filterMap id).filter fun e => e.tag = "template".toList

theorem componentTemplate?_eq_some_iff {template : Element} :
    componentTemplate? nodes = some template ↔
      isComponent nodes = true ∧ templates nodes = [template] := by
  rw [componentTemplate?, isComponent, templates]
  split
  · next hcomponent =>
      split
      · next found hfound =>
          rw [hfound, List.singleton_inj, Option.some.injEq, and_iff_right hcomponent]
      · next hother =>
          refine iff_of_false (by simp) fun h => ?_
          exact hother template h.2
  · next hcomponent => exact iff_of_false (by simp) fun h => hcomponent h.1

theorem isComponent_append_template (before after : List Node) (attributes : Attributes)
    (children : List Node) :
    isComponent (before ++ .element "template".toList attributes children :: after) =
      (isComponent before && isComponent after) := by
  rw [isComponent, substantial_append_element, List.map_append, List.all_append]
  rfl

theorem templates_append_template (before after : List Node) (attributes : Attributes)
    (children : List Node) :
    templates (before ++ .element "template".toList attributes children :: after) =
      templates before ++ ⟨"template".toList, attributes, children⟩ :: templates after := by
  rw [templates, substantial_append_element, List.map_append, List.filterMap_append,
    List.filter_append]
  rfl

/-- What is in a `template` does not matter for whether it is unwrapped. -/
theorem componentTemplate?_append_template (before after : List Node) (attributes : Attributes) :
    (∀ children,
      componentTemplate? (before ++ .element "template".toList attributes children :: after) =
        some ⟨"template".toList, attributes, children⟩) ∨
    ∀ children,
      componentTemplate? (before ++ .element "template".toList attributes children :: after) =
        none := by
  by_cases h : (isComponent before && isComponent after) = true ∧
    templates before = [] ∧ templates after = []
  · obtain ⟨hcomponent, hbefore, hafter⟩ := h
    refine .inl fun children => componentTemplate?_eq_some_iff.mpr ?_
    rw [isComponent_append_template, templates_append_template, hbefore, hafter]
    exact ⟨hcomponent, rfl⟩
  · refine .inr fun children => Option.eq_none_iff_forall_not_mem.mpr fun template htemplate => h ?_
    obtain ⟨hcomponent, hone⟩ := componentTemplate?_eq_some_iff.mp htemplate
    rw [isComponent_append_template] at hcomponent
    rw [templates_append_template, List.append_eq_singleton_iff] at hone
    rcases hone with ⟨hbefore, hone⟩ | ⟨-, hnil⟩
    · exact ⟨hcomponent, hbefore, (List.cons_eq_cons.mp hone).2⟩
    · cases hnil

theorem componentTemplate?_of_substantial {children : List Node}
    (h : substantial nodes = [.element "template".toList attributes children]) :
    componentTemplate? nodes = some ⟨"template".toList, attributes, children⟩ := by
  rw [componentTemplate?, h]
  rfl

theorem componentTemplate?_append_of_ne (htag : tag ≠ "template".toList)
    (before after : List Node) (attributes : Attributes) (children children' : List Node) :
    componentTemplate? (before ++ .element tag attributes children :: after) =
      componentTemplate? (before ++ .element tag attributes children' :: after) := by
  simp only [componentTemplate?, substantial_append_element, List.map_append, List.map_cons,
    Node.element?, List.all_append, List.all_cons, Option.any_some, List.filterMap_append,
    List.filterMap_cons, id, List.filter_append, List.filter_cons, decide_eq_false htag,
    Bool.false_or, if_neg Bool.false_ne_true]

theorem rootAmong_eq_of_rootPadded (h : RootPadded nodes nodes') :
    rootAmong nodes = rootAmong nodes' := by
  cases h with
  | outer h => exact rootAmong_eq_of_substantial (substantial_eq_of_padded h)
  | template h =>
      cases h with
      | @children tag children children' before after attributes htag h =>
          cases List.mem_singleton.mp htag
          rcases componentTemplate?_append_template before after attributes with hsome | hnone
          · rw [rootAmong, rootAmong, hsome, hsome]
            exact only_eq_of_substantial (substantial_eq_of_padded h)
          · rw [rootAmong, rootAmong, hnone, hnone]
            rcases substantial_eq_or_only_eq before after "template".toList attributes with
              halone | ⟨count, honly⟩
            · have hsome := componentTemplate?_of_substantial (halone children)
              rw [hnone] at hsome
              cases hsome
            · exact (honly children).trans (honly children').symm

/-! ### The `html` element -/

theorem sectionNodes_eq_ok_iff {html : Element} : sectionNodes html = .ok nodes ↔
    ∃ tag attributes, substantial html.children = [.element tag attributes nodes] ∧
      (tag = "head".toList ∨ tag = "body".toList) := by
  rw [sectionNodes, Outcome.bind_eq_ok_iff]
  constructor
  · rintro ⟨node, honly, hnodes⟩
    split at hnodes
    · cases hnodes
    · next part hpart =>
        split at hnodes
        · next htag =>
            cases hnodes
            rw [element?_eq_some hpart] at honly
            exact ⟨part.tag, part.attributes, only_eq_ok_iff.mp honly, by simpa using htag⟩
        · cases hnodes
  · rintro ⟨tag, attributes, halone, htag⟩
    exact ⟨_, only_eq_ok_iff.mpr halone, if_pos (by simpa using htag)⟩

theorem sectionRoot_eq_of_htmlPadded {html html' : Element}
    (h : HtmlPadded html.children html'.children) :
    (sectionNodes html >>= rootAmong) = sectionNodes html' >>= rootAmong := by
  cases h with
  | outer h =>
      have honly := only_eq_of_substantial (substantial_eq_of_padded h)
      rw [sectionNodes, sectionNodes, honly]
  | part h =>
      obtain ⟨tag, attributes, nodes⟩ := html
      obtain ⟨tag', attributes', nodes'⟩ := html'
      dsimp only at h
      cases h with
      | @children tag children children' before after attributes htag h =>
          rcases substantial_eq_or_only_eq before after tag attributes with halone | ⟨count, honly⟩
          · have htag : tag = "head".toList ∨ tag = "body".toList := by simpa using htag
            have hsection (html : Element) (children : List Node)
                (hhtml : html.children = before ++ .element tag attributes children :: after) :
                sectionNodes html = .ok children :=
              sectionNodes_eq_ok_iff.mpr ⟨tag, attributes, by rw [hhtml, halone], htag⟩
            rw [hsection _ children rfl, hsection _ children' rfl]
            exact rootAmong_eq_of_rootPadded h
          · rw [sectionNodes, sectionNodes, honly, honly]

theorem htmlElement?_eq (document : Document) : document.htmlElement? =
    (only document.nodes).toOption.bind fun node =>
      node.element?.filter fun e => e.tag = "html".toList := by
  rw [htmlElement?, only]
  cases substantial document.nodes with
  | nil => rfl
  | cons node others => cases others <;> rfl

/-- Only an element that stands alone is taken for the `html` element. -/
theorem htmlElement?_of_only_eq_error {document : Document} {e : DocumentError}
    (h : only document.nodes = .error e) : document.htmlElement? = none := by
  rw [htmlElement?_eq, h]
  rfl

/-! ### The root -/

variable {document document' : Document}

/-- The root of a document, empty or not. -/
def rootIn (document : Document) : Except DocumentError Node :=
  document.outerNodes >>= rootAmong

theorem root_eq_rootIn (h : document.nodes ≠ []) : document.root = document.rootIn := by
  rw [root, if_neg (by simpa using h)]
  rfl

theorem rootIn_eq_of_htmlElement?_eq_none (h : document.htmlElement? = none) :
    document.rootIn = rootAmong document.nodes := by
  rw [rootIn, outerNodes, h]
  rfl

theorem rootIn_eq_of_rootPadded (h : RootPadded nodes nodes') :
    rootIn ⟨nodes⟩ = rootIn ⟨nodes'⟩ := by
  have hamong := rootAmong_eq_of_rootPadded h
  cases h with
  | outer h =>
      have hhtml : htmlElement? ⟨nodes⟩ = htmlElement? ⟨nodes'⟩ := by
        rw [htmlElement?, substantial_eq_of_padded h]
        rfl
      rw [rootIn, rootIn, outerNodes, outerNodes, hhtml]
      split
      · rfl
      · exact hamong
  | template h =>
      cases h with
      | @children tag children children' before after attributes htag h =>
          cases List.mem_singleton.mp htag
          have hhtml (children : List Node) : htmlElement?
              ⟨before ++ .element "template".toList attributes children :: after⟩ = none := by
            rcases substantial_eq_or_only_eq before after "template".toList attributes with
              halone | ⟨count, honly⟩
            · rw [htmlElement?_eq, only_eq_ok_iff.mpr (halone children)]
              rfl
            · exact htmlElement?_of_only_eq_error (honly children)
          rw [rootIn_eq_of_htmlElement?_eq_none (hhtml children),
            rootIn_eq_of_htmlElement?_eq_none (hhtml children')]
          exact hamong

theorem rootIn_eq_of_documentPadded (h : DocumentPadded document document') :
    document.rootIn = document'.rootIn := by
  cases h with
  | outer h => exact rootIn_eq_of_rootPadded h
  | html h =>
      obtain ⟨nodes⟩ := document
      obtain ⟨nodes'⟩ := document'
      dsimp only at h
      cases h with
      | @children tag children children' before after attributes htag h =>
          cases List.mem_singleton.mp htag
          rcases substantial_eq_or_only_eq before after "html".toList attributes with
            halone | ⟨count, honly⟩
          · have hhtml (children : List Node) :
                htmlElement? ⟨before ++ .element "html".toList attributes children :: after⟩ =
                  some ⟨"html".toList, attributes, children⟩ := by
              rw [htmlElement?_eq, only_eq_ok_iff.mpr (halone children)]
              rfl
            rw [rootIn, rootIn, outerNodes, outerNodes, hhtml, hhtml]
            exact sectionRoot_eq_of_htmlPadded h
          · have hhtml (children : List Node) :
                htmlElement? ⟨before ++ .element "html".toList attributes children :: after⟩ =
                  none := htmlElement?_of_only_eq_error (honly children)
            rw [rootIn_eq_of_htmlElement?_eq_none (hhtml children),
              rootIn_eq_of_htmlElement?_eq_none (hhtml children'), rootAmong, rootAmong,
              componentTemplate?_append_of_ne (by decide) before after attributes children
                children', honly, honly]

theorem outerNodes_eq_ok_iff : document.outerNodes = .ok nodes ↔ IsOuter document nodes := by
  rw [outerNodes]
  constructor
  · intro h
    split at h
    · next html hhtml =>
        obtain ⟨tag, attributes, halone, htag⟩ := sectionNodes_eq_ok_iff.mp h
        exact .part hhtml halone htag
    · next hnone =>
        cases h
        exact .document hnone
  · intro h
    cases h with
    | document hnone => rw [hnone]
    | part hhtml halone htag =>
        rw [hhtml]
        exact sectionNodes_eq_ok_iff.mpr ⟨_, _, halone, htag⟩

theorem rootIn_eq_ok_iff {node : Node} : document.rootIn = .ok node ↔
    ∃ nodes, IsRootList document nodes ∧ substantial nodes = [node] := by
  rw [rootIn, Outcome.bind_eq_ok_iff]
  constructor
  · rintro ⟨nodes, houter, hroot⟩
    have houter := outerNodes_eq_ok_iff.mp houter
    rw [rootAmong] at hroot
    split at hroot
    · next template htemplate =>
        exact ⟨template.children, .template houter htemplate, only_eq_ok_iff.mp hroot⟩
    · next hnone => exact ⟨nodes, .plain houter hnone, only_eq_ok_iff.mp hroot⟩
  · rintro ⟨nodes, hlist, halone⟩
    cases hlist with
    | plain houter hnone =>
        refine ⟨nodes, outerNodes_eq_ok_iff.mpr houter, ?_⟩
        rw [rootAmong, hnone]
        exact only_eq_ok_iff.mpr halone
    | @template outer template houter htemplate =>
        refine ⟨outer, outerNodes_eq_ok_iff.mpr houter, ?_⟩
        rw [rootAmong, htemplate]
        exact only_eq_ok_iff.mpr halone

/-- Documents that differ in padding only have the same root or fail in the same way, and a root is
the only substantial node of the list that it is taken from. -/
theorem root_eq_of_eqvGen (h : Relation.EqvGen DocumentPadded document document')
    (hne : document.nodes ≠ []) (hne' : document'.nodes ≠ []) :
    document.root = document'.root ∧ ∀ node, document.root = .ok node ↔
      ∃ nodes, IsRootList document nodes ∧ substantial nodes = [node] := by
  rw [root_eq_rootIn hne, root_eq_rootIn hne']
  refine ⟨?_, fun node => rootIn_eq_ok_iff⟩
  clear hne hne'
  induction h with
  | rel _ _ hpadded => exact rootIn_eq_of_documentPadded hpadded
  | refl _ => rfl
  | symm _ _ _ ih => exact ih.symm
  | trans _ _ _ _ _ ih ih' => exact ih.trans ih'

theorem root_eq_of_eqvGen_html :
    let part (children : List Node) : Node := .element "body".toList .empty
      [.comment " page ".toList, .element "template".toList .empty children]
    let plain : Document := ⟨[.element "html".toList .empty [part [.text "x".toList]]]⟩
    let padded : Document := ⟨[.comment "c".toList,
      .element "html".toList .empty [part [.text "x".toList, .text "\n".toList]]]⟩
    plain.root = padded.root ∧ padded.root = .ok (.text "x".toList) := by
  intro part plain padded
  have hblank : (Node.text "\n".toList).IsPadding := .text (by decide)
  have htemplate : DocumentPadded plain
      ⟨[.element "html".toList .empty [part [.text "x".toList, .text "\n".toList]]]⟩ :=
    .html (.children [] [] .empty (by decide) <| .part <|
      .children [] [] .empty (by decide) <| .template <|
      .children [.comment " page ".toList] [] .empty (by decide) <|
      .insert [.text "x".toList] [] hblank)
  have houter : DocumentPadded
      ⟨[.element "html".toList .empty [part [.text "x".toList, .text "\n".toList]]]⟩ padded :=
    .outer (.outer (.insert [] _ (.comment "c".toList)))
  have hroots := (root_eq_of_eqvGen (.trans _ _ _ (.rel _ _ htemplate) (.rel _ _ houter))
    (by decide) (by decide)).1
  exact ⟨hroots, hroots ▸ rfl⟩

end Document

end HtmlTemplate
