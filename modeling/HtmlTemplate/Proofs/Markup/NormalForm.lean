import HtmlTemplate.Proofs.Markup.Attributes
import HtmlTemplate.Proofs.Markup.Inert
import HtmlTemplate.Proofs.Markup.StartTags
/-!
The normal form of parsed trees.  Elements are as their start tags tell, void ones have no children,
and texts are neither empty nor next to each other.
-/

namespace HtmlTemplate

/-- A list of siblings in a tree: its nodes, or the children of an element at any depth. -/
inductive HasSiblings : List Node → List Node → Prop where
  | here {nodes : List Node} : HasSiblings nodes nodes
  | deeper {nodes children siblings : List Node} {tag : Text} {attributes : Attributes} :
      Node.element tag attributes children ∈ nodes → HasSiblings children siblings →
      HasSiblings nodes siblings

namespace Markup

/-- An element as a start tag of the source tells it: the tag in lower case, and the attributes
under distinct names, each with the value that is written first. -/
structure IsOfSource (source tag : Text) (attributes : Attributes) : Prop where
  opens : Forest.Opens (tokens source) tag attributes
  lower : ∀ c ∈ tag, c.isUpper = false
  nodup : attributes.names.Nodup
  first : ∃ written, HasStartTag source tag written ∧
    ∀ name, attributes.get? name = Fields.get? name written

inductive IsNormalNode (source : Text) : Node → Prop where
  | element {tag : Text} {attributes : Attributes} {children : List Node} :
      IsOfSource source tag attributes → (isVoidTag tag = true → children = []) →
      IsNormalNode source (.element tag attributes children)
  | text {markup : Text} : markup ≠ [] → IsNormalNode source (.text markup)
  | comment (content : Text) : IsNormalNode source (.comment content)

/-- No two texts are next to each other. -/
def AreApart (siblings : List Node) : Prop :=
  ∀ first second, ¬ [.text first, .text second] <:+: siblings

/-- All lists of siblings in a tree are normal. -/
def InNormalForm (source : Text) (nodes : List Node) : Prop :=
  ∀ siblings, HasSiblings nodes siblings →
    (∀ node ∈ siblings, IsNormalNode source node) ∧ AreApart siblings

variable {source tag : Text} {attributes : Attributes} {nodes children : List Node} {node : Node}

/-! ### Elements of the source -/

theorem isUpper_toLower (c : Char) : c.toLower.isUpper = false := by
  cases hupper : c.isUpper with
  | true =>
      have hlt : c.toNat < 128 := Nat.lt_of_le_of_lt (of_decide_eq_true hupper).2 (by decide)
      have hlower : (!c.toLower.isUpper) = true :=
        Text.of_toNat_lt (p := Char.isUpper) (q := fun c => !c.toLower.isUpper) (by decide) hlt
          hupper
      rwa [Bool.not_eq_true'] at hlower
  | false =>
      have hsame : c.toLower = c := dif_neg (of_decide_eq_false hupper)
      rw [hsame, hupper]

theorem isUpper_of_mem_lower {s : Text} {c : Char} (h : c ∈ Text.lower s) : c.isUpper = false := by
  obtain ⟨d, -, rfl⟩ := List.mem_map.mp h
  exact isUpper_toLower d

theorem isOfSource_of_opens (h : Forest.Opens (tokens source) tag attributes) :
    IsOfSource source tag attributes := by
  have ⟨selfClosing, hmem⟩ := h
  obtain ⟨written, htag, rfl⟩ := exists_hasStartTag hmem
  have hfirst (name : Text) := Attributes.get?_ofFirsts name written
  refine ⟨h, ?_, Attributes.nodup _, written, htag, hfirst⟩
  cases htag with
  | intro => exact fun c hc => isUpper_of_mem_lower hc

/-! ### Siblings -/

theorem areApart_concat_iff : AreApart (nodes ++ [node]) ↔ AreApart nodes ∧
    ∀ first second, nodes.getLast? = some (.text first) → node ≠ .text second := by
  have hends (first second : Text) : [Node.text first, .text second] <:+ nodes ++ [node] ↔
      nodes.getLast? = some (.text first) ∧ node = .text second := by
    constructor
    · rintro ⟨before, heq⟩
      have hassoc : before ++ [.text first] ++ [.text second] = nodes ++ [node] := by
        simpa using heq
      obtain ⟨rfl, hnode⟩ := List.append_inj' hassoc rfl
      cases hnode
      exact ⟨List.getLast?_concat, rfl⟩
    · rintro ⟨hlast, rfl⟩
      obtain ⟨before, rfl⟩ := List.getLast?_eq_some_iff.mp hlast
      exact ⟨before, by simp⟩
  constructor
  · intro h
    refine ⟨fun first second hpair => ?_, fun first second hlast hnode => ?_⟩
    · exact h first second (List.infix_concat_iff.mpr (.inr hpair))
    · exact h first second ((hends first second).mpr ⟨hlast, hnode⟩).isInfix
  · rintro ⟨hapart, hlast⟩ first second hpair
    rcases List.infix_concat_iff.mp hpair with hsuffix | hpair
    · obtain ⟨hfirst, hsecond⟩ := (hends first second).mp hsuffix
      exact hlast first second hfirst hsecond
    · exact hapart first second hpair

theorem inNormalForm_nil : InNormalForm source [] := by
  intro siblings h
  cases h with
  | here => exact ⟨by simp, fun first second h => by cases List.infix_nil.mp h⟩
  | deeper hmem _ => cases hmem

theorem InNormalForm.concat (h : InNormalForm source nodes) (hnode : IsNormalNode source node)
    (hapart : AreApart (nodes ++ [node]))
    (hchildren : ∀ tag attributes children, node = .element tag attributes children →
      InNormalForm source children) : InNormalForm source (nodes ++ [node]) := by
  intro siblings hsiblings
  cases hsiblings with
  | here =>
      refine ⟨fun other hmem => ?_, hapart⟩
      rcases List.mem_append.mp hmem with hmem | hmem
      · exact (h nodes .here).1 other hmem
      · rw [List.mem_singleton.mp hmem]
        exact hnode
  | deeper hmem hdeeper =>
      rcases List.mem_append.mp hmem with hmem | hmem
      · exact h siblings (.deeper hmem hdeeper)
      · exact hchildren _ _ _ (List.mem_singleton.mp hmem).symm siblings hdeeper

theorem InNormalForm.of_append {others : List Node} (h : InNormalForm source (nodes ++ others)) :
    InNormalForm source nodes := by
  intro siblings hsiblings
  cases hsiblings with
  | here =>
      obtain ⟨hnormal, hapart⟩ := h _ .here
      refine ⟨fun node hmem => hnormal node (List.mem_append_left _ hmem), ?_⟩
      intro first second hpair
      exact hapart first second (hpair.trans (List.prefix_append _ _).isInfix)
  | deeper hmem hdeeper => exact h siblings (.deeper (List.mem_append_left _ hmem) hdeeper)

theorem InNormalForm.appendText {text : Text} (h : InNormalForm source nodes) (hne : text ≠ []) :
    InNormalForm source (Forest.appendText text nodes) := by
  unfold Forest.appendText
  split
  · next previous hlast =>
      obtain ⟨before, rfl⟩ := List.getLast?_eq_some_iff.mp hlast
      rw [List.dropLast_concat]
      have hapart := areApart_concat_iff.mp (h _ .here).2
      refine h.of_append.concat (.text (by simp [hne])) (areApart_concat_iff.mpr ⟨hapart.1, ?_⟩)
        (by simp)
      intro first second hfirst
      exact absurd rfl (hapart.2 first previous hfirst)
  · next hlast =>
      refine h.concat (.text hne) (areApart_concat_iff.mpr ⟨(h _ .here).2, ?_⟩) (by simp)
      intro first second hfirst
      exact absurd hfirst (hlast first)

theorem keeps_inNormalForm (source : Text) :
    Forest.Keeps (tokens source) fun _ nodes => InNormalForm source nodes where
  nil _ := inNormalForm_nil
  element {_ nodes tag attributes children} hopens hvoid hnodes hchildren := by
    refine hnodes.concat (.element (isOfSource_of_opens hopens) hvoid)
      (areApart_concat_iff.mpr ⟨(hnodes _ .here).2, by simp⟩) ?_
    rintro _ _ _ ⟨⟩
    exact hchildren
  comment content hnodes :=
    hnodes.concat (.comment content) (areApart_concat_iff.mpr ⟨(hnodes _ .here).2, by simp⟩)
      (by simp)
  text hne _ hnodes := hnodes.appendText hne

/-- Every parsed tree is in normal form, and its texts are in the written form except in scripts
and styles. -/
theorem inNormalForm_parse (source : Text) :
    InNormalForm source (parse source) ∧ Inert none (parse source) :=
  ⟨(keeps_inNormalForm source).ofTokens, inert_parse source⟩

end Markup

end HtmlTemplate
