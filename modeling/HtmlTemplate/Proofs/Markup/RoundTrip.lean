import HtmlTemplate.Markup.Tree
import HtmlTemplate.Proofs.Markup.Tokens
/-!
Nodes are read back from what is written for them.  What is written for a node gives tokens that put
this node, and nothing else, at the end of the siblings where they are met.
-/

namespace HtmlTemplate.Markup

namespace Forest

/-- The nodes that the next node is a sibling of. -/
def siblings : Forest → List Node
  | ⟨roots, []⟩ => roots
  | ⟨_, e :: _⟩ => e.children

variable {f g : List Node → List Node} {forest : Forest}

@[simp] theorem siblings_modifySiblings :
    (forest.modifySiblings f).siblings = f forest.siblings := by
  obtain ⟨roots, _ | ⟨e, outer⟩⟩ := forest <;> rfl

@[simp] theorem isVerbatim_modifySiblings :
    (forest.modifySiblings f).isVerbatim = forest.isVerbatim := by
  obtain ⟨roots, _ | ⟨e, outer⟩⟩ := forest <;> rfl

theorem modifySiblings_modifySiblings :
    (forest.modifySiblings f).modifySiblings g =
      forest.modifySiblings fun nodes => g (f nodes) := by
  obtain ⟨roots, _ | ⟨e, outer⟩⟩ := forest <;> rfl

theorem modifySiblings_congr (h : f forest.siblings = g forest.siblings) :
    forest.modifySiblings f = forest.modifySiblings g := by
  obtain ⟨roots, _ | ⟨e, outer⟩⟩ := forest
  · exact congrArg (Forest.mk · []) h
  · exact congrArg (fun nodes => Forest.mk roots (⟨e.tag, e.attributes, nodes⟩ :: outer)) h

theorem modifySiblings_append_nil : forest.modifySiblings (· ++ []) = forest := by
  obtain ⟨roots, _ | ⟨e, outer⟩⟩ := forest <;> simp [modifySiblings]

theorem appendText_eq_append {text : Text} {nodes : List Node}
    (h : ∀ previous, nodes.getLast? ≠ some (.text previous)) :
    appendText text nodes = nodes ++ [.text text] := by
  unfold appendText
  split
  · next previous hlast => exact absurd hlast (h previous)
  · rfl

/-- A forest in which one more element is open. -/
def opened (forest : Forest) (e : OpenElement) : Forest :=
  { forest with unclosed := e :: forest.unclosed }

theorem modifySiblings_opened (e : OpenElement) :
    (forest.opened e).modifySiblings f = forest.opened { e with children := f e.children } := rfl

/-- An end tag puts the element that was opened last where it was opened. -/
theorem step_endTag (e : OpenElement) :
    step (forest.opened e) (.endTag e.tag) = forest.modifySiblings (· ++ [e.toNode]) := by
  simp [step, opened, closeTag, List.findIdx?_cons, close, closeOne, attach]

end Forest

open Forest

/-- No text at the end of the first nodes would run into one at the beginning of the second. -/
def Apart (first second : List Node) : Prop :=
  ∀ text other, first.getLast? = some (.text text) → second.head? ≠ some (.text other)

/-- Tokens put these nodes at the end of the siblings where they are met. -/
def Builds (ts : List Token) (nodes : List Node) : Prop :=
  ∀ forest : Forest, forest.isVerbatim = false → Apart forest.siblings nodes →
    ts.foldl step forest = forest.modifySiblings (· ++ nodes)

namespace Builds

variable {ts us : List Token} {node : Node} {nodes children : List Node} {tag : Text}
  {attributes : Attributes}

theorem nil : Builds [] [] := fun _ _ _ => modifySiblings_append_nil.symm

theorem cons (h : Builds ts [node]) (hapart : Apart [node] nodes) (hnodes : Builds us nodes) :
    Builds (ts ++ us) (node :: nodes) := by
  intro forest hverbatim hsiblings
  have hfirst : ts.foldl step forest = forest.modifySiblings (· ++ [node]) :=
    h forest hverbatim fun text other hlast => by simpa using hsiblings text other hlast
  have hnext : Apart (forest.modifySiblings (· ++ [node])).siblings nodes := by
    intro text other hlast
    exact hapart text other (by simpa using hlast)
  rw [List.foldl_append, hfirst, hnodes _ (by simpa using hverbatim) hnext,
    modifySiblings_modifySiblings]
  simp

theorem comment (content : Text) : Builds [.comment content] [.comment content] :=
  fun _ _ _ => rfl

/-- A text that is stored for a token. -/
theorem text {source decoded stored : Text} (h : storedText source decoded = stored)
    (hne : stored ≠ []) : Builds [.text source decoded] [.text stored] := by
  intro forest hverbatim hsiblings
  have happend : appendText stored forest.siblings = forest.siblings ++ [.text stored] :=
    appendText_eq_append fun text hlast => hsiblings text stored hlast rfl
  simp only [List.foldl_cons, List.foldl_nil, step, hverbatim, h, attachText]
  rw [if_neg (by simpa using hne)]
  exact modifySiblings_congr happend

theorem void (hvoid : isVoidTag tag = true) :
    Builds [.startTag tag attributes false] [.element tag attributes []] := by
  intro forest _ _
  simp [step, hvoid, attach]

theorem element (hvoid : isVoidTag tag = false)
    (h : ∀ forest : Forest, ts.foldl step (forest.opened ⟨tag, attributes, []⟩) =
      forest.opened ⟨tag, attributes, children⟩) :
    Builds (.startTag tag attributes false :: (ts ++ [.endTag tag]))
      [.element tag attributes children] := by
  intro forest _ _
  have hopen : step forest (.startTag tag attributes false) =
      forest.opened ⟨tag, attributes, []⟩ := by
    simp [step, hvoid, opened]
  rw [List.foldl_cons, hopen, List.foldl_append, h forest]
  exact step_endTag ⟨tag, attributes, children⟩

theorem markup (hvoid : isVoidTag tag = false) (hverbatim : isVerbatimTag tag = false)
    (h : Builds ts children) :
    Builds (.startTag tag attributes false :: (ts ++ [.endTag tag]))
      [.element tag attributes children] := by
  refine element hvoid fun forest => ?_
  have hchildren := h (forest.opened ⟨tag, attributes, []⟩) hverbatim
    fun text other hlast => by cases hlast
  rw [hchildren, modifySiblings_opened, List.nil_append]

theorem verbatim {content : Content} {text remaining : Text} (hverbatim : isVerbatimTag tag = true)
    (hdecode : content.decode text = text) :
    Builds (.startTag tag attributes false :: (textToken content text remaining ++ [.endTag tag]))
      [.element tag attributes (textNodes text)] := by
  refine element (not_isVoidTag_of_isVerbatimTag hverbatim) fun forest => ?_
  rw [textToken, hdecode, textNodes]
  cases htext : text.isEmpty with
  | true => rfl
  | false =>
      have hopen : (forest.opened ⟨tag, attributes, []⟩).isVerbatim = true := hverbatim
      simp [step, hopen, attachText, htext, modifySiblings_opened, appendText]

end Builds

/-! ### What is written for canonical nodes -/

theorem opens_serializeNodes {nodes : List Node} (h : Canonical nodes) (hne : nodes ≠ [])
    (htext : ∀ text, nodes.head? ≠ some (.text text)) (rest : Text) :
    Opens (serializeNodes nodes ++ rest) := by
  cases h with
  | nil => exact absurd rfl hne
  | text => exact absurd rfl (htext _)
  | comment => exact ⟨_, by simp [serializeNodes, serializeNode]; rfl, rfl⟩
  | element htag =>
      refine ⟨_, by simp only [serializeNodes, serializeNode, List.cons_append]; rfl, ?_⟩
      simp only [List.append_assoc]
      exact opensMarkup_tag htag _
  | verbatim htag =>
      refine ⟨_, by simp only [serializeNodes, serializeNode, List.cons_append]; rfl, ?_⟩
      simp only [List.append_assoc]
      exact opensMarkup_tag (isTagName_of_isVerbatimTag htag) _

/-- A text that is held whole is stored in its written form. -/
theorem storedText_decodeText (s : Text) : storedText s (decodeText s) = normalize s := by
  unfold storedText
  split
  · rfl
  · next hplain =>
      simp only [Bool.or_eq_true, decide_eq_true_eq, not_or, List.contains_iff_mem] at hplain
      exact absurd (decodeText_eq_self hplain.2).symm hplain.1

theorem storedText_eq_self {markup : Text} (h : normalize markup = markup) :
    storedText markup (decodeText markup) = markup := by
  rw [storedText_decodeText, h]

/-- Up to other markup a text token holds all of its text. -/
theorem part_eq_self {markup rest : Text} (hopening : '<' ∉ markup) (hne : markup ≠ [])
    (hrest : rest ≠ []) : Content.markup.part markup rest = markup := by
  simp [Content.part, hrest, Content.extent, pieces_eq_singleton hopening, trimEmpty, hne]

theorem opening_not_mem {markup : Text} (h : normalize markup = markup) : '<' ∉ markup := by
  have hwritten := isWritten_normalize markup
  rw [h] at hwritten
  exact hwritten.no_opening

theorem not_isVerbatimTag_of_ofTag {tag : Text} (h : Content.ofTag tag = .markup) :
    isVerbatimTag tag = false := by
  apply Bool.eq_false_iff.mpr
  intro hverbatim
  simp only [isVerbatimTag, Bool.or_eq_true, decide_eq_true_eq] at hverbatim
  rcases hverbatim with rfl | rfl <;> exact absurd h (by decide)

/-- What is written for an element, and what follows it. -/
theorem serializeNodes_element {tag : Text} (attributes : Attributes) {children nodes : List Node}
    (hvoid : isVoidTag tag = false) (rest : Text) :
    serializeNodes (.element tag attributes children :: nodes) ++ rest =
      '<' :: (tag ++ attributesText attributes.entries (serializeNodes children ++
        '<' :: '/' :: (tag ++ '>' :: (serializeNodes nodes ++ rest)))) := by
  simp [serializeNodes, serializeNode, attributesText, serializeAttributes, hvoid]

theorem serializeNodes_void {tag : Text} (attributes : Attributes) {nodes : List Node}
    (hvoid : isVoidTag tag = true) (rest : Text) :
    serializeNodes (.element tag attributes [] :: nodes) ++ rest =
      '<' :: (tag ++ attributesText attributes.entries (serializeNodes nodes ++ rest)) := by
  simp [serializeNodes, serializeNode, attributesText, serializeAttributes, hvoid]

theorem serializeNodes_textNodes (text : Text) : serializeNodes (textNodes text) = text := by
  rw [textNodes]
  split
  · next h => rw [List.isEmpty_iff.mp h, serializeNodes]
  · simp [serializeNodes, serializeNode]

theorem last_of_cons {node : Node} {nodes : List Node} {P : Prop}
    (h : ∀ text, (node :: nodes).getLast? = some (.text text) → P) :
    ∀ text, nodes.getLast? = some (.text text) → P := by
  intro text hlast
  exact h text (by simp [List.getLast?_cons, hlast])

theorem apart_of_ne_text {node : Node} {nodes : List Node} (h : ∀ text, node ≠ .text text) :
    Apart [node] nodes := by
  intro text other hlast
  exact absurd (by simpa using hlast) (h text)

/-- What is written for canonical nodes gives tokens that build them, whatever follows that ends a
text. -/
theorem exists_builds {nodes : List Node} (h : Canonical nodes) (rest : Text)
    (hrest : ∀ text, nodes.getLast? = some (.text text) → Opens rest) :
    ∃ ts, BeginsWith (serializeNodes nodes ++ rest) ts rest ∧ Builds ts nodes := by
  induction h generalizing rest with
  | nil => exact ⟨[], .refl rest, .nil⟩
  | @text markup nodes hne hclean hnormal hnext hnodes ih =>
      have hopening := opening_not_mem hnormal
      have hopens : Opens (serializeNodes nodes ++ rest) := by
        by_cases hnil : nodes = []
        · subst hnil
          exact hrest markup rfl
        · exact opens_serializeNodes hnodes hnil hnext rest
      obtain ⟨ts, htokens, hbuilds⟩ := ih rest (last_of_cons hrest)
      have hfirst := beginsWith_text hne hopening hclean (.inr hopens)
      have hafter : serializeNodes nodes ++ rest ≠ [] := by
        obtain ⟨more, hmore, -⟩ := hopens
        rw [hmore]
        exact List.cons_ne_nil _ _
      rw [part_eq_self hopening hne hafter] at hfirst
      have hwhole := hfirst.append htokens
      rw [← List.append_assoc] at hwhole
      refine ⟨_, hwhole, .cons (.text (storedText_eq_self hnormal) hne) ?_ hbuilds⟩
      exact fun _ other _ => hnext other
  | @comment content nodes hcontent _ ih =>
      obtain ⟨ts, htokens, hbuilds⟩ := ih rest (last_of_cons hrest)
      have hwhole := (beginsWith_comment hcontent (serializeNodes nodes ++ rest)).append htokens
      rw [← List.append_assoc] at hwhole
      exact ⟨_, hwhole, .cons (.comment content) (apart_of_ne_text (by simp)) hbuilds⟩
  | @element tag attributes children nodes htag hcontent hattributes hvoid _ _ ihchildren ih =>
      obtain ⟨ts, htokens, hbuilds⟩ := ih rest (last_of_cons hrest)
      have hstart (s : Text) : BeginsWith ('<' :: (tag ++ attributesText attributes.entries s))
          [.startTag tag attributes false] s := by
        have hsplit : (Content.ofTag tag).split tag s = ([], s) := by rw [hcontent]; rfl
        have hread := beginsWith_startTag htag hattributes hsplit (Nat.le_refl _)
        rwa [hcontent] at hread
      cases hvoidTag : isVoidTag tag with
      | true =>
          cases hvoid hvoidTag
          rw [serializeNodes_void attributes hvoidTag]
          exact ⟨_, (hstart _).append htokens,
            .cons (.void hvoidTag) (apart_of_ne_text (by simp)) hbuilds⟩
      | false =>
          have hend := beginsWith_endTag htag (serializeNodes nodes ++ rest)
          obtain ⟨us, hinner, hchildren⟩ := ihchildren
            ('<' :: '/' :: (tag ++ '>' :: (serializeNodes nodes ++ rest)))
            fun _ _ => ⟨_, rfl, opensMarkup_endTag htag _⟩
          rw [serializeNodes_element attributes hvoidTag]
          have helement : Builds _ [.element tag attributes children] :=
            .markup hvoidTag (not_isVerbatimTag_of_ofTag hcontent) hchildren
          exact ⟨_, ((hstart _).append (hinner.append hend)).append htokens,
            .cons helement (apart_of_ne_text (by simp)) hbuilds⟩
  | @verbatim tag text attributes nodes htag hattributes hclean hopening _ ih =>
      have hname := isTagName_of_isVerbatimTag htag
      obtain ⟨ts, htokens, hbuilds⟩ := ih rest (last_of_cons hrest)
      have hend := beginsWith_endTag hname (serializeNodes nodes ++ rest)
      have hsplit := split_verbatim htag hopening (serializeNodes nodes ++ rest)
      have hstart := beginsWith_startTag hname hattributes hsplit (by simp)
      rw [serializeNodes_element attributes (not_isVoidTag_of_isVerbatimTag htag),
        serializeNodes_textNodes]
      refine ⟨_, (hstart.append hend).append htokens, .cons ?_ (apart_of_ne_text (by simp)) hbuilds⟩
      exact .verbatim htag (decode_verbatim htag hclean)

/-! ### The end of the source -/

theorem length_normalize (s : Text) :
    (normalize s).length = s.length ∨ s.length + 3 ≤ (normalize s).length := by
  induction s with
  | nil => exact .inl rfl
  | cons c s ih =>
      rw [normalize]
      split
      · simp only [List.length_cons]
        omega
      · have hchar : (escapeChar c).length = 1 ∨ 4 ≤ (escapeChar c).length := by
          unfold escapeChar
          repeat' split
          all_goals simp
        simp only [List.length_append, List.length_cons]
        omega

/-- A text that is stored without its last character never is the text that was written. -/
theorem storedText_dropLast_ne {markup decoded : Text} (h : normalize markup = markup)
    (hamp : '&' ∈ markup) : storedText markup.dropLast decoded ≠ markup := by
  obtain ⟨before, c, rfl⟩ : ∃ before c, markup = before ++ [c] :=
    ⟨_, _, (List.dropLast_concat_getLast (List.ne_nil_of_mem hamp)).symm⟩
  rw [List.dropLast_concat]
  intro hstored
  unfold storedText at hstored
  split at hstored
  · have hlength := congrArg List.length hstored
    rw [List.length_append, List.length_singleton] at hlength
    have hgrows := length_normalize before
    omega
  · next hplain =>
      simp only [Bool.or_eq_true, decide_eq_true_eq, not_or, List.contains_iff_mem] at hplain
      have hc : c = '&' := by
        rcases List.mem_append.mp hamp with hmem | hmem
        · exact absurd hmem hplain.2
        · exact (List.mem_singleton.mp hmem).symm
      subst hc
      have hwritten := isWritten_normalize (before ++ ['&'])
      rw [h] at hwritten
      obtain ⟨body, rest, hbody, -⟩ := hwritten.reference before [] rfl
      simp at hbody

/-- At the end of the source a text token lacks the last character of a reference. -/
theorem part_nil {markup : Text} (hopening : '<' ∉ markup) (hne : markup ≠ []) :
    Content.markup.part markup [] = if endsInReference markup then markup.dropLast else markup := by
  simp [Content.part, Content.breaksOff, Content.extent, pieces_eq_singleton hopening, trimEmpty,
    hne]

theorem mem_of_endsInReference {s : Text} (h : endsInReference s = true) : '&' ∈ s := by
  simp only [endsInReference, Bool.and_eq_true, List.contains_iff_mem, List.mem_reverse] at h
  exact h.1

theorem storedText_part_eq_iff {markup : Text} (h : normalize markup = markup) (hne : markup ≠ []) :
    storedText (Content.markup.part markup []) (decodeText markup) = markup ↔
      Content.markup.part markup [] = markup := by
  constructor
  · intro hstored
    rw [part_nil (opening_not_mem h) hne] at hstored ⊢
    split at hstored
    · next hends =>
        exact absurd hstored (storedText_dropLast_ne h (mem_of_endsInReference hends))
    · next hends => rw [if_neg hends]
  · intro hpart
    rw [hpart, storedText_eq_self h]

theorem Apart.cons {node : Node} {first second : List Node}
    (hnode : first = [] → Apart [node] second) (h : Apart first second) :
    Apart (node :: first) second := by
  by_cases hnil : first = []
  · subst hnil
    exact hnode rfl
  · intro text other hlast
    rw [List.getLast?_cons_of_ne_nil hnil] at hlast
    exact h text other hlast

theorem Canonical.of_append {first second : List Node} (h : Canonical (first ++ second)) :
    Canonical first ∧ Canonical second ∧ Apart first second := by
  induction first with
  | nil => exact ⟨.nil, h, fun _ _ hlast => by cases hlast⟩
  | cons node first ih =>
      cases h with
      | text hne hclean hnormal hnext hrest =>
          obtain ⟨hfirst, hsecond, hapart⟩ := ih hrest
          refine ⟨.text hne hclean hnormal ?_ hfirst, hsecond, .cons ?_ hapart⟩
          · intro next hhead
            refine hnext next ?_
            change (first ++ second).head? = _
            rw [List.head?_append, hhead]
            rfl
          · rintro rfl text other -
            exact hnext other
      | comment hcontent hrest =>
          obtain ⟨hfirst, hsecond, hapart⟩ := ih hrest
          exact ⟨.comment hcontent hfirst, hsecond,
            .cons (fun _ => apart_of_ne_text (by simp)) hapart⟩
      | element htag hcontent hattributes hvoid hchildren hrest =>
          obtain ⟨hfirst, hsecond, hapart⟩ := ih hrest
          exact ⟨.element htag hcontent hattributes hvoid hchildren hfirst, hsecond,
            .cons (fun _ => apart_of_ne_text (by simp)) hapart⟩
      | verbatim htag hattributes hclean hopening hrest =>
          obtain ⟨hfirst, hsecond, hapart⟩ := ih hrest
          exact ⟨.verbatim htag hattributes hclean hopening hfirst, hsecond,
            .cons (fun _ => apart_of_ne_text (by simp)) hapart⟩

theorem Builds.parse_eq {nodes : List Node} {source : Text} {ts : List Token} (h : Builds ts nodes)
    (htokens : tokens source = ts) : parse source = nodes := by
  have hforest : ts.foldl step empty = empty.modifySiblings (· ++ nodes) :=
    h empty rfl fun text other hlast => by cases hlast
  rw [parse, ofTokens, htokens, hforest]
  rfl

theorem Builds.parse_append_text {nodes : List Node} {source part decoded : Text} {ts : List Token}
    (h : Builds ts nodes) (hnodes : ∀ text, nodes.getLast? ≠ some (.text text))
    (htokens : tokens source = ts ++ [.text part decoded]) :
    parse source = nodes ++ textNodes (storedText part decoded) := by
  have hforest : ts.foldl step empty = ⟨nodes, []⟩ :=
    h empty rfl fun text other hlast => by cases hlast
  have hstep : step ⟨nodes, []⟩ (.text part decoded) =
      attachText ⟨nodes, []⟩ (storedText part decoded) := rfl
  rw [parse, ofTokens, htokens, List.foldl_append, hforest, List.foldl_cons, List.foldl_nil, hstep,
    attachText, textNodes]
  split
  · rw [List.append_nil]
    rfl
  · exact appendText_eq_append hnodes

theorem textNodes_eq_iff {text markup : Text} (h : markup ≠ []) :
    textNodes text = [.text markup] ↔ text = markup := by
  rw [textNodes]
  split
  · next hnil => simp [List.isEmpty_iff.mp hnil, h.symm]
  · simp

/-- Canonical nodes are read back from what is written for them, provided that a text at their end
is held whole by its token.  Only the end of the source can take a character from it. -/
theorem parse_serializeNodes_eq_iff {nodes : List Node} (h : Canonical nodes) :
    parse (serializeNodes nodes) = nodes ↔
      ∀ markup, nodes.getLast? = some (.text markup) → Content.markup.part markup [] = markup := by
  by_cases htext : ∃ markup, nodes.getLast? = some (.text markup)
  · obtain ⟨markup, hlast⟩ := htext
    obtain ⟨before, rfl⟩ := List.getLast?_eq_some_iff.mp hlast
    obtain ⟨hbefore, hmarkup, hapart⟩ := h.of_append
    cases hmarkup with
    | text hne hclean hnormal _ _ =>
        have hends (text : Text) : before.getLast? ≠ some (.text text) :=
          fun hends => hapart text markup hends rfl
        obtain ⟨ts, htokens, hbuilds⟩ :=
          exists_builds hbefore markup fun text htext => absurd htext (hends text)
        have htoken := beginsWith_text hne (opening_not_mem hnormal) hclean (.inl rfl)
        rw [List.append_nil] at htoken
        have hsource :
            serializeNodes (before ++ [.text markup]) = serializeNodes before ++ markup := by
          simp [serializeNodes_append, serializeNodes, serializeNode]
        have hparse := hbuilds.parse_append_text hends (htokens.append htoken).tokens_eq
        rw [hsource, hparse, List.append_cancel_left_eq, textNodes_eq_iff hne,
          storedText_part_eq_iff hnormal hne]
        simp
  · have hends (text : Text) (hlast : nodes.getLast? = some (.text text)) : False :=
      htext ⟨text, hlast⟩
    obtain ⟨ts, htokens, hbuilds⟩ := exists_builds h [] fun text hlast => (hends text hlast).elim
    rw [List.append_nil] at htokens
    exact iff_of_true (hbuilds.parse_eq htokens.tokens_eq) fun text hlast => (hends text hlast).elim

theorem parse_serializeNodes_quotes :
    let attributes : Attributes :=
      ⟨[("title".toList, "\"><b a='&amp;'>".toList), ("hidden".toList, [])], by decide⟩
    let nodes : List Node :=
      [.comment " c ".toList, .element "script".toList .empty (textNodes "a && b".toList),
        .element "p".toList attributes [.text "1 &lt; 2".toList, .element "br".toList .empty []],
        .text "x &amp; y".toList]
    Canonical nodes ∧ parse (serializeNodes nodes) = nodes := by
  intro attributes nodes
  have hnone : ∀ entry ∈ Attributes.empty.entries, IsAttribute entry.1 entry.2 := by
    simp [Attributes.empty]
  have hattributes : ∀ entry ∈ attributes.entries, IsAttribute entry.1 entry.2 := by
    simp only [attributes, List.forall_mem_cons]
    exact ⟨⟨by decide, Text.forall_eq_of_all (by decide), by decide⟩,
      ⟨by decide, Text.forall_eq_of_all (by decide), by decide⟩, by simp⟩
  have hcanonical : Canonical nodes := by
    refine .comment ⟨by decide, by decide, by decide, by decide, by decide⟩ ?_
    refine .verbatim (by decide) hnone (by decide) (by decide) ?_
    refine .element (by decide) (by decide) hattributes (by decide) ?_ ?_
    · refine .text (by decide) (by decide) (by decide) (by simp) ?_
      exact .element (by decide) (by decide) hnone (fun _ => rfl) .nil .nil
    · exact .text (by decide) (by decide) (by decide) (by simp) .nil
  refine ⟨hcanonical, (parse_serializeNodes_eq_iff hcanonical).mpr ?_⟩
  rintro markup ⟨⟩
  decide +kernel

end HtmlTemplate.Markup
