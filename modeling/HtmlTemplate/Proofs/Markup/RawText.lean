import HtmlTemplate.Proofs.Markup.RoundTrip
/-!
Elements whose text is read as it stands, without references.  Only the texts of scripts and styles
are kept as they stand, too.  The text of another such element is stored in the written form, and
plain text takes in the end tag, so that these are not written as they were read.
-/

namespace HtmlTemplate.Markup

/-- Whether references are decoded in a content. -/
def Content.hasReferences : Content → Bool
  | .markup | .replaceable => true
  | .verbatim | .script | .plain => false

/-- A text that ends no element and opens no comment. -/
structure IsRawText (run : Text) : Prop where
  clean : IsClean run
  no_endTag : ¬ "</".toList <:+: run
  no_comment : ¬ "<!--".toList <:+: run

def endTagText (tag : Text) : Text := '<' :: '/' :: (tag ++ ['>'])

/-- A text between a start tag without attributes and its end tag. -/
def elementText (tag run : Text) : Text := '<' :: (tag ++ '>' :: (run ++ endTagText tag))

/-! ### The elements -/

def rawTextTags : List Text := "script".toList :: "plaintext".toList :: verbatimContentTags

theorem mem_rawTextTags {tag : Text} (h : (Content.ofTag tag).hasReferences = false) :
    tag ∈ rawTextTags := by
  unfold Content.ofTag at h
  split at h
  · cases h
  split at h
  · next hscript => exact hscript ▸ List.mem_cons_self ..
  split at h
  · next hplain => exact hplain ▸ List.mem_cons_of_mem _ (List.mem_cons_self ..)
  split at h
  · next hverbatim =>
      exact List.mem_cons_of_mem _ (List.mem_cons_of_mem _ (List.contains_iff_mem.mp hverbatim))
  · cases h

/-- What holds of these elements is decided by looking at each of them. -/
theorem of_all_rawTextTags {p : Text → Bool} (hall : rawTextTags.all p = true) {tag : Text}
    (h : (Content.ofTag tag).hasReferences = false) : p tag = true :=
  List.all_eq_true.mp hall tag (mem_rawTextTags h)

section

variable {tag : Text} (h : (Content.ofTag tag).hasReferences = false)
include h

theorem isTagName_of_hasReferences_eq_false : isTagName tag = true :=
  of_all_rawTextTags (by decide) h

theorem not_isVoidTag_of_hasReferences_eq_false : isVoidTag tag = false := by
  have hall : rawTextTags.all (fun tag => !isVoidTag tag) = true := by decide
  simpa using of_all_rawTextTags hall h

theorem eq_scriptName_of_ofTag (hscript : Content.ofTag tag = .script) : tag = scriptName := by
  have hall : rawTextTags.all (fun tag => Content.ofTag tag ≠ .script || tag = scriptName) := by
    decide
  have hcases := of_all_rawTextTags hall h
  rw [Bool.or_eq_true, decide_eq_true_eq, decide_eq_true_eq] at hcases
  exact hcases.resolve_left (not_not_intro hscript)

theorem eq_plaintext_of_ofTag (hplain : Content.ofTag tag = .plain) :
    tag = "plaintext".toList := by
  have hall : rawTextTags.all (fun tag =>
      Content.ofTag tag ≠ .plain || tag = "plaintext".toList) := by decide
  have hcases := of_all_rawTextTags hall h
  rw [Bool.or_eq_true, decide_eq_true_eq, decide_eq_true_eq] at hcases
  exact hcases.resolve_left (not_not_intro hplain)

theorem eq_verbatim_of_not_isVerbatimTag (htag : isVerbatimTag tag = false)
    (hplain : Content.ofTag tag ≠ .plain) : Content.ofTag tag = .verbatim := by
  have hall : rawTextTags.all (fun tag =>
      isVerbatimTag tag || Content.ofTag tag = .plain || Content.ofTag tag = .verbatim) := by
    decide
  simpa [htag, hplain] using of_all_rawTextTags hall h

end

/-! ### Reading -/

theorem decode_of_hasReferences_eq_false {content : Content} {run : Text}
    (h : content.hasReferences = false) (hrun : IsClean run) : content.decode run = run := by
  cases content with
  | markup | replaceable => cases h
  | verbatim | script | plain => exact cleaned_eq_self hrun

theorem split_of_isRawText {tag run : Text} (h : (Content.ofTag tag).hasReferences = false)
    (hplain : Content.ofTag tag ≠ .plain) (hrun : IsRawText run) :
    (Content.ofTag tag).split tag (run ++ endTagText tag) = (run, endTagText tag) := by
  have hkept : ∀ c ∈ tag, isKept c = true :=
    fun c hc => isKept_of_mem_tag (isTagName_of_hasReferences_eq_false h) hc
  cases hcontent : Content.ofTag tag with
  | markup | replaceable => simp [hcontent, Content.hasReferences] at h
  | verbatim => exact upToEndTag_append hkept hrun.no_endTag []
  | plain => exact absurd hcontent hplain
  | script =>
      rw [eq_scriptName_of_ofTag h hcontent]
      exact upToScriptEnd_append rfl hrun.no_endTag hrun.no_comment []

theorem tokens_elementText {tag run : Text} (h : (Content.ofTag tag).hasReferences = false)
    (hplain : Content.ofTag tag ≠ .plain) (hrun : IsRawText run) :
    tokens (elementText tag run) =
      .startTag tag .empty false ::
        (textToken (Content.ofTag tag) run (endTagText tag) ++ [.endTag tag]) := by
  have htag := isTagName_of_hasReferences_eq_false h
  have hstart := beginsWith_startTag htag isAttribute_of_mem_empty
    (split_of_isRawText h hplain hrun) (by simp)
  exact (hstart.append (beginsWith_endTag htag [])).tokens_eq

/-- Plain text takes in the end tag and goes on to the end of the source. -/
theorem tokens_elementText_plain {tag : Text} (h : (Content.ofTag tag).hasReferences = false)
    (hplain : Content.ofTag tag = .plain) (run : Text) :
    tokens (elementText tag run) =
      .startTag tag .empty false :: textToken .plain (run ++ endTagText tag) [] := by
  have hsplit : (Content.ofTag tag).split tag (run ++ endTagText tag) =
      (run ++ endTagText tag, []) := by
    rw [hplain]
    rfl
  have hstart := beginsWith_startTag (isTagName_of_hasReferences_eq_false h)
    isAttribute_of_mem_empty hsplit (Nat.zero_le _)
  rw [hplain] at hstart
  exact hstart.tokens_eq

/-! ### Storing -/

theorem normalize_ne_nil {s : Text} (h : s ≠ []) : normalize s ≠ [] :=
  mt normalize_eq_nil_iff.mp h

theorem storedText_self (s : Text) : Forest.storedText s s = normalize s := by
  simp [Forest.storedText]

/-- Where texts are markup, a text that is read as it stands is stored in the written form. -/
theorem builds_textToken {content : Content} {run remaining : Text}
    (hdecode : content.decode run = run) (hpart : content.part run remaining = run) :
    Builds (textToken content run remaining) (textNodes (normalize run)) := by
  rw [textToken, hdecode, hpart]
  by_cases hrun : run = []
  · subst hrun
    exact .nil
  · have hstored := normalize_ne_nil hrun
    simp only [List.isEmpty_iff, hrun, textNodes, hstored, if_false]
    exact .text (storedText_self run) hstored

theorem parse_elementText {tag run : Text} (h : (Content.ofTag tag).hasReferences = false)
    (hplain : Content.ofTag tag ≠ .plain) (hrun : IsRawText run) :
    parse (elementText tag run) =
      [.element tag .empty (textNodes (if isVerbatimTag tag then run else normalize run))] := by
  have hdecode := decode_of_hasReferences_eq_false h hrun.clean
  refine Builds.parse_eq ?_ (tokens_elementText h hplain hrun)
  cases hverbatim : isVerbatimTag tag with
  | true => exact .verbatim hverbatim hdecode
  | false =>
      have hvoid := not_isVoidTag_of_hasReferences_eq_false h
      refine .markup hvoid hverbatim (builds_textToken hdecode ?_)
      rw [eq_verbatim_of_not_isVerbatimTag h hverbatim hplain]
      rfl

theorem parse_elementText_plain {tag run : Text}
    (h : (Content.ofTag tag).hasReferences = false) (hplain : Content.ofTag tag = .plain)
    (hrun : IsClean run) :
    parse (elementText tag run) =
      [.element tag .empty (textNodes (normalize (run ++ endTagText tag)))] := by
  have hclean : IsClean (run ++ endTagText tag) := by
    have hend : IsClean (endTagText tag) := by
      rw [eq_plaintext_of_ofTag h hplain]
      decide
    simpa [IsClean, not_or] using And.intro (And.intro hrun.1 hend.1) (And.intro hrun.2 hend.2)
  have hverbatim : isVerbatimTag tag = false := by
    rw [eq_plaintext_of_ofTag h hplain]
    decide
  have hbuilds : Builds (textToken .plain (run ++ endTagText tag) [])
      (textNodes (normalize (run ++ endTagText tag))) :=
    builds_textToken (cleaned_eq_self hclean) rfl
  have hchildren := hbuilds (Forest.empty.opened ⟨tag, .empty, []⟩) hverbatim
    fun text other hlast => by cases hlast
  have hopen : Forest.empty.step (.startTag tag .empty false) =
      Forest.empty.opened ⟨tag, .empty, []⟩ := by
    simp [Forest.step, not_isVoidTag_of_hasReferences_eq_false h, Forest.opened]
  rw [parse, tokens_elementText_plain h hplain, Forest.ofTokens, List.foldl_cons, hopen, hchildren]
  rfl

theorem serializeNodes_element_textNodes {tag : Text} (h : isVoidTag tag = false) (run : Text) :
    serializeNodes [.element tag .empty (textNodes run)] = elementText tag run := by
  have hnodes := @serializeNodes_element tag .empty (textNodes run) [] h []
  rw [List.append_nil, serializeNodes_textNodes] at hnodes
  exact hnodes

theorem elementText_inj {tag run other : Text} :
    elementText tag run = elementText tag other ↔ run = other := by
  simp [elementText]

/-- An element whose text is read without references is written as it was read if it is a script or
a style.  Otherwise that needs an end tag that counts, and a text in the written form. -/
theorem serializeNodes_parse_elementText_eq_iff {tag run : Text}
    (h : (Content.ofTag tag).hasReferences = false) (hrun : IsRawText run) :
    serializeNodes (parse (elementText tag run)) = elementText tag run ↔
      isVerbatimTag tag = true ∨ (Content.ofTag tag = .verbatim ∧ normalize run = run) := by
  have hvoid := not_isVoidTag_of_hasReferences_eq_false h
  by_cases hplain : Content.ofTag tag = .plain
  · rw [parse_elementText_plain h hplain hrun.clean, serializeNodes_element_textNodes hvoid,
      elementText_inj, hplain]
    refine iff_of_false ?_ ?_
    · -- The end tag that was taken in stands for itself, before the end tag that is written.
      intro hwhole
      have hlength := length_normalize (run ++ endTagText tag)
      rw [hwhole, List.length_append] at hlength
      have hpos : 0 < (endTagText tag).length := Nat.zero_lt_succ _
      omega
    · rw [eq_plaintext_of_ofTag h hplain]
      rintro (hverbatim | ⟨hcontent, -⟩)
      · cases hverbatim
      · cases hcontent
  · rw [parse_elementText h hplain hrun, serializeNodes_element_textNodes hvoid, elementText_inj]
    cases hverbatim : isVerbatimTag tag with
    | true => simp
    | false => simp [eq_verbatim_of_not_isVerbatimTag h hverbatim hplain]

theorem serializeNodes_parse_elementText_script :
    let tag := "script".toList
    let run := "if (a < 1 && b > 2) s = '&lt;' + '<b>';".toList
    (Content.ofTag tag).hasReferences = false ∧ IsRawText run ∧ normalize run ≠ run ∧
      serializeNodes (parse (elementText tag run)) = elementText tag run := by
  intro tag run
  have htag : (Content.ofTag tag).hasReferences = false := by decide
  have hrun : IsRawText run := ⟨by decide, by decide +kernel, by decide +kernel⟩
  have hverbatim : isVerbatimTag tag = true := by decide
  refine ⟨htag, hrun, by decide, ?_⟩
  exact (serializeNodes_parse_elementText_eq_iff htag hrun).mpr (.inl hverbatim)

/-- Markup in an element that is read without references becomes text when it is stored. -/
theorem serializeNodes_parse_elementText_ne :
    let tag := "noscript".toList
    let run := "<img src=\"x\">".toList
    (Content.ofTag tag).hasReferences = false ∧ IsRawText run ∧
      serializeNodes (parse (elementText tag run)) ≠ elementText tag run :=
  ⟨by decide, ⟨by decide, by decide +kernel, by decide +kernel⟩, by decide +kernel⟩

end HtmlTemplate.Markup
