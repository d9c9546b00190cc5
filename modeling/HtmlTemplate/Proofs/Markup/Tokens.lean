import HtmlTemplate.Markup.Serialize
import HtmlTemplate.Proofs.Markup.Tags
/-!
The tokens of what is written for a node, whatever follows it in the source.
-/

namespace HtmlTemplate.Markup

/-- These tokens are the first of a source, up to the rest of it.  The bound on their number stays
beyond the length of the rest. -/
def BeginsWith (s : Text) (ts : List Token) (rest : Text) : Prop :=
  ∀ fuel, s.length < fuel → ∃ left, rest.length < left ∧
    tokensWithin fuel s = ts ++ tokensWithin left rest

theorem BeginsWith.refl (s : Text) : BeginsWith s [] s := fun fuel h => ⟨fuel, h, rfl⟩

theorem BeginsWith.append {s t rest : Text} {first second : List Token} (hs : BeginsWith s first t)
    (ht : BeginsWith t second rest) : BeginsWith s (first ++ second) rest := by
  intro fuel hfuel
  obtain ⟨middle, hmiddle, hfirst⟩ := hs fuel hfuel
  obtain ⟨left, hleft, hsecond⟩ := ht middle hmiddle
  exact ⟨left, hleft, by rw [hfirst, hsecond, List.append_assoc]⟩

theorem BeginsWith.tokens_eq {s : Text} {ts : List Token} (h : BeginsWith s ts []) :
    tokens s = ts := by
  obtain ⟨left, hleft, heq⟩ := h (s.length + 1) (Nat.lt_succ_self _)
  cases left with
  | zero => cases hleft
  | succ left => rw [tokens, heq, tokensWithin, List.append_nil]

/-- A source begins with markup, so that a text before it ends there. -/
def Opens (s : Text) : Prop := ∃ rest, s = '<' :: rest ∧ opensMarkup rest = true

/-! ### Texts -/

theorem textRun_append_of_opens {s rest : Text} (hs : '<' ∉ s) (hrest : rest = [] ∨ Opens rest) :
    textRun (s ++ rest) = (s, rest) := by
  induction s with
  | nil =>
      rcases hrest with rfl | ⟨more, rfl, hmore⟩
      · rfl
      · simp [textRun, hmore]
  | cons c s ih =>
      rw [List.mem_cons, not_or] at hs
      have hc : ¬ c = '<' := fun heq => hs.1 heq.symm
      simp [textRun, hc, ih hs.2]

theorem pieces_eq_singleton {s : Text} (h : '<' ∉ s) : pieces s = [s] := by
  fun_induction pieces s with
  | case1 => rfl
  | case2 => simp at h
  | case3 c s _ hnil ih => exact absurd hnil (pieces_ne_nil s)
  | case4 c s _ piece others heq ih =>
      rw [List.mem_cons, not_or] at h
      have hs := ih h.2
      rw [heq] at hs
      cases hs
      rfl

theorem ne_nil_of_charsOfName? {name chars : Text} (h : charsOfName? name = some chars) :
    chars ≠ [] := by
  obtain ⟨codes, -, rfl⟩ := Option.map_eq_some_iff.mp h
  exact List.cons_ne_nil _ _

theorem ne_nil_of_namedReference? {inAttribute : Bool} {s chars : Text} {length : Nat}
    (h : namedReference? inAttribute s = some (chars, length)) : chars ≠ [] := by
  unfold namedReference? at h
  simp only at h
  split at h
  · next found hfinished =>
      split at hfinished
      · obtain ⟨chars', hchars, rfl⟩ := Option.map_eq_some_iff.mp hfinished
        cases h
        exact ne_nil_of_charsOfName? hchars
      · cases hfinished
  · simp only [Option.bind_eq_bind, Option.bind_eq_some_iff] at h
    obtain ⟨name, -, h⟩ := h
    split at h
    · cases h
    · obtain ⟨chars', hchars, heq⟩ := Option.bind_eq_some_iff.mp h
      cases heq
      exact ne_nil_of_charsOfName? hchars

theorem ne_nil_of_numericReference? {base : Nat} {isDigit : Char → Bool} {s chars : Text}
    {length : Nat} (h : numericReference? base isDigit s = some (chars, length)) : chars ≠ [] := by
  unfold numericReference? at h
  simp only at h
  split at h
  · cases h
  · cases h
    exact List.cons_ne_nil _ _

theorem ne_nil_of_reference? {inAttribute : Bool} {s chars : Text} {length : Nat}
    (h : reference? inAttribute s = some (chars, length)) : chars ≠ [] := by
  unfold reference? at h
  split at h
  · obtain ⟨⟨chars', length'⟩, hread, heq⟩ := Option.map_eq_some_iff.mp h
    cases heq
    exact ne_nil_of_numericReference? hread
  · obtain ⟨⟨chars', length'⟩, hread, heq⟩ := Option.map_eq_some_iff.mp h
    cases heq
    exact ne_nil_of_numericReference? hread
  · obtain ⟨⟨chars', length'⟩, hread, heq⟩ := Option.map_eq_some_iff.mp h
    cases heq
    exact ne_nil_of_numericReference? hread
  · exact ne_nil_of_namedReference? h

/-- A text stands for something. -/
theorem decodeText_ne_nil {s : Text} (h : s ≠ []) : decodeText s ≠ [] := by
  obtain ⟨c, rest, rfl⟩ := List.exists_cons_of_ne_nil h
  rw [decodeText, decodeFrom]
  split
  · split
    · next chars length hread => simp [ne_nil_of_reference? hread]
    · simp
  · simp

theorem decodeText_eq_self {s : Text} (h : '&' ∉ s) : decodeText s = s := by
  rw [decodeText]
  induction s with
  | nil => rfl
  | cons c s ih =>
      rw [List.mem_cons, not_or] at h
      rw [decodeFrom, if_neg (Ne.symm h.1), ih h.2]

theorem decode_markup {s : Text} (hopening : '<' ∉ s) (hclean : IsClean s) :
    Content.markup.decode s = decodeText s := by
  simp [Content.decode, pieces_eq_singleton hopening, unifyBreaks_eq_self hclean.1]

theorem beginsWith_text {markup rest : Text} (hne : markup ≠ []) (hopening : '<' ∉ markup)
    (hclean : IsClean markup) (hrest : rest = [] ∨ Opens rest) :
    BeginsWith (markup ++ rest)
      [.text (Content.markup.part markup rest) (decodeText markup)] rest := by
  intro fuel hfuel
  obtain ⟨c, more, rfl⟩ := List.exists_cons_of_ne_nil hne
  cases fuel with
  | zero => cases hfuel
  | succ fuel =>
      have hc : ¬ c = '<' := fun heq => hopening (heq ▸ List.mem_cons_self ..)
      have hrun := textRun_append_of_opens hopening hrest
      refine ⟨fuel, by simp at hfuel; omega, ?_⟩
      rw [List.cons_append] at hrun ⊢
      rw [tokensWithin]
      simp [hc, hrun, textToken, decode_markup hopening hclean, decodeText_ne_nil hne]

/-! ### Comments -/

theorem upToCommentEnd_cons {c d : Char} (h : c = '-' → d ≠ '-') (s : Text) :
    upToCommentEnd (c :: d :: s) =
      (c :: (upToCommentEnd (d :: s)).1, (upToCommentEnd (d :: s)).2) := by
  rw [upToCommentEnd]
  all_goals simp_all

theorem upToCommentEnd_append {content : Text} (hdashes : ¬ ['-', '-'] <:+: content)
    (hlast : content.getLast? ≠ some '-') (rest : Text) :
    upToCommentEnd (content ++ '-' :: '-' :: '>' :: rest) = (content, rest) := by
  induction content with
  | nil => rfl
  | cons c content ih =>
      have htail : ¬ ['-', '-'] <:+: content :=
        fun h => hdashes (h.trans (List.suffix_cons c _).isInfix)
      cases content with
      | nil =>
          have hc : c ≠ '-' := by simpa using hlast
          have hrest := ih htail (by simp)
          rw [List.singleton_append, upToCommentEnd_cons fun heq => absurd heq hc]
          rw [List.nil_append] at hrest
          rw [hrest]
      | cons d content =>
          have hnext : c = '-' → d ≠ '-' := by
            rintro rfl rfl
            exact hdashes (List.prefix_append ['-', '-'] content).isInfix
          have hrest := ih htail (by simpa using hlast)
          rw [List.cons_append, List.cons_append, upToCommentEnd_cons hnext, ← List.cons_append,
            hrest]

theorem readComment_append {content : Text} (h : IsComment content) (rest : Text) :
    readComment (content ++ '-' :: '-' :: '>' :: rest) = (content, rest) := by
  rw [← upToCommentEnd_append h.dashes h.last rest]
  have hbracket := h.bracket
  have harrow := h.arrow
  have hlast := h.last
  unfold readComment
  split
  · next heq =>
      cases content with
      | nil => simp at heq
      | cons c content => simp_all
  · next heq =>
      cases content with
      | nil => simp at heq
      | cons c content => cases content <;> simp_all
  · rfl

theorem beginsWith_comment {content : Text} (h : IsComment content) (rest : Text) :
    BeginsWith (serializeNode (.comment content) ++ rest) [.comment content] rest := by
  intro fuel hfuel
  cases fuel with
  | zero => cases hfuel
  | succ fuel =>
      have htext : serializeNode (.comment content) ++ rest =
          '<' :: '!' :: '-' :: '-' :: (content ++ '-' :: '-' :: '>' :: rest) := by
        simp [serializeNode]
      refine ⟨fuel, by simp [htext] at hfuel; omega, ?_⟩
      rw [htext, tokensWithin]
      simp [opensMarkup, readMarkup, readComment_append h, cleaned_eq_self h.clean]

/-! ### Tags -/

theorem isAlpha_of_isLower {c : Char} (h : c.isLower = true) : c.isAlpha = true :=
  Text.isAlpha_iff.mpr (.inr (Text.isLower_iff.mp h))

theorem exists_of_isTagName {tag : Text} (h : isTagName tag = true) :
    ∃ c rest, tag = c :: rest ∧ c.isAlpha = true ∧ c ≠ '/' ∧ c ≠ '!' ∧ c ≠ '?' := by
  cases tag with
  | nil => cases h
  | cons c rest =>
      simp only [isTagName, Bool.and_eq_true] at h
      refine ⟨c, rest, rfl, isAlpha_of_isLower h.1, ?_, ?_, ?_⟩ <;>
        (rintro rfl; exact absurd h.1 (by decide))

theorem opensMarkup_tag {tag : Text} (h : isTagName tag = true) (rest : Text) :
    opensMarkup (tag ++ rest) = true := by
  obtain ⟨c, more, rfl, halpha, hslash, -, -⟩ := exists_of_isTagName h
  unfold opensMarkup
  split <;> simp_all

theorem opensMarkup_endTag {tag : Text} (h : isTagName tag = true) (rest : Text) :
    opensMarkup ('/' :: (tag ++ rest)) = true := by
  obtain ⟨c, more, rfl, halpha, -⟩ := exists_of_isTagName h
  have hbracket : c ≠ '>' := by
    rintro rfl
    cases halpha
  simp [opensMarkup, hbracket]

theorem readMarkup_startTag {tag : Text} {attributes : Attributes} (htag : isTagName tag = true)
    (h : ∀ entry ∈ attributes.entries, IsAttribute entry.1 entry.2) (rest : Text) :
    readMarkup (tag ++ attributesText attributes.entries rest) =
      (some (.startTag tag attributes false), rest) := by
  have hread := readTag_attributesText htag h rest
  obtain ⟨c, more, rfl, -, hslash, hbang, hquestion⟩ := exists_of_isTagName htag
  unfold readMarkup
  split <;> simp_all

theorem readMarkup_endTag {tag : Text} (htag : isTagName tag = true) (rest : Text) :
    readMarkup ('/' :: (tag ++ '>' :: rest)) = (some (.endTag tag), rest) := by
  have hread : readTag (tag ++ attributesText Attributes.empty.entries rest) =
      some (tag, .empty, false, rest) :=
    readTag_attributesText htag isAttribute_of_mem_empty rest
  change readTag (tag ++ '>' :: rest) = some (tag, .empty, false, rest) at hread
  obtain ⟨c, more, rfl, halpha, -⟩ := exists_of_isTagName htag
  simp only [List.cons_append] at hread ⊢
  simp [readMarkup, halpha, hread]

/-- A start tag is read with the text up to the markup that ends it. -/
theorem beginsWith_startTag {tag run rest remaining : Text} {attributes : Attributes}
    (htag : isTagName tag = true)
    (h : ∀ entry ∈ attributes.entries, IsAttribute entry.1 entry.2)
    (hsplit : (Content.ofTag tag).split tag rest = (run, remaining))
    (hlength : remaining.length ≤ rest.length) :
    BeginsWith ('<' :: (tag ++ attributesText attributes.entries rest))
      (.startTag tag attributes false :: textToken (Content.ofTag tag) run remaining)
      remaining := by
  intro fuel hfuel
  cases fuel with
  | zero => cases hfuel
  | succ fuel =>
      have hread := readMarkup_startTag htag h rest
      refine ⟨fuel, by simp [attributesText] at hfuel; omega, ?_⟩
      rw [tokensWithin]
      simp [opensMarkup_tag htag, hread, hsplit]

theorem beginsWith_endTag {tag : Text} (htag : isTagName tag = true) (rest : Text) :
    BeginsWith ('<' :: '/' :: (tag ++ '>' :: rest)) [.endTag tag] rest := by
  intro fuel hfuel
  cases fuel with
  | zero => cases hfuel
  | succ fuel =>
      refine ⟨fuel, by simp at hfuel; omega, ?_⟩
      rw [tokensWithin]
      simp [opensMarkup_endTag htag, readMarkup_endTag htag]

/-! ### Verbatim texts -/

theorem closesElement_endTag {tag : Text} (h : ∀ c ∈ tag, isKept c = true) (rest : Text) :
    closesElement tag ('/' :: (tag ++ '>' :: rest)) = true := by
  simp [closesElement, beginsWith, lower_eq_self h, endsTagName]

theorem closesElement_eq_false {name s : Text} (h : s.head? ≠ some '/') :
    closesElement name s = false := by
  unfold closesElement
  split
  · exact absurd rfl h
  · rfl

theorem not_infix_of_cons {mark run : Text} {c : Char} (h : ¬ mark <:+: c :: run) :
    ¬ mark <:+: run :=
  fun hrun => h (hrun.trans (List.suffix_cons c run).isInfix)

/-- An angle bracket in front of an end tag opens nothing with it. -/
theorem head?_append_bracket_ne {run : Text} (h : ¬ "</".toList <:+: '<' :: run) (rest : Text) :
    (run ++ '<' :: rest).head? ≠ some '/' := by
  cases run with
  | nil => simp
  | cons d run =>
      rintro ⟨⟩
      exact h (List.prefix_append "</".toList run).isInfix

theorem take_append_bracket_ne {run : Text} (h : ¬ "<!--".toList <:+: '<' :: run) (rest : Text) :
    (run ++ '<' :: rest).take 3 ≠ "!--".toList := by
  rcases run with _ | ⟨first, _ | ⟨second, _ | ⟨third, run⟩⟩⟩
  · simp
  · simp
  · simp
  · rintro ⟨⟩
    exact h (List.prefix_append "<!--".toList run).isInfix

theorem upToEndTag_append {tag run : Text} (h : ∀ c ∈ tag, isKept c = true)
    (hrun : ¬ "</".toList <:+: run) (rest : Text) :
    upToEndTag tag (run ++ '<' :: '/' :: (tag ++ '>' :: rest)) =
      (run, '<' :: '/' :: (tag ++ '>' :: rest)) := by
  induction run with
  | nil => simp [upToEndTag, closesElement_endTag h]
  | cons c run ih =>
      have hopen (hc : c = '<') :
          closesElement tag (run ++ '<' :: '/' :: (tag ++ '>' :: rest)) = false :=
        closesElement_eq_false (head?_append_bracket_ne (hc ▸ hrun) _)
      simpa [upToEndTag, ih (not_infix_of_cons hrun)] using hopen

/-- Without the opening of a comment a script gets into none, so its end tag counts. -/
theorem upToScriptEnd_append {place : ScriptPlace} {run : Text} (hplace : place.level = .code)
    (hrun : ¬ "</".toList <:+: run) (hcomment : ¬ "<!--".toList <:+: run) (rest : Text) :
    upToScriptEnd place (run ++ '<' :: '/' :: (scriptName ++ '>' :: rest)) =
      (run, '<' :: '/' :: (scriptName ++ '>' :: rest)) := by
  induction run generalizing place with
  | nil =>
      have hcloses : closesElement scriptName ('/' :: (scriptName ++ '>' :: rest)) = true :=
        closesElement_endTag (Text.forall_eq_of_all (by decide)) rest
      simp [upToScriptEnd, hplace, hcloses]
  | cons c run ih =>
      have hopen (hc : c = '<') :
          closesElement scriptName (run ++ '<' :: '/' :: (scriptName ++ '>' :: rest)) = false :=
        closesElement_eq_false (head?_append_bracket_ne (hc ▸ hrun) _)
      have hnext : (place.next c (run ++ '<' :: '/' :: (scriptName ++ '>' :: rest))).level =
          .code := by
        unfold ScriptPlace.next
        split
        · next hc =>
            have hmark := take_append_bracket_ne (hc ▸ hcomment)
              ('/' :: (scriptName ++ '>' :: rest))
            simp only [ScriptLevel.afterBracket, hplace]
            exact if_neg hmark
        · repeat' split
          all_goals first | exact hplace | rfl
      have htail := ih hnext (not_infix_of_cons hrun) (not_infix_of_cons hcomment)
      simpa [upToScriptEnd, htail] using fun hc _ => hopen hc

/-- What begins with an angle bracket is not in a text without one. -/
theorem not_infix_of_not_mem {mark run : Text} (h : '<' ∉ run) : ¬ '<' :: mark <:+: run :=
  fun hmark => h (hmark.subset (List.mem_cons_self ..))

theorem split_verbatim {tag run : Text} (htag : isVerbatimTag tag = true) (hrun : '<' ∉ run)
    (rest : Text) :
    (Content.ofTag tag).split tag (run ++ '<' :: '/' :: (tag ++ '>' :: rest)) =
      (run, '<' :: '/' :: (tag ++ '>' :: rest)) := by
  simp only [isVerbatimTag, Bool.or_eq_true, decide_eq_true_eq] at htag
  rcases htag with rfl | rfl
  · exact upToScriptEnd_append rfl (not_infix_of_not_mem hrun) (not_infix_of_not_mem hrun) rest
  · exact upToEndTag_append (Text.forall_eq_of_all (by decide)) (not_infix_of_not_mem hrun) rest

theorem decode_verbatim {tag run : Text} (htag : isVerbatimTag tag = true) (hrun : IsClean run) :
    (Content.ofTag tag).decode run = run := by
  simp only [isVerbatimTag, Bool.or_eq_true, decide_eq_true_eq] at htag
  rcases htag with rfl | rfl
  · exact cleaned_eq_self hrun
  · exact cleaned_eq_self hrun

end HtmlTemplate.Markup
