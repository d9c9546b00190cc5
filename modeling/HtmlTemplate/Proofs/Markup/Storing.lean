import HtmlTemplate.Proofs.Markup.RawText
import HtmlTemplate.Proofs.Markup.References
/-!
What the stored form of a text stands for.  It is brought into the written form, in which only
references with a semicolon are left, and at the end of the source it may lack the last character
of a reference.  Otherwise it stands for what the text itself stands for.
-/

namespace HtmlTemplate.Markup

/-! ### The written form -/

/-- No reference in a text lacks its semicolon. -/
def ReferencesClosed (s : Text) : Prop :=
  ∀ before after, s = before ++ '&' :: after → (reference? false after).isSome →
    (referenceBody? after).isSome

theorem referencesClosed_nil : ReferencesClosed [] := by
  intro before after h
  simp at h

theorem referencesClosed_cons_iff {c : Char} {s : Text} :
    ReferencesClosed (c :: s) ↔
      (c = '&' → (reference? false s).isSome → (referenceBody? s).isSome) ∧
        ReferencesClosed s := by
  constructor
  · intro h
    refine ⟨?_, ?_⟩
    · rintro rfl
      exact h [] s rfl
    · intro before after hs
      exact h (c :: before) after (by rw [hs, List.cons_append])
  · rintro ⟨hc, h⟩ before after hs
    cases before with
    | nil =>
        cases hs
        exact hc rfl
    | cons d before =>
        cases hs
        exact h before after rfl

instance decidableReferencesClosed : (s : Text) → Decidable (ReferencesClosed s)
  | [] => .isTrue referencesClosed_nil
  | _ :: s =>
      have := decidableReferencesClosed s
      decidable_of_iff' _ referencesClosed_cons_iff

theorem referencesClosed_append_iff {s : Text} (h : '&' ∉ s) (t : Text) :
    ReferencesClosed (s ++ t) ↔ ReferencesClosed t := by
  induction s with
  | nil => rfl
  | cons c s ih =>
      rw [List.mem_cons, not_or] at h
      rw [List.cons_append, referencesClosed_cons_iff, ih h.2]
      exact and_iff_right fun hc => absurd hc.symm h.1

theorem normalize_cons {c : Char} (h : c ≠ '&') (s : Text) :
    normalize (c :: s) = escapeChar c ++ normalize s := by
  simp [normalize, h]

theorem normalize_closed {s body : Text} (h : referenceBody? s = some body) :
    normalize ('&' :: s) = '&' :: normalize s := by
  simp [normalize, h]

theorem normalize_ampersand {s : Text} (h : referenceBody? s = none) :
    normalize ('&' :: s) = escapeChar '&' ++ normalize s := by
  simp [normalize, h]

theorem reference?_normalize {s body : Text} (h : referenceBody? s = some body) :
    reference? false (normalize s) = reference? false s := by
  obtain ⟨rest, rfl, hbody⟩ := exists_of_referenceBody? h
  have hplain : ∀ c ∈ body, isPlainChar c = true := fun c hc =>
    isPlainChar_of_isReferenceChar
      (isReferenceChar_of_mem (isReference_of_isReferenceBody hbody) hc)
  rw [normalize_append_plain hplain, normalize_cons (by decide)]
  exact (endsAlike_semicolon (normalize rest) rest).reference?_eq body

theorem normalize_eq_of_takesUp {s : Text} {length : Nat} (h : TakesUp s length) :
    normalize s = s.take length ++ normalize (s.drop length) := by
  have hnormalize := normalize_append_plain h.plain (s.drop length)
  rwa [List.take_append_drop] at hnormalize

/-- An ampersand without a reference stays one, whether it is escaped or not. -/
theorem decodeText_normalize_ampersand {s : Text} (h : reference? false s = none) :
    decodeText (normalize ('&' :: s)) = '&' :: decodeText (normalize s) := by
  cases hbody : referenceBody? s with
  | none => rw [normalize_ampersand hbody, decodeText_escapeChar_append]
  | some body =>
      rw [normalize_closed hbody, decodeText_ampersand (by rw [reference?_normalize hbody, h])]

theorem decodeText_normalize_closed {s body chars : Text} {length : Nat}
    (hbody : referenceBody? s = some body) (h : reference? false s = some (chars, length)) :
    decodeText (normalize ('&' :: s)) = chars ++ decodeText (normalize (s.drop length)) := by
  have htakes := (takesUp_of_reference? h).1
  have hread : reference? false (normalize s) = some (chars, length) := by
    rw [reference?_normalize hbody, h]
  rw [normalize_closed hbody, decodeText_reference hread, normalize_eq_of_takesUp htakes,
    List.drop_left' (List.length_take_of_le htakes.le)]

/-- A reference without a semicolon is escaped, and stands for itself. -/
theorem decodeText_normalize_unclosed {s chars : Text} {length : Nat}
    (hbody : referenceBody? s = none) (h : reference? false s = some (chars, length)) :
    decodeText (normalize ('&' :: s)) =
      '&' :: (s.take length ++ decodeText (normalize (s.drop length))) := by
  have htakes := (takesUp_of_reference? h).1
  rw [normalize_ampersand hbody, decodeText_escapeChar_append, normalize_eq_of_takesUp htakes,
    decodeText_append_plain htakes.plain]

/-- The written form stands for the same if no reference lacks its semicolon, and otherwise for a
text that is longer, by two characters at least. -/
theorem decodeText_normalize (s : Text) :
    (ReferencesClosed s ∧ decodeText (normalize s) = decodeText s) ∨
      (¬ ReferencesClosed s ∧
        (decodeText s).length + 2 ≤ (decodeText (normalize s)).length) := by
  induction s using reference_induction with
  | nil => exact .inl ⟨referencesClosed_nil, rfl⟩
  | plain c s hc ih =>
      rw [normalize_cons hc, decodeText_escapeChar_append, decodeText_cons hc,
        referencesClosed_cons_iff]
      simpa [hc] using ih
  | ampersand s hnone ih =>
      rw [decodeText_normalize_ampersand hnone, decodeText_ampersand hnone,
        referencesClosed_cons_iff]
      simpa [hnone] using ih
  | reference s chars length hsome ih =>
      obtain ⟨htakes, hlength⟩ := takesUp_of_reference? hsome
      have hrest : ReferencesClosed s ↔ ReferencesClosed (s.drop length) := by
        have hamp : '&' ∉ s.take length := fun hmem => by cases htakes.plain _ hmem
        rw [← referencesClosed_append_iff hamp (s.drop length), List.take_append_drop]
      rw [decodeText_reference hsome, referencesClosed_cons_iff, hrest]
      cases hbody : referenceBody? s with
      | some body =>
          rw [decodeText_normalize_closed hbody hsome]
          simpa [Nat.add_assoc] using ih
      | none =>
          -- What stands for itself here is longer than what it stands for in the text, and nothing
          -- behind it makes up for that.
          rw [decodeText_normalize_unclosed hbody hsome]
          refine .inr ⟨by simp [hsome], ?_⟩
          have htake : (s.take length).length = length := List.length_take_of_le htakes.le
          have hle : (decodeText (s.drop length)).length ≤
              (decodeText (normalize (s.drop length))).length := by
            rcases ih with ⟨-, heq⟩ | ⟨-, hlt⟩
            · exact Nat.le_of_eq (congrArg List.length heq.symm)
            · omega
          simp only [List.length_append, List.length_cons, htake]
          omega

theorem decodeText_normalize_eq_iff (s : Text) :
    decodeText (normalize s) = decodeText s ↔ ReferencesClosed s := by
  rcases decodeText_normalize s with ⟨hclosed, heq⟩ | ⟨hclosed, hlength⟩
  · exact iff_of_true heq hclosed
  · refine iff_of_false (fun heq => ?_) hclosed
    rw [heq] at hlength
    omega

/-! ### The end of the source -/

theorem exists_append_ampersand {s : Text} (h : '&' ∈ s) :
    ∃ before, s = before ++ '&' :: (s.reverse.takeWhile (· ≠ '&')).reverse := by
  obtain ⟨back, front, hs, hback⟩ := List.eq_append_cons_of_mem (List.mem_reverse.mpr h)
  have hplain : ∀ c ∈ back, decide (c ≠ '&') = true := by
    intro c hc
    exact decide_eq_true (ne_of_mem_of_not_mem hc hback)
  have htake := (Text.takeWhile_append_of_head (t := '&' :: front) hplain rfl).1
  refine ⟨front.reverse, ?_⟩
  rw [hs, htake, ← List.reverse_reverse s, hs]
  simp

/-- A name that reaches to the end of a text is no reference without its last character. -/
theorem referenceBody?_dropLast_eq_none {s chars : Text}
    (h : namedReference? false s = some (chars, s.length)) : referenceBody? s.dropLast = none := by
  have hpos := (takesUp_of_namedReference? h).2
  have hs := List.dropLast_concat_getLast (List.ne_nil_of_length_pos (Nat.zero_lt_of_lt hpos))
  cases hbody : referenceBody? s.dropLast with
  | none => rfl
  | some body =>
      obtain ⟨rest, hrest, -⟩ := exists_of_referenceBody? hbody
      rw [hrest, List.append_assoc, List.cons_append] at hs
      rw [← hs, (endsAlike_semicolon _ []).namedReference?_eq body] at h
      have hle := (takesUp_of_namedReference? h).1.le
      simp at hle

/-- In a text that ends in a reference, what follows the last ampersand is either no reference, or
longer than what the reference stands for; and it is none without its last character. -/
theorem exists_of_endsInReference {s : Text} (h : endsInReference s = true) :
    ∃ before last, s = before ++ '&' :: last ∧ (∀ c ∈ last, isPlainChar c = true) ∧
      referenceBody? last.dropLast = none ∧
      ((decodeText ('&' :: last)).length = last.length + 1 ∨
        (decodeText ('&' :: last)).length < last.length) := by
  simp only [endsInReference, Bool.and_eq_true, Bool.or_eq_true, decide_eq_true_eq,
    List.contains_iff_mem, List.mem_reverse, List.isEmpty_iff] at h
  obtain ⟨hmem, hlast⟩ := h
  obtain ⟨before, hs⟩ := exists_append_ampersand hmem
  refine ⟨before, _, hs, ?_⟩
  generalize (s.reverse.takeWhile (· ≠ '&')).reverse = last at hlast
  rcases hlast with (((rfl | rfl) | rfl) | rfl) | hname
  · exact ⟨by simp, by decide, .inl (by decide)⟩
  · exact ⟨Text.forall_eq_of_all (by decide), by decide, .inl (by decide)⟩
  · exact ⟨Text.forall_eq_of_all (by decide), by decide, .inl (by decide)⟩
  · exact ⟨Text.forall_eq_of_all (by decide), by decide, .inl (by decide)⟩
  · cases hread : namedReference? false last with
    | none => simp [hread] at hname
    | some found =>
        obtain ⟨chars, length⟩ := found
        obtain rfl : length = last.length := by simpa [hread] using hname
        obtain ⟨htakes, hlength⟩ := takesUp_of_namedReference? hread
        have hplain := htakes.plain
        rw [List.take_length] at hplain
        have hhead : last.head? ≠ some '#' := by
          intro heq
          obtain ⟨rest, rfl⟩ := List.head?_eq_some_iff.mp heq
          cases hread
        have hdecode : decodeText ('&' :: last) = chars := by
          rw [decodeText_reference ((reference?_of_head?_ne false hhead).trans hread),
            List.drop_length]
          exact List.append_nil chars
        exact ⟨hplain, referenceBody?_dropLast_eq_none hread, .inr (by rwa [hdecode])⟩

/-- Texts are brought into the written form one after another where no reference reaches out of the
first. -/
theorem normalize_append {u : Text} (h : EndsAlike u []) (s : Text) :
    normalize (s ++ u) = normalize s ++ normalize u := by
  induction s with
  | nil => rfl
  | cons c s ih =>
      have hbody : referenceBody? (s ++ u) = referenceBody? s := by
        rw [h.referenceBody?_eq s, List.append_nil]
      rw [List.cons_append, normalize, normalize, hbody, ih]
      split <;> simp

theorem normalize_append_ampersand (s t : Text) :
    normalize (s ++ '&' :: t) = normalize s ++ normalize ('&' :: t) :=
  normalize_append (endsAlike_ampersand t) s

theorem decodeText_normalize_plain {s : Text} (h : ∀ c ∈ s, isPlainChar c = true) :
    decodeText (normalize s) = s := by
  have hnormalize := normalize_append_plain h []
  have hdecode := decodeText_append_plain h []
  rw [List.append_nil, normalize, List.append_nil] at hnormalize
  rw [List.append_nil] at hdecode
  rw [hnormalize, hdecode]
  exact List.append_nil s

/-- Without its last character, a text that ends in a reference stands for another text. -/
theorem decodeText_normalize_dropLast_ne {s : Text} (h : endsInReference s = true) :
    decodeText (normalize s.dropLast) ≠ decodeText s := by
  obtain ⟨before, last, rfl, hplain, hbody, hlast⟩ := exists_of_endsInReference h
  have hkept : (decodeText (normalize (before ++ '&' :: last).dropLast)).length =
      (decodeText (normalize before)).length + last.length := by
    by_cases hnil : last = []
    · subst hnil
      rw [List.dropLast_concat]
      rfl
    · have hdrop : ∀ c ∈ last.dropLast, isPlainChar c = true := fun c hc =>
        hplain c (List.dropLast_subset last hc)
      have hescaped : normalize ('&' :: last.dropLast) =
          '&' :: ("amp;".toList ++ normalize last.dropLast) := normalize_ampersand hbody
      have hdecode : decodeText ('&' :: ("amp;".toList ++ normalize last.dropLast)) =
          '&' :: last.dropLast := by
        rw [← hescaped, normalize_ampersand hbody, decodeText_escapeChar_append,
          decodeText_normalize_plain hdrop]
      have hpos : 0 < last.length := List.length_pos_iff.mpr hnil
      rw [List.dropLast_append_of_ne_nil (List.cons_ne_nil _ _), List.dropLast_cons_of_ne_nil hnil,
        normalize_append_ampersand, hescaped, decodeText_append_ampersand, hdecode]
      simp only [List.length_append, List.length_cons, List.length_dropLast]
      omega
  -- No text before the ampersand stands for one character more in its written form.
  intro heq
  have hlength := congrArg List.length heq
  rw [hkept, decodeText_append_ampersand, List.length_append] at hlength
  rcases decodeText_normalize before with ⟨-, hbefore⟩ | ⟨-, hbefore⟩
  · rw [hbefore] at hlength
    omega
  · omega

/-! ### Stored texts -/

theorem normalize_eq_escapeText {s : Text} (h : '&' ∉ s) : normalize s = escapeText s := by
  induction s with
  | nil => rfl
  | cons c s ih =>
      rw [List.mem_cons, not_or] at h
      rw [normalize_cons (Ne.symm h.1), ih h.2, escapeText_cons]

theorem eq_concat_of_not_mem_dropLast {s : Text} {c : Char} (h : c ∈ s) (hlast : c ∉ s.dropLast) :
    s = s.dropLast ++ [c] := by
  have hs := List.dropLast_concat_getLast (List.ne_nil_of_mem h)
  rw [← hs, List.mem_append, List.mem_singleton] at h
  rcases h with hmem | heq
  · exact absurd hmem hlast
  · rw [heq, hs]

/-- What is stored of a text that ends the source. -/
theorem storedText_part {s : Text} (hopening : '<' ∉ s) (hne : s ≠ []) :
    Forest.storedText (Content.markup.part s []) (decodeText s) =
      if endsInReference s = true ∧ '&' ∈ s.dropLast then normalize s.dropLast
      else normalize s := by
  rw [part_nil hopening hne]
  by_cases hends : endsInReference s = true
  · by_cases hmem : '&' ∈ s.dropLast
    · simp [Forest.storedText, hends, hmem]
    · -- The only ampersand stands for itself, and the text without it is not what is stored.
      have hs := eq_concat_of_not_mem_dropLast (mem_of_endsInReference hends) hmem
      have hself : decodeText s = s := by
        rw [hs, decodeText_append_ampersand, decodeText_eq_self hmem]
        rfl
      have hplain : s.dropLast ≠ s := by
        intro heq
        rw [heq] at hmem
        exact hmem (mem_of_endsInReference hends)
      have hescaped : normalize s = escapeText s := by
        rw [hs, normalize_append_ampersand, normalize_eq_escapeText hmem, escapeText, escapeText,
          List.flatMap_append]
        rfl
      simp [Forest.storedText, hends, hmem, hself, hplain, hescaped]
  · simp [hends, storedText_decodeText]

theorem mem_of_mem_escapeChar {c d : Char} (h : c ∈ escapeChar d)
    (hc : c ∉ "&;ampltgnbs".toList) : c = d := by
  have hsubset : "&amp;".toList ⊆ "&;ampltgnbs".toList ∧ "&lt;".toList ⊆ "&;ampltgnbs".toList ∧
      "&gt;".toList ⊆ "&;ampltgnbs".toList ∧ "&nbsp;".toList ⊆ "&;ampltgnbs".toList := by decide
  obtain ⟨hamp, hlt, hgt, hnbsp⟩ := hsubset
  unfold escapeChar at h
  repeat' split at h
  · exact absurd (hamp h) hc
  · exact absurd (hlt h) hc
  · exact absurd (hgt h) hc
  · exact absurd (hnbsp h) hc
  · exact List.mem_singleton.mp h

theorem mem_of_mem_normalize {s : Text} {c : Char} (h : c ∈ normalize s)
    (hc : c ∉ "&;ampltgnbs".toList) : c ∈ s := by
  induction s with
  | nil => cases h
  | cons d s ih =>
      rw [normalize] at h
      split at h
      · rcases List.mem_cons.mp h with rfl | h
        · exact absurd (by decide) hc
        · exact List.mem_cons_of_mem d (ih h)
      · rcases List.mem_append.mp h with h | h
        · exact mem_of_mem_escapeChar h hc ▸ List.mem_cons_self ..
        · exact List.mem_cons_of_mem d (ih h)

theorem isClean_normalize {s : Text} (h : IsClean s) : IsClean (normalize s) :=
  ⟨fun hmem => h.1 (mem_of_mem_normalize hmem (by decide)),
    fun hmem => h.2 (mem_of_mem_normalize hmem (by decide))⟩

/-! ### What a source stands for -/

def Token.decoded : Token → Text
  | .text _ decoded => decoded
  | _ => []

/-- The text of a source: what its text tokens stand for. -/
def decodedText (source : Text) : Text := (tokens source).flatMap Token.decoded

theorem tokens_text {s : Text} (hne : s ≠ []) (hopening : '<' ∉ s) (hclean : IsClean s) :
    tokens s = [.text (Content.markup.part s []) (decodeText s)] := by
  have htokens := beginsWith_text hne hopening hclean (.inl rfl)
  rw [List.append_nil] at htokens
  exact htokens.tokens_eq

theorem decodedText_eq {s : Text} (hopening : '<' ∉ s) (hclean : IsClean s) :
    decodedText s = decodeText s := by
  by_cases hne : s = []
  · subst hne
    rfl
  · simp [decodedText, tokens_text hne hopening hclean, Token.decoded]

theorem decodedText_normalize {s : Text} (hclean : IsClean s) :
    decodedText (normalize s) = decodeText (normalize s) :=
  decodedText_eq (isWritten_normalize s).no_opening (isClean_normalize hclean)

theorem parse_text {s : Text} (hne : s ≠ []) (hopening : '<' ∉ s) (hclean : IsClean s) :
    parse s = [.text (if endsInReference s = true ∧ '&' ∈ s.dropLast then normalize s.dropLast
      else normalize s)] := by
  refine (Builds.text (storedText_part hopening hne) ?_).parse_eq (tokens_text hne hopening hclean)
  split
  · next hlost => exact normalize_ne_nil (List.ne_nil_of_mem hlost.2)
  · exact normalize_ne_nil hne

theorem parse_elementText_markup {tag s : Text} (htag : isTagName tag = true)
    (hvoid : isVoidTag tag = false) (hcontent : Content.ofTag tag = .markup) (hne : s ≠ [])
    (hopening : '<' ∉ s) (hclean : IsClean s) :
    parse (elementText tag s) = [.element tag .empty [.text (normalize s)]] := by
  have hsplit : (Content.ofTag tag).split tag (s ++ endTagText tag) =
      ([], s ++ endTagText tag) := by
    rw [hcontent]
    rfl
  have hstart := beginsWith_startTag htag isAttribute_of_mem_empty hsplit (Nat.le_refl _)
  have htext := beginsWith_text hne hopening hclean
    (.inr ⟨_, rfl, opensMarkup_endTag htag ['>']⟩)
  have hwhole := (hstart.append htext).append (beginsWith_endTag htag [])
  rw [hcontent, part_eq_self hopening hne (List.cons_ne_nil _ _)] at hwhole
  have hbuilds : Builds [.text s (decodeText s)] [.text (normalize s)] :=
    .text (storedText_decodeText s) (normalize_ne_nil hne)
  exact (Builds.markup hvoid (not_isVerbatimTag_of_ofTag hcontent) hbuilds).parse_eq
    hwhole.tokens_eq

/-- A text is stored as one that stands for the same if no reference in it lacks its semicolon.  At
the end of the source it must not end in a reference, either, unless its only ampersand is its last
character. -/
theorem decodedText_stored_eq_iff {s : Text} (hne : s ≠ []) (hopening : '<' ∉ s)
    (hclean : IsClean s) :
    (∃ stored, parse s = [.text stored] ∧
      (decodedText stored = decodedText s ↔
        ReferencesClosed s ∧ (endsInReference s = true → '&' ∉ s.dropLast))) ∧
    ∀ tag, isTagName tag = true → isVoidTag tag = false → Content.ofTag tag = .markup →
      ∃ stored, parse (elementText tag s) = [.element tag .empty [.text stored]] ∧
        (decodedText stored = decodedText s ↔ ReferencesClosed s) := by
  have hdecoded := decodedText_eq hopening hclean
  refine ⟨⟨_, parse_text hne hopening hclean, ?_⟩, ?_⟩
  · rw [hdecoded]
    split
    · next hlost =>
        have hkept : IsClean s.dropLast := ⟨fun h => hclean.1 (List.dropLast_subset s h),
          fun h => hclean.2 (List.dropLast_subset s h)⟩
        rw [decodedText_normalize hkept]
        exact iff_of_false (decodeText_normalize_dropLast_ne hlost.1) fun h => h.2 hlost.1 hlost.2
    · next hwhole =>
        rw [decodedText_normalize hclean, decodeText_normalize_eq_iff]
        exact ⟨fun hclosed => ⟨hclosed, fun hends hmem => hwhole ⟨hends, hmem⟩⟩, fun h => h.1⟩
  · intro tag htag hvoid hcontent
    refine ⟨_, parse_elementText_markup htag hvoid hcontent hne hopening hclean, ?_⟩
    rw [hdecoded, decodedText_normalize hclean, decodeText_normalize_eq_iff]

theorem decodedText_stored_references :
    let s := "1 &amp; 2 > &#65;&#x42; & 3&nbsp;!".toList
    s ≠ [] ∧ '<' ∉ s ∧ IsClean s ∧
      (∃ stored, parse s = [.text stored] ∧ decodedText stored = decodedText s) ∧
      ∃ stored, parse (elementText "p".toList s) = [.element "p".toList .empty [.text stored]] ∧
        decodedText stored = decodedText s := by
  intro s
  have hs : s ≠ [] ∧ '<' ∉ s ∧ IsClean s := by decide
  have hclosed : ReferencesClosed s := by decide +kernel
  have hends : endsInReference s = false := by decide +kernel
  obtain ⟨⟨stored, hparse, hiff⟩, helement⟩ := decodedText_stored_eq_iff hs.1 hs.2.1 hs.2.2
  obtain ⟨inner, hinner, hinnerIff⟩ := helement "p".toList (by decide) (by decide) (by decide)
  refine ⟨hs.1, hs.2.1, hs.2.2, ⟨stored, hparse, hiff.mpr ⟨hclosed, ?_⟩⟩,
    inner, hinner, hinnerIff.mpr hclosed⟩
  intro hreference
  rw [hends] at hreference
  cases hreference

/-- A reference at the end of the source loses its semicolon, and a code without a semicolon
becomes the text that it is written with. -/
theorem decodedText_stored_ne :
    let atEnd := "&amp;".toList
    let unclosed := "a &#38 b".toList
    ((atEnd ≠ [] ∧ '<' ∉ atEnd ∧ IsClean atEnd) ∧ parse atEnd = [.text "&amp;amp".toList] ∧
      decodedText "&amp;amp".toList ≠ decodedText atEnd) ∧
    (unclosed ≠ [] ∧ '<' ∉ unclosed ∧ IsClean unclosed) ∧
      parse unclosed = [.text "a &amp;#38 b".toList] ∧
      decodedText "a &amp;#38 b".toList ≠ decodedText unclosed := by
  intro atEnd unclosed
  have hend : atEnd ≠ [] ∧ '<' ∉ atEnd ∧ IsClean atEnd := by decide
  have hmiddle : unclosed ≠ [] ∧ '<' ∉ unclosed ∧ IsClean unclosed := by decide
  refine ⟨⟨hend, ?_, by decide +kernel⟩, hmiddle, ?_, by decide +kernel⟩
  · rw [parse_text hend.1 hend.2.1 hend.2.2]
    have hstored : (if endsInReference atEnd = true ∧ '&' ∈ atEnd.dropLast then
        normalize atEnd.dropLast else normalize atEnd) = "&amp;amp".toList := by decide +kernel
    rw [hstored]
  · rw [parse_text hmiddle.1 hmiddle.2.1 hmiddle.2.2]
    have hstored : (if endsInReference unclosed = true ∧ '&' ∈ unclosed.dropLast then
        normalize unclosed.dropLast else normalize unclosed) = "a &amp;#38 b".toList := by
      decide +kernel
    rw [hstored]

end HtmlTemplate.Markup
