import HtmlTemplate.Proofs.Outcome
import HtmlTemplate.Template.Mustache
/-!
The written form of text content: no angle brackets, no no-break space, and each `&` begins a
complete reference.  Escaping and normalizing come to it from any text, and interpolation keeps it,
because no reference reaches across a brace.
-/

namespace HtmlTemplate.Markup

/-- What stands between `&` and `;`: a name, a decimal code or a hexadecimal one. -/
inductive IsReference : Text → Prop where
  | name {name : Text} : name ≠ [] → (∀ c ∈ name, c.isAlphanum = true) → IsReference name
  | decimal {digits : Text} : digits ≠ [] → (∀ c ∈ digits, c.isDigit = true) →
      IsReference ('#' :: digits)
  | hexadecimal {mark : Char} {digits : Text} : mark = 'x' ∨ mark = 'X' → digits ≠ [] →
      (∀ c ∈ digits, Text.isHexDigit c = true) → IsReference ('#' :: mark :: digits)

def BeginsReference (s : Text) : Prop := ∃ body rest, s = body ++ ';' :: rest ∧ IsReference body

structure IsWritten (s : Text) : Prop where
  no_opening : '<' ∉ s
  no_closing : '>' ∉ s
  no_nbsp : nbsp ∉ s
  reference : ∀ before after, s = before ++ '&' :: after → BeginsReference after

theorem isWritten_nil : IsWritten [] where
  no_opening := by simp
  no_closing := by simp
  no_nbsp := by simp
  reference := by simp

theorem isWritten_cons_iff {c : Char} {s : Text} :
    IsWritten (c :: s) ↔
      (c ≠ '<' ∧ c ≠ '>' ∧ c ≠ nbsp) ∧ (c = '&' → BeginsReference s) ∧ IsWritten s := by
  constructor
  · intro h
    have hopening := h.no_opening
    have hclosing := h.no_closing
    have hnbsp := h.no_nbsp
    rw [List.mem_cons, not_or] at hopening hclosing hnbsp
    refine ⟨⟨Ne.symm hopening.1, Ne.symm hclosing.1, Ne.symm hnbsp.1⟩, ?_, ?_⟩
    · rintro rfl
      exact h.reference [] s rfl
    · refine ⟨hopening.2, hclosing.2, hnbsp.2, ?_⟩
      intro before after hs
      exact h.reference (c :: before) after (by rw [hs, List.cons_append])
  · rintro ⟨⟨hopening, hclosing, hnbsp⟩, hreference, h⟩
    refine ⟨?_, ?_, ?_, ?_⟩
    · simp [hopening.symm, h.no_opening]
    · simp [hclosing.symm, h.no_closing]
    · simp [hnbsp.symm, h.no_nbsp]
    · intro before after hs
      cases before with
      | nil =>
          cases hs
          exact hreference rfl
      | cons d before =>
          cases hs
          exact h.reference before after rfl

theorem BeginsReference.append {s : Text} (h : BeginsReference s) (t : Text) :
    BeginsReference (s ++ t) := by
  obtain ⟨body, rest, rfl, hbody⟩ := h
  exact ⟨body, rest ++ t, by simp, hbody⟩

theorem IsWritten.append {s t : Text} (hs : IsWritten s) (ht : IsWritten t) :
    IsWritten (s ++ t) := by
  induction s with
  | nil => exact ht
  | cons c s ih =>
      obtain ⟨hc, hreference, hs⟩ := isWritten_cons_iff.mp hs
      exact isWritten_cons_iff.mpr ⟨hc, fun heq => (hreference heq).append t, ih hs⟩

theorem IsWritten.of_append_right {s t : Text} (h : IsWritten (s ++ t)) : IsWritten t := by
  induction s with
  | nil => exact h
  | cons c s ih => exact ih (isWritten_cons_iff.mp h).2.2

theorem isReferenceChar_of_isDigit {c : Char} (h : c.isDigit = true) :
    isReferenceChar c = true := by
  simp [isReferenceChar, Char.isAlphanum, h]

theorem isReferenceChar_of_isHexDigit {c : Char} (h : Text.isHexDigit c = true) :
    isReferenceChar c = true := by
  simp only [Text.isHexDigit, Bool.or_eq_true, Bool.and_eq_true, decide_eq_true_eq] at h
  simp only [isReferenceChar, Char.isAlphanum, Bool.or_eq_true, Text.isAlpha_iff]
  rcases h with (hdigit | ⟨hlow, hhigh⟩) | ⟨hlow, hhigh⟩
  · exact .inr (.inr hdigit)
  · exact .inr (.inl (.inr ⟨hlow, UInt32.le_trans hhigh (by decide)⟩))
  · exact .inr (.inl (.inl ⟨hlow, UInt32.le_trans hhigh (by decide)⟩))

theorem isReferenceChar_of_mem {body : Text} (h : IsReference body) {c : Char} (hc : c ∈ body) :
    isReferenceChar c = true := by
  cases h with
  | name _ hall => simp [isReferenceChar, hall c hc]
  | decimal _ hall =>
      rcases List.mem_cons.mp hc with rfl | hc
      · rfl
      · exact isReferenceChar_of_isDigit (hall c hc)
  | hexadecimal hmark _ hall =>
      rcases List.mem_cons.mp hc with rfl | hc
      · rfl
      · rcases List.mem_cons.mp hc with rfl | hc
        · rcases hmark with rfl | rfl <;> rfl
        · exact isReferenceChar_of_isHexDigit (hall c hc)

/-- A reference that begins before a brace ends before it. -/
theorem BeginsReference.of_append_brace {s t : Text} (h : BeginsReference (s ++ '\x7b' :: t)) :
    BeginsReference s := by
  obtain ⟨body, rest, heq, hbody⟩ := h
  rcases List.append_eq_append_iff.mp heq with ⟨more, hinside, hmore⟩ | ⟨more, hs, hmore⟩
  · cases more with
    | nil => cases hmore
    | cons c more =>
        cases hmore
        have hbrace := isReferenceChar_of_mem hbody (c := '\x7b') (by rw [hinside]; simp)
        cases hbrace
  · cases more with
    | nil => cases hmore
    | cons c more =>
        cases hmore
        exact ⟨body, more, hs, hbody⟩

theorem IsWritten.of_append_brace {s t : Text} (h : IsWritten (s ++ '\x7b' :: t)) :
    IsWritten s := by
  induction s with
  | nil => exact isWritten_nil
  | cons c s ih =>
      obtain ⟨hc, hreference, hs⟩ := isWritten_cons_iff.mp h
      exact isWritten_cons_iff.mpr ⟨hc, fun heq => (hreference heq).of_append_brace, ih hs⟩

/-! ### Escaping and normalizing -/

theorem isReference_name {name : Text} (hne : name ≠ []) (h : name.all Char.isAlphanum = true) :
    IsReference name :=
  .name hne (List.all_eq_true.mp h)

theorem isReference_of_isReferenceBody {body : Text} (h : isReferenceBody body = true) :
    IsReference body := by
  unfold isReferenceBody at h
  split at h
  · cases h
  · next digits =>
      simp only [Bool.and_eq_true, Bool.not_eq_true', List.isEmpty_eq_false_iff,
        List.all_eq_true] at h
      exact .hexadecimal (.inl rfl) h.1 h.2
  · next digits =>
      simp only [Bool.and_eq_true, Bool.not_eq_true', List.isEmpty_eq_false_iff,
        List.all_eq_true] at h
      exact .hexadecimal (.inr rfl) h.1 h.2
  · next digits _ _ =>
      simp only [Bool.and_eq_true, Bool.not_eq_true', List.isEmpty_eq_false_iff,
        List.all_eq_true] at h
      exact .decimal h.1 h.2
  · next hnil _ _ _ => exact isReference_name hnil h

def isPlainChar (c : Char) : Bool := c ≠ '&' && c ≠ '<' && c ≠ '>' && c ≠ nbsp

theorem isWritten_cons_plain {c : Char} {s : Text} (hc : isPlainChar c = true) (h : IsWritten s) :
    IsWritten (c :: s) := by
  simp only [isPlainChar, Bool.and_eq_true, decide_eq_true_eq] at hc
  obtain ⟨⟨⟨hamp, hopening⟩, hclosing⟩, hnbsp⟩ := hc
  exact isWritten_cons_iff.mpr ⟨⟨hopening, hclosing, hnbsp⟩, fun heq => absurd heq hamp, h⟩

theorem isWritten_of_plain {s : Text} (h : ∀ c ∈ s, isPlainChar c = true) : IsWritten s := by
  induction s with
  | nil => exact isWritten_nil
  | cons c s ih =>
      have htail := ih fun d hd => h d (List.mem_cons_of_mem c hd)
      exact isWritten_cons_plain (h c (by simp)) htail

theorem isWritten_escapeChar (c : Char) : IsWritten (escapeChar c) := by
  have hreference (name : Text) (hne : name ≠ []) (hname : name.all Char.isAlphanum = true)
      (hplain : (name ++ [';']).all isPlainChar = true) :
      IsWritten ('&' :: (name ++ [';'])) :=
    isWritten_cons_iff.mpr ⟨by decide, fun _ => ⟨name, [], rfl, isReference_name hne hname⟩,
      isWritten_of_plain (List.all_eq_true.mp hplain)⟩
  rw [escapeChar]
  split
  · exact hreference "amp".toList (by decide) (by decide) (by decide)
  split
  · exact hreference "lt".toList (by decide) (by decide) (by decide)
  split
  · exact hreference "gt".toList (by decide) (by decide) (by decide)
  split
  · exact hreference "nbsp".toList (by decide) (by decide) (by decide)
  · next hamp hopening hclosing hnbsp =>
      refine isWritten_cons_plain ?_ isWritten_nil
      simp [isPlainChar, hamp, hopening, hclosing, hnbsp]

theorem isWritten_escapeText (s : Text) : IsWritten (escapeText s) := by
  induction s with
  | nil => exact isWritten_nil
  | cons c s ih => exact (isWritten_escapeChar c).append ih

theorem exists_of_referenceBody? {s body : Text} (h : referenceBody? s = some body) :
    ∃ rest, s = body ++ ';' :: rest ∧ isReferenceBody body = true := by
  simp only [referenceBody?] at h
  split at h
  · next hbody =>
      cases h
      simp only [Bool.and_eq_true, decide_eq_true_eq] at hbody
      obtain ⟨rest, hrest⟩ := List.head?_eq_some_iff.mp hbody.1
      refine ⟨rest, ?_, hbody.2⟩
      rw [← hrest, List.takeWhile_append_dropWhile]
  · cases h

theorem isPlainChar_of_isReferenceChar {c : Char} (h : isReferenceChar c = true) :
    isPlainChar c = true := by
  simp only [isPlainChar, Bool.and_eq_true, decide_eq_true_eq]
  refine ⟨⟨⟨?_, ?_⟩, ?_⟩, ?_⟩ <;> rintro rfl <;> exact absurd h (by decide)

theorem normalize_append_plain {s : Text} (h : ∀ c ∈ s, isPlainChar c = true) (t : Text) :
    normalize (s ++ t) = s ++ normalize t := by
  induction s with
  | nil => rfl
  | cons c s ih =>
      have hc := h c (by simp)
      simp only [isPlainChar, Bool.and_eq_true, decide_eq_true_eq] at hc
      obtain ⟨⟨⟨hamp, hopening⟩, hclosing⟩, hnbsp⟩ := hc
      rw [List.cons_append, normalize, ih fun d hd => h d (List.mem_cons_of_mem c hd)]
      simp [escapeChar, hamp, hopening, hclosing, hnbsp]

theorem isWritten_normalize (s : Text) : IsWritten (normalize s) := by
  induction s with
  | nil => exact isWritten_nil
  | cons c s ih =>
      rw [normalize]
      split
      · next hreference =>
          simp only [Bool.and_eq_true, Option.isSome_iff_exists] at hreference
          obtain ⟨-, body, hbody⟩ := hreference
          obtain ⟨rest, rfl, hvalid⟩ := exists_of_referenceBody? hbody
          have hreference := isReference_of_isReferenceBody hvalid
          have hplain : ∀ c ∈ body, isPlainChar c = true := fun c hc =>
            isPlainChar_of_isReferenceChar (isReferenceChar_of_mem hreference hc)
          have hbegins : BeginsReference (normalize (body ++ ';' :: rest)) := by
            refine ⟨body, normalize rest, ?_, hreference⟩
            rw [normalize_append_plain hplain]
            rfl
          exact isWritten_cons_iff.mpr ⟨by decide, fun _ => hbegins, ih⟩
      · exact (isWritten_escapeChar c).append ih

end HtmlTemplate.Markup

namespace HtmlTemplate.Mustache

open Markup

/-! ### Interpolation -/

theorem isWritten_of_mem_pieces {s text : Text} (h : IsWritten s)
    (hmem : Piece.literal text ∈ pieces s) : IsWritten text := by
  fun_induction pieces s with
  | case1 s _ =>
      cases List.mem_singleton.mp hmem
      exact h
  | case2 s before afterOpening _ _ =>
      cases List.mem_singleton.mp hmem
      exact h
  | case3 s before afterOpening hopen source rest hclose ih =>
      rw [Text.eq_append_of_breakOn hopen] at h
      rcases List.mem_cons.mp hmem with heq | hmem
      · -- a reference before the brace ends before it
        cases heq
        exact h.of_append_brace
      · rcases List.mem_cons.mp hmem with heq | hmem
        · cases heq
        · have hrest := h.of_append_right.of_append_right
          rw [Text.eq_append_of_breakOn hclose] at hrest
          exact ih hrest.of_append_right.of_append_right hmem

theorem isWritten_of_renderPiece {scope : Scope} {piece : Piece} {t : Text}
    (h : ∀ text, piece = .literal text → IsWritten text)
    (hrender : renderPiece scope piece = .ok t) :
    IsWritten t := by
  cases piece with
  | literal text =>
      cases hrender
      exact h t rfl
  | expression source =>
      obtain ⟨value, -, heq⟩ := Outcome.bind_eq_ok_iff.mp hrender
      cases heq
      exact isWritten_escapeText value.display

theorem isWritten_of_renderPieces {scope : Scope} {ps : List Piece} {t : Text}
    (h : ∀ text, Piece.literal text ∈ ps → IsWritten text)
    (hrender : renderPieces scope ps = .ok t) : IsWritten t := by
  induction ps generalizing t with
  | nil =>
      cases hrender
      exact isWritten_nil
  | cons piece ps ih =>
      obtain ⟨first, hfirst, hrest⟩ := Outcome.bind_eq_ok_iff.mp hrender
      obtain ⟨others, hothers, heq⟩ := Outcome.bind_eq_ok_iff.mp hrest
      cases heq
      have htail := ih (fun text hmem => h text (List.mem_cons_of_mem piece hmem)) hothers
      have hhead := isWritten_of_renderPiece (fun text heq => h text (by simp [heq])) hfirst
      exact hhead.append htail

/-- Interpolation keeps the written form, whatever the values are. -/
theorem isWritten_of_interpolate {scope : Scope} {s t : Text} (h : IsWritten s)
    (hrender : interpolate scope s = .ok t) : IsWritten t :=
  isWritten_of_renderPieces (fun _ hmem => isWritten_of_mem_pieces h hmem) hrender

end HtmlTemplate.Mustache
