import HtmlTemplate.Proofs.Mustache
import HtmlTemplate.Proofs.Sources
import HtmlTemplate.Proofs.Markup.Storing
/-!
Bringing markup into the written form.  What is in that form stays as it is, and any other text is
written so that it stands for the same characters as before.  The mustaches of a text are where they
were, and their expressions are the same.
-/

namespace HtmlTemplate

namespace Markup

/-! ### The written form -/

theorem normalize_of_isWritten {s : Text} (h : IsWritten s) : normalize s = s := by
  induction s with
  | nil => rfl
  | cons c s ih =>
      obtain ⟨⟨hopening, hclosing, hnbsp⟩, hreference, hs⟩ := isWritten_cons_iff.mp h
      by_cases hc : c = '&'
      · obtain ⟨body, rest, heq, hbody⟩ := hreference hc
        have hread : referenceBody? s = some body := heq ▸ referenceBody?_append hbody rest
        rw [hc, normalize_closed hread, ih hs]
      · have hself : escapeChar c = [c] := by
          simp [escapeChar, hc, hopening, hclosing, hnbsp]
        rw [normalize_cons hc, hself, ih hs, List.singleton_append]

theorem isWritten_iff {s : Text} : IsWritten s ↔ normalize s = s :=
  ⟨normalize_of_isWritten, fun h => h ▸ isWritten_normalize s⟩

/-! ### What the written form stands for -/

/-- A reference with its semicolon is written, and what follows it does not change that. -/
theorem exists_written_of_referenceBody? {s body : Text} (h : referenceBody? s = some body) :
    ∃ rest, '&' :: s = ('&' :: (body ++ [';'])) ++ rest ∧ IsWritten ('&' :: (body ++ [';'])) ∧
      normalize ('&' :: s) = ('&' :: (body ++ [';'])) ++ normalize rest := by
  obtain ⟨rest, rfl, hvalid⟩ := exists_of_referenceBody? h
  have hreference := isReference_of_isReferenceBody hvalid
  have hplain : ∀ c ∈ body ++ [';'], isPlainChar c = true := by
    intro c hc
    rcases List.mem_append.mp hc with hc | hc
    · exact isPlainChar_of_isReferenceChar (isReferenceChar_of_mem hreference hc)
    · cases List.mem_singleton.mp hc
      rfl
  have hnormalize := normalize_append_plain hplain rest
  rw [List.append_assoc, List.singleton_append] at hnormalize
  refine ⟨rest, by simp, ?_, ?_⟩
  · exact isWritten_cons_iff.mpr
      ⟨by decide, fun _ => ⟨body, [], rfl, hreference⟩, isWritten_of_plain hplain⟩
  · rw [normalize_closed h, hnormalize, List.cons_append]

theorem unescapeText_normalize (s : Text) : unescapeText (normalize s) = unescapeText s := by
  induction hlength : s.length using Nat.strongRecOn generalizing s with
  | ind n ih =>
      cases s with
      | nil => rfl
      | cons c s =>
          have hrest : unescapeText (normalize s) = unescapeText s :=
            ih s.length (by simp at hlength; omega) s rfl
          by_cases hc : c = '&'
          · subst hc
            cases hbody : referenceBody? s with
            | none =>
                rw [normalize_ampersand hbody, unescapeText_escapeChar_append, hrest,
                  unescapeText_ampersand hbody]
            | some body =>
                obtain ⟨rest, htext, hwritten, hnormalize⟩ := exists_written_of_referenceBody? hbody
                have hshorter := congrArg List.length htext
                rw [hlength] at hshorter
                have hafter : unescapeText (normalize rest) = unescapeText rest :=
                  ih rest.length (by simp at hshorter; omega) rest rfl
                rw [hnormalize, hwritten.unescapeText_append, hafter,
                  ← hwritten.unescapeText_append, ← htext]
          · rw [normalize_cons hc, unescapeText_escapeChar_append, hrest, unescapeText_cons hc]

/-! ### Marks -/

section Marks

variable {mark : Text} (hne : mark ≠ []) (hmark : ∀ c ∈ mark, isBreak c = true)

include hne hmark

/-- No reference goes across a mark of breaks, and such a mark is not escaped. -/
theorem normalize_append_mark (s t : Text) :
    normalize (s ++ (mark ++ t)) = normalize s ++ (mark ++ normalize t) := by
  have hplain : ∀ c ∈ mark, isPlainChar c = true := by
    intro c hc
    have hbreak := hmark c hc
    simp only [isBreak, Bool.and_eq_true] at hbreak
    exact hbreak.1.1
  obtain ⟨c, rest, rfl⟩ := List.exists_cons_of_ne_nil hne
  have hbreak := hmark c (List.mem_cons_self ..)
  simp only [isBreak, Bool.and_eq_true, Bool.not_eq_true', bne_iff_ne] at hbreak
  have hends : EndsAlike (c :: (rest ++ t)) [] :=
    ⟨by simpa using hbreak.1.2, rfl, by simpa using hbreak.2⟩
  rw [List.cons_append, normalize_append hends, ← List.cons_append, normalize_append_plain hplain]

theorem breakOn_normalize (s : Text) :
    Text.breakOn mark (normalize s) =
      (Text.breakOn mark s).map (Prod.map normalize normalize) := by
  cases hcut : Text.breakOn mark s with
  | none =>
      rw [Text.breakOn_eq_none_iff hne] at hcut
      exact (Text.breakOn_eq_none_iff hne).mpr fun hinfix =>
        hcut (Escapes.infix_of_infix (escapes_normalize s) hne hmark hinfix)
  | some cut =>
      obtain ⟨before, tail⟩ := cut
      have hbefore : ¬ mark <:+: normalize before ++ mark.dropLast := by
        intro hinfix
        have hescapes := (escapes_normalize before).append (escapes_refl mark.dropLast)
        exact Text.not_infix_of_breakOn hne hcut (hescapes.infix_of_infix hne hmark hinfix)
      rw [Text.eq_append_of_breakOn hcut, normalize_append_mark hne hmark,
        Text.breakOn_append hne hbefore]
      rfl

end Marks

end Markup

namespace Mustache

open Markup

def Piece.normalize : Piece → Piece
  | .literal text => .literal (Markup.normalize text)
  | .expression source => .expression (Markup.normalize source)

/-- The mustaches of a text in the written form are those of the text. -/
theorem pieces_normalize (s : Text) :
    pieces (normalize s) = (pieces s).map Piece.normalize := by
  have hopening := breakOn_normalize (by decide) isBreak_of_mem_opening
  have hclosing := breakOn_normalize (by decide) isBreak_of_mem_closing
  fun_induction pieces s with
  | case1 s hopen =>
      rw [pieces_eq, hopening, hopen]
      rfl
  | case2 s before afterOpening hopen hclose =>
      rw [pieces_eq, hopening, hopen, Option.map_some, Option.bind_some, Prod.map_snd, hclosing,
        hclose]
      rfl
  | case3 s before afterOpening hopen source rest hclose ih =>
      rw [pieces_eq, hopening, hopen, Option.map_some, Option.bind_some, Prod.map_snd, hclosing,
        hclose, Option.map_some, Option.map_some, Option.getD_some, Prod.map_snd, ih]
      rfl

/-- Bringing a text into the written form once more does not change it, and the written form stands
for the same characters, with the same expressions in its mustaches. -/
theorem normalize_normalize_and_unescapeText (s : Text) :
    normalize (normalize s) = normalize s ∧ unescapeText (normalize s) = unescapeText s ∧
      (pieces (normalize s)).filterMap Piece.source? = (pieces s).filterMap Piece.source? := by
  refine ⟨normalize_of_isWritten (isWritten_normalize s), unescapeText_normalize s, ?_⟩
  rw [pieces_normalize, List.filterMap_map]
  refine List.filterMap_congr fun piece _ => ?_
  cases piece with
  | literal text => rfl
  | expression source => exact congrArg some (unescapeText_normalize source)

end Mustache

end HtmlTemplate
