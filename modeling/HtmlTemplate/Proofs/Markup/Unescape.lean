import Mathlib.Data.List.Infix
import HtmlTemplate.Proofs.Markup.Written
import HtmlTemplate.Proofs.Pieces
/-!
The plain text that written text stands for.  No reference reaches out of a written text, so that
what written texts stand for is put together from one after another, and an escaped text stands for
the text itself.  To decode a text is to search it, for an ampersand and the first semicolon after
it.  No mark that could not be part of a reference comes into a text by escaping.
-/

namespace HtmlTemplate.Markup

/-! ### References -/

theorem isReferenceBody_of_isReference {body : Text} (h : IsReference body) :
    isReferenceBody body = true := by
  cases h with
  | name hne hall =>
      obtain ⟨c, rest, rfl⟩ := List.exists_cons_of_ne_nil hne
      have hc : c ≠ '#' := by
        rintro rfl
        exact absurd (hall '#' (List.mem_cons_self ..)) (by decide)
      unfold isReferenceBody
      split <;> simp_all
  | decimal hne hall =>
      obtain ⟨c, rest, rfl⟩ := List.exists_cons_of_ne_nil hne
      have hc : c.isDigit = true := hall c (List.mem_cons_self ..)
      unfold isReferenceBody
      split
      · next heq => cases heq
      · next heq =>
          cases heq
          cases hc
      · next heq =>
          cases heq
          cases hc
      · next heq =>
          cases heq
          simpa using hall
      · next _ _ _ hhash => exact (hhash (c :: rest) rfl).elim
  | hexadecimal hmark hne hall =>
      rcases hmark with rfl | rfl <;> simp_all [isReferenceBody]

/-- A reference is recognized, whatever follows its semicolon. -/
theorem referenceBody?_append {body : Text} (h : IsReference body) (rest : Text) :
    referenceBody? (body ++ ';' :: rest) = some body := by
  have hbody : ∀ c ∈ body, isReferenceChar c = true := fun c hc => isReferenceChar_of_mem h hc
  have hrest : (';' :: rest).head?.any isReferenceChar = false := rfl
  obtain ⟨htake, hdrop⟩ := Text.takeWhile_append_of_head hbody hrest
  rw [referenceBody?, htake, hdrop]
  simp [isReferenceBody_of_isReference h]

/-! ### Written texts one after another -/

theorem unescapeFrom_length (s t : Text) : unescapeFrom s.length (s ++ t) = unescapeText t := by
  induction s with
  | nil => rfl
  | cons c s ih => exact ih

theorem unescapeFrom_append {s : Text} (h : IsWritten s) {skip : Nat} (hskip : skip ≤ s.length)
    (t : Text) : unescapeFrom skip (s ++ t) = unescapeFrom skip s ++ unescapeText t := by
  induction s generalizing skip with
  | nil =>
      cases Nat.le_zero.mp hskip
      rfl
  | cons c s ih =>
      obtain ⟨-, hreference, hs⟩ := isWritten_cons_iff.mp h
      cases skip with
      | succ skip => exact ih hs (Nat.le_of_succ_le_succ hskip)
      | zero =>
          rw [List.cons_append, unescapeFrom, unescapeFrom]
          split
          · next hc =>
              -- The reference that begins here ends in `s`, so it is met in both texts.
              obtain ⟨body, rest, rfl, hbody⟩ := hreference hc
              rw [List.append_assoc, List.cons_append, referenceBody?_append hbody,
                referenceBody?_append hbody]
              dsimp only
              cases decodeBody? body with
              | none =>
                  have hnext := ih hs (Nat.zero_le _)
                  rw [List.append_assoc, List.cons_append] at hnext
                  rw [hnext, List.cons_append]
              | some decoded =>
                  have hlength : body.length + 1 ≤ (body ++ ';' :: rest).length := by simp
                  have hnext := ih hs hlength
                  rw [List.append_assoc, List.cons_append] at hnext
                  dsimp only
                  rw [hnext, List.cons_append]
          · rw [ih hs (Nat.zero_le _), List.cons_append]

/-- What follows a written text does not change what it stands for. -/
theorem IsWritten.unescapeText_append {s : Text} (h : IsWritten s) (t : Text) :
    unescapeText (s ++ t) = unescapeText s ++ unescapeText t :=
  unescapeFrom_append h (Nat.zero_le _) t

/-! ### Escaped texts -/

@[simp] theorem unescapeText_nil : unescapeText [] = [] := rfl

theorem unescapeText_cons {c : Char} (h : c ≠ '&') (s : Text) :
    unescapeText (c :: s) = c :: unescapeText s := by
  rw [unescapeText, unescapeFrom, if_neg h]
  rfl

theorem unescapeText_reference {body : Text} {c : Char} (h : IsReference body)
    (hdecode : decodeBody? body = some c) (t : Text) :
    unescapeText ('&' :: (body ++ ';' :: t)) = c :: unescapeText t := by
  have hskip := unescapeFrom_length (body ++ [';']) t
  rw [List.append_assoc, List.length_append] at hskip
  rw [unescapeText, unescapeFrom, if_pos rfl, referenceBody?_append h]
  dsimp only
  rw [hdecode]
  exact congrArg (c :: ·) hskip

theorem unescapeText_escapeChar_append (c : Char) (t : Text) :
    unescapeText (escapeChar c ++ t) = c :: unescapeText t := by
  have hreference (name : Text) (d : Char) (hname : name ≠ [] ∧ name.all Char.isAlphanum = true)
      (hdecode : decodeBody? name = some d) :
      unescapeText ('&' :: (name ++ ';' :: t)) = d :: unescapeText t :=
    unescapeText_reference (isReference_name hname.1 hname.2) hdecode t
  unfold escapeChar
  split
  · next hc => exact hc ▸ hreference "amp".toList '&' (by decide) (by decide)
  split
  · next hc => exact hc ▸ hreference "lt".toList '<' (by decide) (by decide)
  split
  · next hc => exact hc ▸ hreference "gt".toList '>' (by decide) (by decide)
  split
  · next hc => exact hc ▸ hreference "nbsp".toList nbsp (by decide) (by decide)
  · next hamp _ _ _ => exact unescapeText_cons hamp t

theorem escapeText_cons (c : Char) (s : Text) :
    escapeText (c :: s) = escapeChar c ++ escapeText s :=
  List.flatMap_cons

/-- An escaped text stands for the text itself, whatever follows it. -/
theorem unescapeText_escapeText_append (s t : Text) :
    unescapeText (escapeText s ++ t) = s ++ unescapeText t := by
  induction s with
  | nil => rfl
  | cons c s ih =>
      rw [escapeText_cons, List.append_assoc, unescapeText_escapeChar_append, ih, List.cons_append]

/-- What was escaped is given back, whatever it holds: ampersands, semicolons and references too. -/
theorem unescapeText_escapeText (s : Text) : unescapeText (escapeText s) = s := by
  have happend := unescapeText_escapeText_append s []
  rwa [List.append_nil, unescapeText_nil, List.append_nil] at happend

/-! ### Decoding by searches -/

theorem unescapeText_ampersand {s : Text} (h : referenceBody? s = none) :
    unescapeText ('&' :: s) = '&' :: unescapeText s := by
  rw [unescapeText, unescapeFrom, if_pos rfl, h]
  rfl

theorem unescapeText_append_of_not_mem {s : Text} (h : '&' ∉ s) (t : Text) :
    unescapeText (s ++ t) = s ++ unescapeText t := by
  induction s with
  | nil => rfl
  | cons c s ih =>
      rw [List.mem_cons, not_or] at h
      rw [List.cons_append, unescapeText_cons (Ne.symm h.1), ih h.2, List.cons_append]

/-- A reference that stands for no known character stays as it is. -/
theorem unescapeText_unknown {body : Text} (h : IsReference body)
    (hdecode : decodeBody? body = none) (t : Text) :
    unescapeText ('&' :: (body ++ ';' :: t)) = '&' :: (body ++ ';' :: unescapeText t) := by
  have hbody : '&' ∉ body ++ [';'] := by
    intro hmem
    rcases List.mem_append.mp hmem with hmem | hmem
    · exact absurd (isReferenceChar_of_mem h hmem) (by decide)
    · exact absurd hmem (by decide)
  have hrest := unescapeText_append_of_not_mem hbody t
  rw [List.append_assoc, List.append_assoc, List.singleton_append, List.singleton_append] at hrest
  rw [unescapeText, unescapeFrom, if_pos rfl, referenceBody?_append h]
  dsimp only
  rw [hdecode]
  exact congrArg ('&' :: ·) hrest

/-- A reference reaches to the first semicolon. -/
theorem referenceBody?_eq_breakOn (s : Text) : referenceBody? s =
    ((Text.breakOn [';'] s).filter fun cut => isReferenceBody cut.1).map Prod.fst := by
  ext body
  rw [Option.map_eq_some_iff]
  constructor
  · intro h
    obtain ⟨rest, rfl, hbody⟩ := exists_of_referenceBody? h
    have hfirst : ¬ [';'] <:+: body ++ [';'].dropLast := by
      rw [List.dropLast_singleton, List.append_nil, List.singleton_infix_iff]
      intro hmem
      have hchar := isReferenceChar_of_mem (isReference_of_isReferenceBody hbody) hmem
      exact absurd hchar (by decide)
    exact ⟨(body, rest),
      Option.filter_eq_some_iff.mpr ⟨Text.breakOn_append (by decide) hfirst rest, hbody⟩, rfl⟩
  · rintro ⟨⟨body, rest⟩, hcut, rfl⟩
    obtain ⟨hcut, hbody⟩ := Option.filter_eq_some_iff.mp hcut
    rw [Text.eq_append_of_breakOn hcut]
    exact referenceBody?_append (isReference_of_isReferenceBody hbody) rest

/-- Decoding goes on by searches: for the next ampersand, and from there for the next semicolon.
What is between them is a reference or not, and one that stands for no known character is kept. -/
theorem unescapeText_eq_search (s : Text) : unescapeText s =
    (Text.breakOn ['&'] s).elim s fun opening => opening.1 ++
      ((Text.breakOn [';'] opening.2).filter fun cut => isReferenceBody cut.1).elim
        ('&' :: unescapeText opening.2) fun closing =>
          (decodeBody? closing.1).elim ('&' :: (closing.1 ++ [';'])) ([·]) ++
            unescapeText closing.2 := by
  cases hopening : Text.breakOn ['&'] s with
  | none =>
      have hnone := (Text.breakOn_eq_none_iff (by decide)).mp hopening
      rw [List.singleton_infix_iff] at hnone
      have hself := unescapeText_append_of_not_mem hnone []
      rwa [List.append_nil, unescapeText_nil, List.append_nil] at hself
  | some opening =>
      obtain ⟨before, rest⟩ := opening
      have hbefore := Text.not_infix_of_breakOn (by decide) hopening
      rw [List.dropLast_singleton, List.append_nil, List.singleton_infix_iff] at hbefore
      rw [Text.eq_append_of_breakOn hopening, unescapeText_append_of_not_mem hbefore,
        List.singleton_append, Option.elim_some]
      refine congrArg (before ++ ·) ?_
      have hreference := referenceBody?_eq_breakOn rest
      cases hfound : (Text.breakOn [';'] rest).filter fun cut => isReferenceBody cut.1 with
      | none =>
          rw [hfound] at hreference
          exact unescapeText_ampersand hreference
      | some closing =>
          obtain ⟨body, after⟩ := closing
          obtain ⟨hcut, hvalid⟩ := Option.filter_eq_some_iff.mp hfound
          have hbody := isReference_of_isReferenceBody hvalid
          rw [Text.eq_append_of_breakOn hcut, List.singleton_append, Option.elim_some]
          cases hdecode : decodeBody? body with
          | none =>
              rw [unescapeText_unknown hbody hdecode after, Option.elim_none, List.cons_append,
                List.append_assoc, List.singleton_append]
          | some c => exact unescapeText_reference hbody hdecode after

/-! ### Marks in escaped texts -/

/-- A character that is not escaped, and that no reference goes across. -/
def isBreak (c : Char) : Bool := isPlainChar c && !isReferenceChar c && c != ';'

/-- The second text is the first with some of its characters escaped. -/
inductive Escapes : Text → Text → Prop where
  | nil : Escapes [] []
  | kept {c : Char} {s t : Text} : Escapes s t → Escapes (c :: s) (c :: t)
  | escaped {c : Char} {s t : Text} : Escapes s t → Escapes (c :: s) (escapeChar c ++ t)

theorem escapes_escapeText (s : Text) : Escapes s (escapeText s) := by
  induction s with
  | nil => exact .nil
  | cons c s ih => exact .escaped ih

theorem escapes_normalize (s : Text) : Escapes s (normalize s) := by
  induction s with
  | nil => exact .nil
  | cons c s ih =>
      rw [normalize]
      split
      · next hreference =>
          simp only [Bool.and_eq_true, decide_eq_true_eq] at hreference
          rw [hreference.1]
          exact .kept ih
      · exact .escaped ih

/-- A character is escaped to itself or to a reference, in which there are no breaks. -/
theorem escapeChar_cases (c : Char) : escapeChar c = [c] ∨
    ∃ name, escapeChar c = '&' :: (name ++ [';']) ∧ ∀ d ∈ '&' :: name, isBreak d = false := by
  unfold escapeChar
  repeat' split
  · exact .inr ⟨"amp".toList, rfl, Text.forall_eq_of_all (by decide)⟩
  · exact .inr ⟨"lt".toList, rfl, Text.forall_eq_of_all (by decide)⟩
  · exact .inr ⟨"gt".toList, rfl, Text.forall_eq_of_all (by decide)⟩
  · exact .inr ⟨"nbsp".toList, rfl, Text.forall_eq_of_all (by decide)⟩
  · exact .inl rfl

variable {c : Char} {s t mark : Text}

theorem escapes_nil_iff : Escapes [] t ↔ t = [] :=
  ⟨fun h => by cases h; rfl, fun h => h ▸ .nil⟩

theorem escapes_refl (s : Text) : Escapes s s := by
  induction s with
  | nil => exact .nil
  | cons c s ih => exact .kept ih

theorem Escapes.append {u v : Text} (h : Escapes s t) (h' : Escapes u v) :
    Escapes (s ++ u) (t ++ v) := by
  induction h with
  | nil => exact h'
  | kept _ ih => exact .kept ih
  | escaped _ ih =>
      rw [List.append_assoc]
      exact .escaped ih

/-- The first character stands at the beginning, or a reference does instead of it. -/
theorem Escapes.exists_of_cons (h : Escapes (c :: s) t) : ∃ rest, Escapes s rest ∧
    (t = c :: rest ∨
      ∃ name, t = ('&' :: name) ++ ';' :: rest ∧ ∀ d ∈ '&' :: name, isBreak d = false) := by
  cases h with
  | kept hrest => exact ⟨_, hrest, .inl rfl⟩
  | @escaped _ _ rest hrest =>
      refine ⟨rest, hrest, ?_⟩
      rcases escapeChar_cases c with hchar | ⟨name, hchar, hname⟩
      · exact .inl (by rw [hchar, List.singleton_append])
      · exact .inr ⟨name, by simp [hchar], hname⟩

theorem Escapes.prefix_of_prefix (h : Escapes s t) (hmark : '&' ∉ mark) (hlead : mark <+: t) :
    mark <+: s := by
  induction s generalizing t mark with
  | nil => rwa [escapes_nil_iff.mp h] at hlead
  | cons c s ih =>
      obtain ⟨rest, hrest, rfl | ⟨name, rfl, -⟩⟩ := h.exists_of_cons
      · rcases List.prefix_cons_iff.mp hlead with rfl | ⟨more, rfl, hmore⟩
        · exact List.nil_prefix
        · rw [List.mem_cons, not_or] at hmark
          exact List.cons_prefix_cons.mpr ⟨rfl, ih hrest hmark.2 hmore⟩
      · rcases List.prefix_cons_iff.mp hlead with rfl | ⟨more, rfl, -⟩
        · exact List.nil_prefix
        · exact absurd (List.mem_cons_self ..) hmark

/-- Escaping brings no mark of breaks into a text. -/
theorem Escapes.infix_of_infix (h : Escapes s t) (hne : mark ≠ [])
    (hmark : ∀ c ∈ mark, isBreak c = true) (hpart : mark <:+: t) : mark <:+: s := by
  have hnot {c : Char} (hc : isBreak c = false) : c ∉ mark := fun hmem => by
    rw [hmark c hmem] at hc
    cases hc
  induction s generalizing t with
  | nil => rwa [escapes_nil_iff.mp h] at hpart
  | cons c s ih =>
      obtain ⟨rest, hrest, rfl | ⟨name, rfl, hname⟩⟩ := h.exists_of_cons
      · rw [List.infix_cons_iff] at hpart ⊢
        exact hpart.imp (h.prefix_of_prefix (hnot (by decide))) (ih hrest)
      · rcases Text.infix_or_infix_of_not_mem (hnot (by decide)) hpart with hfirst | hlater
        · obtain ⟨d, more, rfl⟩ := List.exists_cons_of_ne_nil hne
          have hd := hfirst.subset (List.mem_cons_self ..)
          exact absurd (List.mem_cons_self ..) (hnot (hname d hd))
        · exact List.infix_cons_iff.mpr (.inr (ih hrest hlater))

end HtmlTemplate.Markup
