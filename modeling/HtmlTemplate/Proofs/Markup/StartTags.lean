import HtmlTemplate.Markup.Token
import HtmlTemplate.Proofs.Pieces
/-!
Where the start tags of a source stand.  What a reader leaves of a source is a suffix of it, so each
start tag among the tokens is read at an opening angle bracket of the source.
-/

namespace HtmlTemplate.Markup

variable {s value remaining : Text} {written : List (Text × Text)} {selfClosing : Bool}

/-! ### What readers leave -/

theorem suffix_of_readValue (h : readValue s = some (value, remaining)) : remaining <:+ s := by
  have hspace := List.dropWhile_suffix (l := s) isTagSpace
  have hquoted {quote : Char} {quoted : Text}
      (hcut : Text.breakOn [quote] quoted = some (value, remaining)) : remaining <:+ quoted := by
    rw [Text.eq_append_of_breakOn hcut, ← List.append_assoc]
    exact List.suffix_append _ _
  unfold readValue at h
  split at h
  · next rest hassigned =>
      have hrest : rest <:+ s := (List.suffix_cons _ _).trans (hassigned ▸ hspace)
      have hvalue := (List.dropWhile_suffix (l := rest) isTagSpace).trans hrest
      split at h
      · next quoted heq => exact (hquoted h).trans ((List.suffix_cons _ _).trans (heq ▸ hvalue))
      · next quoted heq => exact (hquoted h).trans ((List.suffix_cons _ _).trans (heq ▸ hvalue))
      · cases h
        exact (List.dropWhile_suffix _).trans hvalue
  · cases h
    exact hspace

theorem suffix_of_readAttributes {fuel : Nat}
    (h : readAttributes fuel s = some (written, selfClosing, remaining)) : remaining <:+ s := by
  fun_induction readAttributes fuel s generalizing written with
  | case1 => cases h
  | case2 => cases h
  | case3 _ _ _ _ ih => exact (ih h).trans (List.suffix_cons _ _)
  | case4 =>
      cases h
      exact List.suffix_cons _ _
  | case5 =>
      cases h
      exact (List.suffix_cons _ _).trans (List.suffix_cons _ _)
  | case6 _ _ _ _ _ ih => exact (ih h).trans (List.suffix_cons _ _)
  | case7 _ c rest _ _ _ name =>
      rename_i ih
      simp only [Option.bind_eq_bind, Option.bind_eq_some_iff, Prod.exists] at h
      obtain ⟨value, afterValue, hvalue, others, selfClosing', remaining', hothers, heq⟩ := h
      cases heq
      have hname := (List.dropWhile_suffix (l := rest) fun d => !endsAttributeName d).trans
        (List.suffix_cons c rest)
      exact (ih _ hothers).trans ((suffix_of_readValue hvalue).trans hname)

theorem suffix_of_readTag {name : Text} {attributes : Attributes}
    (h : readTag s = some (name, attributes, selfClosing, remaining)) : remaining <:+ s := by
  simp only [readTag, Option.bind_eq_bind, Option.bind_eq_some_iff, Prod.exists] at h
  obtain ⟨written, selfClosing', remaining', hwritten, heq⟩ := h
  cases heq
  exact (suffix_of_readAttributes hwritten).trans (List.dropWhile_suffix _)

theorem suffix_upToCommentEnd (s : Text) : (upToCommentEnd s).2 <:+ s := by
  fun_induction upToCommentEnd s with
  | case1 => exact List.suffix_refl _
  | case2 => exact List.nil_suffix
  | case3 => exact List.nil_suffix
  | case4 => exact List.nil_suffix
  | case5 rest => exact ⟨"-->".toList, rfl⟩
  | case6 rest => exact ⟨"--!>".toList, rfl⟩
  | case7 c rest _ _ _ _ _ content remaining heq ih =>
      rw [heq] at ih
      exact ih.trans (List.suffix_cons c rest)

theorem suffix_readComment (s : Text) : (readComment s).2 <:+ s := by
  unfold readComment
  split
  · exact List.suffix_cons _ _
  · next rest => exact ⟨"->".toList, rfl⟩
  · exact suffix_upToCommentEnd s

theorem suffix_upToBracket (s : Text) : (upToBracket s).2 <:+ s :=
  (List.drop_suffix 1 _).trans (List.dropWhile_suffix _)

theorem suffix_readMarkup (s : Text) : (readMarkup s).2 <:+ s := by
  unfold readMarkup
  split
  · next rest =>
      have hrest : rest <:+ '/' :: rest := List.suffix_cons _ _
      split
      · split
        · next htag => exact (suffix_of_readTag htag).trans hrest
        · exact List.nil_suffix
      · exact (suffix_upToBracket rest).trans hrest
  · next rest => exact (suffix_readComment rest).trans ⟨"!--".toList, rfl⟩
  · next rest _ =>
      have hrest := (suffix_upToBracket rest).trans (List.suffix_cons '!' rest)
      dsimp only
      split <;> exact hrest
  · exact suffix_upToBracket _
  · split
    · next htag => exact suffix_of_readTag htag
    · exact List.nil_suffix

theorem suffix_of_readMarkup {token : Option Token} (h : readMarkup s = (token, remaining))
    (c : Char) : remaining <:+ c :: s := by
  have hsuffix := suffix_readMarkup s
  rw [h] at hsuffix
  exact hsuffix.trans (List.suffix_cons c s)

theorem suffix_upToEndTag (name s : Text) : (upToEndTag name s).2 <:+ s := by
  fun_induction upToEndTag name s with
  | case1 => exact List.suffix_refl _
  | case2 => exact List.suffix_refl _
  | case3 c rest _ run remaining heq ih =>
      rw [heq] at ih
      exact ih.trans (List.suffix_cons c rest)

theorem suffix_upToScriptEnd (place : ScriptPlace) (s : Text) :
    (upToScriptEnd place s).2 <:+ s := by
  fun_induction upToScriptEnd place s with
  | case1 => exact List.suffix_refl _
  | case2 => exact List.suffix_refl _
  | case3 place c rest _ run remaining heq ih =>
      rw [heq] at ih
      exact ih.trans (List.suffix_cons c rest)

theorem suffix_split (content : Content) (tag s : Text) : (content.split tag s).2 <:+ s := by
  cases content with
  | markup => exact List.suffix_refl s
  | replaceable => exact suffix_upToEndTag tag s
  | verbatim => exact suffix_upToEndTag tag s
  | script => exact suffix_upToScriptEnd .start s
  | plain => exact List.nil_suffix

theorem suffix_textRun (s : Text) : (textRun s).2 <:+ s := ⟨_, textRun_append s⟩

/-! ### Start tags -/

/-- A source has a start tag of this name, and the attributes are written in it so. -/
inductive HasStartTag (source : Text) : Text → List (Text × Text) → Prop where
  | intro {rest remaining : Text} {written : List (Text × Text)} {selfClosing : Bool} :
      '<' :: rest <:+ source →
      readAttributes ((rest.dropWhile fun c => !endsTagName c).length + 1)
        (rest.dropWhile fun c => !endsTagName c) = some (written, selfClosing, remaining) →
      HasStartTag source (Text.lower (cleaned (rest.takeWhile fun c => !endsTagName c))) written

theorem HasStartTag.of_suffix {source tag : Text} (h : HasStartTag s tag written)
    (hs : s <:+ source) : HasStartTag source tag written := by
  cases h with
  | intro hplace hwritten => exact .intro (hplace.trans hs) hwritten

theorem exists_hasStartTag_of_suffix {source tag : Text} {attributes : Attributes}
    (hs : s <:+ source)
    (h : ∃ written, HasStartTag s tag written ∧ attributes = .ofFirsts written) :
    ∃ written, HasStartTag source tag written ∧ attributes = .ofFirsts written := by
  obtain ⟨written, htag, heq⟩ := h
  exact ⟨written, htag.of_suffix hs, heq⟩

theorem exists_hasStartTag_of_readMarkup {tag : Text} {attributes : Attributes}
    (h : (readMarkup s).1 = some (.startTag tag attributes selfClosing)) :
    ∃ written, HasStartTag ('<' :: s) tag written ∧ attributes = .ofFirsts written := by
  unfold readMarkup at h
  split at h
  · split at h
    · split at h <;> cases h
    · cases h
  · cases h
  · dsimp only at h
    split at h <;> cases h
  · cases h
  · split at h
    · next htag =>
        cases h
        simp only [readTag, Option.bind_eq_bind, Option.bind_eq_some_iff, Prod.exists] at htag
        obtain ⟨written, selfClosing', remaining', hwritten, heq⟩ := htag
        cases heq
        exact ⟨written, .intro (List.suffix_refl _) hwritten, rfl⟩
    · cases h

theorem not_startTag_of_mem_textToken {content : Content} {run : Text} {token : Token}
    (h : token ∈ textToken content run remaining) (tag : Text) (attributes : Attributes)
    (selfClosing : Bool) : token ≠ .startTag tag attributes selfClosing := by
  simp only [textToken] at h
  rintro rfl
  split at h
  · cases h
  · cases List.mem_singleton.mp h

/-- A start tag among the tokens stands in the source. -/
theorem exists_hasStartTag {source tag : Text} {attributes : Attributes}
    (h : .startTag tag attributes selfClosing ∈ tokens source) :
    ∃ written, HasStartTag source tag written ∧ attributes = .ofFirsts written := by
  rw [tokens] at h
  generalize source.length + 1 = fuel at h
  fun_induction tokensWithin fuel source with
  | case1 => cases h
  | case2 => cases h
  | case3 fuel c rest _ remaining hread ih =>
      exact exists_hasStartTag_of_suffix (suffix_of_readMarkup hread c) (ih h)
  | case4 fuel c rest hopens name attributes' selfClosing' remaining hread content run after hsplit
      ih =>
      rcases List.mem_cons.mp h with heq | h
      · cases heq
        have hopening : c = '<' := by simpa using (Bool.and_eq_true_iff.mp hopens).1
        rw [hopening]
        exact exists_hasStartTag_of_readMarkup (congrArg Prod.fst hread)
      · rcases List.mem_append.mp h with h | h
        · exact absurd rfl (not_startTag_of_mem_textToken h tag attributes selfClosing)
        · have hafter := suffix_split content name remaining
          rw [hsplit] at hafter
          exact exists_hasStartTag_of_suffix (hafter.trans (suffix_of_readMarkup hread c)) (ih h)
  | case5 fuel c rest _ token remaining hother hread ih =>
      rcases List.mem_cons.mp h with heq | h
      · exact absurd heq.symm (hother tag attributes selfClosing)
      · exact exists_hasStartTag_of_suffix (suffix_of_readMarkup hread c) (ih h)
  | case6 fuel c rest _ run after hrun ih =>
      rcases List.mem_append.mp h with h | h
      · exact absurd rfl (not_startTag_of_mem_textToken h tag attributes selfClosing)
      · have hafter := suffix_textRun (c :: rest)
        rw [hrun] at hafter
        exact exists_hasStartTag_of_suffix hafter (ih h)

end HtmlTemplate.Markup
