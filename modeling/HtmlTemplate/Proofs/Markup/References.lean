import HtmlTemplate.Proofs.Markup.Names
import HtmlTemplate.Proofs.Markup.Tags
import HtmlTemplate.Proofs.Markup.Unescape
/-!
How far a reference reaches, and what a text with references stands for.  A reference is told from
the text after its `&` up to the first character that is none of a reference, so that texts are
decoded one after another where the next begins with an `&`.
-/

namespace HtmlTemplate

namespace Text

variable {p : Char → Bool} {u : Text}

theorem takeWhile_append_of_stop (h : u.head?.any p = false) (s : Text) :
    (s ++ u).takeWhile p = s.takeWhile p := by
  induction s with
  | nil => exact (takeWhile_append_of_head (s := []) (by simp) h).1
  | cons c s ih =>
      rw [List.cons_append, List.takeWhile_cons, List.takeWhile_cons, ih]

theorem dropWhile_append_of_stop (h : u.head?.any p = false) (s : Text) :
    (s ++ u).dropWhile p = s.dropWhile p ++ u := by
  induction s with
  | nil => exact (takeWhile_append_of_head (s := []) (by simp) h).2
  | cons c s ih =>
      rw [List.cons_append, List.dropWhile_cons, List.dropWhile_cons, ih]
      split <;> simp

end Text

namespace Markup

/-! ### What a reference is told from -/

theorem isReferenceChar_of_isAlphanum {c : Char} (h : c.isAlphanum = true) :
    isReferenceChar c = true := by
  simp [isReferenceChar, h]

/-- Two texts that end a reference before them in the same way: both with a semicolon, or both
without. -/
structure EndsAlike (u v : Text) : Prop where
  left : u.head?.any isReferenceChar = false
  right : v.head?.any isReferenceChar = false
  semicolon : u.head? = some ';' ↔ v.head? = some ';'

namespace EndsAlike

variable {u v : Text} {p : Char → Bool}

theorem not_any (h : u.head?.any isReferenceChar = false)
    (hp : ∀ c, p c = true → isReferenceChar c = true) : u.head?.any p = false := by
  cases u with
  | nil => rfl
  | cons c u => exact Bool.eq_false_iff.mpr fun hc => Bool.eq_false_iff.mp h (hp c hc)

variable (h : EndsAlike u v) (hp : ∀ c, p c = true → isReferenceChar c = true) (s : Text)
include h hp

theorem takeWhile_eq : (s ++ u).takeWhile p = (s ++ v).takeWhile p := by
  rw [Text.takeWhile_append_of_stop (not_any h.left hp),
    Text.takeWhile_append_of_stop (not_any h.right hp)]

theorem head?_dropWhile_iff :
    ((s ++ u).dropWhile p).head? = some ';' ↔ ((s ++ v).dropWhile p).head? = some ';' := by
  rw [Text.dropWhile_append_of_stop (not_any h.left hp),
    Text.dropWhile_append_of_stop (not_any h.right hp)]
  cases s.dropWhile p with
  | nil => exact h.semicolon
  | cons c t => rfl

theorem numericReference?_eq (base : Nat) :
    numericReference? base p (s ++ u) = numericReference? base p (s ++ v) := by
  simp only [numericReference?, h.takeWhile_eq hp, h.head?_dropWhile_iff hp]

omit hp

theorem referenceBody?_eq : referenceBody? (s ++ u) = referenceBody? (s ++ v) := by
  simp only [referenceBody?, h.takeWhile_eq (fun _ hc => hc),
    h.head?_dropWhile_iff (fun _ hc => hc)]

theorem namedReference?_eq : namedReference? false (s ++ u) = namedReference? false (s ++ v) := by
  simp only [namedReference?, h.takeWhile_eq (fun _ => isReferenceChar_of_isAlphanum),
    h.head?_dropWhile_iff (fun _ => isReferenceChar_of_isAlphanum), Bool.false_and]

end EndsAlike

theorem reference?_of_head?_ne {s : Text} (inAttribute : Bool) (h : s.head? ≠ some '#') :
    reference? inAttribute s = namedReference? inAttribute s := by
  unfold reference?
  split <;> simp_all

theorem reference?_hash {s : Text} (inAttribute : Bool) (hx : s.head? ≠ some 'x')
    (hX : s.head? ≠ some 'X') :
    reference? inAttribute ('#' :: s) =
      (numericReference? 10 Char.isDigit s).map fun found => (found.1, found.2 + 1) := by
  unfold reference?
  split <;> simp_all

theorem reference?_hex {mark : Char} (s : Text) (inAttribute : Bool) (h : mark = 'x' ∨ mark = 'X') :
    reference? inAttribute ('#' :: mark :: s) =
      (numericReference? 16 Text.isHexDigit s).map fun found => (found.1, found.2 + 2) := by
  rcases h with rfl | rfl <;> rfl

theorem head?_append_ne {s u : Text} {c : Char} (hs : s.head? ≠ some c)
    (hu : u.head?.any isReferenceChar = false) (hc : isReferenceChar c = true) :
    (s ++ u).head? ≠ some c := by
  cases s with
  | nil =>
      intro heq
      rw [List.nil_append] at heq
      rw [heq] at hu
      exact Bool.eq_false_iff.mp hu hc
  | cons d s => exact hs

/-- What follows a reference does not change it, if that follows in the same way. -/
theorem EndsAlike.reference?_eq {u v : Text} (h : EndsAlike u v) (s : Text) :
    reference? false (s ++ u) = reference? false (s ++ v) := by
  have hexadecimal := h.numericReference?_eq (fun _ => isReferenceChar_of_isHexDigit)
  by_cases hhash : s.head? = some '#'
  · obtain ⟨t, rfl⟩ := List.head?_eq_some_iff.mp hhash
    by_cases hx : t.head? = some 'x'
    · obtain ⟨digits, rfl⟩ := List.head?_eq_some_iff.mp hx
      simp only [List.cons_append, reference?_hex _ _ (.inl rfl), hexadecimal]
    by_cases hX : t.head? = some 'X'
    · obtain ⟨digits, rfl⟩ := List.head?_eq_some_iff.mp hX
      simp only [List.cons_append, reference?_hex _ _ (.inr rfl), hexadecimal]
    rw [List.cons_append, List.cons_append,
      reference?_hash _ (head?_append_ne hx h.left rfl) (head?_append_ne hX h.left rfl),
      reference?_hash _ (head?_append_ne hx h.right rfl) (head?_append_ne hX h.right rfl),
      h.numericReference?_eq (fun _ => isReferenceChar_of_isDigit)]
  · rw [reference?_of_head?_ne _ (head?_append_ne hhash h.left rfl),
      reference?_of_head?_ne _ (head?_append_ne hhash h.right rfl), h.namedReference?_eq]

theorem endsAlike_semicolon (s t : Text) : EndsAlike (';' :: s) (';' :: t) :=
  ⟨rfl, rfl, by simp⟩

theorem endsAlike_ampersand (s : Text) : EndsAlike ('&' :: s) [] := ⟨rfl, rfl, by simp⟩

/-! ### What a reference takes up -/

/-- A reference takes up the beginning of a text, with neither an `&` nor markup in it. -/
structure TakesUp (s : Text) (length : Nat) : Prop where
  le : length ≤ s.length
  plain : ∀ c ∈ s.take length, isPlainChar c = true

theorem TakesUp.cons {s : Text} {length : Nat} (h : TakesUp s length) {c : Char}
    (hc : isPlainChar c = true) : TakesUp (c :: s) (length + 1) where
  le := Nat.succ_le_succ h.le
  plain := by
    rw [List.take_succ_cons]
    exact List.forall_mem_cons.mpr ⟨hc, h.plain⟩

theorem takesUp_of_isPrefix {s name : Text} (h : name <+: s)
    (hname : ∀ c ∈ name, isReferenceChar c = true) : TakesUp s name.length where
  le := h.length_le
  plain := by
    rw [← List.prefix_iff_eq_take.mp h]
    exact fun c hc => isPlainChar_of_isReferenceChar (hname c hc)

/-- A run of characters of a reference, with the semicolon after it, if there is one. -/
theorem takesUp_takeWhile {p : Char → Bool} (hp : ∀ c, p c = true → isReferenceChar c = true)
    (s : Text) :
    TakesUp s ((s.takeWhile p).length + if (s.dropWhile p).head? = some ';' then 1 else 0) := by
  have hrun : ∀ c ∈ s.takeWhile p, isReferenceChar c = true := fun c hc =>
    hp c (List.all_eq_true.mp List.all_takeWhile c hc)
  split
  · next hsemicolon =>
      obtain ⟨rest, hrest⟩ := List.head?_eq_some_iff.mp hsemicolon
      have hs : s = s.takeWhile p ++ [';'] ++ rest := by
        rw [List.append_assoc, List.singleton_append, ← hrest, List.takeWhile_append_dropWhile]
      have hbegins : s.takeWhile p ++ [';'] <+: s := ⟨rest, hs.symm⟩
      refine ⟨by simpa using hbegins.length_le, fun c hc => ?_⟩
      have htake := List.prefix_iff_eq_take.mp hbegins
      rw [List.length_append, List.length_singleton] at htake
      rw [← htake, List.mem_append, List.mem_singleton] at hc
      rcases hc with hc | rfl
      · exact isPlainChar_of_isReferenceChar (hrun c hc)
      · rfl
  · exact takesUp_of_isPrefix (List.takeWhile_prefix p) hrun

theorem takesUp_of_numericReference? {base : Nat} {p : Char → Bool} {s chars : Text} {length : Nat}
    (hp : ∀ c, p c = true → isReferenceChar c = true)
    (h : numericReference? base p s = some (chars, length)) :
    TakesUp s length ∧ chars.length ≤ length := by
  simp only [numericReference?] at h
  split at h
  · cases h
  · next hdigits =>
      cases h
      refine ⟨takesUp_takeWhile hp s, ?_⟩
      have hpos : 0 < (s.takeWhile p).length := List.length_pos_iff.mpr (by simpa using hdigits)
      rw [List.length_singleton]
      omega

theorem isPrefix_of_unfinishedName? {run name : Text} (h : unfinishedName? run = some name) :
    name <+: run := by
  obtain ⟨less, -, rfl⟩ := List.mem_map.mp (List.mem_of_find?_eq_some h)
  exact (List.take_prefix _ _).trans (List.take_prefix _ _)

theorem takesUp_of_namedReference? {inAttribute : Bool} {s chars : Text} {length : Nat}
    (h : namedReference? inAttribute s = some (chars, length)) :
    TakesUp s length ∧ chars.length < length := by
  have hrun : ∀ c ∈ s.takeWhile Char.isAlphanum, isReferenceChar c = true := fun c hc =>
    isReferenceChar_of_isAlphanum (List.all_eq_true.mp List.all_takeWhile c hc)
  simp only [namedReference?] at h
  split at h
  · next found hfinished =>
      cases h
      split at hfinished
      · next hsemicolon =>
          obtain ⟨chars', hchars, heq⟩ := Option.map_eq_some_iff.mp hfinished
          cases heq
          have htakes := takesUp_takeWhile (fun _ => isReferenceChar_of_isAlphanum) s
          rw [if_pos hsemicolon] at htakes
          exact ⟨htakes, Nat.lt_succ_of_lt (length_lt_of_charsOfName? hchars)⟩
      · cases hfinished
  · obtain ⟨name, hname, h⟩ := Option.bind_eq_some_iff.mp h
    split at h
    · cases h
    · obtain ⟨chars', hchars, heq⟩ := Option.bind_eq_some_iff.mp h
      cases heq
      have hbegins := isPrefix_of_unfinishedName? hname
      refine ⟨takesUp_of_isPrefix (hbegins.trans (List.takeWhile_prefix _)) fun c hc =>
        hrun c (hbegins.subset hc), length_lt_of_charsOfName? hchars⟩

theorem takesUp_of_hexadecimal {mark : Char} (hmark : isPlainChar mark = true) {s chars : Text}
    {length : Nat}
    (h : ((numericReference? 16 Text.isHexDigit s).map fun found => (found.1, found.2 + 2)) =
      some (chars, length)) :
    TakesUp ('#' :: mark :: s) length ∧ chars.length < length := by
  obtain ⟨⟨chars', length'⟩, hread, heq⟩ := Option.map_eq_some_iff.mp h
  cases heq
  obtain ⟨htakes, hlength⟩ :=
    takesUp_of_numericReference? (fun _ => isReferenceChar_of_isHexDigit) hread
  refine ⟨(htakes.cons hmark).cons (by decide), ?_⟩
  exact Nat.lt_add_right 1 (Nat.lt_succ_of_le hlength)

/-- A reference is longer than the text that it stands for. -/
theorem takesUp_of_reference? {inAttribute : Bool} {s chars : Text} {length : Nat}
    (h : reference? inAttribute s = some (chars, length)) :
    TakesUp s length ∧ chars.length < length := by
  unfold reference? at h
  split at h
  · exact takesUp_of_hexadecimal (by decide) h
  · exact takesUp_of_hexadecimal (by decide) h
  · obtain ⟨⟨chars', length'⟩, hread, heq⟩ := Option.map_eq_some_iff.mp h
    cases heq
    obtain ⟨htakes, hlength⟩ :=
      takesUp_of_numericReference? (fun _ => isReferenceChar_of_isDigit) hread
    exact ⟨htakes.cons (by decide), Nat.lt_succ_of_le hlength⟩
  · exact takesUp_of_namedReference? h

/-! ### Decoding -/

/-- A text is made of characters, of ampersands that stand for themselves, and of references. -/
theorem reference_induction {P : Text → Prop} (nil : P [])
    (plain : ∀ c s, c ≠ '&' → P s → P (c :: s))
    (ampersand : ∀ s, reference? false s = none → P s → P ('&' :: s))
    (reference : ∀ s chars length, reference? false s = some (chars, length) →
      P (s.drop length) → P ('&' :: s)) (s : Text) : P s := by
  induction hlength : s.length using Nat.strongRecOn generalizing s with
  | ind n ih =>
      cases s with
      | nil => exact nil
      | cons c s =>
          have hrest : ∀ length, P (s.drop length) := fun length =>
            ih _ (by simp at hlength ⊢; omega) _ rfl
          by_cases hc : c = '&'
          · subst hc
            cases hread : reference? false s with
            | none => exact ampersand s hread (hrest 0)
            | some found => exact reference s found.1 found.2 hread (hrest found.2)
          · exact plain c s hc (hrest 0)

theorem decodeFrom_eq_drop (inAttribute : Bool) (skip : Nat) (s : Text) :
    decodeFrom inAttribute skip s = decodeFrom inAttribute 0 (s.drop skip) := by
  induction s generalizing skip with
  | nil => cases skip <;> rfl
  | cons c s ih =>
      cases skip with
      | zero => rfl
      | succ skip => exact ih skip

theorem decodeText_cons {c : Char} (h : c ≠ '&') (s : Text) :
    decodeText (c :: s) = c :: decodeText s := by
  rw [decodeText, decodeFrom, if_neg h]
  rfl

theorem decodeText_ampersand {s : Text} (h : reference? false s = none) :
    decodeText ('&' :: s) = '&' :: decodeText s := by
  rw [decodeText, decodeFrom, if_pos rfl, h]
  rfl

theorem decodeText_reference {s chars : Text} {length : Nat}
    (h : reference? false s = some (chars, length)) :
    decodeText ('&' :: s) = chars ++ decodeText (s.drop length) := by
  rw [decodeText, decodeFrom, if_pos rfl, h]
  exact congrArg (chars ++ ·) (decodeFrom_eq_drop false length s)

/-- No reference reaches over an ampersand. -/
theorem decodeText_append_ampersand (s t : Text) :
    decodeText (s ++ '&' :: t) = decodeText s ++ decodeText ('&' :: t) := by
  have hread (s : Text) : reference? false (s ++ '&' :: t) = reference? false s := by
    rw [(endsAlike_ampersand t).reference?_eq s, List.append_nil]
  induction s using reference_induction with
  | nil => rfl
  | plain c s hc ih =>
      rw [List.cons_append, decodeText_cons hc, decodeText_cons hc, ih]
      rfl
  | ampersand s hnone ih =>
      rw [List.cons_append, decodeText_ampersand hnone, decodeText_ampersand (by rw [hread, hnone]),
        ih]
      rfl
  | reference s chars length hsome ih =>
      have hle := (takesUp_of_reference? hsome).1.le
      rw [List.cons_append, decodeText_reference hsome,
        decodeText_reference (by rw [hread, hsome]), List.drop_append_of_le_length hle, ih,
        List.append_assoc]

theorem decodeText_append_plain {s : Text} (h : ∀ c ∈ s, isPlainChar c = true) (t : Text) :
    decodeText (s ++ t) = s ++ decodeText t := by
  induction s with
  | nil => rfl
  | cons c s ih =>
      obtain ⟨hc, hs⟩ := List.forall_mem_cons.mp h
      have hamp : c ≠ '&' := by
        rintro rfl
        cases hc
      rw [List.cons_append, decodeText_cons hamp, ih hs, List.cons_append]

theorem decodeText_escapeChar_append (c : Char) (t : Text) :
    decodeText (escapeChar c ++ t) = c :: decodeText t := by
  have hreference (name : Text) (d : Char) (hname : name.all Char.isAlphanum = true)
      (hchar : charsOfName? name = some [d]) :
      decodeText ('&' :: (name ++ ';' :: t)) = d :: decodeText t := by
    have hread : reference? false (name ++ ';' :: t) = some ([d], name.length + 1) := by
      have hhead : (name ++ ';' :: t).head? ≠ some '#' := by
        cases name with
        | nil => simp
        | cons c name =>
            rintro ⟨⟩
            cases hname
      rw [reference?_of_head?_ne _ hhead]
      exact namedReference?_eq_some false t (List.all_eq_true.mp hname) hchar
    have hdrop : (name ++ ';' :: t).drop (name.length + 1) = t := by
      rw [List.drop_append, List.drop_eq_nil_of_le (Nat.le_succ _)]
      simp
    rw [decodeText_reference hread, hdrop]
    rfl
  unfold escapeChar
  split
  · next hc => exact hc ▸ hreference "amp".toList '&' (by decide) (by decide)
  split
  · next hc => exact hc ▸ hreference "lt".toList '<' (by decide) (by decide)
  split
  · next hc => exact hc ▸ hreference "gt".toList '>' (by decide) (by decide)
  split
  · next hc => exact hc ▸ hreference "nbsp".toList nbsp (by decide) (by decide)
  · next hamp _ _ _ => exact decodeText_cons hamp t

end Markup

end HtmlTemplate
