import HtmlTemplate.Text.Basic
/-!
The pieces of a text.  A mark cuts it at its first place, and the text before that place does not
run into the mark; separators cut it at each of them.
-/

namespace HtmlTemplate.Text

/-! ### The first place of a mark -/

variable {mark before : Text}

theorem after?_eq_none_of_not_prefix {s : Text} (h : ¬ mark <+: s) : after? mark s = none :=
  Option.eq_none_iff_forall_not_mem.mpr fun _ hrest => h ⟨_, (eq_append_of_after? hrest).symm⟩

/-- What stands before a place of a mark, with as much of the mark as leaves it open. -/
theorem append_dropLast_isPrefix (mark before tail : Text) :
    before ++ mark.dropLast <+: before ++ (mark ++ tail) :=
  (List.prefix_append_right_inj before).mpr
    ((List.dropLast_prefix mark).trans (List.prefix_append mark tail))

/-- A text is cut at the first place of a mark, so that what follows any place of it is left. -/
theorem exists_breakOn_append (hmark : mark ≠ []) (before rest : Text) :
    ∃ first tail, breakOn mark (before ++ (mark ++ rest)) = some (first, tail) ∧
      rest <:+ tail := by
  induction before with
  | nil =>
      obtain ⟨c, mark, rfl⟩ := List.exists_cons_of_ne_nil hmark
      have hafter : after? (c :: mark) (c :: (mark ++ rest)) = some rest :=
        after?_append (c :: mark) rest
      refine ⟨[], rest, ?_, List.suffix_refl rest⟩
      rw [List.nil_append, List.cons_append, breakOn, hafter]
  | cons c before ih =>
      rw [List.cons_append, breakOn]
      cases hafter : after? mark (c :: (before ++ (mark ++ rest))) with
      | none =>
          obtain ⟨first, tail, hcut, hrest⟩ := ih
          rw [hcut]
          exact ⟨c :: first, tail, rfl, hrest⟩
      | some tail =>
          have hwhole := eq_append_of_after? hafter
          have htail : tail <:+ c :: (before ++ (mark ++ rest)) := ⟨mark, hwhole.symm⟩
          have hrest : rest <:+ c :: (before ++ (mark ++ rest)) :=
            ⟨c :: (before ++ mark), by simp⟩
          have hlength := congrArg List.length hwhole
          simp only [List.length_cons, List.length_append] at hlength
          exact ⟨[], tail, rfl, List.suffix_of_suffix_length_le hrest htail (by omega)⟩

/-- A text without a place of a mark is not cut. -/
theorem breakOn_eq_none_iff {s : Text} (hmark : mark ≠ []) :
    breakOn mark s = none ↔ ¬ mark <:+: s := by
  constructor
  · rintro hnone ⟨before, after, rfl⟩
    obtain ⟨first, tail, hcut, -⟩ := exists_breakOn_append hmark before after
    rw [← List.append_assoc, hnone] at hcut
    cases hcut
  · intro h
    refine Option.eq_none_iff_forall_not_mem.mpr fun cut hcut => h ⟨cut.1, cut.2, ?_⟩
    rw [List.append_assoc]
    exact (eq_append_of_breakOn hcut).symm

/-- The text before the first place of a mark does not run into one. -/
theorem not_infix_of_breakOn {s tail : Text} (hmark : mark ≠ [])
    (h : breakOn mark s = some (before, tail)) : ¬ mark <:+: before ++ mark.dropLast := by
  induction s generalizing before with
  | nil => cases h
  | cons c s ih =>
      rw [breakOn] at h
      split at h
      · cases h
        intro hinfix
        have hlength := hinfix.length_le
        have hpos := List.length_pos_iff.mpr hmark
        simp only [List.nil_append, List.length_dropLast] at hlength
        omega
      · next hnone =>
          obtain ⟨⟨first, after⟩, hcut, heq⟩ := Option.map_eq_some_iff.mp h
          cases heq
          rw [List.cons_append, List.infix_cons_iff, not_or]
          refine ⟨fun hmarked => ?_, ih hcut⟩
          have hlead := append_dropLast_isPrefix mark (c :: first) after
          rw [List.cons_append, List.cons_append, ← eq_append_of_breakOn hcut] at hlead
          obtain ⟨rest, hrest⟩ := hmarked.trans hlead
          rw [← hrest, after?_append] at hnone
          cases hnone

/-- A text is cut at a place of a mark if the text before it does not run into one. -/
theorem breakOn_append (hmark : mark ≠ []) (h : ¬ mark <:+: before ++ mark.dropLast)
    (tail : Text) : breakOn mark (before ++ (mark ++ tail)) = some (before, tail) := by
  induction before with
  | nil =>
      obtain ⟨c, rest, rfl⟩ := List.exists_cons_of_ne_nil hmark
      have hafter : after? (c :: rest) (c :: (rest ++ tail)) = some tail :=
        after?_append (c :: rest) tail
      rw [List.nil_append, List.cons_append, breakOn, hafter]
  | cons c before ih =>
      rw [List.cons_append, List.infix_cons_iff, not_or] at h
      have hnone : after? mark (c :: (before ++ (mark ++ tail))) = none := by
        refine after?_eq_none_of_not_prefix fun hmarked => h.1 ?_
        refine List.prefix_of_prefix_length_le hmarked
          (append_dropLast_isPrefix mark (c :: before) tail) ?_
        simp only [List.length_cons, List.length_append, List.length_dropLast]
        omega
      rw [List.cons_append, breakOn, hnone, ih h.2]
      rfl

/-- The first place of a mark is not after another place of it. -/
theorem prefix_of_breakOn {first rest tail : Text} (hmark : mark ≠ [])
    (h : breakOn mark (before ++ (mark ++ rest)) = some (first, tail)) : first <+: before := by
  obtain ⟨first', tail', hcut, hrest⟩ := exists_breakOn_append hmark before rest
  rw [h] at hcut
  cases hcut
  have hwhole := eq_append_of_breakOn h
  have hlength := congrArg List.length hwhole
  have hle := hrest.length_le
  simp only [List.length_append] at hlength
  refine List.prefix_of_prefix_length_le ?_ (List.prefix_append before (mark ++ rest)) (by omega)
  exact ⟨mark ++ tail, hwhole.symm⟩

/-- A mark does not reach across a character that is not in it. -/
theorem infix_or_infix_of_not_mem {first second : Text} {c : Char} (hc : c ∉ mark)
    (h : mark <:+: first ++ c :: second) : mark <:+: first ∨ mark <:+: second := by
  rcases List.infix_append_iff.mp h with hfirst | hrest | ⟨lead, rest, rfl, hlead, hrest⟩
  · exact .inl hfirst
  · rcases List.infix_cons_iff.mp hrest with hprefix | hsecond
    · rcases List.prefix_cons_iff.mp hprefix with rfl | ⟨more, rfl, -⟩
      · exact .inl List.nil_infix
      · exact absurd (List.mem_cons_self ..) hc
    · exact .inr hsecond
  · rcases List.prefix_cons_iff.mp hrest with rfl | ⟨more, rfl, -⟩
    · rw [List.append_nil]
      exact .inl hlead.isInfix
    · exact absurd (List.mem_append_right lead (List.mem_cons_self ..)) hc

/-! ### The pieces between separators -/

variable {p : Char → Bool}

/-- At a separator the pieces before it end and those after it begin. -/
theorem splitWhere_append_cons {d : Char} (hd : p d = true) (s t : Text) :
    splitWhere p (s ++ d :: t) = splitWhere p s ++ splitWhere p t := by
  induction s with
  | nil => simp [splitWhere, hd]
  | cons c s ih =>
      rw [List.cons_append, splitWhere, splitWhere, ih]
      split
      · rw [List.cons_append]
      · obtain ⟨piece, pieces, hpieces⟩ := List.exists_cons_of_ne_nil (splitWhere_ne_nil p s)
        rw [hpieces, List.cons_append]
        rfl

theorem splitWhere_eq_singleton {s : Text} (h : ∀ c ∈ s, p c = false) : splitWhere p s = [s] := by
  induction s with
  | nil => rfl
  | cons c s ih =>
      rw [splitWhere, if_neg (by simp [h c]), ih fun d hd => h d (List.mem_cons_of_mem c hd)]

/-- A text is its first piece, and the others after a separator. -/
theorem eq_append_of_splitWhere {s piece : Text} {pieces : List Text}
    (h : splitWhere p s = piece :: pieces) :
    (pieces = [] ∧ s = piece) ∨
      ∃ d rest, p d = true ∧ splitWhere p rest = pieces ∧ s = piece ++ d :: rest := by
  induction s generalizing piece with
  | nil =>
      cases h
      exact .inl ⟨rfl, rfl⟩
  | cons c s ih =>
      rw [splitWhere] at h
      split at h
      · next hc =>
          cases h
          exact .inr ⟨c, s, hc, rfl, rfl⟩
      · obtain ⟨first, others, hpieces⟩ := List.exists_cons_of_ne_nil (splitWhere_ne_nil p s)
        rw [hpieces] at h
        cases h
        rcases ih hpieces with ⟨hnil, rfl⟩ | ⟨d, rest, hd, hrest, rfl⟩
        · exact .inl ⟨hnil, rfl⟩
        · exact .inr ⟨d, rest, hd, hrest, rfl⟩

/-- What has no separator in it does not reach across one. -/
theorem prefix_of_append_eq {s t first second : Text} {d : Char} (hd : d ∉ s)
    (h : s ++ t = first ++ d :: second) : s <+: first := by
  rcases List.append_eq_append_iff.mp h with ⟨more, rfl, -⟩ | ⟨more, rfl, hmore⟩
  · exact List.prefix_append s more
  · cases more with
    | nil => simp
    | cons c more =>
        obtain ⟨rfl, -⟩ := List.cons_eq_cons.mp hmore
        exact absurd (List.mem_append_right first (List.mem_cons_self ..)) hd

end HtmlTemplate.Text
