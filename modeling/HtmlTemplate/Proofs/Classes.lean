import HtmlTemplate.Proofs.Pieces
import HtmlTemplate.Template.Classes
/-!
Merged classes.  Of repeated words the first one stays, so that the words of a merged text are those
of both sides, each once and in the order of their first places; and words that are joined by spaces
are the words of the joined text, so that merging once more changes nothing.
-/

namespace HtmlTemplate

/-! ### Words joined by spaces -/

namespace Text

theorem splitWhere_intercalate {p : Char → Bool} {d : Char} (hd : p d = true) {first : Text}
    {others : List Text} (h : ∀ piece ∈ first :: others, ∀ c ∈ piece, p c = false) :
    splitWhere p ([d].intercalate (first :: others)) = first :: others := by
  induction others generalizing first with
  | nil =>
      rw [List.intercalate_singleton]
      exact splitWhere_eq_singleton (h first (List.mem_cons_self ..))
  | cons second others ih =>
      obtain ⟨hfirst, hothers⟩ := List.forall_mem_cons.mp h
      rw [List.intercalate_cons_cons, List.append_assoc, List.singleton_append,
        splitWhere_append_cons hd, splitWhere_eq_singleton hfirst, ih hothers,
        List.singleton_append]

theorem words_intercalate {ws : List Text} (hne : ∀ word ∈ ws, word ≠ [])
    (hblank : ∀ word ∈ ws, ∀ c ∈ word, isBlank c = false) : words ([' '].intercalate ws) = ws := by
  cases ws with
  | nil => rfl
  | cons first others =>
      rw [words, splitWhere_intercalate (by decide) hblank, List.filter_eq_self]
      intro word hword
      simpa using hne word hword

end Text

namespace Classes

/-! ### First places -/

/-- The first place of `x` is before every place of `y`. -/
def Precedes (words : List Text) (x y : Text) : Prop :=
  ∃ before after, words = before ++ x :: after ∧ y ∉ before ∧ x ≠ y

variable {words others : List Text} {word x y : Text}

theorem precedes_cons_iff :
    Precedes (word :: words) x y ↔ word ≠ y ∧ (word = x ∨ Precedes words x y) := by
  constructor
  · rintro ⟨before, after, heq, hbefore, hne⟩
    cases before with
    | nil =>
        cases heq
        exact ⟨hne, .inl rfl⟩
    | cons first before =>
        cases heq
        rw [List.mem_cons, not_or] at hbefore
        exact ⟨Ne.symm hbefore.1, .inr ⟨before, after, rfl, hbefore.2, hne⟩⟩
  · rintro ⟨hy, rfl | ⟨before, after, rfl, hbefore, hne⟩⟩
    · exact ⟨[], words, rfl, List.not_mem_nil, hy⟩
    · refine ⟨word :: before, after, rfl, ?_, hne⟩
      rw [List.mem_cons, not_or]
      exact ⟨Ne.symm hy, hbefore⟩

theorem precedes_filter_iff {p : Text → Bool} (hx : p x = true) (hy : p y = true) :
    Precedes (words.filter p) x y ↔ Precedes words x y := by
  induction words with
  | nil => exact Iff.rfl
  | cons word words ih =>
      rw [List.filter_cons, precedes_cons_iff]
      split
      · rw [precedes_cons_iff, ih]
      · next hword =>
          have hnex : word ≠ x := fun heq => hword (heq ▸ hx)
          have hney : word ≠ y := fun heq => hword (heq ▸ hy)
          simp [ih, hnex, hney]

theorem precedes_append_of_mem (hx : x ∈ words) (hy : y ∉ words) :
    Precedes (words ++ others) x y := by
  obtain ⟨before, after, rfl⟩ := List.append_of_mem hx
  rw [List.mem_append, List.mem_cons, not_or, not_or] at hy
  exact ⟨before, after ++ others, by simp, hy.1, Ne.symm hy.2.1⟩

theorem precedes_append_left_iff (hx : x ∈ words) :
    Precedes (words ++ others) x y ↔ Precedes words x y := by
  induction words with
  | nil => cases hx
  | cons word words ih =>
      rw [List.cons_append, precedes_cons_iff, precedes_cons_iff]
      rcases List.mem_cons.mp hx with rfl | hx
      · simp
      · rw [ih hx]

theorem precedes_append_right_iff (hx : x ∉ words) (hy : y ∉ words) :
    Precedes (words ++ others) x y ↔ Precedes others x y := by
  induction words with
  | nil => exact Iff.rfl
  | cons word words ih =>
      rw [List.mem_cons, not_or] at hx hy
      rw [List.cons_append, precedes_cons_iff, ih hx.2 hy.2]
      simp [Ne.symm hx.1, Ne.symm hy.1]

/-! ### Repeated words -/

theorem mem_distinct_iff : word ∈ distinct words ↔ word ∈ words := by
  induction words with
  | nil => exact Iff.rfl
  | cons first words ih =>
      rw [distinct, List.mem_cons, List.mem_cons, List.mem_filter, ih, bne_iff_ne]
      by_cases heq : word = first <;> simp [heq]

theorem nodup_distinct (words : List Text) : (distinct words).Nodup := by
  induction words with
  | nil => exact List.nodup_nil
  | cons first words ih =>
      rw [distinct, List.nodup_cons]
      exact ⟨by simp, ih.filter _⟩

theorem precedes_distinct_iff : Precedes (distinct words) x y ↔ Precedes words x y := by
  induction words with
  | nil => exact Iff.rfl
  | cons first words ih =>
      rw [distinct, precedes_cons_iff, precedes_cons_iff]
      by_cases hy : first = y
      · simp [hy]
      by_cases hx : first = x
      · simp [hx]
      have hkept (word : Text) (hne : ¬ first = word) : (word != first) = true :=
        bne_iff_ne.mpr (Ne.symm hne)
      rw [precedes_filter_iff (p := (· != first)) (hkept x hx) (hkept y hy), ih]

theorem distinct_filter (p : Text → Bool) (words : List Text) :
    distinct (words.filter p) = (distinct words).filter p := by
  induction words with
  | nil => rfl
  | cons first words ih =>
      rw [distinct, List.filter_cons, List.filter_cons]
      split
      · rw [distinct, ih, List.filter_filter, List.filter_filter]
        simp only [Bool.and_comm]
      · next hfirst =>
          rw [ih, List.filter_filter]
          refine List.filter_congr fun word _ => ?_
          by_cases heq : word = first
          · simp [heq, hfirst]
          · simp [heq]

/-- After some words these are left out, besides repeated ones. -/
theorem distinct_append (words others : List Text) :
    distinct (words ++ others) =
      distinct words ++ distinct (others.filter fun word => !words.contains word) := by
  induction words with
  | nil =>
      have hall : others.filter (fun word => !List.contains [] word) = others :=
        List.filter_eq_self.mpr fun _ _ => rfl
      rw [List.nil_append, hall, distinct, List.nil_append]
  | cons first words ih =>
      have hothers : (others.filter fun word => !(first :: words).contains word) =
          (others.filter fun word => !words.contains word).filter fun word => word != first := by
        rw [List.filter_filter]
        refine List.filter_congr fun word _ => ?_
        rw [List.contains_cons, Bool.not_or]
        rfl
      rw [List.cons_append, distinct, distinct, ih, List.filter_append, hothers,
        distinct_filter (· != first), List.cons_append]

theorem distinct_append_of_subset (h : ∀ word ∈ others, word ∈ words) :
    distinct (words ++ others) = distinct words := by
  have hnone : others.filter (fun word => !words.contains word) = [] := by
    rw [List.filter_eq_nil_iff]
    intro word hword
    simp [h word hword]
  rw [distinct_append, hnone, distinct, List.append_nil]

theorem distinct_of_nodup (h : words.Nodup) : distinct words = words := by
  induction words with
  | nil => rfl
  | cons first words ih =>
      obtain ⟨hfirst, hwords⟩ := List.nodup_cons.mp h
      rw [distinct, ih hwords, List.filter_eq_self.mpr]
      intro word hword
      exact bne_iff_ne.mpr fun heq => hfirst (heq ▸ hword)

theorem distinct_append_distinct (words others : List Text) :
    distinct (words ++ distinct others) = distinct (words ++ others) := by
  rw [distinct_append, distinct_append, ← distinct_filter,
    distinct_of_nodup (nodup_distinct _)]

/-! ### Merging -/

/-- The classes that a value gives: those in its truthy items, those in the names of its truthy
entries, or those in the text that it is shown as. -/
inductive Contributes : Value → Text → Prop where
  | item {items : List Value} {item : Value} {word : Text} :
      item ∈ items → item.isTruthy = true → word ∈ Text.words item.display →
      Contributes (.list items) word
  | entry {entries : List (Text × Value)} {name : Text} {value : Value} {word : Text} :
      (name, value) ∈ entries → value.isTruthy = true → word ∈ Text.words name →
      Contributes (.map entries) word
  | string {s word : Text} : word ∈ Text.words s → Contributes (.string s) word
  | number {n : Number} {word : Text} : word ∈ Text.words n.display → Contributes (.number n) word

/-- The classes of an element and those of a value, each once.  The classes of the element keep
their order, and stand before those that only the value gives; but if that is a map, then those
that it gives come first, and only the others keep their order. -/
structure IsMerged (fixed : List Text) (value : Value) (merged : List Text) : Prop where
  nodup : merged.Nodup
  mem_iff : ∀ word, word ∈ merged ↔ word ∈ fixed ∨ Contributes value word
  fixed_first : isMap value = false → ∀ x ∈ fixed,
    (∀ y ∈ fixed, Precedes merged x y ↔ Precedes fixed x y) ∧
    ∀ y ∈ merged, y ∉ fixed → Precedes merged x y
  fixed_last : isMap value = true → ∀ y ∈ fixed, ¬ Contributes value y →
    (∀ x ∈ fixed, ¬ Contributes value x → (Precedes merged x y ↔ Precedes fixed x y)) ∧
    ∀ x, Contributes value x → Precedes merged x y

variable {value : Value}

theorem mem_ofValue_iff : word ∈ ofValue value ↔ Contributes value word := by
  rw [ofValue, List.mem_flatMap]
  constructor
  · rintro ⟨text, htext, hword⟩
    cases value with
    | null => cases htext
    | bool b => cases htext
    | number n =>
        cases List.mem_singleton.mp htext
        exact .number hword
    | string s =>
        cases List.mem_singleton.mp htext
        exact .string hword
    | list items =>
        obtain ⟨item, hitem, rfl⟩ := List.mem_map.mp htext
        obtain ⟨hmem, htruthy⟩ := List.mem_filter.mp hitem
        exact .item hmem htruthy hword
    | map entries =>
        obtain ⟨⟨name, value⟩, hentry, rfl⟩ := List.mem_map.mp htext
        obtain ⟨hmem, htruthy⟩ := List.mem_filter.mp hentry
        exact .entry hmem htruthy hword
  · intro h
    cases h with
    | @item items item _ hmem htruthy hword =>
        exact ⟨item.display, List.mem_map_of_mem (List.mem_filter.mpr ⟨hmem, htruthy⟩), hword⟩
    | @entry entries name value _ hmem htruthy hword =>
        refine ⟨name, List.mem_map.mpr ⟨(name, value), ?_, rfl⟩, hword⟩
        exact List.mem_filter.mpr ⟨hmem, htruthy⟩
    | @string s _ hword => exact ⟨s, List.mem_singleton_self s, hword⟩
    | @number n _ hword => exact ⟨n.display, List.mem_singleton_self _, hword⟩

theorem mem_ordered_iff {fixed : List Text} :
    word ∈ ordered fixed value ↔ word ∈ fixed ∨ Contributes value word := by
  rw [ordered, ← mem_ofValue_iff]
  split <;> rw [List.mem_append]
  exact Or.comm

theorem isMerged_distinct (fixed : List Text) (value : Value) :
    IsMerged fixed value (distinct (ordered fixed value)) where
  nodup := nodup_distinct _
  mem_iff word := mem_distinct_iff.trans mem_ordered_iff
  fixed_first hmap x hx := by
    rw [ordered, if_neg (by simp [hmap])]
    refine ⟨fun y _ => ?_, fun y _ hy => ?_⟩
    · rw [precedes_distinct_iff, precedes_append_left_iff hx]
    · exact precedes_distinct_iff.mpr (precedes_append_of_mem hx hy)
  fixed_last hmap y _ hy := by
    rw [ordered, if_pos hmap]
    rw [← mem_ofValue_iff] at hy
    refine ⟨fun x _ hx => ?_, fun x hx => ?_⟩
    · rw [← mem_ofValue_iff] at hx
      rw [precedes_distinct_iff, precedes_append_right_iff hx hy]
    · exact precedes_distinct_iff.mpr (precedes_append_of_mem (mem_ofValue_iff.mpr hx) hy)

theorem distinct_ordered_distinct (fixed : List Text) (value : Value) :
    distinct (ordered (distinct (ordered fixed value)) value) = distinct (ordered fixed value) := by
  cases hmap : isMap value with
  | true =>
      simp only [ordered, hmap, if_true]
      rw [distinct_append_distinct, distinct_append, distinct_append]
      have hnone : (ofValue value).filter (fun word => !(ofValue value).contains word) = [] := by
        rw [List.filter_eq_nil_iff]
        intro word hword
        simp [hword]
      rw [List.filter_append, hnone, List.nil_append]
  | false =>
      simp only [ordered, hmap, if_neg Bool.false_ne_true]
      rw [distinct_append_of_subset, distinct_of_nodup (nodup_distinct _)]
      intro word hword
      exact mem_distinct_iff.mpr (List.mem_append_right fixed hword)

/-- The words of a merged text are those that were merged. -/
theorem words_merge (fixed : Text) (value : Value) :
    Text.words (merge fixed value) = distinct (ordered (Text.words fixed) value) := by
  have hword : ∀ word ∈ distinct (ordered (Text.words fixed) value),
      ∃ text, word ∈ Text.words text := by
    intro word hword
    rcases mem_ordered_iff.mp (mem_distinct_iff.mp hword) with hfixed | hvalue
    · exact ⟨fixed, hfixed⟩
    · obtain ⟨text, -, htext⟩ := List.mem_flatMap.mp (mem_ofValue_iff.mpr hvalue)
      exact ⟨text, htext⟩
  refine Text.words_intercalate (fun word hmem => ?_) fun word hmem => ?_
  · obtain ⟨text, htext⟩ := hword word hmem
    exact Text.ne_nil_of_mem_words htext
  · obtain ⟨text, htext⟩ := hword word hmem
    exact Text.not_isBlank_of_mem_words htext

/-- Merging gives the classes of both sides in their order, and those that it gives are not changed
by merging them with the same value again. -/
theorem isMerged_merge (fixed : Text) (value : Value) :
    IsMerged (Text.words fixed) value (Text.words (merge fixed value)) ∧
      merge (merge fixed value) value = merge fixed value := by
  constructor
  · rw [words_merge]
    exact isMerged_distinct (Text.words fixed) value
  · have hwords := distinct_ordered_distinct (Text.words fixed) value
    rw [← words_merge fixed value] at hwords
    rw [merge, hwords, words_merge]
    rfl

end Classes

end HtmlTemplate
