import Mathlib.Data.List.TakeWhile
import HtmlTemplate.Expr.Reader
/-!
Two ways to speak of a reader at an input.  `Yields` says what must hold of whatever is read there,
and `Reads` says what is read and what remains apart from a gap.  Each combinator has a lemma for
either, so that neither is ever shown by running a whole grammar.
-/

namespace HtmlTemplate.Reader

variable {α β : Type}

theorem skipGap_eq_self_of_head {c : Char} {s : Text} (h : isGap c = false) :
    skipGap (c :: s) = c :: s := by
  simp [skipGap, h]

theorem skipGap_cons_gap {c : Char} {s : Text} (h : isGap c = true) :
    skipGap (c :: s) = skipGap s := by
  simp [skipGap, h]

@[simp] theorem skipGap_skipGap (s : Text) : skipGap (skipGap s) = skipGap s := by
  induction s with
  | nil => rfl
  | cons c s ih =>
      cases hc : isGap c with
      | true => rw [skipGap_cons_gap hc, ih]
      | false => rw [skipGap_eq_self_of_head hc, skipGap_eq_self_of_head hc]

theorem exists_append_skipGap (s : Text) :
    ∃ gap, s = gap ++ skipGap s ∧ ∀ c ∈ gap, isGap c = true := by
  refine ⟨s.takeWhile isGap, ?_, ?_⟩
  · exact (List.takeWhile_append_dropWhile (p := isGap)).symm
  · intro c hc
    exact List.mem_takeWhile_imp hc

/-! ### What holds of all that is read -/

/-- A property of texts that composes: of what is read part after part, with gaps between. -/
structure Composes (P : Text → Prop) : Prop where
  nil : P []
  append : ∀ {s t}, P s → P t → P (s ++ t)
  gap : ∀ {c}, isGap c = true → P [c]

theorem Composes.gaps {P : Text → Prop} (hP : Composes P) {gap : Text}
    (h : ∀ c ∈ gap, isGap c = true) : P gap := by
  induction gap with
  | nil => exact hP.nil
  | cons c gap ih =>
      have htail := ih fun d hd => h d (List.mem_cons_of_mem c hd)
      exact hP.append (hP.gap (h c (by simp))) htail

/-- Whatever a reader reads at an input satisfies `Q`, and what it takes off for that satisfies
`P`. -/
def Yields (P : Text → Prop) (Q : α → Prop) (p : Reader α) (s : Text) : Prop :=
  ∀ a rest, (p s).read = some (a, rest) → ∃ taken, s = taken ++ rest ∧ P taken ∧ Q a

section Yields

variable {P : Text → Prop} {Q : α → Prop} {R : β → Prop} {p : Reader α} {s : Text}

theorem Yields.imp {Q' : α → Prop} (hp : Yields P Q p s) (h : ∀ a, Q a → Q' a) :
    Yields P Q' p s := by
  intro a rest hread
  obtain ⟨taken, hs, htaken, ha⟩ := hp a rest hread
  exact ⟨taken, hs, htaken, h a ha⟩

theorem Yields.map {f : α → β} (hp : Yields P Q p s) (hf : ∀ a, Q a → R (f a)) :
    Yields P R (map f p) s := by
  intro b rest hread
  rw [read_map, Option.map_eq_some_iff] at hread
  obtain ⟨⟨a, left⟩, ha, heq⟩ := hread
  cases heq
  obtain ⟨taken, hs, htaken, hQ⟩ := hp a left ha
  exact ⟨taken, hs, htaken, hf a hQ⟩

theorem Yields.named {symbol : Symbol} (hp : Yields P Q p s) : Yields P Q (named symbol p) s := by
  intro a rest hread
  rw [read_named] at hread
  exact hp a rest hread

theorem Yields.of_imp {P' : Text → Prop} (hp : Yields P Q p s) (h : ∀ taken, P taken → P' taken) :
    Yields P' Q p s := by
  intro a rest hread
  obtain ⟨taken, hs, htaken, ha⟩ := hp a rest hread
  exact ⟨taken, hs, h taken htaken, ha⟩

/-- The parts may have properties of their own, if these come to one of the whole. -/
theorem Yields.both_of {P' P'' : Text → Prop} {q : Reader β}
    (h : ∀ first gap second, P first → (∀ c ∈ gap, isGap c = true) → P' second →
      P'' (first ++ (gap ++ second))) (hp : Yields P Q p s) (hq : ∀ t, Yields P' R q t) :
    Yields P'' (fun ab => Q ab.1 ∧ R ab.2) (both p q) s := by
  rintro ⟨a, b⟩ rest hread
  rw [read_both, Option.bind_eq_some_iff] at hread
  obtain ⟨⟨a', middle⟩, ha, hmap⟩ := hread
  obtain ⟨⟨b', left⟩, hb, heq⟩ := Option.map_eq_some_iff.mp hmap
  cases heq
  obtain ⟨first, rfl, hfirst, hQ⟩ := hp a' middle ha
  obtain ⟨second, hsecond, htaken, hR⟩ := hq (skipGap middle) b' left hb
  obtain ⟨gap, hgap, hall⟩ := exists_append_skipGap middle
  refine ⟨first ++ (gap ++ second), ?_, h first gap second hfirst hall htaken, hQ, hR⟩
  rw [hgap, hsecond]
  simp

theorem Yields.both {q : Reader β} (hP : Composes P) (hp : Yields P Q p s)
    (hq : ∀ t, Yields P R q t) : Yields P (fun ab => Q ab.1 ∧ R ab.2) (both p q) s :=
  hp.both_of (fun _ _ _ hfirst hgap hsecond =>
    hP.append hfirst (hP.append (hP.gaps hgap) hsecond)) hq

theorem Yields.orElse {q : Reader α} (hp : Yields P Q p s)
    (hq : (p s).read = none → Yields P Q q s) : Yields P Q (orElse p q) s := by
  intro a rest hread
  rw [read_orElse] at hread
  cases hfirst : (p s).read with
  | none =>
      rw [hfirst] at hread
      exact hq hfirst a rest hread
  | some found =>
      rw [hfirst, Option.some_or] at hread
      exact hp a rest (hfirst.trans hread)

theorem Yields.oneOf {ps : List (Reader α)} (h : ∀ q ∈ ps, Yields P Q q s) :
    Yields P Q (oneOf ps) s := by
  induction ps with
  | nil =>
      rintro a rest ⟨⟩
  | cons q ps ih =>
      have htail := ih fun r hr => h r (List.mem_cons_of_mem q hr)
      cases ps with
      | nil => exact h q (by simp)
      | cons r ps => exact (h q (by simp)).orElse fun _ => htail

theorem Yields.optional (hP : Composes P) (hp : Yields P Q p s) :
    Yields P (fun found => ∀ a ∈ found, Q a) (optional p) s := by
  intro found rest hread
  rw [read_optional] at hread
  cases hfirst : (p s).read with
  | none =>
      rw [hfirst] at hread
      cases hread
      exact ⟨[], rfl, hP.nil, by simp⟩
  | some first =>
      rw [hfirst] at hread
      cases hread
      obtain ⟨taken, hs, htaken, ha⟩ := hp first.1 first.2 hfirst
      refine ⟨taken, hs, htaken, ?_⟩
      rintro a ⟨⟩
      exact ha

theorem read_upTo_succ (p : Reader α) (limit : Nat) (s : Text) :
    (upTo p (limit + 1) s).read =
      match (p (skipGap s)).read with
      | none => some ([], s)
      | some (a, rest) => (upTo p limit rest).read.map fun read => (a :: read.1, read.2) := by
  rw [upTo]
  split <;> simp_all

theorem Yields.upTo (hP : Composes P) (hp : ∀ t, Yields P Q p t) (limit : Nat) (s : Text) :
    Yields P (fun found => ∀ a ∈ found, Q a) (upTo p limit) s := by
  induction limit generalizing s with
  | zero =>
      rintro found rest ⟨⟩
      exact ⟨[], rfl, hP.nil, by simp⟩
  | succ limit ih =>
      intro found rest hread
      rw [read_upTo_succ] at hread
      cases hfirst : (p (skipGap s)).read with
      | none =>
          rw [hfirst] at hread
          cases hread
          exact ⟨[], rfl, hP.nil, by simp⟩
      | some first =>
          rw [hfirst] at hread
          obtain ⟨⟨others, left⟩, hothers, heq⟩ := Option.map_eq_some_iff.mp hread
          cases heq
          obtain ⟨taken, hs, htaken, ha⟩ := hp (skipGap s) first.1 first.2 hfirst
          obtain ⟨more, hmore, hP', hall⟩ := ih first.2 others left hothers
          obtain ⟨gap, hgap, hgaps⟩ := exists_append_skipGap s
          refine ⟨gap ++ (taken ++ more), ?_, ?_, ?_⟩
          · rw [hgap, hs, hmore]
            simp
          · exact hP.append (hP.gaps hgaps) (hP.append htaken hP')
          · intro a hmem
            rcases List.mem_cons.mp hmem with rfl | hmem
            · exact ha
            · exact hall a hmem

theorem Yields.many (hP : Composes P) (hp : ∀ t, Yields P Q p t) (s : Text) :
    Yields P (fun found => ∀ a ∈ found, Q a) (many p) s :=
  Yields.upTo hP hp (s.length + 1) s

theorem yields_word {text : Text} (h : P text) (s : Text) :
    Yields P (fun _ => True) (word text) s := by
  intro a rest hread
  obtain ⟨left, hleft, heq⟩ := Option.map_eq_some_iff.mp hread
  cases heq
  exact ⟨text, Text.eq_append_of_after? hleft, h, trivial⟩

end Yields

/-! ### What is read, and what remains -/

/-- A reader reads a value at an input and leaves a text, apart from a gap at its head. -/
def Reads (p : Reader α) (s : Text) (a : α) (rest : Text) : Prop :=
  ∃ left, (p s).read = some (a, left) ∧ skipGap left = skipGap rest

def Fails (p : Reader α) (s : Text) : Prop := (p s).read = none

section Reads

variable {p : Reader α} {s rest : Text} {a : α}

theorem Reads.of_read (h : (p s).read = some (a, rest)) : Reads p s a rest := ⟨rest, h, rfl⟩

theorem Reads.of_gap {c : Char} (hc : isGap c = true) (h : Reads p s a (c :: rest)) :
    Reads p s a rest := by
  obtain ⟨left, hread, hleft⟩ := h
  exact ⟨left, hread, hleft.trans (skipGap_cons_gap hc)⟩

theorem Reads.map (f : α → β) (h : Reads p s a rest) : Reads (map f p) s (f a) rest := by
  obtain ⟨left, hread, hleft⟩ := h
  exact ⟨left, by rw [read_map, hread]; rfl, hleft⟩

theorem Reads.named {symbol : Symbol} (h : Reads p s a rest) : Reads (named symbol p) s a rest := by
  obtain ⟨left, hread, hleft⟩ := h
  exact ⟨left, by rw [read_named, hread], hleft⟩

theorem Reads.both {q : Reader β} {b : β} {rest' : Text} (hp : Reads p s a rest)
    (hq : Reads q (skipGap rest) b rest') : Reads (both p q) s (a, b) rest' := by
  obtain ⟨left, hread, hleft⟩ := hp
  obtain ⟨left', hread', hleft'⟩ := hq
  refine ⟨left', ?_, hleft'⟩
  rw [read_both, hread, Option.bind_some, hleft, hread']
  rfl

theorem Reads.orElse_left {q : Reader α} (h : Reads p s a rest) : Reads (orElse p q) s a rest := by
  obtain ⟨left, hread, hleft⟩ := h
  exact ⟨left, by rw [read_orElse, hread, Option.some_or], hleft⟩

theorem Reads.orElse_right {q : Reader α} (hq : Fails q s) (h : Reads p s a rest) :
    Reads (orElse q p) s a rest := by
  obtain ⟨left, hread, hleft⟩ := h
  exact ⟨left, by rw [read_orElse, hq, Option.none_or, hread], hleft⟩

theorem Reads.oneOf {before : List (Reader α)} (hbefore : ∀ q ∈ before, Fails q s)
    (h : Reads p s a rest) (after : List (Reader α)) :
    Reads (oneOf (before ++ p :: after)) s a rest := by
  induction before with
  | nil =>
      cases after with
      | nil => exact h
      | cons q after => exact h.orElse_left
  | cons q before ih =>
      have htail := ih fun r hr => hbefore r (List.mem_cons_of_mem q hr)
      have hq := hbefore q (by simp)
      cases before with
      | nil => exact htail.orElse_right hq
      | cons r before => exact htail.orElse_right hq

theorem Reads.optional (h : Reads p s a rest) : Reads (optional p) s (some a) rest := by
  obtain ⟨left, hread, hleft⟩ := h
  exact ⟨left, by rw [read_optional, hread], hleft⟩

theorem reads_optional_none (h : Fails p s) : Reads (optional p) s none s :=
  ⟨s, by rw [read_optional, h], rfl⟩

theorem reads_word (text rest : Text) : Reads (word text) (text ++ rest) () rest :=
  ⟨rest, by rw [word, read_leaf, Text.after?_append]; rfl, rfl⟩

theorem Fails.named {symbol : Symbol} (h : Fails p s) : Fails (named symbol p) s := by
  rw [Fails, read_named, h]

theorem Fails.map {f : α → β} (h : Fails p s) : Fails (map f p) s := by
  rw [Fails, read_map, h]
  rfl

theorem Fails.both {q : Reader β} (h : Fails p s) : Fails (both p q) s := by
  rw [Fails, read_both, h]
  rfl

theorem fails_both_of_reads {q : Reader β} (hp : Reads p s a rest) (hq : Fails q (skipGap rest)) :
    Fails (both p q) s := by
  obtain ⟨left, hread, hleft⟩ := hp
  rw [Fails, read_both, hread, Option.bind_some, hleft, hq]
  rfl

theorem Fails.orElse {q : Reader α} (hp : Fails p s) (hq : Fails q s) : Fails (orElse p q) s := by
  rw [Fails, read_orElse, hp, hq]
  rfl

theorem Fails.oneOf {ps : List (Reader α)} (h : ∀ q ∈ ps, Fails q s) : Fails (oneOf ps) s := by
  induction ps with
  | nil => rfl
  | cons q ps ih =>
      have htail := ih fun r hr => h r (List.mem_cons_of_mem q hr)
      have hq := h q (by simp)
      cases ps with
      | nil => exact hq
      | cons r ps => exact hq.orElse htail

theorem fails_word_cons {c d : Char} (h : c ≠ d) (text s : Text) :
    Fails (word (c :: text)) (d :: s) := by
  simp [Fails, word, Text.after?, h]

theorem fails_word_of_head_ne {c : Char} {s : Text} (h : s.head? ≠ some c) (text : Text) :
    Fails (word (c :: text)) s := by
  cases s with
  | nil => rfl
  | cons d s =>
      refine fails_word_cons ?_ text s
      rintro rfl
      exact h rfl

inductive Repeats (p : Reader α) : Text → List α → Text → Prop where
  | nil {s rest : Text} : Fails p (skipGap s) → skipGap s = skipGap rest → Repeats p s [] rest
  | cons {s middle rest : Text} {a : α} {as : List α} : Reads p (skipGap s) a middle →
      middle.length < s.length → Repeats p middle as rest → Repeats p s (a :: as) rest

theorem reads_skipGap_iff : Reads p s a (skipGap rest) ↔ Reads p s a rest := by
  simp only [Reads, skipGap_skipGap]

theorem Repeats.cons_of_length_lt {middle : Text} {as : List α}
    (hfirst : Reads p (skipGap s) a middle) (hlength : middle.length < (skipGap s).length)
    (h : Repeats p (skipGap middle) as rest) :
    Repeats p (skipGap s) (a :: as) rest := by
  have hshort : (skipGap middle).length ≤ middle.length := List.length_dropWhile_le _ _
  refine .cons ?_ (hshort.trans_lt hlength) h
  rw [skipGap_skipGap]
  exact reads_skipGap_iff.mpr hfirst

/-- A first reading at a place without a gap, where the others may begin after one. -/
theorem Repeats.cons_skipGap {c : Char} {middle : Text} {as : List α} (hgap : isGap c = false)
    (hfirst : Reads p (c :: s) a middle) (hlength : middle.length ≤ s.length)
    (h : Repeats p (skipGap middle) as rest) : Repeats p (skipGap (c :: s)) (a :: as) rest := by
  have hself : skipGap (c :: s) = c :: s := skipGap_eq_self_of_head hgap
  apply Repeats.cons_of_length_lt
  · rw [hself]
    exact hfirst
  · rw [hself, List.length_cons]
    omega
  · exact h

theorem Reads.upTo_congr {limit : Nat} {s' : Text} {as : List α} (hs : skipGap s = skipGap s')
    (h : Reads (upTo p limit) s as rest) : Reads (upTo p limit) s' as rest := by
  obtain ⟨left, hread, hleft⟩ := h
  cases limit with
  | zero =>
      cases hread
      exact ⟨s', rfl, hs.symm.trans hleft⟩
  | succ limit =>
      rw [read_upTo_succ, hs] at hread
      cases hfirst : (p (skipGap s')).read with
      | none =>
          rw [hfirst] at hread
          cases hread
          exact ⟨s', by rw [read_upTo_succ, hfirst], hs.symm.trans hleft⟩
      | some first =>
          rw [hfirst] at hread
          exact ⟨left, by rw [read_upTo_succ, hfirst, hread], hleft⟩

theorem Repeats.upTo {as : List α} (h : Repeats p s as rest) {limit : Nat}
    (hlimit : s.length < limit) : Reads (upTo p limit) s as rest := by
  induction h generalizing limit with
  | @nil s rest hfails hrest =>
      cases limit with
      | zero => exact ⟨s, rfl, hrest⟩
      | succ limit => exact ⟨s, by rw [read_upTo_succ, hfails], hrest⟩
  | @cons s middle rest a as hfirst hlength _ ih =>
      obtain ⟨left, hread, hleft⟩ := hfirst
      cases limit with
      | zero => exact absurd hlimit (Nat.not_lt_zero _)
      | succ limit =>
          have hothers := (ih (show middle.length < limit by omega)).upTo_congr hleft.symm
          obtain ⟨left', hread', hleft'⟩ := hothers
          refine ⟨left', ?_, hleft'⟩
          simp only [read_upTo_succ, hread, hread', Option.map_some]

theorem Repeats.many {as : List α} (h : Repeats p s as rest) : Reads (many p) s as rest :=
  h.upTo (Nat.lt_succ_self _)

end Reads

end HtmlTemplate.Reader
