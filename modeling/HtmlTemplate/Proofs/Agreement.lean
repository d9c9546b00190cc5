import Mathlib.Data.List.Forall2
import HtmlTemplate.Proofs.Reader
/-!
Readers that agree.  Two readers agree where they read the same from a text and from that text with
a gap at its end, as long as the texts are short.  Each combinator has a lemma for this.
-/

namespace HtmlTemplate.Reader

/-- A text, and the same text with a gap after it. -/
def Trails (s t : Text) : Prop := ∃ gap, t = s ++ gap ∧ ∀ c ∈ gap, isGap c = true

variable {α β : Type}

/-- The same is read from two texts, at least `taken` characters of them, and what remains of one is
what remains of the other with a gap after it. -/
inductive Matches (taken : Nat) (s t : Text) : Option (α × Text) → Option (α × Text) → Prop where
  | none : Matches taken s t none none
  | some {a : α} {rest rest' : Text} : Trails rest rest' → rest.length + taken ≤ s.length →
      rest'.length + taken ≤ t.length → Matches taken s t (some (a, rest)) (some (a, rest'))

/-- Two readers read the same from a text and from that text with a gap after it, if these are
shorter than the bounds; and they take at least `taken` characters. -/
def Agree (bound bound' taken : Nat) (p q : Reader α) : Prop :=
  ∀ s t, Trails s t → s.length < bound → t.length < bound' →
    Matches taken s t (p s).read (q t).read

theorem Trails.refl (s : Text) : Trails s s := ⟨[], by simp, by simp⟩

theorem skipGap_eq_nil_iff {s : Text} : skipGap s = [] ↔ ∀ c ∈ s, isGap c = true := by
  rw [skipGap, List.dropWhile_eq_nil_iff]

theorem Trails.skipGap {s t : Text} (h : Trails s t) : Trails (skipGap s) (skipGap t) := by
  obtain ⟨gap, rfl, hgap⟩ := h
  induction s with
  | nil =>
      rw [List.nil_append, skipGap_eq_nil_iff.mpr hgap]
      exact .refl []
  | cons c s ih =>
      cases hc : isGap c with
      | true => rwa [List.cons_append, skipGap_cons_gap hc, skipGap_cons_gap hc]
      | false =>
          rw [List.cons_append, skipGap_eq_self_of_head hc, skipGap_eq_self_of_head hc]
          exact ⟨gap, rfl, hgap⟩

theorem length_skipGap_le (s : Text) : (skipGap s).length ≤ s.length :=
  List.length_dropWhile_le _ _

/-- What is read may change, and the texts may be told longer ones before which as much more was
taken. -/
theorem Matches.map {taken more : Nat} {s t s' t' : Text} {first second : Option (α × Text)}
    (h : Matches taken s t first second) (hs : s.length + more ≤ s'.length + taken)
    (ht : t.length + more ≤ t'.length + taken) (f : α → β) :
    Matches more s' t' (first.map fun read => (f read.1, read.2))
      (second.map fun read => (f read.1, read.2)) := by
  cases h with
  | none => exact .none
  | @some a rest rest' hrest hlength hlength' =>
      have hshort : rest.length + more ≤ s'.length := by omega
      have hshort' : rest'.length + more ≤ t'.length := by omega
      exact .some hrest hshort hshort'

section Agree

variable {bound bound' taken more : Nat} {p q : Reader α}

theorem Agree.mono {low low' fewer : Nat} (h : Agree bound bound' taken p q)
    (hlow : low ≤ bound) (hlow' : low' ≤ bound') (hfewer : fewer ≤ taken) :
    Agree low low' fewer p q := by
  intro s t htrails hs ht
  have hmatches := h s t htrails (by omega) (by omega)
  have hsame : Matches fewer s t _ _ := hmatches.map (by omega) (by omega) id
  simpa using hsame

theorem Agree.map (f : α → β) (h : Agree bound bound' taken p q) :
    Agree bound bound' taken (map f p) (map f q) := by
  intro s t htrails hs ht
  rw [read_map, read_map]
  exact (h s t htrails hs ht).map (Nat.le_refl _) (Nat.le_refl _) f

theorem Agree.named {symbol : Symbol} (h : Agree bound bound' taken p q) :
    Agree bound bound' taken (named symbol p) (named symbol q) := by
  intro s t htrails hs ht
  rw [read_named, read_named]
  exact h s t htrails hs ht

/-- The second part stands after what the first has taken, and so needs to agree on shorter texts
only. -/
theorem Agree.both_after {p' q' : Reader β} (h : Agree bound bound' taken p q)
    (h' : Agree (bound - taken) (bound' - taken) more p' q') :
    Agree bound bound' (taken + more) (both p p') (both q q') := by
  intro s t htrails hs ht
  have hmatches := h s t htrails hs ht
  rw [read_both, read_both]
  generalize (p s).read = first at hmatches ⊢
  generalize (q t).read = second at hmatches ⊢
  cases hmatches with
  | none => exact .none
  | @some a rest rest' hrest hlength hlength' =>
      have hshort := length_skipGap_le rest
      have hshort' := length_skipGap_le rest'
      exact (h' _ _ hrest.skipGap (by omega) (by omega)).map (by omega) (by omega) (Prod.mk a)

theorem Agree.both {p' q' : Reader β} (h : Agree bound bound' taken p q)
    (h' : Agree bound bound' more p' q') :
    Agree bound bound' (taken + more) (both p p') (both q q') :=
  h.both_after (h'.mono (Nat.sub_le _ _) (Nat.sub_le _ _) (Nat.le_refl _))

theorem Agree.weaken {fewer : Nat} (h : Agree bound bound' taken p q) (hfewer : fewer ≤ taken) :
    Agree bound bound' fewer p q :=
  h.mono (Nat.le_refl _) (Nat.le_refl _) hfewer

theorem Agree.orElse {p' q' : Reader α} (h : Agree bound bound' taken p q)
    (h' : Agree bound bound' taken p' q') :
    Agree bound bound' taken (orElse p p') (orElse q q') := by
  intro s t htrails hs ht
  have hmatches := h s t htrails hs ht
  rw [read_orElse, read_orElse]
  generalize (p s).read = first at hmatches ⊢
  generalize (q t).read = second at hmatches ⊢
  cases hmatches with
  | none => exact h' s t htrails hs ht
  | some hrest hlength hlength' => exact .some hrest hlength hlength'

theorem agree_fail : Agree bound bound' taken (fail : Reader α) fail := fun _ _ _ _ _ => .none

theorem Agree.oneOf {ps qs : List (Reader α)}
    (h : List.Forall₂ (Agree bound bound' taken) ps qs) :
    Agree bound bound' taken (oneOf ps) (oneOf qs) := by
  induction h with
  | nil => exact agree_fail
  | cons hfirst hrest ih =>
      cases hrest with
      | nil => exact hfirst
      | cons _ _ => exact hfirst.orElse ih

theorem Agree.optional (h : Agree bound bound' taken p q) :
    Agree bound bound' 0 (optional p) (optional q) := by
  intro s t htrails hs ht
  have hmatches := h s t htrails hs ht
  rw [read_optional, read_optional]
  generalize (p s).read = first at hmatches ⊢
  generalize (q t).read = second at hmatches ⊢
  cases hmatches with
  | none => exact .some htrails (Nat.le_refl _) (Nat.le_refl _)
  | some hrest hlength hlength' => exact .some hrest (by omega) (by omega)

/-- The limits of a repetition do not matter where they are more than the lengths of the texts. -/
theorem Agree.upTo (h : Agree bound bound' (taken + 1) p q) {limit limit' : Nat} {s t : Text}
    (htrails : Trails s t) (hs : s.length < bound) (ht : t.length < bound')
    (hlimit : s.length < limit) (hlimit' : t.length < limit') :
    Matches 0 s t (upTo p limit s).read (upTo q limit' t).read := by
  induction limit generalizing limit' s t with
  | zero => exact absurd hlimit (Nat.not_lt_zero _)
  | succ limit ih =>
      obtain ⟨limit', rfl⟩ := Nat.exists_eq_add_one_of_ne_zero (Nat.ne_zero_of_lt hlimit')
      have hshort := length_skipGap_le s
      have hshort' := length_skipGap_le t
      have hmatches := h _ _ htrails.skipGap (by omega) (by omega)
      rw [read_upTo_succ, read_upTo_succ]
      generalize (p (Reader.skipGap s)).read = first at hmatches ⊢
      generalize (q (Reader.skipGap t)).read = second at hmatches ⊢
      cases hmatches with
      | none => exact .some htrails (Nat.le_refl _) (Nat.le_refl _)
      | @some a rest rest' hrest hlength hlength' =>
          have hothers := ih hrest (by omega) (by omega) (show rest.length < limit by omega)
            (show rest'.length < limit' by omega)
          exact hothers.map (by omega) (by omega) (List.cons a)

theorem Agree.many (h : Agree bound bound' (taken + 1) p q) :
    Agree bound bound' 0 (many p) (many q) := fun _ _ htrails hs ht =>
  h.upTo htrails hs ht (Nat.lt_succ_self _) (Nat.lt_succ_self _)

/-- A reader of words agrees with itself if a gap at the end makes no difference to it. -/
theorem agree_leaf {read : Text → Option (α × Text)}
    (hgap : ∀ s gap, (∀ c ∈ gap, isGap c = true) →
      read (s ++ gap) = (read s).map fun found => (found.1, found.2 ++ gap))
    (hlength : ∀ s a rest, read s = some (a, rest) → rest.length + taken ≤ s.length) :
    Agree bound bound' taken (leaf read) (leaf read) := by
  rintro s - ⟨gap, rfl, hgaps⟩ - -
  rw [read_leaf, read_leaf, hgap s gap hgaps]
  cases hread : read s with
  | none => exact .none
  | some found =>
      obtain ⟨a, rest⟩ := found
      have hshort := hlength s a rest hread
      have hshort' : (rest ++ gap).length + taken ≤ (s ++ gap).length := by
        rw [List.length_append, List.length_append]
        omega
      exact .some ⟨gap, rfl, hgaps⟩ hshort hshort'

end Agree

end HtmlTemplate.Reader
