import HtmlTemplate.Expr.Grammar
import HtmlTemplate.Proofs.Agreement
import HtmlTemplate.Proofs.Expr.Bracketing
/-!
Reading an expression with a gap after it.  A reader of the grammar reads the same from a text and
from that text with a gap at its end, and how deep it may nest does not matter where that is more
than the length of the text.
-/

namespace HtmlTemplate

/-! ### Words -/

theorem Text.after?_append_gap {text s gap : Text} (htext : ∀ c ∈ text, Reader.isGap c = false)
    (hgap : ∀ c ∈ gap, Reader.isGap c = true) :
    after? text (s ++ gap) = (after? text s).map (· ++ gap) := by
  induction text generalizing s with
  | nil => rfl
  | cons c text ih =>
      cases s with
      | cons d s =>
          simp only [List.cons_append, after?]
          split
          · exact ih fun d hd => htext d (List.mem_cons_of_mem c hd)
          · rfl
      | nil =>
          cases gap with
          | nil => rfl
          | cons d gap =>
              have hne : c ≠ d := by
                rintro rfl
                have hc := htext c (by simp)
                rw [hgap c (by simp)] at hc
                cases hc
              simp [after?, hne]

namespace Literal

open Reader

/-- A run of characters that are no gaps ends before a gap. -/
theorem takeWhile_append_gap {p : Char → Bool} (hp : ∀ c, isGap c = true → p c = false)
    {s gap : Text} (hgap : ∀ c ∈ gap, isGap c = true) :
    (s ++ gap).takeWhile p = s.takeWhile p ∧ (s ++ gap).dropWhile p = s.dropWhile p ++ gap := by
  induction s with
  | nil =>
      cases gap with
      | nil => exact ⟨rfl, rfl⟩
      | cons c gap => simp [hp c (hgap c (by simp))]
  | cons c s ih =>
      cases hc : p c with
      | true => simp [hc, ih]
      | false => simp [hc]

theorem eq_of_isGap {p : Char → Bool} {b : Bool}
    (h : p ' ' = b ∧ p '\t' = b ∧ p '\r' = b ∧ p '\n' = b)
    (c : Char) (hc : isGap c = true) : p c = b := by
  simp only [isGap, Bool.or_eq_true, decide_eq_true_eq] at hc
  rcases hc with ((rfl | rfl) | rfl) | rfl
  · exact h.1
  · exact h.2.1
  · exact h.2.2.1
  · exact h.2.2.2

theorem name?_append_gap (s gap : Text) (hgap : ∀ c ∈ gap, isGap c = true) :
    name? (s ++ gap) = (name? s).map fun found => (found.1, found.2 ++ gap) := by
  have hname := eq_of_isGap (p := Text.isNameChar) (b := false) (by decide)
  have hstart := eq_of_isGap (p := Text.isNameStart) (b := false) (by decide)
  cases s with
  | nil =>
      cases gap with
      | nil => rfl
      | cons c gap => simp [name?, hstart c (hgap c (by simp))]
  | cons c s =>
      obtain ⟨htake, hdrop⟩ := takeWhile_append_gap hname hgap (s := s)
      simp only [List.cons_append, name?, htake, hdrop]
      split <;> rfl

theorem keyword?_append_gap {word : Text} (hword : ∀ c ∈ word, isGap c = false) (s gap : Text)
    (hgap : ∀ c ∈ gap, isGap c = true) :
    keyword? word (s ++ gap) = (keyword? word s).map (· ++ gap) := by
  have hname := eq_of_isGap (p := Text.isNameChar) (b := false) (by decide)
  rw [keyword?, keyword?, Text.after?_append_gap hword hgap]
  cases Text.after? word s with
  | none => rfl
  | some rest =>
      cases rest with
      | cons c rest => simp [Option.filter]
      | nil =>
          cases gap with
          | nil => rfl
          | cons c gap => simp [Option.filter, hname c (hgap c (by simp))]

theorem digits?_append_gap (s gap : Text) (hgap : ∀ c ∈ gap, isGap c = true) :
    digits? (s ++ gap) = (digits? s).map fun found => (found.1, found.2 ++ gap) := by
  have hdigit := eq_of_isGap (p := Char.isDigit) (b := false) (by decide)
  obtain ⟨htake, hdrop⟩ := takeWhile_append_gap hdigit hgap (s := s)
  simp only [digits?, htake, hdrop]
  split <;> rfl

theorem ne_of_isGap {c d : Char} (hc : isGap c = true) (hd : isGap d = false) : c ≠ d := by
  rintro rfl
  rw [hc] at hd
  cases hd

theorem fraction_append_gap (s gap : Text) (hgap : ∀ c ∈ gap, isGap c = true) :
    fraction (s ++ gap) = ((fraction s).1, (fraction s).2 ++ gap) := by
  cases s with
  | nil =>
      cases gap with
      | nil => rfl
      | cons c gap =>
          have hc : c ≠ '.' := ne_of_isGap (hgap c (by simp)) (by decide)
          simp [fraction, hc]
  | cons c s =>
      by_cases hc : c = '.'
      · subst hc
        simp only [List.cons_append, fraction, digits?_append_gap s gap hgap]
        cases digits? s <;> rfl
      · simp [fraction, hc]

theorem exponentSign_append_gap (s gap : Text) (hgap : ∀ c ∈ gap, isGap c = true) :
    exponentSign (s ++ gap) = ((exponentSign s).1, (exponentSign s).2 ++ gap) := by
  cases s with
  | nil =>
      cases gap with
      | nil => rfl
      | cons c gap =>
          have hplus : c ≠ '+' := ne_of_isGap (hgap c (by simp)) (by decide)
          have hminus : c ≠ '-' := ne_of_isGap (hgap c (by simp)) (by decide)
          simp [exponentSign, hplus, hminus]
  | cons c s =>
      by_cases hplus : c = '+'
      · subst hplus
        simp [exponentSign]
      · by_cases hminus : c = '-'
        · subst hminus
          simp [exponentSign]
        · simp [exponentSign, hplus, hminus]

theorem exponent_append_gap (s gap : Text) (hgap : ∀ c ∈ gap, isGap c = true) :
    exponent (s ++ gap) = ((exponent s).1, (exponent s).2 ++ gap) := by
  cases s with
  | nil =>
      cases gap with
      | nil => rfl
      | cons c gap =>
          have hlower : c ≠ 'e' := ne_of_isGap (hgap c (by simp)) (by decide)
          have hupper : c ≠ 'E' := ne_of_isGap (hgap c (by simp)) (by decide)
          simp [exponent, hlower, hupper]
  | cons c s =>
      simp only [List.cons_append, exponent, exponentSign_append_gap s gap hgap,
        digits?_append_gap _ gap hgap]
      split
      · cases digits? (exponentSign s).2 <;> rfl
      · rfl

theorem unsigned?_append_gap (s gap : Text) (hgap : ∀ c ∈ gap, isGap c = true) :
    unsigned? (s ++ gap) = (unsigned? s).map fun found => (found.1, found.2 ++ gap) := by
  rw [unsigned?, unsigned?, digits?_append_gap s gap hgap]
  cases digits? s with
  | none => rfl
  | some found => simp [fraction_append_gap _ gap hgap, exponent_append_gap _ gap hgap]

theorem numeral?_append_gap (s gap : Text) (hgap : ∀ c ∈ gap, isGap c = true) :
    numeral? (s ++ gap) = (numeral? s).map fun found => (found.1, found.2 ++ gap) := by
  have hunsigned := unsigned?_append_gap s gap hgap
  cases s with
  | nil =>
      cases gap with
      | nil => rfl
      | cons c gap =>
          have hc : c ≠ '-' := ne_of_isGap (hgap c (by simp)) (by decide)
          simpa [numeral?, hc] using hunsigned
  | cons c s =>
      by_cases hc : c = '-'
      · subst hc
        simp only [List.cons_append, numeral?, unsigned?_append_gap s gap hgap]
        cases unsigned? s <;> rfl
      · simpa [numeral?, hc] using hunsigned

theorem upToQuote_gap {quote : Char} (hquote : isGap quote = false) {gap : Text}
    (hgap : ∀ c ∈ gap, isGap c = true) : upToQuote quote gap = none := by
  induction gap with
  | nil => rfl
  | cons c gap ih =>
      have hc := hgap c (by simp)
      have hback : c ≠ '\\' := ne_of_isGap hc (by decide)
      have htail := ih fun d hd => hgap d (List.mem_cons_of_mem c hd)
      simp [upToQuote, hback, ne_of_isGap hc hquote, htail]

/-- A quoted text that is not closed before a gap is not closed in it. -/
theorem upToQuote_append_gap {quote : Char} (hquote : isGap quote = false) (hback : quote ≠ '\\')
    (s gap : Text) (hgap : ∀ c ∈ gap, isGap c = true) :
    upToQuote quote (s ++ gap) =
      (upToQuote quote s).map fun found => (found.1, found.2 ++ gap) := by
  fun_induction upToQuote quote s with
  | case1 => exact upToQuote_gap hquote hgap
  | case2 c s ih =>
      simp only [List.cons_append, upToQuote, ih]
      cases upToQuote quote s <;> rfl
  | case3 s _ => simp [upToQuote, hback]
  | case4 s hs hne =>
      cases s with
      | cons c s => exact absurd rfl (hs c s rfl)
      | nil =>
          cases gap with
          | nil => simp [upToQuote, hne]
          | cons c gap =>
              have htail := upToQuote_gap hquote fun d hd => hgap d (List.mem_cons_of_mem c hd)
              simp [upToQuote, htail]
  | case5 c s _ hc hne ih =>
      have hstep : upToQuote quote (c :: (s ++ gap)) =
          (upToQuote quote (s ++ gap)).map fun found => (c :: found.1, found.2) := by
        simp [upToQuote, hc, hne]
      rw [List.cons_append, hstep, ih]
      cases upToQuote quote s <;> rfl

theorem quoted?_append_gap (s gap : Text) (hgap : ∀ c ∈ gap, isGap c = true) :
    quoted? (s ++ gap) = (quoted? s).map fun found => (found.1, found.2 ++ gap) := by
  cases s with
  | nil =>
      cases gap with
      | nil => rfl
      | cons c gap =>
          have hsingle : c ≠ '\'' := ne_of_isGap (hgap c (by simp)) (by decide)
          have hdouble : c ≠ '"' := ne_of_isGap (hgap c (by simp)) (by decide)
          simp [quoted?, hsingle, hdouble]
  | cons c s =>
      by_cases hsingle : c = '\''
      · subst hsingle
        simpa [quoted?] using upToQuote_append_gap (by decide) (by decide) s gap hgap
      · by_cases hdouble : c = '"'
        · subst hdouble
          simpa [quoted?] using upToQuote_append_gap (by decide) (by decide) s gap hgap
        · simp [quoted?, hsingle, hdouble]

theorem ne_nil_of_numeral? {s text rest : Text} (h : numeral? s = some (text, rest)) :
    text ≠ [] := by
  have hunsigned {s text : Text} (h : unsigned? s = some (text, rest)) : text ≠ [] := by
    obtain ⟨whole, left, hdigits, rfl, -⟩ := unsigned?_eq_some_iff.mp h
    simp [(digits?_eq_some_iff.mp hdigits).2.1]
  unfold numeral? at h
  split at h
  · obtain ⟨⟨text', left⟩, -, heq⟩ := Option.map_eq_some_iff.mp h
    cases heq
    exact List.cons_ne_nil _ _
  · exact hunsigned h

end Literal

namespace Grammar

open Reader

variable {bound bound' : Nat}

theorem ident_agree : Agree bound bound' 1 ident ident := by
  refine (agree_leaf Literal.name?_append_gap ?_).named
  intro s name rest hread
  obtain ⟨rfl, hname, -⟩ := Literal.name?_eq_some_iff.mp hread
  cases name with
  | nil => cases hname
  | cons c name =>
      simp only [List.length_append, List.length_cons]
      omega

theorem word_agree {text : Text} (htext : ∀ c ∈ text, isGap c = false) :
    Agree bound bound' text.length (word text) (word text) := by
  refine agree_leaf ?_ ?_
  · intro s gap hgap
    rw [Text.after?_append_gap htext hgap]
    cases Text.after? text s <;> rfl
  · intro s u rest hread
    obtain ⟨left, hleft, heq⟩ := Option.map_eq_some_iff.mp hread
    cases heq
    rw [Text.eq_append_of_after? hleft, List.length_append]
    omega

theorem char_agree {c : Char} (hc : isGap c = false) :
    Agree bound bound' 1 (word [c]) (word [c]) := by
  have htext : ∀ d ∈ [c], isGap d = false := by simpa using hc
  exact word_agree htext

theorem keyword_length {word s rest : Text} (hword : word ≠ [])
    (h : Literal.keyword? word s = some rest) : rest.length + 1 ≤ s.length := by
  have hpos := List.length_pos_iff.mpr hword
  rw [(Literal.keyword?_eq_some_iff.mp h).1, List.length_append]
  omega

theorem null_agree : Agree bound bound' 1 null null := by
  refine (agree_leaf ?_ ?_).named
  · intro s gap hgap
    rw [Literal.keyword?_append_gap (Text.forall_eq_of_all (by decide)) s gap hgap]
    cases Literal.keyword? "null".toList s <;> rfl
  · intro s r rest hread
    obtain ⟨left, hword, heq⟩ := Option.map_eq_some_iff.mp hread
    cases heq
    exact keyword_length (by decide) hword

theorem boolean_agree : Agree bound bound' 1 boolean boolean := by
  refine (agree_leaf ?_ ?_).named
  · intro s gap hgap
    rw [Literal.keyword?_append_gap (Text.forall_eq_of_all (by decide)) s gap hgap,
      Literal.keyword?_append_gap (Text.forall_eq_of_all (by decide)) s gap hgap]
    cases Literal.keyword? "true".toList s with
    | some rest => rfl
    | none => cases Literal.keyword? "false".toList s <;> rfl
  · intro s r rest hread
    split at hread
    · next left hword =>
        cases hread
        exact keyword_length (by decide) hword
    · obtain ⟨left, hword, heq⟩ := Option.map_eq_some_iff.mp hread
      cases heq
      exact keyword_length (by decide) hword

theorem number_agree : Agree bound bound' 1 number number := by
  refine ((agree_leaf Literal.numeral?_append_gap ?_).map numberOf).named
  intro s literal rest hread
  have hne := Literal.ne_nil_of_numeral? hread
  have hpos := List.length_pos_iff.mpr hne
  rw [(Literal.numeral?_append hread).1, List.length_append]
  omega

theorem string_agree : Agree bound bound' 1 string string := by
  refine (agree_leaf Literal.quoted?_append_gap ?_).named
  intro s text rest hread
  obtain ⟨quote, body, -, rfl, -⟩ := Literal.exists_rawBody_of_quoted? hread
  simp only [List.length_cons, List.length_append]
  omega

theorem operator_agree {operator : Comparison} {text : Text}
    (htext : ∀ c ∈ text, isGap c = false) (hne : 1 ≤ text.length) :
    Agree bound bound' 1 (map (fun _ => operator) (word text))
      (map (fun _ => operator) (word text)) :=
  ((word_agree htext).weaken hne).map _

theorem equality_agree : Agree bound bound' 1 equality equality := by
  refine (Agree.oneOf ?_).named
  refine .cons ?_ (.cons ?_ (.cons ?_ (.cons ?_ .nil))) <;>
    exact operator_agree (Text.forall_eq_of_all (by decide)) (by decide)

theorem relation_agree : Agree bound bound' 1 relation relation := by
  refine (Agree.oneOf ?_).named
  refine .cons ?_ (.cons ?_ (.cons ?_ (.cons ?_ .nil))) <;>
    exact operator_agree (Text.forall_eq_of_all (by decide)) (by decide)

/-! ### Lists and brackets -/

section Lists

variable {α : Type} {taken : Nat} {p q : Reader α}

theorem separated_agree (h : Agree bound bound' taken p q) :
    Agree bound bound' taken (separated p) (separated q) := by
  have hcomma : Agree bound bound' (0 + 1) (word [',']) (word [',']) := char_agree (by decide)
  have hnext := ((hcomma.both h).map Prod.snd).weaken (Nat.le_add_right _ taken)
  exact (h.both hnext.many).map _

theorem trailing_agree (h : Agree bound bound' taken p q) :
    Agree bound bound' 0 (trailing p) (trailing q) := by
  have hcomma : Agree bound bound' 1 (word [',']) (word [',']) := char_agree (by decide)
  exact ((separated_agree h).both hcomma.optional).optional.map _

/-- What stands in brackets needs to agree on shorter texts only. -/
theorem between_agree {opening closing : Char} (hpair : IsPair opening closing)
    (h : Agree bound bound' taken p q) :
    Agree (bound + 1) (bound' + 1) 1 (between opening p closing) (between opening q closing) := by
  have hgaps : isGap opening = false ∧ isGap closing = false := by cases hpair <;> decide
  have hopen : Agree (bound + 1) (bound' + 1) 1 _ _ := char_agree hgaps.1
  have hwhole := hopen.both_after (h.both (char_agree hgaps.2))
  exact (hwhole.map _).weaken (Nat.le_add_right _ _)

end Lists

/-! ### Expressions -/

theorem chain_agree {operand operand' : Reader (Checked Expr)} {operator : Reader Comparison}
    (hoperand : Agree bound bound' 1 operand operand')
    (hoperator : Agree bound bound' 1 operator operator) :
    Agree bound bound' 1 (chain operand operator) (chain operand' operator) :=
  (hoperand.both (hoperator.both hoperand).many).map _

section Inner

variable {inner inner' : Reader (Checked Expr)} (hinner : Agree bound bound' 1 inner inner')

include hinner

theorem call_agree : Agree (bound + 1) (bound' + 1) 1 (call inner) (call inner') := by
  have harguments := (separated_agree hinner).optional.map (·.getD [])
  have hwhole := ident_agree.both (between_agree .paren harguments)
  exact ((hwhole.map _).weaken (by decide)).named

theorem member_agree : Agree (bound + 1) (bound' + 1) 1 (member inner) (member inner') := by
  have hdot : Agree (bound + 1) (bound' + 1) 1 dotAccess dotAccess := by
    have hpoint : Agree (bound + 1) (bound' + 1) 1 (word ['.']) (word ['.']) :=
      char_agree (by decide)
    exact (((hpoint.both ident_agree).map _).weaken (by decide)).named
  have hindex : Agree (bound + 1) (bound' + 1) 1 (indexAccess inner) (indexAccess inner') :=
    ((between_agree .square hinner).map _).named
  exact ((ident_agree.both (hdot.orElse hindex).many).map _).named

theorem array_agree : Agree (bound + 1) (bound' + 1) 1 (array inner) (array inner') :=
  ((between_agree .square (trailing_agree hinner)).map _).named

theorem key_agree : Agree (bound + 1) (bound' + 1) 1 (key inner) (key inner') := by
  refine Agree.oneOf (.cons (string_agree.map _) (.cons (ident_agree.map _) (.cons ?_ .nil)))
  exact ((between_agree .square hinner).named).map _

theorem property_agree : Agree bound bound' 1 (property inner) (property inner') := by
  have hcolon : Agree bound bound' 1 (word [':']) (word [':']) := char_agree (by decide)
  have hkey := (key_agree hinner).mono (Nat.le_succ _) (Nat.le_succ _) (Nat.le_refl _)
  exact (((hkey.both (hcolon.both hinner)).map _).weaken (by decide)).named

theorem object_agree : Agree (bound + 1) (bound' + 1) 1 (object inner) (object inner') :=
  ((between_agree .curly (trailing_agree (property_agree hinner))).map _).named

theorem primary_agree : Agree (bound + 1) (bound' + 1) 1 (primary inner) (primary inner') := by
  refine Agree.oneOf ?_
  refine .cons null_agree (.cons boolean_agree (.cons number_agree (.cons (string_agree.map _) ?_)))
  refine .cons (call_agree hinner) (.cons (array_agree hinner) (.cons (object_agree hinner) ?_))
  exact .cons (member_agree hinner) (.cons (between_agree .paren hinner) .nil)

theorem relational_agree :
    Agree (bound + 1) (bound' + 1) 1 (relational inner) (relational inner') := by
  have hbang : Agree (bound + 1) (bound' + 1) 1 (word ['!']) (word ['!']) :=
    char_agree (by decide)
  have hunary : Agree (bound + 1) (bound' + 1) (0 + 1) (unary inner) (unary inner') :=
    ((hbang.named.many.both (primary_agree hinner)).map _).named
  exact (chain_agree hunary relation_agree).named

end Inner

/-- An expression is read in the same way at any depth that is more than the length of its text,
with or without a gap after it. -/
theorem expr_agree (depth depth' : Nat) : Agree depth depth' 1 (expr depth) (expr depth') := by
  induction depth generalizing depth' with
  | zero => exact fun _ _ _ hlength => absurd hlength (Nat.not_lt_zero _)
  | succ depth ih =>
      cases depth' with
      | zero => exact fun _ _ _ _ hlength => absurd hlength (Nat.not_lt_zero _)
      | succ depth' => exact (chain_agree (relational_agree (ih depth')) equality_agree).named

end Grammar

end HtmlTemplate
