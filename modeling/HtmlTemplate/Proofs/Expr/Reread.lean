import HtmlTemplate.Proofs.Expr.Plain
import HtmlTemplate.Proofs.Number.Numeral
/-!
What the grammar of expressions reads at the head of a text, part by part: words, brackets and lists,
operands between operators.  An operand is read up to anything that cannot go on with it, and an
expression up to anything that ends one.
-/

namespace HtmlTemplate

namespace Grammar

open Reader

/-! ### What may follow an expression -/

def isClosing (c : Char) : Bool := c = ')' || c = ']' || c = '\x7d' || c = ','

/-- The characters that end an operand: those that end an expression or begin an operator. -/
def isBound (c : Char) : Bool := isClosing c || c = '=' || c = '!' || c = '<' || c = '>'

def Ended (rest : Text) : Prop := (skipGap rest).head?.all isClosing = true

def Bounded (rest : Text) : Prop := (skipGap rest).head?.all isBound = true

theorem Ended.bounded {rest : Text} (h : Ended rest) : Bounded rest := by
  rw [Ended] at h
  rw [Bounded]
  cases hhead : (skipGap rest).head? with
  | none => rfl
  | some c =>
      rw [hhead] at h
      have hc : isClosing c = true := h
      simp [isBound, hc]

theorem ended_cons {c : Char} (h : isClosing c = true) (s : Text) : Ended (c :: s) := by
  have hgap : isGap c = false := by
    simp only [isClosing, Bool.or_eq_true, decide_eq_true_eq] at h
    rcases h with ((rfl | rfl) | rfl) | rfl <;> rfl
  rw [Ended, skipGap_eq_self_of_head hgap]
  exact h

theorem ended_gap {c : Char} {s : Text} (hc : isGap c = true) (h : Ended s) : Ended (c :: s) := by
  rw [Ended, skipGap_cons_gap hc]
  exact h

theorem ended_nil : Ended [] := rfl

/-- A class of characters without gaps and bounds does not go on past an operand. -/
theorem Bounded.head_any {rest : Text} {p : Char → Bool} (h : Bounded rest)
    (hp : ∀ c, p c = true → isGap c = false ∧ isBound c = false) : rest.head?.any p = false := by
  cases rest with
  | nil => rfl
  | cons c rest =>
      cases hc : p c with
      | false => simpa using hc
      | true =>
          obtain ⟨hgap, hbound⟩ := hp c hc
          rw [Bounded, skipGap_eq_self_of_head hgap] at h
          have hbound' : isBound c = true := h
          rw [hbound] at hbound'
          cases hbound'

theorem Bounded.head_skipGap_ne {rest : Text} (h : Bounded rest) {c : Char}
    (hc : isBound c = false) : (skipGap rest).head? ≠ some c := by
  intro hhead
  rw [Bounded, hhead] at h
  have hbound : isBound c = true := h
  rw [hc] at hbound
  cases hbound

theorem not_bound_of_isNameChar {c : Char} (h : Text.isNameChar c = true) :
    isGap c = false ∧ isBound c = false := by
  constructor
  · apply Bool.eq_false_iff.mpr
    intro hgap
    simp only [isGap, Bool.or_eq_true, decide_eq_true_eq] at hgap
    rcases hgap with ((rfl | rfl) | rfl) | rfl <;> exact absurd h (by decide)
  · apply Bool.eq_false_iff.mpr
    intro hbound
    simp only [isBound, isClosing, Bool.or_eq_true, decide_eq_true_eq] at hbound
    rcases hbound with (((((((rfl | rfl) | rfl) | rfl) | rfl) | rfl) | rfl) | rfl) <;>
      exact absurd h (by decide)

theorem Bounded.name {rest : Text} (h : Bounded rest) :
    rest.head?.any Text.isNameChar = false :=
  h.head_any fun _ hc => not_bound_of_isNameChar hc

theorem Bounded.numeral {rest : Text} (h : Bounded rest) : Numeral.EndsBefore rest := by
  apply h.head_any
  intro c hc
  by_cases hname : Text.isNameChar c = true
  · exact not_bound_of_isNameChar hname
  · simp only [Numeral.continues, Bool.or_eq_true, decide_eq_true_eq] at hc
    rcases hc with ((hc | rfl) | rfl) | rfl
    · exact absurd (by simp [Text.isNameChar, Char.isAlphanum, hc]) hname
    all_goals exact ⟨by decide, by decide⟩

/-! ### Words -/

theorem fails_ident {c : Char} (h : Text.isNameStart c = false) (s : Text) :
    Fails ident (c :: s) := by
  apply Fails.named
  simp [Fails, Literal.name?, h]

theorem keyword?_eq_none {c d : Char} (h : d ≠ c) (word s : Text) :
    Literal.keyword? (d :: word) (c :: s) = none := by
  simp [Literal.keyword?, Text.after?, h]

theorem fails_null {c : Char} (h : c ≠ 'n') (s : Text) : Fails null (c :: s) := by
  apply Fails.named
  have hnull := keyword?_eq_none h.symm ("ull".toList) s
  exact congrArg (Option.map _) hnull

theorem fails_boolean {c : Char} (ht : c ≠ 't') (hf : c ≠ 'f') (s : Text) :
    Fails boolean (c :: s) := by
  apply Fails.named
  have htrue := keyword?_eq_none ht.symm ("rue".toList) s
  have hfalse := keyword?_eq_none hf.symm ("alse".toList) s
  rw [Fails, read_leaf]
  simp only [show "true".toList = 't' :: "rue".toList from rfl,
    show "false".toList = 'f' :: "alse".toList from rfl, htrue, hfalse, Option.map_none]

theorem fails_number {c : Char} (hdigit : c.isDigit = false) (hminus : c ≠ '-') (s : Text) :
    Fails number (c :: s) := by
  apply Fails.named
  apply Fails.map
  rw [Fails, read_leaf]
  unfold Literal.numeral?
  split
  · next heq =>
      cases heq
      exact absurd rfl hminus
  · simp [Literal.unsigned?, Literal.digits?, hdigit]

theorem fails_string {c : Char} (hsingle : c ≠ '\'') (hdouble : c ≠ '"') (s : Text) :
    Fails string (c :: s) := by
  apply Fails.named
  rw [Fails, read_leaf]
  unfold Literal.quoted?
  split
  · next heq =>
      cases heq
      exact absurd rfl hsingle
  · next heq =>
      cases heq
      exact absurd rfl hdouble
  · rfl

theorem reads_ident {name rest : Text} (hname : Text.isName name = true)
    (hrest : rest.head?.any Text.isNameChar = false) : Reads ident (name ++ rest) name rest := by
  apply Reads.named
  apply Reads.of_read
  exact Literal.name?_eq_some_iff.mpr ⟨rfl, hname, hrest⟩

theorem keyword?_append {rest : Text} (word : Text)
    (hrest : rest.head?.any Text.isNameChar = false) :
    Literal.keyword? word (word ++ rest) = some rest :=
  Literal.keyword?_eq_some_iff.mpr ⟨rfl, hrest⟩

theorem reads_null {rest : Text} (hrest : rest.head?.any Text.isNameChar = false) :
    Reads null ("null".toList ++ rest) (.ok .null) rest := by
  apply Reads.named
  apply Reads.of_read
  rw [read_leaf, keyword?_append _ hrest]
  rfl

theorem reads_boolean {rest : Text} (b : Bool) (hrest : rest.head?.any Text.isNameChar = false) :
    Reads boolean ((Expr.bool b).render ++ rest) (.ok (.bool b)) rest := by
  apply Reads.named
  apply Reads.of_read
  rw [read_leaf]
  cases b with
  | true => simp only [Expr.render, keyword?_append _ hrest]
  | false =>
      have htrue : Literal.keyword? "true".toList ("false".toList ++ rest) = none :=
        keyword?_eq_none (by decide) "rue".toList _
      simp only [Expr.render, htrue, keyword?_append _ hrest, Option.map_some]

theorem reads_number {n : Number} {rest : Text} (hn : n.IsLiteral)
    (hrest : Numeral.EndsBefore rest) : Reads number (n.render ++ rest) (.ok (.number n)) rest := by
  obtain ⟨m, htext, hliteral⟩ := Number.exists_numeral_of_isLiteral hn
  apply Reads.named
  have hvalue : numberOf m.text = .ok (.number n) := by rw [numberOf, hliteral]
  rw [← hvalue, ← htext]
  apply Reads.map
  exact Reads.of_read (m.numeral?_text hrest)

theorem keyword?_of_isWord {word name rest : Text} (hword : word ∈ keywords) (hname : IsWord name)
    (hrest : rest.head?.any Text.isNameChar = false) :
    Literal.keyword? word (name ++ rest) = none := by
  rw [Option.eq_none_iff_forall_not_mem]
  intro left hleft
  obtain ⟨heq, hhead⟩ := Literal.keyword?_eq_some_iff.mp hleft
  have hisName : Text.isName word = true := by
    have hall : ∀ word ∈ keywords, Text.isName word = true := by decide
    exact hall word hword
  have hfirst := Literal.name?_eq_some_iff.mpr ⟨rfl, hname.1, hrest⟩
  have hsecond := Literal.name?_eq_some_iff.mpr ⟨heq, hisName, hhead⟩
  rw [hfirst] at hsecond
  cases hsecond
  exact hname.2 hword

theorem fails_null_of_isWord {name rest : Text} (hname : IsWord name)
    (hrest : rest.head?.any Text.isNameChar = false) : Fails null (name ++ rest) := by
  apply Fails.named
  rw [Fails, read_leaf, keyword?_of_isWord (by simp [keywords]) hname hrest]
  rfl

theorem fails_boolean_of_isWord {name rest : Text} (hname : IsWord name)
    (hrest : rest.head?.any Text.isNameChar = false) : Fails boolean (name ++ rest) := by
  apply Fails.named
  rw [Fails, read_leaf, keyword?_of_isWord (by simp [keywords]) hname hrest,
    keyword?_of_isWord (by simp [keywords]) hname hrest]
  rfl

theorem upToQuote_flatMap (s rest : Text) :
    Literal.upToQuote '\'' (s.flatMap Expr.quoteChar ++ '\'' :: rest) = some (s, rest) := by
  induction s with
  | nil => simp [Literal.upToQuote]
  | cons c s ih =>
      rw [List.flatMap_cons, List.append_assoc]
      simp only [Expr.quoteChar]
      split
      · next hc =>
          rw [hc, show "\\\\".toList = ['\\', '\\'] from rfl]
          simp [Literal.upToQuote, ih, Literal.escaped]
      · next hback =>
          split
          · next hc =>
              rw [hc, show "\\'".toList = ['\\', '\''] from rfl]
              simp [Literal.upToQuote, ih, Literal.escaped]
          · next hquote =>
              split
              · next hc =>
                  rw [hc, show "\\n".toList = ['\\', 'n'] from rfl]
                  simp [Literal.upToQuote, ih, Literal.escaped]
              · simp [Literal.upToQuote, ih, hback, hquote]

theorem reads_string (s rest : Text) : Reads string (Expr.quote s ++ rest) s rest := by
  apply Reads.named
  apply Reads.of_read
  rw [read_leaf, Expr.quote, List.cons_append, List.append_assoc]
  exact upToQuote_flatMap s rest

/-! ### Brackets and lists -/

theorem fails_between {α : Type} {opening : Char} {s : Text} (h : s.head? ≠ some opening)
    (p : Reader α) (closing : Char) : Fails (between opening p closing) s := by
  apply Fails.map
  apply Fails.both
  exact fails_word_of_head_ne h []

theorem reads_between {α : Type} (opening : Char) {closing : Char} {p : Reader α} {s rest : Text}
    {a : α}
    (hclosing : isGap closing = false) (h : Reads p (skipGap s) a (closing :: rest)) :
    Reads (between opening p closing) (opening :: s) a rest := by
  have hclose : Reads (word [closing]) (skipGap (closing :: rest)) () rest := by
    rw [skipGap_eq_self_of_head hclosing]
    exact reads_word [closing] rest
  exact ((reads_word [opening] s).both (h.both hclose)).map fun read => read.2.1

theorem collect_map_ok {α : Type} (as : List α) : collect (as.map .ok) = .ok as := by
  induction as with
  | nil => rfl
  | cons a as ih =>
      rw [List.map_cons, collect, ih]
      rfl

/-- Texts with a comma and a space between each two of them. -/
def joined {α : Type} (write : α → Text) : List α → Text
  | [] => []
  | first :: others => write first ++ others.flatMap fun a => ',' :: ' ' :: write a

theorem length_le_joined {α : Type} (write : α → Text) {as : List α} {a : α} (h : a ∈ as) :
    (write a).length ≤ (joined write as).length := by
  cases as with
  | nil => cases h
  | cons first others =>
      rcases List.mem_cons.mp h with rfl | h
      · rw [joined, List.length_append]
        omega
      · obtain ⟨before, after, rfl⟩ := List.append_of_mem h
        simp only [joined, List.flatMap_append, List.flatMap_cons, List.length_append,
          List.length_cons]
        omega

section Joined

variable {α : Type} {p : Reader (Checked α)} {write : α → Text} {rest : Text}

/-- A reader of what `write` writes, up to anything that ends an expression. -/
def Rereads (p : Reader (Checked α)) (write : α → Text) (a : α) : Prop :=
  (∀ rest, skipGap (write a ++ rest) = write a ++ rest) ∧
    ∀ rest, Ended rest → Reads p (write a ++ rest) (.ok a) rest

theorem ended_flatMap (write : α → Text) (others : List α) (h : Ended rest) :
    Ended (others.flatMap (fun a => ',' :: ' ' :: write a) ++ rest) := by
  cases others with
  | nil => exact h
  | cons a others => exact ended_cons rfl _

theorem repeats_others {others : List α} (hreads : ∀ a ∈ others, Rereads p write a)
    (hend : Ended rest) (hcomma : (skipGap rest).head? ≠ some ',') :
    Repeats (map Prod.snd (both (word [',']) p))
      (skipGap (others.flatMap (fun a => ',' :: ' ' :: write a) ++ rest)) (others.map .ok)
      rest := by
  induction others with
  | nil =>
      refine .nil ?_ (by simp)
      apply Fails.map
      apply Fails.both
      rw [List.flatMap_nil, List.nil_append, skipGap_skipGap]
      exact fails_word_of_head_ne hcomma []
  | cons a others ih =>
      have hothers := ih fun b hb => hreads b (List.mem_cons_of_mem a hb)
      obtain ⟨hhead, hread⟩ := hreads a (by simp)
      generalize htail : others.flatMap (fun a => ',' :: ' ' :: write a) = tail at hothers
      have hended : Ended (tail ++ rest) := by
        rw [← htail]
        exact ended_flatMap write others hend
      have hvalue : Reads p (skipGap (' ' :: (write a ++ (tail ++ rest)))) (.ok a)
          (tail ++ rest) := by
        rw [skipGap_cons_gap rfl, hhead]
        exact hread _ hended
      have hfirst := ((reads_word [','] _).both hvalue).map Prod.snd
      rw [List.flatMap_cons, htail, List.map_cons]
      simp only [List.cons_append, List.append_assoc]
      refine .cons_skipGap rfl hfirst ?_ hothers
      simp only [List.length_cons, List.length_append]
      omega

theorem reads_separated {first : α} {others : List α}
    (hreads : ∀ a ∈ first :: others, Rereads p write a) (hend : Ended rest)
    (hcomma : (skipGap rest).head? ≠ some ',') :
    Reads (separated p) (joined write (first :: others) ++ rest) ((first :: others).map .ok)
      rest := by
  have hothers := repeats_others (fun a ha => hreads a (List.mem_cons_of_mem first ha)) hend hcomma
  have hfirst := (hreads first (by simp)).2 _ (ended_flatMap write others hend)
  rw [joined, List.append_assoc]
  exact (hfirst.both hothers.many).map fun read => read.1 :: read.2

theorem fails_separated {s : Text} (h : Fails p s) : Fails (separated p) s := (Fails.both h).map

theorem reads_arguments {as : List α} (hreads : ∀ a ∈ as, Rereads p write a)
    (hempty : as = [] → Fails p rest) (hend : Ended rest)
    (hcomma : (skipGap rest).head? ≠ some ',') :
    Reads (map (·.getD []) (optional (separated p))) (joined write as ++ rest) (as.map .ok)
      rest := by
  cases as with
  | nil => exact (reads_optional_none (fails_separated (hempty rfl))).map (·.getD [])
  | cons first others => exact (reads_separated hreads hend hcomma).optional.map (·.getD [])

theorem reads_trailing {as : List α} (hreads : ∀ a ∈ as, Rereads p write a)
    (hempty : as = [] → Fails p rest) (hend : Ended rest)
    (hcomma : (skipGap rest).head? ≠ some ',') :
    Reads (trailing p) (joined write as ++ rest) (as.map .ok) rest := by
  cases as with
  | nil =>
      have hnone : Reads (optional (both (separated p) (optional (word [','])))) rest none rest :=
        reads_optional_none (Fails.both (fails_separated (hempty rfl)))
      exact hnone.map fun read => (read.map Prod.fst).getD []
  | cons first others =>
      have hnone : Reads (optional (word [','])) (skipGap rest) none rest :=
        reads_skipGap_iff.mp (reads_optional_none (fails_word_of_head_ne hcomma []))
      exact ((reads_separated hreads hend hcomma).both hnone).optional.map
        fun read => (read.map Prod.fst).getD []

end Joined

/-! ### Operands and operators -/

theorem reads_chain {operand : Reader (Checked Expr)} {operator : Reader Comparison}
    {s middle rest : Text} {first : Expr} {others : List (Comparison × Expr)}
    (hfirst : Reads operand s (.ok first) middle)
    (hothers : Repeats (both operator operand) (skipGap middle)
      (others.map fun next => (next.1, .ok next.2)) rest) :
    Reads (chain operand operator) s (.ok (compareAll first others)) rest := by
  have hread := (hfirst.both hothers.many).map fun read => (do
    let first ← read.1
    let rest ← collect (read.2.map fun next => next.2.map fun operand => (next.1, operand))
    .ok (compareAll first rest) : Checked Expr)
  have hpairs : (others.map fun next => (next.1, (Except.ok next.2 : Checked Expr))).map
      (fun next => next.2.map fun operand => (next.1, operand)) = others.map .ok := by
    rw [List.map_map]
    rfl
  simp only [hpairs, collect_map_ok] at hread
  exact hread

theorem fails_relation {c : Char} (hlt : c ≠ '<') (hgt : c ≠ '>') (s : Text) :
    Fails relation (c :: s) := by
  apply Fails.named
  apply Fails.oneOf
  simp only [List.mem_cons, List.not_mem_nil, or_false, forall_eq_or_imp, forall_eq]
  exact ⟨(fails_word_cons hlt.symm _ s).map, (fails_word_cons hgt.symm _ s).map,
    (fails_word_cons hlt.symm _ s).map, (fails_word_cons hgt.symm _ s).map⟩

theorem fails_equality {c : Char} (heq : c ≠ '=') (hne : c ≠ '!') (s : Text) :
    Fails equality (c :: s) := by
  apply Fails.named
  apply Fails.oneOf
  simp only [List.mem_cons, List.not_mem_nil, or_false, forall_eq_or_imp, forall_eq]
  exact ⟨(fails_word_cons heq.symm _ s).map, (fails_word_cons hne.symm _ s).map,
    (fails_word_cons heq.symm _ s).map, (fails_word_cons hne.symm _ s).map⟩

theorem Ended.fails_operators {rest : Text} (h : Ended rest) :
    Fails relation (skipGap rest) ∧ Fails equality (skipGap rest) := by
  rw [Ended] at h
  cases hhead : skipGap rest with
  | nil => exact ⟨rfl, rfl⟩
  | cons c more =>
      rw [hhead] at h
      have hc : isClosing c = true := h
      have hne (d : Char) (hd : isClosing d = false) : c ≠ d := by
        rintro rfl
        rw [hc] at hd
        cases hd
      exact ⟨fails_relation (hne '<' rfl) (hne '>' rfl) more,
        fails_equality (hne '=' rfl) (hne '!' rfl) more⟩

def isRelation : Comparison → Bool
  | .lt | .le | .gt | .ge => true
  | _ => false

/-- A word that goes on with a character is not read where only its beginning stands. -/
theorem fails_word_append {c : Char} {rest : Text} (h : rest.head? ≠ some c) (lead text : Text) :
    Fails (word (lead ++ c :: text)) (lead ++ rest) := by
  induction lead with
  | nil => exact fails_word_of_head_ne h text
  | cons d lead ih =>
      rw [Fails, word, read_leaf] at ih ⊢
      rw [List.cons_append, List.cons_append, Text.after?, if_pos rfl]
      exact ih

section Operator

variable {operator : Comparison} {rest : Text}

theorem reads_relation (h : isRelation operator = true) (hrest : rest.head? ≠ some '=') :
    Reads relation (operator.symbol.toList ++ rest) operator rest := by
  apply Reads.named
  cases operator with
  | le => exact ((reads_word ['<', '='] rest).map _).orElse_left
  | ge =>
      refine .orElse_right (fails_word_cons (by decide) _ _).map ?_
      exact ((reads_word ['>', '='] rest).map _).orElse_left
  | lt =>
      refine .orElse_right (fails_word_append hrest ['<'] []).map ?_
      refine .orElse_right (fails_word_cons (by decide) _ _).map ?_
      exact ((reads_word ['<'] rest).map _).orElse_left
  | gt =>
      refine .orElse_right (fails_word_cons (by decide) _ _).map ?_
      refine .orElse_right (fails_word_append hrest ['>'] []).map ?_
      refine .orElse_right (fails_word_cons (by decide) _ _).map ?_
      exact (reads_word ['>'] rest).map _
  | _ => cases h

theorem reads_equality (h : isRelation operator = false) (hrest : rest.head? ≠ some '=') :
    Reads equality (operator.symbol.toList ++ rest) operator rest := by
  apply Reads.named
  cases operator with
  | strictEq => exact ((reads_word ['=', '=', '='] rest).map _).orElse_left
  | strictNe =>
      refine .orElse_right (fails_word_cons (by decide) _ _).map ?_
      exact ((reads_word ['!', '=', '='] rest).map _).orElse_left
  | looseEq =>
      refine .orElse_right ?_ (.orElse_right (fails_word_cons (by decide) _ _).map ?_)
      · exact (fails_word_append hrest ['=', '='] []).map
      · exact ((reads_word ['=', '='] rest).map _).orElse_left
  | looseNe =>
      refine .orElse_right (fails_word_cons (by decide) _ _).map ?_
      refine .orElse_right (fails_word_append hrest ['!', '='] []).map ?_
      refine .orElse_right (fails_word_cons (by decide) _ _).map ?_
      exact (reads_word ['!', '='] rest).map _
  | _ => cases h

theorem fails_relation_symbol (h : isRelation operator = false) (rest : Text) :
    Fails relation (operator.symbol.toList ++ rest) := by
  cases operator with
  | strictEq | looseEq => exact fails_relation (by decide) (by decide) _
  | strictNe | looseNe => exact fails_relation (by decide) (by decide) _
  | _ => cases h

end Operator

/-! ### Negations -/

theorem read_many_bangs_cons (s : Text) :
    (many (named .not (word ['!'])) ('!' :: s)).read =
      (many (named .not (word ['!'])) s).read.map fun read => (() :: read.1, read.2) := by
  rw [many, List.length_cons, read_upTo_succ, skipGap_eq_self_of_head rfl]
  rfl

theorem read_many_bangs {c : Char} (hgap : isGap c = false) (hbang : c ≠ '!') (s : Text) :
    (many (named .not (word ['!'])) (c :: s)).read = some ([], c :: s) := by
  have hfails : (named .not (word ['!']) (c :: s)).read = none :=
    (fails_word_cons hbang.symm [] s).named
  rw [many, read_upTo_succ, skipGap_eq_self_of_head hgap, hfails]

theorem reads_unary {inner : Reader (Checked Expr)} {c : Char} {s rest : Text} {e : Expr}
    (hgap : isGap c = false) (hbang : c ≠ '!') (h : Reads (primary inner) (c :: s) (.ok e) rest) :
    Reads (unary inner) (c :: s) (.ok e) rest := by
  have hbangs := Reads.of_read (read_many_bangs hgap hbang s)
  rw [← skipGap_eq_self_of_head (s := s) hgap] at h
  exact ((hbangs.both h).map _).named

theorem reads_unary_bang {inner : Reader (Checked Expr)} {s rest : Text} {e : Expr}
    (h : Reads (unary inner) s (.ok e) rest) :
    Reads (unary inner) ('!' :: s) (.ok (.not e)) rest := by
  obtain ⟨left, hread, hleft⟩ := h
  refine ⟨left, ?_, hleft⟩
  rw [unary, read_named, read_map, Option.map_eq_some_iff] at hread ⊢
  obtain ⟨found, hboth, heq⟩ := hread
  rw [read_both, Option.bind_eq_some_iff] at hboth
  obtain ⟨⟨bangs, middle⟩, hbangs, hprimary⟩ := hboth
  obtain ⟨⟨r, left'⟩, hinner, hfound⟩ := Option.map_eq_some_iff.mp hprimary
  cases hfound
  cases r with
  | error literal => cases heq
  | ok operand =>
      cases heq
      refine ⟨((() :: bangs, .ok operand), left'), ?_, rfl⟩
      simp only [read_both, read_many_bangs_cons, hbangs, Option.map_some, Option.bind_some, hinner]

end Grammar

end HtmlTemplate
