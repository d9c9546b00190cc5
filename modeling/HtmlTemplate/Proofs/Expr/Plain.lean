import HtmlTemplate.Expr.Parse
import HtmlTemplate.Proofs.Expr.Bracketing
import HtmlTemplate.Proofs.Outcome
/-!
What the grammar of expressions yields.  The text that it takes has complete brackets and quoted
texts, and the expression is plain: it has no filters, its names are names, and those that stand for
themselves are none of the three keywords.
-/

namespace HtmlTemplate

def keywords : List Text := ["null".toList, "true".toList, "false".toList]

def IsWord (name : Text) : Prop := Text.isName name = true ∧ name ∉ keywords

/-- A number that a literal can write. -/
def Number.IsLiteral : Number → Prop
  | .int n => fitsWord n = true
  | .float _ => True

namespace Expr

/-- An expression without filters, of names that can be read. -/
inductive Plain : Expr → Prop where
  | null : Plain .null
  | bool (b : Bool) : Plain (.bool b)
  | number {n : Number} : n.IsLiteral → Plain (.number n)
  | string (s : Text) : Plain (.string s)
  | access {name : Text} {path : List Step} : IsWord name →
      (∀ member, Step.name member ∈ path → Text.isName member = true) →
      (∀ key, Step.computed key ∈ path → Plain key) → Plain (.access name path)
  | not {operand : Expr} : Plain operand → Plain (.not operand)
  | compare {left right : Expr} (operator : Comparison) : Plain left → Plain right →
      Plain (.compare left operator right)
  | call {name : Text} {arguments : List Expr} : IsWord name → (∀ e ∈ arguments, Plain e) →
      Plain (.call name arguments)
  | list {items : List Expr} : (∀ e ∈ items, Plain e) → Plain (.list items)
  | map {properties : List Property} :
      (∀ key value, Property.static key value ∈ properties → Plain value) →
      (∀ key value, Property.computed key value ∈ properties → Plain key) →
      (∀ key value, Property.computed key value ∈ properties → Plain value) →
      Plain (.map properties)

def PlainStep : Step → Prop
  | .name member => Text.isName member = true
  | .computed key => Plain key

def PlainProperty : Property → Prop
  | .static _ value => Plain value
  | .computed key value => Plain key ∧ Plain value

theorem Plain.of_steps {name : Text} {path : List Step} (hname : IsWord name)
    (h : ∀ step ∈ path, PlainStep step) : Plain (.access name path) :=
  .access hname (fun _ hmem => h _ hmem) (fun _ hmem => h _ hmem)

theorem Plain.of_properties {properties : List Property}
    (h : ∀ property ∈ properties, PlainProperty property) : Plain (.map properties) :=
  .map (fun _ _ hmem => h _ hmem) (fun _ _ hmem => (h _ hmem).1) (fun _ _ hmem => (h _ hmem).2)

end Expr

namespace Grammar

open Reader HtmlTemplate.Expr

/-- A reading that satisfies `Q` unless it is void. -/
def Holds {α : Type} (Q : α → Prop) (r : Checked α) : Prop := ∀ a, r = .ok a → Q a

theorem Holds.map {α β : Type} {Q : α → Prop} {R : β → Prop} {f : α → β} {r : Checked α}
    (h : Holds Q r) (hf : ∀ a, Q a → R (f a)) : Holds R (r.map f) := by
  intro b hb
  cases r with
  | error literal => cases hb
  | ok a =>
      cases hb
      exact hf a (h a rfl)

theorem Holds.collect {α : Type} {Q : α → Prop} {rs : List (Checked α)}
    (h : ∀ r ∈ rs, Holds Q r) : Holds (fun as => ∀ a ∈ as, Q a) (collect rs) := by
  induction rs with
  | nil =>
      rintro as ⟨⟩
      simp
  | cons r rs ih =>
      intro as has
      rw [Grammar.collect] at has
      obtain ⟨a, ha, hrest⟩ := Outcome.bind_eq_ok_iff.mp has
      obtain ⟨others, hothers, hall⟩ := Outcome.bind_eq_ok_iff.mp hrest
      cases hall
      have htail := ih (fun q hq => h q (List.mem_cons_of_mem r hq)) others hothers
      intro b hb
      rcases List.mem_cons.mp hb with rfl | hb
      · exact h r (by simp) b ha
      · exact htail b hb

/-! ### Words -/

theorem ident_yields (s : Text) :
    Yields (Bracketed false) (fun name => Text.isName name = true) ident s := by
  apply Yields.named
  intro name rest hread
  obtain ⟨hs, hname, -⟩ := Literal.name?_eq_some_iff.mp hread
  exact ⟨name, hs, ⟨[], Literal.bracketing_of_isName hname⟩, hname⟩

theorem string_yields (s : Text) : Yields (Bracketed false) (fun _ => True) string s := by
  apply Yields.named
  intro text rest hread
  obtain ⟨quote, body, hquote, rfl, hbody⟩ := Literal.exists_rawBody_of_quoted? hread
  refine ⟨quote :: (body ++ [quote]), by simp, ⟨[body], ?_⟩, trivial⟩
  exact .quoted hquote hbody .nil

theorem keyword_bracketed {word s rest : Text} (hword : word.all (isFree false) = true)
    (h : Literal.keyword? word s = some rest) :
    ∃ taken, s = taken ++ rest ∧ Bracketed false taken :=
  ⟨word, (Literal.keyword?_eq_some_iff.mp h).1, .of_free hword⟩

theorem null_yields (s : Text) : Yields (Bracketed false) (Holds Plain) null s := by
  apply Yields.named
  intro r rest hread
  obtain ⟨left, hword, heq⟩ := Option.map_eq_some_iff.mp hread
  cases heq
  obtain ⟨taken, hs, htaken⟩ := keyword_bracketed (by decide) hword
  refine ⟨taken, hs, htaken, ?_⟩
  rintro e ⟨⟩
  exact .null

theorem boolean_yields (s : Text) : Yields (Bracketed false) (Holds Plain) boolean s := by
  apply Yields.named
  intro r rest hread
  rw [read_leaf] at hread
  split at hread
  · next left hword =>
      cases hread
      obtain ⟨taken, hs, htaken⟩ := keyword_bracketed (by decide) hword
      refine ⟨taken, hs, htaken, ?_⟩
      rintro e ⟨⟩
      exact .bool true
  · obtain ⟨left, hword, heq⟩ := Option.map_eq_some_iff.mp hread
    cases heq
    obtain ⟨taken, hs, htaken⟩ := keyword_bracketed (by decide) hword
    refine ⟨taken, hs, htaken, ?_⟩
    rintro e ⟨⟩
    exact .bool false

theorem isLiteral_of_ofLiteral? {literal : Text} {n : Number}
    (h : Number.ofLiteral? literal = some n) : n.IsLiteral := by
  rw [Number.ofLiteral?] at h
  obtain ⟨d, -, hd⟩ := Option.bind_eq_some_iff.mp h
  dsimp only at hd
  generalize (if d.negative = true then -(d.digits : Int) else d.digits) = value at hd
  split at hd
  · next hint =>
      cases hd
      exact (Bool.and_eq_true_iff.mp hint).2
  · obtain ⟨x, -, rfl⟩ := Option.map_eq_some_iff.mp hd
    trivial

theorem number_yields (s : Text) : Yields (Bracketed false) (Holds Plain) number s := by
  apply Yields.named
  refine Yields.map (Q := fun _ => True) ?_ ?_
  · intro literal rest hread
    obtain ⟨hs, hall⟩ := Literal.numeral?_append hread
    refine ⟨literal, hs, ⟨[], Bracketing.of_free ?_⟩, trivial⟩
    intro c hc
    exact Literal.isFree_of_isNumeralChar (hall c hc)
  · intro literal _ e he
    rw [numberOf] at he
    split at he
    · next n hn =>
        cases he
        exact .number (isLiteral_of_ofLiteral? hn)
    · cases he

theorem word_yields {inside : Bool} {text : Text} (h : text.all (isFree inside) = true) (s : Text) :
    Yields (Bracketed inside) (fun _ => True) (word text) s :=
  yields_word (.of_free h) s

theorem equality_yields (s : Text) : Yields (Bracketed false) (fun _ => True) equality s := by
  apply Yields.named
  apply Yields.oneOf
  simp only [List.mem_cons, List.not_mem_nil, or_false, forall_eq_or_imp, forall_eq]
  refine ⟨?_, ?_, ?_, ?_⟩ <;> exact (word_yields (by decide) s).map fun _ h => h

theorem relation_yields (s : Text) : Yields (Bracketed false) (fun _ => True) relation s := by
  apply Yields.named
  apply Yields.oneOf
  simp only [List.mem_cons, List.not_mem_nil, or_false, forall_eq_or_imp, forall_eq]
  refine ⟨?_, ?_, ?_, ?_⟩ <;> exact (word_yields (by decide) s).map fun _ h => h

/-! ### Lists and brackets -/

theorem enclosed_yields {α : Type} {Q : α → Prop} {p : Reader α}
    (hp : ∀ s, Yields (Bracketed false) Q p s) (s : Text) : Yields (Bracketed true) Q p s :=
  (hp s).of_imp fun _ h => h.enclosed

theorem separated_yields {α : Type} {Q : α → Prop} {p : Reader α}
    (hp : ∀ s, Yields (Bracketed true) Q p s) (s : Text) :
    Yields (Bracketed true) (fun found => ∀ a ∈ found, Q a) (separated p) s := by
  have hcomposes := Bracketed.composes true
  have hnext : ∀ t, Yields (Bracketed true) Q (map Prod.snd (both (word [',']) p)) t := by
    intro t
    exact (Yields.both hcomposes (word_yields (by decide) t) hp).map fun _ h => h.2
  refine (Yields.both hcomposes (hp s) (Yields.many hcomposes hnext)).map ?_
  rintro ⟨first, others⟩ ⟨hfirst, hothers⟩ a hmem
  rcases List.mem_cons.mp hmem with rfl | hmem
  · exact hfirst
  · exact hothers a hmem

theorem trailing_yields {α : Type} {Q : α → Prop} {p : Reader α}
    (hp : ∀ s, Yields (Bracketed true) Q p s) (s : Text) :
    Yields (Bracketed true) (fun found => ∀ a ∈ found, Q a) (trailing p) s := by
  have hcomposes := Bracketed.composes true
  have hcomma : ∀ t, Yields (Bracketed true) (fun _ => True) (Reader.optional (word [','])) t := by
    intro t
    exact (Yields.optional hcomposes (word_yields (by decide) t)).imp fun _ _ => trivial
  have hboth := Yields.both hcomposes (separated_yields hp s) hcomma
  refine (Yields.optional hcomposes hboth).map ?_
  intro found hfound
  cases found with
  | none => simp
  | some found => exact (hfound found rfl).1

theorem between_yields {α : Type} {Q : α → Prop} {p : Reader α} {opening closing : Char}
    (hpair : IsPair opening closing) (hp : ∀ s, Yields (Bracketed true) Q p s) (s : Text) :
    Yields (Bracketed false) Q (between opening p closing) s := by
  have hcomposes := Bracketed.composes true
  have hclosed : ∀ t, Yields (fun taken => ∃ inner, taken = inner ++ [closing] ∧
      Bracketed true inner) (fun read => Q read.1 ∧ True) (both p (word [closing])) t := by
    intro t
    refine (hp t).both_of ?_ fun t => yields_word (P := (· = [closing])) rfl t
    rintro inner gap - hinner hgap rfl
    exact ⟨inner ++ gap, by simp, hcomposes.append hinner (hcomposes.gaps hgap)⟩
  have hgroup : ∀ first gap second : Text, first = [opening] → (∀ c ∈ gap, isGap c = true) →
      (∃ inner, second = inner ++ [closing] ∧ Bracketed true inner) →
      Bracketed false (first ++ (gap ++ second)) := by
    rintro - gap - rfl hgap ⟨inner, rfl, hinner⟩
    have hgroup : Bracketed false (opening :: (gap ++ inner ++ [closing])) :=
      .group hpair (hcomposes.append (hcomposes.gaps hgap) hinner)
    simpa using hgroup
  have hwhole := Yields.both_of hgroup (yields_word (P := (· = [opening])) rfl s) hclosed
  exact hwhole.map fun _ h => h.2.1

/-! ### Expressions -/

theorem isWord_of_ident {s name rest : Text} (hnull : (null s).read = none)
    (hboolean : (boolean s).read = none) (h : (ident s).read = some (name, rest)) :
    IsWord name := by
  rw [ident, read_named] at h
  obtain ⟨hs, hname, hrest⟩ := Literal.name?_eq_some_iff.mp h
  refine ⟨hname, ?_⟩
  intro hmem
  simp only [keywords, List.mem_cons, List.not_mem_nil, or_false] at hmem
  rcases hmem with rfl | rfl | rfl
  · have hword := Literal.keyword?_eq_some_iff.mpr ⟨hs, hrest⟩
    rw [null, read_named, read_leaf, hword] at hnull
    cases hnull
  · have hword := Literal.keyword?_eq_some_iff.mpr ⟨hs, hrest⟩
    rw [boolean, read_named, read_leaf, hword] at hboolean
    cases hboolean
  · have hword := Literal.keyword?_eq_some_iff.mpr ⟨hs, hrest⟩
    simp only [boolean, read_named, read_leaf, hword] at hboolean
    split at hboolean <;> cases hboolean

theorem word_ident_yields {s : Text} (hnull : (null s).read = none)
    (hboolean : (boolean s).read = none) : Yields (Bracketed false) IsWord ident s := by
  intro name rest hread
  obtain ⟨taken, hs, htaken, -⟩ := ident_yields s name rest hread
  exact ⟨taken, hs, htaken, isWord_of_ident hnull hboolean hread⟩

theorem plain_negate {e : Expr} (h : Plain e) (times : Nat) : Plain (negate times e) := by
  induction times with
  | zero => exact h
  | succ times ih => exact .not ih

theorem plain_compareAll {first : Expr} {rest : List (Comparison × Expr)} (hfirst : Plain first)
    (hrest : ∀ next ∈ rest, Plain next.2) : Plain (compareAll first rest) := by
  induction rest generalizing first with
  | nil => exact hfirst
  | cons next rest ih =>
      have hnext := hrest next (by simp)
      exact ih (.compare next.1 hfirst hnext) fun other hmem =>
        hrest other (List.mem_cons_of_mem next hmem)

theorem chain_yields {operand : Reader (Checked Expr)} {operator : Reader Comparison}
    (hoperand : ∀ s, Yields (Bracketed false) (Holds Plain) operand s)
    (hoperator : ∀ s, Yields (Bracketed false) (fun _ => True) operator s) (s : Text) :
    Yields (Bracketed false) (Holds Plain) (chain operand operator) s := by
  have hnext : ∀ t, Yields (Bracketed false) (fun read => True ∧ Holds Plain read.2)
      (both operator operand) t := by
    intro t
    exact Yields.both (Bracketed.composes false) (hoperator t) hoperand
  have hothers := Yields.many (Bracketed.composes false) hnext
  refine (Yields.both (Bracketed.composes false) (hoperand s) hothers).map ?_
  rintro ⟨first, others⟩ ⟨hfirst, hothers⟩ e he
  obtain ⟨a, ha, hrest⟩ := Outcome.bind_eq_ok_iff.mp he
  obtain ⟨rest, hcollect, heq⟩ := Outcome.bind_eq_ok_iff.mp hrest
  cases heq
  refine plain_compareAll (hfirst a ha)
    (Holds.collect (Q := fun next => Plain next.2) ?_ rest hcollect)
  intro r hr
  obtain ⟨next, hmem, rfl⟩ := List.mem_map.mp hr
  exact (hothers next hmem).2.map fun e he => he

section Inner

variable {inner : Reader (Checked Expr)}
  (hinner : ∀ s, Yields (Bracketed false) (Holds Plain) inner s)

include hinner

theorem call_yields {s : Text} (hnull : (null s).read = none)
    (hboolean : (boolean s).read = none) :
    Yields (Bracketed false) (Holds Plain) (call inner) s := by
  apply Yields.named
  have harguments : ∀ t, Yields (Bracketed true) (fun found => ∀ r ∈ found, Holds Plain r)
      (map (·.getD []) (Reader.optional (separated inner))) t := by
    intro t
    have hseparated := separated_yields (enclosed_yields hinner) t
    refine (Yields.optional (Bracketed.composes true) hseparated).map ?_
    intro found hfound
    cases found with
    | none => simp
    | some found => exact hfound found rfl
  have hbrackets : ∀ t, Yields (Bracketed false) (fun found => ∀ r ∈ found, Holds Plain r)
      (between '(' (map (·.getD []) (Reader.optional (separated inner))) ')') t :=
    between_yields .paren harguments
  have hname := word_ident_yields hnull hboolean
  refine (Yields.both (Bracketed.composes false) hname hbrackets).map ?_
  rintro ⟨name, found⟩ ⟨hname, hfound⟩
  exact (Holds.collect hfound).map fun arguments h => .call hname h

theorem step_yields (s : Text) :
    Yields (Bracketed false) (Holds PlainStep) (Reader.orElse dotAccess (indexAccess inner)) s := by
  refine Yields.orElse ?_ fun _ => ?_
  · apply Yields.named
    refine (Yields.both (Bracketed.composes false) (word_yields (by decide) s) ident_yields).map ?_
    rintro read ⟨-, hname⟩ step ⟨⟩
    exact hname
  · apply Yields.named
    refine (between_yields .square (enclosed_yields hinner) s).map ?_
    intro key hkey
    exact hkey.map fun e he => he

theorem member_yields {s : Text} (hnull : (null s).read = none)
    (hboolean : (boolean s).read = none) :
    Yields (Bracketed false) (Holds Plain) (member inner) s := by
  apply Yields.named
  have hboth := Yields.both (Bracketed.composes false) (word_ident_yields hnull hboolean)
    (Yields.many (Bracketed.composes false) (step_yields hinner))
  refine hboth.map ?_
  rintro ⟨name, found⟩ ⟨hname, hfound⟩
  exact (Holds.collect hfound).map fun path h => Plain.of_steps hname h

theorem array_yields (s : Text) : Yields (Bracketed false) (Holds Plain) (array inner) s := by
  apply Yields.named
  refine (between_yields .square (trailing_yields (enclosed_yields hinner)) s).map ?_
  intro found hfound
  exact (Holds.collect hfound).map fun items h => .list h

theorem key_yields (s : Text) :
    Yields (Bracketed false) (fun read => ∀ r, read = Sum.inr r → Holds Plain r) (key inner) s := by
  apply Yields.oneOf
  simp only [List.mem_cons, List.not_mem_nil, or_false, forall_eq_or_imp, forall_eq]
  refine ⟨?_, ?_, ?_⟩
  · exact (string_yields s).map fun text _ r hr => by cases hr
  · exact (ident_yields s).map fun name _ r hr => by cases hr
  · refine Yields.map (between_yields .square (enclosed_yields hinner) s).named ?_
    rintro r hr r' ⟨⟩
    exact hr

theorem property_yields (s : Text) :
    Yields (Bracketed false) (Holds PlainProperty) (property inner) s := by
  apply Yields.named
  have hvalue : ∀ t, Yields (Bracketed false) (fun read => True ∧ Holds Plain read.2)
      (both (word [':']) inner) t := by
    intro t
    exact Yields.both (Bracketed.composes false) (word_yields (by decide) t) hinner
  refine (Yields.both (Bracketed.composes false) (key_yields hinner s) hvalue).map ?_
  rintro ⟨read, gap, value⟩ ⟨hkey, -, hvalue⟩
  cases read with
  | inl text => exact hvalue.map fun e he => he
  | inr r =>
      intro property hproperty
      obtain ⟨k, hk, hrest⟩ := Outcome.bind_eq_ok_iff.mp hproperty
      obtain ⟨v, hv, heq⟩ := Outcome.bind_eq_ok_iff.mp hrest
      cases heq
      exact ⟨hkey r rfl k hk, hvalue v hv⟩

theorem object_yields (s : Text) : Yields (Bracketed false) (Holds Plain) (object inner) s := by
  apply Yields.named
  have hentries := trailing_yields (enclosed_yields (property_yields hinner))
  refine (between_yields .curly hentries s).map ?_
  intro found hfound
  exact (Holds.collect hfound).map fun properties h => Plain.of_properties h

theorem primary_yields (s : Text) : Yields (Bracketed false) (Holds Plain) (primary inner) s := by
  refine Yields.orElse (null_yields s) fun hnull => ?_
  refine Yields.orElse (boolean_yields s) fun hboolean => ?_
  apply Yields.oneOf
  simp only [List.mem_cons, List.not_mem_nil, or_false, forall_eq_or_imp, forall_eq]
  refine ⟨number_yields s, ?_, call_yields hinner hnull hboolean, array_yields hinner s,
    object_yields hinner s, member_yields hinner hnull hboolean, ?_⟩
  · refine (string_yields s).map ?_
    rintro text - e ⟨⟩
    exact .string text
  · exact between_yields .paren (enclosed_yields hinner) s

theorem unary_yields (s : Text) : Yields (Bracketed false) (Holds Plain) (unary inner) s := by
  apply Yields.named
  have hbangs :
      Yields (Bracketed false) (fun _ => True) (many (Reader.named .not (word ['!']))) s := by
    have hbang : ∀ t,
        Yields (Bracketed false) (fun _ => True) (Reader.named .not (word ['!'])) t := by
      intro t
      exact (word_yields (by decide) t).named
    exact (Yields.many (Bracketed.composes false) hbang s).imp fun _ _ => trivial
  refine (Yields.both (Bracketed.composes false) hbangs (primary_yields hinner)).map ?_
  rintro ⟨bangs, r⟩ ⟨-, hr⟩
  exact hr.map fun e he => plain_negate he bangs.length

theorem relational_yields (s : Text) :
    Yields (Bracketed false) (Holds Plain) (relational inner) s :=
  (chain_yields (unary_yields hinner) relation_yields s).named

end Inner

theorem expr_yields (depth : Nat) (s : Text) :
    Yields (Bracketed false) (Holds Plain) (expr depth) s := by
  induction depth generalizing s with
  | zero =>
      rintro r rest ⟨⟩
  | succ depth ih => exact (chain_yields (relational_yields ih) equality_yields s).named

theorem expression_yields (depth : Nat) (s : Text) :
    Yields (Bracketed false) (Holds Plain) (expression depth) s := by
  apply Yields.named
  have hend : ∀ t, Yields (Bracketed false) (fun _ => True) endOfInput t := by
    intro t
    apply Yields.named
    intro u rest hread
    rw [read_leaf] at hread
    split at hread
    · next hnil =>
        cases hread
        exact ⟨[], by simpa using hnil, ⟨[], .nil⟩, trivial⟩
    · cases hread
  have hwhole : ∀ t, Yields (Bracketed false) (fun read => Holds Plain read.1 ∧ True)
      (both (expr depth) endOfInput) t := by
    intro t
    exact Yields.both (Bracketed.composes false) (expr_yields depth t) hend
  refine (Yields.both (Bracketed.composes false) (word_yields (by decide) s) hwhole).map ?_
  exact fun _ h => h.2.1

theorem read_endOfInput_eq_some_iff {s rest : Text} {u : Unit} :
    (endOfInput s).read = some (u, rest) ↔ s = [] ∧ rest = [] := by
  rw [endOfInput, read_named, read_leaf]
  split
  · next hnil =>
      rw [List.isEmpty_iff] at hnil
      simp [hnil, eq_comm]
  · next hne =>
      rw [List.isEmpty_iff] at hne
      simp [hne]

/-- An expression takes up its whole input, apart from gaps at both ends. -/
theorem read_expression_eq_some_iff {depth : Nat} {s rest : Text} {r : Checked Expr} :
    (expression depth s).read = some (r, rest) ↔
      rest = [] ∧ ∃ left, (expr depth (skipGap s)).read = some (r, left) ∧ skipGap left = [] := by
  have hstart : (word [] s).read = some ((), s) := rfl
  rw [expression, read_named, read_map, read_both, hstart, Option.bind_some, read_both]
  cases hread : (expr depth (skipGap s)).read with
  | none => simp
  | some found =>
      obtain ⟨found, left⟩ := found
      constructor
      · intro h
        obtain ⟨⟨whole, rest'⟩, hwhole, heq⟩ := Option.map_eq_some_iff.mp h
        obtain ⟨⟨inside, rest'⟩, hinside, heq'⟩ := Option.map_eq_some_iff.mp hwhole
        obtain ⟨⟨u, rest'⟩, hend, heq''⟩ := Option.map_eq_some_iff.mp hinside
        cases heq''
        cases heq'
        cases heq
        obtain ⟨hleft, hrest⟩ := read_endOfInput_eq_some_iff.mp hend
        exact ⟨hrest, left, rfl, hleft⟩
      · rintro ⟨rfl, left', heq, hleft⟩
        cases heq
        rw [Option.bind_some, (read_endOfInput_eq_some_iff (u := ())).mpr ⟨hleft, rfl⟩]
        rfl

end Grammar

namespace Expr

open Grammar

theorem read_of_ofSource {source : Text} {e : Expr} (h : ofSource source = .ok e) :
    ∃ rest, (expression (source.length + 1) source).read = some (.ok e, rest) := by
  unfold ofSource at h
  generalize expression (source.length + 1) source = outcome at h ⊢
  obtain ⟨read, attempts⟩ := outcome
  match read with
  | none => cases h
  | some (.error literal, rest) => cases h
  | some (.ok found, rest) =>
      cases h
      exact ⟨rest, rfl⟩

theorem ofSource_of_read {source rest : Text} {e : Expr}
    (h : (expression (source.length + 1) source).read = some (.ok e, rest)) :
    ofSource source = .ok e := by
  unfold ofSource
  generalize expression (source.length + 1) source = outcome at h ⊢
  obtain ⟨read, attempts⟩ := outcome
  cases h
  rfl

/-- The brackets and quoted texts of a source of an expression are complete, and the expression is
plain. -/
theorem bracketed_and_plain_of_ofSource {source : Text} {e : Expr} (h : ofSource source = .ok e) :
    Bracketed false source ∧ Plain e := by
  obtain ⟨rest, hread⟩ := read_of_ofSource h
  obtain ⟨taken, hs, htaken, hplain⟩ := expression_yields (source.length + 1) source _ _ hread
  rw [(read_expression_eq_some_iff.mp hread).1, List.append_nil] at hs
  rw [hs]
  exact ⟨htaken, hplain e rfl⟩

theorem quoted_and_plain_of_ofSource {source : Text} {e : Expr} (h : ofSource source = .ok e) :
    Quoted source ∧ Plain e := by
  obtain ⟨hbracketed, hplain⟩ := bracketed_and_plain_of_ofSource h
  exact ⟨hbracketed.quoted, hplain⟩

end Expr

end HtmlTemplate
