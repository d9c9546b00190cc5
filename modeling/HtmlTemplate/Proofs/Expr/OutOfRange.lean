import HtmlTemplate.Proofs.Expr.Plain
/-!
Where a numeral that is out of range comes from.  A reading is void only by a numeral that stands in
the text that is read, however deep in brackets it stands.
-/

namespace HtmlTemplate

namespace Reader

variable {α β : Type}

/-- Whatever a reader reads cites parts of its input only, as `C` tells which texts are cited, and
what remains is the end of the input. -/
def Cites (C : α → Text → Prop) (p : Reader α) : Prop :=
  ∀ s a rest, (p s).read = some (a, rest) → rest <:+ s ∧ ∀ text, C a text → text <:+: s

section Cites

variable {C : α → Text → Prop} {D : β → Text → Prop} {p : Reader α}

theorem skipGap_suffix (s : Text) : skipGap s <:+ s := List.dropWhile_suffix isGap

theorem cites_of_yields {P : Text → Prop} {Q : α → Prop} (h : ∀ s, Yields P Q p s) :
    Cites (fun _ _ => False) p := by
  intro s a rest hread
  obtain ⟨taken, rfl, -⟩ := h s a rest hread
  exact ⟨List.suffix_append taken rest, fun _ hfalse => hfalse.elim⟩

theorem cites_word (text : Text) : Cites (fun _ _ => False) (word text) :=
  cites_of_yields fun s => yields_word (P := fun _ => True) trivial s

theorem Cites.map (hp : Cites C p) {f : α → β} (hf : ∀ a text, D (f a) text → C a text) :
    Cites D (map f p) := by
  intro s b rest hread
  rw [read_map, Option.map_eq_some_iff] at hread
  obtain ⟨⟨a, left⟩, ha, heq⟩ := hread
  cases heq
  obtain ⟨hrest, hcited⟩ := hp s a left ha
  exact ⟨hrest, fun text htext => hcited text (hf a text htext)⟩

theorem Cites.named {symbol : Symbol} (hp : Cites C p) : Cites C (named symbol p) := by
  intro s a rest hread
  rw [read_named] at hread
  exact hp s a rest hread

/-- The second part begins in the input of the first, and what it cites is cited from there. -/
theorem Cites.both {q : Reader β} (hp : Cites C p) (hq : Cites D q) :
    Cites (fun ab text => C ab.1 text ∨ D ab.2 text) (both p q) := by
  rintro s ⟨a, b⟩ rest hread
  rw [read_both, Option.bind_eq_some_iff] at hread
  obtain ⟨⟨a', middle⟩, ha, hmap⟩ := hread
  obtain ⟨⟨b', left⟩, hb, heq⟩ := Option.map_eq_some_iff.mp hmap
  cases heq
  obtain ⟨hmiddle, hfirst⟩ := hp s a' middle ha
  obtain ⟨hleft, hsecond⟩ := hq (skipGap middle) b' left hb
  have hbegin : skipGap middle <:+ s := (skipGap_suffix middle).trans hmiddle
  refine ⟨hleft.trans hbegin, fun text htext => ?_⟩
  rcases htext with htext | htext
  · exact hfirst text htext
  · exact (hsecond text htext).trans hbegin.isInfix

theorem Cites.orElse {q : Reader α} (hp : Cites C p) (hq : Cites C q) : Cites C (orElse p q) := by
  intro s a rest hread
  rw [read_orElse] at hread
  cases hfirst : (p s).read with
  | none =>
      rw [hfirst] at hread
      exact hq s a rest hread
  | some found =>
      rw [hfirst, Option.some_or] at hread
      exact hp s a rest (hfirst.trans hread)

theorem Cites.oneOf {ps : List (Reader α)} (h : ∀ q ∈ ps, Cites C q) : Cites C (oneOf ps) := by
  induction ps with
  | nil => rintro s a rest ⟨⟩
  | cons q ps ih =>
      have hfirst := h q (List.mem_cons_self ..)
      have htail := ih fun r hr => h r (List.mem_cons_of_mem q hr)
      cases ps with
      | nil => exact hfirst
      | cons r ps => exact hfirst.orElse htail

theorem Cites.optional (hp : Cites C p) :
    Cites (fun found text => ∃ a ∈ found, C a text) (optional p) := by
  intro s found rest hread
  rw [read_optional] at hread
  cases hfirst : (p s).read with
  | none =>
      rw [hfirst] at hread
      cases hread
      exact ⟨List.suffix_refl s, by rintro text ⟨a, ⟨⟩, -⟩⟩
  | some first =>
      rw [hfirst] at hread
      cases hread
      obtain ⟨hrest, hcited⟩ := hp s first.1 first.2 hfirst
      refine ⟨hrest, ?_⟩
      rintro text ⟨a, ⟨⟩, htext⟩
      exact hcited text htext

theorem Cites.upTo (hp : Cites C p) (limit : Nat) :
    Cites (fun found text => ∃ a ∈ found, C a text) (upTo p limit) := by
  induction limit with
  | zero =>
      rintro s found rest ⟨⟩
      exact ⟨List.suffix_refl s, by rintro text ⟨a, ⟨⟩, -⟩⟩
  | succ limit ih =>
      intro s found rest hread
      rw [read_upTo_succ] at hread
      cases hfirst : (p (skipGap s)).read with
      | none =>
          rw [hfirst] at hread
          cases hread
          exact ⟨List.suffix_refl s, by rintro text ⟨a, ⟨⟩, -⟩⟩
      | some first =>
          rw [hfirst] at hread
          obtain ⟨⟨others, left⟩, hothers, heq⟩ := Option.map_eq_some_iff.mp hread
          cases heq
          obtain ⟨hmiddle, hcited⟩ := hp (skipGap s) first.1 first.2 hfirst
          obtain ⟨hleft, hlater⟩ := ih first.2 others left hothers
          have hbegin := skipGap_suffix s
          refine ⟨hleft.trans (hmiddle.trans hbegin), ?_⟩
          rintro text ⟨a, hmem, htext⟩
          rcases List.mem_cons.mp hmem with rfl | hmem
          · exact (hcited text htext).trans hbegin.isInfix
          · exact (hlater text ⟨a, hmem, htext⟩).trans (hmiddle.trans hbegin).isInfix

theorem Cites.many (hp : Cites C p) :
    Cites (fun found text => ∃ a ∈ found, C a text) (many p) :=
  fun s => hp.upTo (s.length + 1) s

end Cites

end Reader

namespace Grammar

open Reader

variable {α : Type}

/-- The numeral is the one by which a reading is void. -/
def VoidBy (r : Checked α) (literal : Text) : Prop := r = .error literal

theorem voidBy_map_iff {β : Type} {f : α → β} {r : Checked α} {literal : Text} :
    VoidBy (r.map f) literal ↔ VoidBy r literal :=
  Outcome.map_eq_error_iff

theorem voidBy_bind_iff {β : Type} {r : Checked α} {f : α → Checked β} {literal : Text} :
    VoidBy (r >>= f) literal ↔ VoidBy r literal ∨ ∃ a, r = .ok a ∧ VoidBy (f a) literal :=
  Outcome.bind_eq_error_iff

theorem not_voidBy_ok {a : α} {literal : Text} : ¬ VoidBy (.ok a) literal := by
  rintro ⟨⟩

/-- A list of readings is void by a numeral of one of them. -/
theorem exists_voidBy_of_collect {rs : List (Checked α)} {literal : Text}
    (h : VoidBy (collect rs) literal) : ∃ r ∈ rs, VoidBy r literal := by
  induction rs with
  | nil => exact absurd h not_voidBy_ok
  | cons r rs ih =>
      rw [collect, voidBy_bind_iff] at h
      rcases h with h | ⟨a, -, h⟩
      · exact ⟨r, List.mem_cons_self .., h⟩
      rcases voidBy_bind_iff.mp h with h | ⟨others, -, h⟩
      · obtain ⟨q, hq, hvoid⟩ := ih h
        exact ⟨q, List.mem_cons_of_mem r hq, hvoid⟩
      · exact absurd h not_voidBy_ok

/-! ### Words -/

theorem cites_number : Cites VoidBy number := by
  apply Cites.named
  have hnumeral : Cites (fun numeral text => text = numeral) (leaf Literal.numeral?) := by
    intro s numeral rest hread
    obtain ⟨rfl, -⟩ := Literal.numeral?_append hread
    refine ⟨List.suffix_append numeral rest, ?_⟩
    rintro text rfl
    exact (List.prefix_append text rest).isInfix
  refine hnumeral.map fun numeral text hvoid => ?_
  rw [VoidBy, numberOf] at hvoid
  split at hvoid
  · cases hvoid
  · cases hvoid
    rfl

theorem suffix_of_keyword? {word s rest : Text} (h : Literal.keyword? word s = some rest) :
    rest <:+ s :=
  ⟨word, (Literal.keyword?_eq_some_iff.mp h).1.symm⟩

theorem cites_null : Cites VoidBy null := by
  apply Cites.named
  intro s r rest hread
  obtain ⟨left, hword, heq⟩ := Option.map_eq_some_iff.mp hread
  cases heq
  exact ⟨suffix_of_keyword? hword, fun _ hvoid => absurd hvoid not_voidBy_ok⟩

theorem cites_boolean : Cites VoidBy boolean := by
  apply Cites.named
  intro s r rest hread
  rw [read_leaf] at hread
  split at hread
  · next left hword =>
      cases hread
      exact ⟨suffix_of_keyword? hword, fun _ hvoid => absurd hvoid not_voidBy_ok⟩
  · obtain ⟨left, hword, heq⟩ := Option.map_eq_some_iff.mp hread
    cases heq
    exact ⟨suffix_of_keyword? hword, fun _ hvoid => absurd hvoid not_voidBy_ok⟩

theorem cites_ident : Cites (fun _ _ => False) ident := cites_of_yields ident_yields

theorem cites_string : Cites (fun _ _ => False) string := cites_of_yields string_yields

theorem cites_endOfInput : Cites (fun _ _ => False) endOfInput := by
  intro s u rest hread
  obtain ⟨rfl, rfl⟩ := read_endOfInput_eq_some_iff.mp hread
  exact ⟨List.suffix_refl [], fun _ hfalse => hfalse.elim⟩

/-! ### Lists and brackets -/

section Lists

variable {C : α → Text → Prop} {p : Reader α}

theorem cites_separated (hp : Cites C p) :
    Cites (fun found text => ∃ a ∈ found, C a text) (separated p) := by
  have hnext : Cites C (map Prod.snd (both (word [',']) p)) :=
    ((cites_word [',']).both hp).map fun _ _ h => .inr h
  refine (hp.both hnext.many).map ?_
  rintro ⟨first, others⟩ text ⟨a, hmem, htext⟩
  rcases List.mem_cons.mp hmem with rfl | hmem
  · exact .inl htext
  · exact .inr ⟨a, hmem, htext⟩

theorem cites_trailing (hp : Cites C p) :
    Cites (fun found text => ∃ a ∈ found, C a text) (trailing p) := by
  refine ((cites_separated hp).both (cites_word [',']).optional).optional.map ?_
  rintro (_ | found) text ⟨a, hmem, htext⟩
  · cases hmem
  · exact ⟨found, rfl, .inl ⟨a, hmem, htext⟩⟩

theorem cites_between (hp : Cites C p) (opening closing : Char) :
    Cites C (between opening p closing) :=
  ((cites_word [opening]).both (hp.both (cites_word [closing]))).map fun _ _ h => .inr (.inl h)

end Lists

/-! ### Expressions -/

theorem cites_chain {operand : Reader (Checked Expr)} {operator : Reader Comparison}
    (hoperand : Cites VoidBy operand) (hoperator : Cites (fun _ _ => False) operator) :
    Cites VoidBy (chain operand operator) := by
  refine (hoperand.both (hoperator.both hoperand).many).map ?_
  rintro ⟨first, others⟩ literal hvoid
  rcases voidBy_bind_iff.mp hvoid with hfirst | ⟨e, -, hvoid⟩
  · exact .inl hfirst
  rcases voidBy_bind_iff.mp hvoid with hrest | ⟨rest, -, hvoid⟩
  · obtain ⟨r, hmem, hr⟩ := exists_voidBy_of_collect hrest
    obtain ⟨next, hnext, rfl⟩ := List.mem_map.mp hmem
    exact .inr ⟨next, hnext, .inr (voidBy_map_iff.mp hr)⟩
  · exact absurd hvoid not_voidBy_ok

section Inner

variable {inner : Reader (Checked Expr)} (hinner : Cites VoidBy inner)

include hinner

theorem cites_call : Cites VoidBy (call inner) := by
  apply Cites.named
  have harguments : Cites (fun found literal => ∃ r ∈ found, VoidBy r literal)
      (map (·.getD []) (Reader.optional (separated inner))) := by
    refine (cites_separated hinner).optional.map ?_
    rintro (_ | found) literal ⟨r, hmem, hvoid⟩
    · cases hmem
    · exact ⟨found, rfl, r, hmem, hvoid⟩
  refine (cites_ident.both (cites_between harguments '(' ')')).map ?_
  intro read literal hvoid
  exact .inr (exists_voidBy_of_collect (voidBy_map_iff.mp hvoid))

theorem cites_step : Cites VoidBy (Reader.orElse dotAccess (indexAccess inner)) := by
  refine Cites.orElse (Cites.named ?_) (Cites.named ?_)
  · exact ((cites_word ['.']).both cites_ident).map fun _ _ hvoid => absurd hvoid not_voidBy_ok
  · exact (cites_between hinner '[' ']').map fun _ _ hvoid => voidBy_map_iff.mp hvoid

theorem cites_member : Cites VoidBy (member inner) := by
  apply Cites.named
  refine (cites_ident.both (cites_step hinner).many).map ?_
  intro read literal hvoid
  exact .inr (exists_voidBy_of_collect (voidBy_map_iff.mp hvoid))

theorem cites_array : Cites VoidBy (array inner) := by
  apply Cites.named
  refine (cites_between (cites_trailing hinner) '[' ']').map ?_
  intro read literal hvoid
  exact exists_voidBy_of_collect (voidBy_map_iff.mp hvoid)

theorem cites_key :
    Cites (fun read literal => ∃ r, read = Sum.inr r ∧ VoidBy r literal) (key inner) := by
  apply Cites.oneOf
  simp only [List.mem_cons, List.not_mem_nil, or_false, forall_eq_or_imp, forall_eq]
  refine ⟨cites_string.map ?_, cites_ident.map ?_, ?_⟩
  · rintro text literal ⟨r, ⟨⟩, -⟩
  · rintro name literal ⟨r, ⟨⟩, -⟩
  · refine (cites_between hinner '[' ']').named.map ?_
    rintro r literal ⟨r', ⟨⟩, hvoid⟩
    exact hvoid

theorem cites_property : Cites VoidBy (property inner) := by
  apply Cites.named
  refine ((cites_key hinner).both ((cites_word [':']).both hinner)).map ?_
  rintro ⟨read, gap, value⟩ literal hvoid
  cases read with
  | inl text => exact .inr (.inr (voidBy_map_iff.mp hvoid))
  | inr r =>
      rcases voidBy_bind_iff.mp hvoid with hkey | ⟨k, -, hvoid⟩
      · exact .inl ⟨r, rfl, hkey⟩
      rcases voidBy_bind_iff.mp hvoid with hvalue | ⟨v, -, hvoid⟩
      · exact .inr (.inr hvalue)
      · exact absurd hvoid not_voidBy_ok

theorem cites_object : Cites VoidBy (object inner) := by
  apply Cites.named
  refine (cites_between (cites_trailing (cites_property hinner)) '\x7b' '\x7d').map ?_
  intro read literal hvoid
  exact exists_voidBy_of_collect (voidBy_map_iff.mp hvoid)

theorem cites_primary : Cites VoidBy (primary inner) := by
  apply Cites.oneOf
  simp only [List.mem_cons, List.not_mem_nil, or_false, forall_eq_or_imp, forall_eq]
  refine ⟨cites_null, cites_boolean, cites_number, ?_, cites_call hinner, cites_array hinner,
    cites_object hinner, cites_member hinner, cites_between hinner '(' ')'⟩
  exact cites_string.map fun _ _ h => absurd h not_voidBy_ok

theorem cites_unary : Cites VoidBy (unary inner) := by
  apply Cites.named
  refine ((cites_word ['!']).named.many.both (cites_primary hinner)).map ?_
  intro read literal hvoid
  exact .inr (voidBy_map_iff.mp hvoid)

theorem cites_relational : Cites VoidBy (relational inner) :=
  (cites_chain (cites_unary hinner) (cites_of_yields relation_yields)).named

end Inner

theorem cites_expr (depth : Nat) : Cites VoidBy (expr depth) := by
  induction depth with
  | zero => rintro s r rest ⟨⟩
  | succ depth ih =>
      exact (cites_chain (cites_relational ih) (cites_of_yields equality_yields)).named

/-- A numeral out of range that makes a text void stands in the text. -/
theorem cites_expression (depth : Nat) : Cites VoidBy (expression depth) := by
  apply Cites.named
  have hwhole := (cites_word []).both ((cites_expr depth).both cites_endOfInput)
  exact hwhole.map fun _ _ hvoid => .inr (.inl hvoid)

end Grammar

end HtmlTemplate
