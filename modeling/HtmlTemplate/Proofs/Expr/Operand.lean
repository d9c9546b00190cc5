import HtmlTemplate.Proofs.Expr.Reread
/-!
Operands from the texts of their parts.  Each alternative of an operand is read where those before
it fail, which the first character of its text shows.
-/

namespace HtmlTemplate

namespace Grammar

open Reader HtmlTemplate.Expr

/-! ### Where a part is not read -/

theorem ne_of_isNameStart_eq_false {c d : Char} (hc : Text.isNameStart c = false)
    (hd : Text.isNameStart d = true) : c ≠ d := by
  rintro rfl
  rw [hc] at hd
  cases hd

/-- At the head of brackets and quoted texts there is no word. -/
theorem fails_words {c : Char} (hname : Text.isNameStart c = false) (hdigit : c.isDigit = false)
    (hminus : c ≠ '-') (s : Text) : ∀ q ∈ [null, boolean, number], Fails q (c :: s) := by
  simp only [List.mem_cons, List.not_mem_nil, or_false, forall_eq_or_imp, forall_eq]
  exact ⟨fails_null (ne_of_isNameStart_eq_false hname rfl) s,
    fails_boolean (ne_of_isNameStart_eq_false hname rfl) (ne_of_isNameStart_eq_false hname rfl) s,
    fails_number hdigit hminus s⟩

theorem fails_call {inner : Reader (Checked Expr)} {s : Text} (h : Fails ident s) :
    Fails (call inner) s :=
  (Fails.both h).map.named

theorem fails_member {inner : Reader (Checked Expr)} {s : Text} (h : Fails ident s) :
    Fails (member inner) s :=
  (Fails.both h).map.named

theorem fails_array {inner : Reader (Checked Expr)} {s : Text} (h : s.head? ≠ some '[') :
    Fails (array inner) s :=
  (fails_between h _ _).map.named

theorem fails_object {inner : Reader (Checked Expr)} {s : Text} (h : s.head? ≠ some '\x7b') :
    Fails (object inner) s :=
  (fails_between h _ _).map.named

section Bound

variable {c : Char} (hc : isBound c = true) (hbang : c ≠ '!')

include hc hbang

theorem bound_cases :
    c = ')' ∨ c = ']' ∨ c = '\x7d' ∨ c = ',' ∨ c = '=' ∨ c = '<' ∨ c = '>' := by
  simpa [isBound, isClosing, or_assoc, hbang] using hc

theorem fails_primary_of_bound (inner : Reader (Checked Expr)) (s : Text) :
    Fails (primary inner) (c :: s) := by
  have hcases := bound_cases hc hbang
  have hident : Fails ident (c :: s) := by
    apply fails_ident
    rcases hcases with rfl | rfl | rfl | rfl | rfl | rfl | rfl <;> rfl
  have hwords : ∀ q ∈ [null, boolean, number], Fails q (c :: s) := by
    rcases hcases with rfl | rfl | rfl | rfl | rfl | rfl | rfl <;>
      exact fails_words rfl rfl (by decide) s
  have hhead (d : Char) (hd : isBound d = false) : (c :: s).head? ≠ some d := by
    rintro ⟨⟩
    rw [hc] at hd
    cases hd
  have hquotes : c ≠ '\'' ∧ c ≠ '"' := by
    rcases hcases with rfl | rfl | rfl | rfl | rfl | rfl | rfl <;> decide
  simp only [List.mem_cons, List.not_mem_nil, or_false, forall_eq_or_imp, forall_eq] at hwords
  apply Fails.oneOf
  simp only [List.mem_cons, List.not_mem_nil, or_false, forall_eq_or_imp, forall_eq]
  exact ⟨hwords.1, hwords.2.1, hwords.2.2, (fails_string hquotes.1 hquotes.2 s).map,
    fails_call hident, fails_array (hhead '[' rfl), fails_object (hhead '\x7b' rfl),
    fails_member hident, fails_between (hhead '(' rfl) _ _⟩

/-- No operand begins with a character that ends one, apart from `!`. -/
theorem fails_unary_of_bound (inner : Reader (Checked Expr)) (s : Text) :
    Fails (unary inner) (c :: s) := by
  have hgap : isGap c = false := by
    rcases bound_cases hc hbang with rfl | rfl | rfl | rfl | rfl | rfl | rfl <;> rfl
  have hprimary := fails_primary_of_bound hc hbang inner s
  rw [← skipGap_eq_self_of_head (s := s) hgap] at hprimary
  exact (fails_both_of_reads (Reads.of_read (read_many_bangs hgap hbang s)) hprimary).map.named

end Bound

/-- No expression begins with a character that ends one. -/
theorem fails_expr_of_closing {c : Char} (hc : isClosing c = true) (depth : Nat) (s : Text) :
    Fails (expr depth) (c :: s) := by
  have hbound : isBound c = true := by simp [isBound, hc]
  have hbang : c ≠ '!' := by
    rintro rfl
    cases hc
  cases depth with
  | zero => rfl
  | succ depth =>
      have hunary := fails_unary_of_bound hbound hbang (expr depth) s
      exact (Fails.both (Fails.both hunary).map.named).map.named

theorem fails_property (inner : Reader (Checked Expr)) (s : Text) :
    Fails (property inner) ('\x7d' :: s) := by
  have hkey : Fails (key inner) ('\x7d' :: s) := by
    apply Fails.oneOf
    simp only [List.mem_cons, List.not_mem_nil, or_false, forall_eq_or_imp, forall_eq]
    exact ⟨(fails_string (by decide) (by decide) s).map, (fails_ident rfl s).map,
      (fails_between (by simp) _ _).named.map⟩
  exact (Fails.both hkey).map.named

/-! ### Calls and members -/

section Inner

variable {inner : Reader (Checked Expr)} {rest : Text}

/-- Before the first of several parts there is no gap. -/
theorem skipGap_joined {α : Type} {p : Reader (Checked α)} {write : α → Text} {as : List α}
    (h : ∀ a ∈ as, Rereads p write a) (hrest : skipGap rest = rest) :
    skipGap (joined write as ++ rest) = joined write as ++ rest := by
  cases as with
  | nil => exact hrest
  | cons first others =>
      rw [joined, List.append_assoc]
      exact (h first (by simp)).1 _

theorem reads_call {name : Text} {arguments : List Expr} (hname : IsWord name)
    (h : ∀ e ∈ arguments, Rereads inner render e) (hempty : Fails inner (')' :: rest)) :
    Reads (call inner) (name ++ '(' :: (joined render arguments ++ ')' :: rest))
      (.ok (.call name arguments)) rest := by
  have hgap : skipGap (joined render arguments ++ ')' :: rest) =
      joined render arguments ++ ')' :: rest :=
    skipGap_joined h (skipGap_eq_self_of_head rfl)
  have harguments := reads_arguments h (fun _ => hempty) (ended_cons rfl rest)
    (by simp [skipGap, isGap])
  rw [← hgap] at harguments
  have hbrackets := reads_between '(' rfl harguments
  have hident : Reads ident (name ++ '(' :: (joined render arguments ++ ')' :: rest)) name
      ('(' :: (joined render arguments ++ ')' :: rest)) := reads_ident hname.1 rfl
  rw [← skipGap_eq_self_of_head (c := '(') rfl] at hbrackets
  have hread := (hident.both hbrackets).map fun read => (collect read.2).map (Expr.call read.1)
  simp only [collect_map_ok] at hread
  exact hread.named

theorem reads_dotAccess {name : Text} (hname : Text.isName name = true)
    (hrest : rest.head?.any Text.isNameChar = false) :
    Reads dotAccess ('.' :: (name ++ rest)) (.ok (.name name)) rest := by
  have hident := reads_ident hname hrest
  have hgap : skipGap (name ++ rest) = name ++ rest := by
    cases name with
    | nil => cases hname
    | cons c more =>
        simp only [Text.isName, Bool.and_eq_true] at hname
        have hchar := Text.isNameChar_of_isNameStart hname.1
        exact skipGap_eq_self_of_head (not_bound_of_isNameChar hchar).1
  rw [← hgap] at hident
  exact (((reads_word ['.'] _).both hident).map _).named

theorem reads_indexAccess {key : Expr} (h : Rereads inner render key) :
    Reads (indexAccess inner) ('[' :: (render key ++ ']' :: rest)) (.ok (.computed key)) rest := by
  have hkey := h.2 (']' :: rest) (ended_cons rfl rest)
  rw [← h.1] at hkey
  exact ((reads_between '[' rfl hkey).map (Except.map Step.computed)).named

def RereadsStep (inner : Reader (Checked Expr)) : Step → Prop
  | .name name => Text.isName name = true
  | .computed key => Rereads inner render key

theorem head_renderPath (path : List Step) (hrest : Bounded rest) :
    (renderPath path ++ rest).head?.any Text.isNameChar = false := by
  cases path with
  | nil => exact hrest.name
  | cons step path => cases step <;> rfl

theorem head_skipGap_renderPath (path : List Step) (hrest : Bounded rest) :
    (skipGap (renderPath path ++ rest)).head? ≠ some '(' := by
  cases path with
  | nil => exact hrest.head_skipGap_ne rfl
  | cons step path => cases step <;> simp [renderPath, skipGap, isGap]

theorem reads_step {step : Step} (h : RereadsStep inner step) (path : List Step)
    (hrest : Bounded rest) :
    ∃ c s, renderPath (step :: path) ++ rest = c :: s ∧ isGap c = false ∧
      (renderPath path ++ rest).length ≤ s.length ∧
      Reads (Reader.orElse dotAccess (indexAccess inner)) (c :: s) (.ok step)
        (renderPath path ++ rest) := by
  cases step with
  | name name =>
      refine ⟨'.', name ++ (renderPath path ++ rest), by simp [renderPath], rfl, by simp, ?_⟩
      exact (reads_dotAccess h (head_renderPath path hrest)).orElse_left
  | computed key =>
      refine ⟨'[', render key ++ ']' :: (renderPath path ++ rest), ?_, rfl, ?_, ?_⟩
      · simp [renderPath]
      · simp only [List.length_append, List.length_cons]
        omega
      · have hdot : Fails dotAccess ('[' :: (render key ++ ']' :: (renderPath path ++ rest))) :=
          (Fails.both (fails_word_cons (by decide) [] _)).map.named
        exact (reads_indexAccess h).orElse_right hdot

theorem repeats_path {path : List Step} (h : ∀ step ∈ path, RereadsStep inner step)
    (hrest : Bounded rest) :
    Repeats (Reader.orElse dotAccess (indexAccess inner)) (skipGap (renderPath path ++ rest))
      (path.map .ok) rest := by
  induction path with
  | nil =>
      refine .nil ?_ (by simp [renderPath])
      rw [renderPath, List.nil_append, skipGap_skipGap]
      have hdot : Fails (word ['.']) (skipGap rest) :=
        fails_word_of_head_ne (hrest.head_skipGap_ne rfl) []
      exact (Fails.both hdot).map.named.orElse
        (fails_between (hrest.head_skipGap_ne rfl) _ _).map.named
  | cons step path ih =>
      have hothers := ih fun other hmem => h other (List.mem_cons_of_mem step hmem)
      obtain ⟨c, s, htext, hgap, hlength, hread⟩ := reads_step (h step (by simp)) path hrest
      rw [htext]
      exact .cons_skipGap hgap hread hlength hothers

theorem reads_member {name : Text} {path : List Step} (hname : IsWord name)
    (h : ∀ step ∈ path, RereadsStep inner step) (hrest : Bounded rest) :
    Fails (call inner) (name ++ (renderPath path ++ rest)) ∧
      Reads (member inner) (name ++ (renderPath path ++ rest)) (.ok (.access name path)) rest := by
  have hident := reads_ident hname.1 (head_renderPath path hrest)
  constructor
  · exact (fails_both_of_reads hident
      (fails_between (head_skipGap_renderPath path hrest) _ _)).map.named
  · have hread := (hident.both (repeats_path h hrest).many).map
      fun read => (collect read.2).map (Expr.access read.1)
    simp only [collect_map_ok] at hread
    exact hread.named

/-! ### Lists and maps -/

theorem reads_array {items : List Expr} (h : ∀ e ∈ items, Rereads inner render e)
    (hempty : Fails inner (']' :: rest)) :
    Reads (array inner) ('[' :: (joined render items ++ ']' :: rest)) (.ok (.list items)) rest := by
  have hgap : skipGap (joined render items ++ ']' :: rest) = joined render items ++ ']' :: rest :=
    skipGap_joined h (skipGap_eq_self_of_head rfl)
  have hitems := reads_trailing h (fun _ => hempty) (ended_cons rfl rest) (by simp [skipGap, isGap])
  rw [← hgap] at hitems
  have hread := (reads_between '[' rfl hitems).map fun read => (collect read).map Expr.list
  simp only [collect_map_ok] at hread
  exact hread.named

def RereadsProperty (inner : Reader (Checked Expr)) : Property → Prop
  | .static _ value => Rereads inner render value
  | .computed key value => Rereads inner render key ∧ Rereads inner render value

theorem reads_value {value : Expr} (h : Rereads inner render value) (hend : Ended rest) :
    Reads (Reader.both (word [':']) inner) (skipGap (':' :: ' ' :: (render value ++ rest)))
      ((), .ok value) rest := by
  have hvalue := h.2 rest hend
  rw [← h.1, ← skipGap_cons_gap (c := ' ') rfl] at hvalue
  rw [skipGap_eq_self_of_head rfl]
  exact (reads_word [':'] _).both hvalue

theorem rereads_property {property : Property} (h : RereadsProperty inner property) :
    Rereads (Grammar.property inner) renderProperty property := by
  cases property with
  | static key value =>
      refine ⟨fun rest => skipGap_eq_self_of_head rfl, fun rest hend => ?_⟩
      have hkey : Reads (Grammar.key inner)
          (Expr.quote key ++ ':' :: ' ' :: (render value ++ rest)) (.inl key)
          (':' :: ' ' :: (render value ++ rest)) :=
        ((reads_string key _).map Sum.inl).orElse_left
      have htext : renderProperty (.static key value) ++ rest =
          Expr.quote key ++ ':' :: ' ' :: (render value ++ rest) := by simp [renderProperty]
      rw [htext]
      exact ((hkey.both (reads_value h hend)).map fun read => propertyOf read.1 read.2.2).named
  | computed key value =>
      refine ⟨fun rest => skipGap_eq_self_of_head rfl, fun rest hend => ?_⟩
      have hinside := h.1.2 (']' :: ':' :: ' ' :: (render value ++ rest)) (ended_cons rfl _)
      rw [← h.1.1] at hinside
      have hcomputed : Reads (computedKey inner)
          ('[' :: (render key ++ ']' :: ':' :: ' ' :: (render value ++ rest))) (.ok key)
          (':' :: ' ' :: (render value ++ rest)) := (reads_between '[' rfl hinside).named
      have hkey : Reads (Grammar.key inner)
          ('[' :: (render key ++ ']' :: ':' :: ' ' :: (render value ++ rest))) (.inr (.ok key))
          (':' :: ' ' :: (render value ++ rest)) :=
        ((hcomputed.map Sum.inr).orElse_right (fails_ident rfl _).map).orElse_right
          (fails_string (by decide) (by decide) _).map
      have htext : renderProperty (.computed key value) ++ rest =
          '[' :: (render key ++ ']' :: ':' :: ' ' :: (render value ++ rest)) := by
        simp [renderProperty]
      rw [htext]
      exact ((hkey.both (reads_value h.2 hend)).map fun read => propertyOf read.1 read.2.2).named

theorem renderProperties_eq (properties : List Property) :
    renderProperties properties = joined renderProperty properties := by
  induction properties with
  | nil => rfl
  | cons property properties ih =>
      cases properties with
      | nil => simp [renderProperties, joined]
      | cons next others =>
          rw [renderProperties, ih]
          · simp [joined]
          · simp

theorem renderItems_eq (items : List Expr) : renderItems items = joined render items := by
  induction items with
  | nil => rfl
  | cons item items ih =>
      cases items with
      | nil => simp [renderItems, joined]
      | cons next others =>
          rw [renderItems, ih]
          · simp [joined]
          · simp

theorem reads_object {properties : List Property}
    (h : ∀ property ∈ properties, RereadsProperty inner property) :
    Reads (object inner) (render (.map properties) ++ rest) (.ok (.map properties)) rest := by
  have hproperties (property : Property) (hmem : property ∈ properties) :
      Rereads (Grammar.property inner) renderProperty property := rereads_property (h property hmem)
  have hinside : ∃ s, render (.map properties) ++ rest = '\x7b' :: s ∧
      Reads (trailing (Grammar.property inner)) (skipGap s) (properties.map .ok)
        ('\x7d' :: rest) := by
    cases properties with
    | nil =>
        refine ⟨'\x7d' :: rest, rfl, ?_⟩
        exact reads_trailing hproperties (fun _ => fails_property inner rest) (ended_cons rfl rest)
          (by simp [skipGap, isGap])
    | cons first others =>
        refine ⟨' ' :: (joined renderProperty (first :: others) ++ ' ' :: '\x7d' :: rest), ?_, ?_⟩
        · simp [render, renderProperties_eq]
        · have hentries := reads_trailing hproperties (fun hnil => by cases hnil)
            (ended_gap (c := ' ') rfl (ended_cons (c := '\x7d') rfl rest))
            (by simp [skipGap, isGap])
          rw [skipGap_cons_gap rfl, joined, List.append_assoc,
            (hproperties first (by simp)).1]
          rw [joined, List.append_assoc] at hentries
          exact hentries.of_gap rfl
  obtain ⟨s, htext, hentries⟩ := hinside
  have hread := (reads_between '\x7b' rfl hentries).map fun read => (collect read).map Expr.map
  simp only [collect_map_ok] at hread
  rw [htext]
  exact hread.named

end Inner

/-! ### Alternatives of an operand -/

section Primary

variable {inner : Reader (Checked Expr)} {rest : Text}

theorem exists_cons_of_isName {name : Text} (h : Text.isName name = true) :
    ∃ c more, name = c :: more ∧ Text.isNameStart c = true := by
  cases name with
  | nil => cases h
  | cons c more =>
      simp only [Text.isName, Bool.and_eq_true] at h
      exact ⟨c, more, rfl, h.1⟩

theorem fails_literals {name : Text} (hname : IsWord name)
    (hrest : rest.head?.any Text.isNameChar = false) :
    ∀ q ∈ [null, boolean, number, map (fun s => .ok (.string s)) string],
      Fails q (name ++ rest) := by
  have hnull := fails_null_of_isWord hname hrest
  have hboolean := fails_boolean_of_isWord hname hrest
  obtain ⟨c, more, rfl, hc⟩ := exists_cons_of_isName hname.1
  have hne (d : Char) (hd : Text.isNameStart d = false) : c ≠ d :=
    (ne_of_isNameStart_eq_false hd hc).symm
  have hdigit : c.isDigit = false := by
    simp only [Text.isNameStart, Bool.or_eq_true, decide_eq_true_eq, Text.isAlpha_iff] at hc
    simp only [Char.isDigit, Bool.and_eq_false_iff, decide_eq_false_iff_not]
    rcases hc with ((hc | hc) | rfl) | rfl
    · exact .inr (UInt32.not_le.mpr (UInt32.lt_of_lt_of_le (by decide) hc.1))
    · exact .inr (UInt32.not_le.mpr (UInt32.lt_of_lt_of_le (by decide) hc.1))
    · exact .inr (by decide)
    · exact .inl (by decide)
  simp only [List.mem_cons, List.not_mem_nil, or_false, forall_eq_or_imp, forall_eq]
  exact ⟨hnull, hboolean, fails_number hdigit (hne '-' rfl) _,
    (fails_string (hne '\'' rfl) (hne '"' rfl) _).map⟩

theorem fails_at_bracket (inner : Reader (Checked Expr)) {c : Char}
    (hc : c = '(' ∨ c = '[' ∨ c = '\x7b') (s : Text) :
    ∀ q ∈ [null, boolean, number, map (fun s => .ok (.string s)) string, call inner],
      Fails q (c :: s) := by
  have hwords : ∀ q ∈ [null, boolean, number], Fails q (c :: s) := by
    rcases hc with rfl | rfl | rfl <;> exact fails_words rfl rfl (by decide) s
  have hquotes : c ≠ '\'' ∧ c ≠ '"' := by rcases hc with rfl | rfl | rfl <;> decide
  have hident : Fails ident (c :: s) := by
    rcases hc with rfl | rfl | rfl <;> exact fails_ident rfl s
  simp only [List.mem_cons, List.not_mem_nil, or_false, forall_eq_or_imp, forall_eq] at hwords ⊢
  exact ⟨hwords.1, hwords.2.1, hwords.2.2, (fails_string hquotes.1 hquotes.2 s).map,
    fails_call hident⟩

theorem reads_primary_number {n : Number} (hn : n.IsLiteral) (hrest : Numeral.EndsBefore rest) :
    Reads (primary inner) (n.render ++ rest) (.ok (.number n)) rest := by
  have hread := reads_number hn hrest
  have hfails : ∀ q ∈ [null, boolean], Fails q (n.render ++ rest) := by
    obtain ⟨c, s, heq, hc⟩ := Number.exists_cons_of_render hn
    have hne (d : Char) (hd : d ≠ '-' ∧ d.isDigit = false) : c ≠ d := by
      rintro rfl
      rcases hc with rfl | hc
      · exact hd.1 rfl
      · rw [hd.2] at hc
        cases hc
    rw [heq]
    simp only [List.mem_cons, List.not_mem_nil, or_false, forall_eq_or_imp, forall_eq]
    exact ⟨fails_null (hne 'n' (by decide)) _,
      fails_boolean (hne 't' (by decide)) (hne 'f' (by decide)) _⟩
  exact Reads.oneOf hfails hread _

theorem reads_primary_string (s : Text) :
    Reads (primary inner) (Expr.quote s ++ rest) (.ok (.string s)) rest := by
  have hfails : ∀ q ∈ [null, boolean, number], Fails q (Expr.quote s ++ rest) :=
    fails_words rfl rfl (by decide) _
  exact Reads.oneOf hfails ((reads_string s rest).map fun s => .ok (.string s)) _

theorem reads_primary_call {name s : Text} {e : Expr} (hname : IsWord name)
    (h : Reads (call inner) (name ++ '(' :: s) (.ok e) rest) :
    Reads (primary inner) (name ++ '(' :: s) (.ok e) rest :=
  Reads.oneOf (fails_literals hname rfl) h _

theorem reads_primary_array {s : Text} {e : Expr}
    (h : Reads (array inner) ('[' :: s) (.ok e) rest) :
    Reads (primary inner) ('[' :: s) (.ok e) rest :=
  Reads.oneOf (fails_at_bracket inner (by simp) s) h _

theorem reads_primary_object {s : Text} {e : Expr}
    (h : Reads (object inner) ('\x7b' :: s) (.ok e) rest) :
    Reads (primary inner) ('\x7b' :: s) (.ok e) rest := by
  have hfails : ∀ q ∈ [null, boolean, number, map (fun s => .ok (.string s)) string, call inner,
      array inner], Fails q ('\x7b' :: s) := by
    have hbracket := fails_at_bracket inner (c := '\x7b') (by simp) s
    simp only [List.mem_cons, List.not_mem_nil, or_false, forall_eq_or_imp, forall_eq]
      at hbracket ⊢
    exact ⟨hbracket.1, hbracket.2.1, hbracket.2.2.1, hbracket.2.2.2.1, hbracket.2.2.2.2,
      fails_array (by simp)⟩
  exact Reads.oneOf hfails h _

theorem reads_primary_member {name s : Text} {e : Expr} (hname : IsWord name)
    (hs : s.head?.any Text.isNameChar = false) (hcall : Fails (call inner) (name ++ s))
    (h : Reads (member inner) (name ++ s) (.ok e) rest) :
    Reads (primary inner) (name ++ s) (.ok e) rest := by
  have hliterals := fails_literals hname hs
  have hbrackets : Fails (array inner) (name ++ s) ∧ Fails (object inner) (name ++ s) := by
    obtain ⟨c, more, rfl, hc⟩ := exists_cons_of_isName hname.1
    constructor
    · refine fails_array ?_
      rintro ⟨⟩
      cases hc
    · refine fails_object ?_
      rintro ⟨⟩
      cases hc
  have hfails : ∀ q ∈ [null, boolean, number, map (fun s => .ok (.string s)) string, call inner,
      array inner, object inner], Fails q (name ++ s) := by
    simp only [List.mem_cons, List.not_mem_nil, or_false, forall_eq_or_imp, forall_eq]
      at hliterals ⊢
    exact ⟨hliterals.1, hliterals.2.1, hliterals.2.2.1, hliterals.2.2.2, hcall, hbrackets.1,
      hbrackets.2⟩
  exact Reads.oneOf hfails h _

theorem reads_primary_brackets {s : Text} {e : Expr}
    (h : Reads inner (skipGap s) (.ok e) (')' :: rest)) :
    Reads (primary inner) ('(' :: s) (.ok e) rest := by
  have hfails : ∀ q ∈ [null, boolean, number, map (fun s => .ok (.string s)) string, call inner,
      array inner, object inner, member inner], Fails q ('(' :: s) := by
    have hbracket := fails_at_bracket inner (c := '(') (by simp) s
    simp only [List.mem_cons, List.not_mem_nil, or_false, forall_eq_or_imp, forall_eq]
      at hbracket ⊢
    exact ⟨hbracket.1, hbracket.2.1, hbracket.2.2.1, hbracket.2.2.2.1, hbracket.2.2.2.2,
      fails_array (by simp), fails_object (by simp), fails_member (fails_ident rfl s)⟩
  exact Reads.oneOf hfails (reads_between '(' rfl h) []

end Primary

end Grammar

end HtmlTemplate
