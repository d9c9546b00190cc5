import HtmlTemplate.Proofs.Expr.Operand
/-!
Chains of comparisons.  The grammar reads a chain at two levels: operands with `<`, `<=`, `>` and
`>=` between them are a run, and runs with equalities between them are the chain.  Each level groups
to the left.  The blanks around an operator do not count, not even to tell it from what follows: no
operand begins with `=`, so that no operator is taken for a longer one.
-/

namespace HtmlTemplate

namespace Grammar

open Reader HtmlTemplate.Expr

/-- A text that may stand between two parts of an expression: blanks, or nothing. -/
structure Gap where
  text : Text
  all_isGap : text.all isGap = true

theorem Gap.skipGap_append (gap : Gap) (s : Text) : skipGap (gap.text ++ s) = skipGap s := by
  apply List.dropWhile_append_of_pos
  exact List.all_eq_true.mp gap.all_isGap

theorem Gap.skipGap_text (gap : Gap) : skipGap gap.text = [] := by
  rw [← List.append_nil gap.text, gap.skipGap_append]
  rfl

theorem Gap.head_append_ne (gap : Gap) {c : Char} {s : Text} (hc : isGap c = false)
    (hs : s.head? ≠ some c) : (gap.text ++ s).head? ≠ some c := by
  cases htext : gap.text with
  | nil => exact hs
  | cons d more =>
      rintro ⟨⟩
      have hgap := gap.all_isGap
      rw [htext, List.all_cons, hc] at hgap
      cases hgap

/-- An operator with the gaps around it, and the operand on its right. -/
structure Link where
  before : Gap
  operator : Comparison
  after : Gap
  operand : Expr

def Link.text (write : Expr → Text) (link : Link) : Text :=
  link.before.text ++ (link.operator.symbol.toList ++ (link.after.text ++ write link.operand))

def Link.next (link : Link) : Comparison × Expr := (link.operator, link.operand)

/-- Operands with no equality between them. -/
structure Run where
  first : Expr
  others : List (Comparison × Expr)

def Run.folded (run : Run) : Expr := compareAll run.first run.others

/-- Splits what follows the first operand of a chain at its equalities: into what belongs to the run
of that operand, and the other runs, each with the equality on its left. -/
def splitRuns : List (Comparison × Expr) → List (Comparison × Expr) × List (Comparison × Run)
  | [] => ([], [])
  | (operator, operand) :: rest =>
      let (others, runs) := splitRuns rest
      if isRelation operator then ((operator, operand) :: others, runs)
      else ([], (operator, ⟨operand, others⟩) :: runs)

/-- What a chain stands for: each run is folded to the left, and then the runs are. -/
def grouped (first : Expr) (rest : List (Comparison × Expr)) : Expr :=
  let (others, runs) := splitRuns rest
  compareAll (Run.folded ⟨first, others⟩) (runs.map fun next => (next.1, next.2.folded))

@[simp] theorem grouped_nil (first : Expr) : grouped first [] = first := rfl

@[simp] theorem grouped_singleton (first : Expr) (next : Comparison × Expr) :
    grouped first [next] = .compare first next.1 next.2 := by
  cases next with
  | mk operator operand => cases operator <;> rfl

theorem splitRuns_cons_of_isRelation {next : Comparison × Expr} (h : isRelation next.1 = true)
    (rest : List (Comparison × Expr)) :
    splitRuns (next :: rest) = (next :: (splitRuns rest).1, (splitRuns rest).2) := by
  simp only [splitRuns, h, if_true]

theorem splitRuns_cons_of_not_isRelation {next : Comparison × Expr}
    (h : isRelation next.1 = false) (rest : List (Comparison × Expr)) :
    splitRuns (next :: rest) =
      ([], (next.1, ⟨next.2, (splitRuns rest).1⟩) :: (splitRuns rest).2) := by
  rw [splitRuns, h]
  rfl

/-! ### Links -/

/-- What `write` writes of an operand is read as that operand before anything that cannot go on with
it. -/
structure RereadsOperand (inner : Reader (Checked Expr)) (write : Expr → Text) (e : Expr) :
    Prop where
  head : ∀ rest, skipGap (write e ++ rest) = write e ++ rest
  operand : ∀ rest, Bounded rest → Reads (unary inner) (write e ++ rest) (.ok e) rest

section Links

variable {inner : Reader (Checked Expr)} {write : Expr → Text} {tail rest : Text}

theorem RereadsOperand.head_ne {e : Expr} (h : RereadsOperand inner write e) (rest : Text) :
    (write e ++ rest).head? ≠ some '=' := by
  cases htext : write e with
  | nil =>
      -- a gap behind an empty operand would be passed over
      have hhead := h.head [' ']
      rw [htext] at hhead
      cases hhead
  | cons c s =>
      rintro ⟨⟩
      obtain ⟨left, hread, -⟩ := h.operand [] ended_nil.bounded
      have hfails : (unary inner ('=' :: (s ++ []))).read = none :=
        fails_unary_of_bound rfl (by decide) inner _
      rw [htext, List.cons_append, hfails] at hread
      cases hread

theorem skipGap_symbol (operator : Comparison) (s : Text) :
    skipGap (operator.symbol.toList ++ s) = operator.symbol.toList ++ s := by
  cases operator <;> rfl

theorem skipGap_link (link : Link) (tail : Text) :
    skipGap (link.text write ++ tail) =
      link.operator.symbol.toList ++ (link.after.text ++ (write link.operand ++ tail)) := by
  rw [Link.text, List.append_assoc, link.before.skipGap_append, List.append_assoc, skipGap_symbol,
    List.append_assoc]

theorem length_lt_skipGap_link (link : Link) (tail : Text) :
    tail.length < (skipGap (link.text write ++ tail)).length := by
  have hsymbol : 0 < link.operator.symbol.toList.length := by
    cases link.operator <;> decide
  rw [skipGap_link]
  simp only [List.length_append]
  omega

theorem length_le_links {link : Link} {links : List Link} (h : link ∈ links) :
    (write link.operand).length ≤ (links.flatMap (Link.text write)).length := by
  obtain ⟨before, after, rfl⟩ := List.append_of_mem h
  simp only [Link.text, List.flatMap_append, List.flatMap_cons, List.length_append]
  omega

theorem bounded_links (write : Expr → Text) (links : List Link) (hend : Ended rest) :
    Bounded (links.flatMap (Link.text write) ++ rest) := by
  cases links with
  | nil => exact hend.bounded
  | cons link links =>
      rw [Bounded, List.flatMap_cons, List.append_assoc, skipGap_link]
      cases link.operator <;> rfl

/-- An operator is read as soon as what follows does not make it a longer one. -/
theorem reads_link {p : Reader Comparison} {q : Reader (Checked Expr)} {link : Link} {e : Expr}
    (h : RereadsOperand inner write link.operand)
    (hoperator : ∀ s : Text, s.head? ≠ some '=' →
      Reads p (link.operator.symbol.toList ++ s) link.operator s)
    (hoperand : Reads q (write link.operand ++ tail) (.ok e) rest) :
    Reads (both p q) (skipGap (link.text write ++ tail)) (link.operator, .ok e) rest := by
  have hnext := link.after.head_append_ne rfl (h.head_ne tail)
  rw [← h.head, ← link.after.skipGap_append] at hoperand
  rw [skipGap_link]
  exact (hoperator _ hnext).both hoperand

/-- Links are read from the left: first those of the run that is open, up to some place, and from
there on the other runs. -/
theorem repeats_links {links : List Link}
    (hlinks : ∀ link ∈ links, RereadsOperand inner write link.operand) (hend : Ended rest) :
    ∃ middle, middle.length ≤ (links.flatMap (Link.text write) ++ rest).length ∧
      Repeats (both relation (unary inner)) (skipGap (links.flatMap (Link.text write) ++ rest))
        ((splitRuns (links.map Link.next)).1.map fun next => (next.1, .ok next.2)) middle ∧
      Repeats (both equality (relational inner)) (skipGap middle)
        ((splitRuns (links.map Link.next)).2.map fun next => (next.1, .ok next.2.folded)) rest := by
  induction links with
  | nil =>
      obtain ⟨hrelation, hequality⟩ := hend.fails_operators
      refine ⟨rest, le_rfl, .nil ?_ (skipGap_skipGap rest), .nil ?_ (skipGap_skipGap rest)⟩
      · rw [List.flatMap_nil, List.nil_append, skipGap_skipGap]
        exact hrelation.both
      · rw [skipGap_skipGap]
        exact hequality.both
  | cons link links ih =>
      have hlink := hlinks link (by simp)
      obtain ⟨middle, hlength, hothers, hruns⟩ :=
        ih fun other hmem => hlinks other (List.mem_cons_of_mem link hmem)
      have hoperand := hlink.operand _ (bounded_links write links hend)
      rw [List.flatMap_cons, List.append_assoc, List.map_cons]
      generalize links.flatMap (Link.text write) ++ rest = tail at hlength hothers hoperand ⊢
      have hshort : tail.length < (skipGap (link.text write ++ tail)).length :=
        length_lt_skipGap_link link tail
      cases hkind : isRelation link.operator with
      | true =>
          have hsplit : splitRuns (link.next :: links.map Link.next) = _ :=
            splitRuns_cons_of_isRelation hkind _
          rw [hsplit]
          have hfirst := reads_link hlink (fun _ => reads_relation hkind) hoperand
          refine ⟨middle, ?_, .cons_of_length_lt hfirst hshort hothers, hruns⟩
          rw [List.length_append]
          omega
      | false =>
          have hsplit : splitRuns (link.next :: links.map Link.next) = _ :=
            splitRuns_cons_of_not_isRelation hkind _
          rw [hsplit]
          -- the run that is open ends here, and the operand begins a run of its own
          refine ⟨link.text write ++ tail, le_rfl, .nil ?_ (skipGap_skipGap _), ?_⟩
          · rw [skipGap_skipGap, skipGap_link]
            exact (fails_relation_symbol hkind _).both
          · have hrun : Reads (relational inner) (write link.operand ++ tail)
                (.ok (Run.folded ⟨link.operand, (splitRuns (links.map Link.next)).1⟩)) middle :=
              (reads_chain hoperand hothers).named
            have hfirst := reads_link hlink (fun _ => reads_equality hkind) hrun
            exact .cons_of_length_lt hfirst (hlength.trans_lt hshort) hruns

theorem reads_grouped {depth : Nat} {first : Expr} {links : List Link}
    (hfirst : RereadsOperand (expr depth) write first)
    (hlinks : ∀ link ∈ links, RereadsOperand (expr depth) write link.operand) (hend : Ended rest) :
    Reads (expr (depth + 1)) (write first ++ (links.flatMap (Link.text write) ++ rest))
      (.ok (grouped first (links.map Link.next))) rest := by
  obtain ⟨middle, -, hothers, hruns⟩ := repeats_links hlinks hend
  have hoperand := hfirst.operand _ (bounded_links write links hend)
  have hrun : Reads (relational (expr depth))
      (write first ++ (links.flatMap (Link.text write) ++ rest))
      (.ok (Run.folded ⟨first, (splitRuns (links.map Link.next)).1⟩)) middle :=
    (reads_chain hoperand hothers).named
  have hpairs : (splitRuns (links.map Link.next)).2.map
      (fun next => (next.1, (Except.ok next.2.folded : Checked Expr))) =
        ((splitRuns (links.map Link.next)).2.map fun next => (next.1, next.2.folded)).map
          fun next => (next.1, .ok next.2) := by
    rw [List.map_map]
    rfl
  rw [hpairs] at hruns
  exact (reads_chain hrun hruns).named

end Links

end Grammar

end HtmlTemplate
