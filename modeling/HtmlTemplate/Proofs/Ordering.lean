import Mathlib.Logic.ExistsUnique
import HtmlTemplate.Expr.Eval
import HtmlTemplate.Proofs.Outcome
/-!
The order of values.  Two scalars are compared as texts or as the numbers that they stand for, and
loose equality is what is left where neither is less than the other; where one of them stands for no
number, they are not compared at all, and no comparison holds.
-/

namespace HtmlTemplate

namespace Text

theorem lt_or_eq_or_lt (s t : Text) : s < t ∨ s = t ∨ t < s := by
  by_cases hlt : s < t
  · exact .inl hlt
  · rcases List.le_iff_lt_or_eq.mp (List.not_lt.mp hlt) with h | h
    · exact .inr (.inr h)
    · exact .inr (.inl h.symm)

end Text

namespace Value

variable {a b : Value} {s t : Text}

/-! ### The order of two values -/

theorem order?_string_of_lt (h : s < t) : order? (.string s) (.string t) = some .lt := by
  simp only [order?, h, if_true]

theorem order?_string_self (s : Text) : order? (.string s) (.string s) = some .eq := by
  simp only [order?, if_neg (List.lt_irrefl s), if_true]

theorem order?_string_of_gt (h : t < s) : order? (.string s) (.string t) = some .gt := by
  have hne : s ≠ t := by
    rintro rfl
    exact List.lt_irrefl s h
  simp only [order?, if_neg (List.lt_asymm h), if_neg hne]

theorem order?_string_eq_iff : order? (.string s) (.string t) = some .eq ↔ s = t := by
  constructor
  · intro h
    rcases Text.lt_or_eq_or_lt s t with hlt | heq | hgt
    · rw [order?_string_of_lt hlt] at h
      cases h
    · exact heq
    · rw [order?_string_of_gt hgt] at h
      cases h
  · rintro rfl
    exact order?_string_self s

/-- Values that are not both texts are ordered as the numbers that they stand for. -/
theorem order?_of_not_texts (h : ¬ ∃ s t, a = .string s ∧ b = .string t) :
    a.order? b = a.toNumber?.bind fun x => b.toNumber?.map fun y => compare x.key y.key := by
  unfold order?
  split
  · next s t => exact absurd ⟨s, t, rfl, rfl⟩ h
  · cases a.toNumber? <;> cases b.toNumber? <;> rfl

theorem order?_swap (a b : Value) : b.order? a = (a.order? b).map Ordering.swap := by
  by_cases htexts : ∃ s t, a = .string s ∧ b = .string t
  · obtain ⟨s, t, rfl, rfl⟩ := htexts
    rcases Text.lt_or_eq_or_lt s t with h | rfl | h
    · rw [order?_string_of_lt h, order?_string_of_gt h]
      rfl
    · rw [order?_string_self]
      rfl
    · rw [order?_string_of_lt h, order?_string_of_gt h]
      rfl
  · have htexts' : ¬ ∃ s t, b = .string s ∧ a = .string t := by
      rintro ⟨s, t, hb, ha⟩
      exact htexts ⟨t, s, ha, hb⟩
    rw [order?_of_not_texts htexts, order?_of_not_texts htexts']
    cases a.toNumber? <;> cases b.toNumber? <;> simp [Int.compare_swap]

theorem order?_eq_some_iff (order : Ordering) :
    b.order? a = some order ↔ a.order? b = some order.swap := by
  rw [order?_swap a b, Option.map_eq_some_iff]
  constructor
  · rintro ⟨found, hfound, rfl⟩
    rw [hfound, Ordering.swap_swap]
  · intro h
    exact ⟨order.swap, h, Ordering.swap_swap⟩

/-- Two texts are ordered, and so are two numbers. -/
theorem exists_order? (h : (∃ s t, a = .string s ∧ b = .string t) ∨
    (a.toNumber? ≠ none ∧ b.toNumber? ≠ none)) : ∃ order, a.order? b = some order := by
  by_cases htexts : ∃ s t, a = .string s ∧ b = .string t
  · obtain ⟨s, t, rfl, rfl⟩ := htexts
    exact ⟨_, rfl⟩
  · obtain ⟨ha, hb⟩ := h.resolve_left htexts
    obtain ⟨x, hx⟩ := Option.ne_none_iff_exists'.mp ha
    obtain ⟨y, hy⟩ := Option.ne_none_iff_exists'.mp hb
    rw [order?_of_not_texts htexts, hx, hy]
    exact ⟨_, rfl⟩

/-- Scalars that are not both texts are loosely equal if they stand for one number. -/
theorem looseEquals_of_not_texts (ha : a.isScalar = true) (hb : b.isScalar = true)
    (h : ¬ ∃ s t, a = .string s ∧ b = .string t) : a.looseEquals b = true ↔
      ∃ x y, a.toNumber? = some x ∧ b.toNumber? = some y ∧ x.key = y.key := by
  unfold looseEquals
  split
  · cases ha
  · cases ha
  · cases hb
  · next s t => exact absurd ⟨s, t, rfl, rfl⟩ h
  · rw [if_pos (by rw [ha, hb]; rfl)]
    cases a.toNumber? <;> cases b.toNumber? <;> simp

/-- Scalars are loosely equal if and only if they are ordered and neither comes first. -/
theorem looseEquals_iff_order? (ha : a.isScalar = true) (hb : b.isScalar = true) :
    a.looseEquals b = true ↔ a.order? b = some .eq := by
  by_cases htexts : ∃ s t, a = .string s ∧ b = .string t
  · obtain ⟨s, t, rfl, rfl⟩ := htexts
    exact decide_eq_true_iff.trans order?_string_eq_iff.symm
  · rw [looseEquals_of_not_texts ha hb htexts, order?_of_not_texts htexts]
    cases a.toNumber? <;> cases b.toNumber? <;> simp

end Value

/-! ### Comparisons -/

namespace Comparison

/-- The comparison that asks for an order. -/
def ofOrder : Ordering → Comparison
  | .lt => .lt
  | .eq => .looseEq
  | .gt => .gt

theorem mem_iff_exists_ofOrder {operator : Comparison} :
    operator ∈ [Comparison.lt, .looseEq, .gt] ↔ ∃ order, operator = ofOrder order := by
  constructor
  · intro h
    simp only [List.mem_cons, List.not_mem_nil, or_false] at h
    rcases h with rfl | rfl | rfl
    · exact ⟨.lt, rfl⟩
    · exact ⟨.eq, rfl⟩
    · exact ⟨.gt, rfl⟩
  · rintro ⟨order, rfl⟩
    cases order <;> decide

variable {a b : Value}

theorem holds_ofOrder_iff (ha : a.isScalar = true) (hb : b.isScalar = true) (order : Ordering) :
    (ofOrder order).holds a b = true ↔ a.order? b = some order := by
  cases order with
  | eq => exact Value.looseEquals_iff_order? ha hb
  | lt | gt =>
      cases horder : a.order? b with
      | none => simp [ofOrder, holds, horder]
      | some found => cases found <;> simp [ofOrder, holds, horder]

theorem holds_le_iff : Comparison.le.holds a b = true ↔
    a.order? b = some .lt ∨ a.order? b = some .eq := by
  cases horder : a.order? b with
  | none => simp [holds, horder]
  | some order => cases order <;> simp [holds, horder]

theorem holds_ge_iff : Comparison.ge.holds a b = true ↔
    a.order? b = some .gt ∨ a.order? b = some .eq := by
  cases horder : a.order? b with
  | none => simp [holds, horder]
  | some order => cases order <;> simp [holds, horder]

theorem accepts_of_isScalar (operator : Comparison) (ha : a.isScalar = true)
    (hb : b.isScalar = true) : operator.accepts a b = true := by
  rw [accepts, ha, hb, Bool.and_true, Bool.or_true]

theorem apply_of_isScalar (operator : Comparison) (ha : a.isScalar = true)
    (hb : b.isScalar = true) : operator.apply a b = .ok (operator.holds a b) := by
  rw [apply, if_pos (operator.accepts_of_isScalar ha hb)]

/-- Only identity can be asked of what is not a scalar. -/
theorem apply_of_not_isScalar {operator : Comparison} (hidentity : operator.isIdentity = false)
    (h : a.isScalar = false ∨ b.isScalar = false) :
    operator.apply a b = .error (.mismatch operator a.kind b.kind) := by
  have hscalar : (a.isScalar && b.isScalar) = false := by
    rcases h with h | h <;> simp [h]
  rw [apply, accepts, hidentity, hscalar]
  rfl

end Comparison

namespace Expr

variable {scope : Scope} {left right : Expr} {a b : Value}

theorem eval_compare (hleft : left.eval scope = .ok a) (hright : right.eval scope = .ok b)
    (operator : Comparison) :
    (Expr.compare left operator right).eval scope = (operator.apply a b).map .bool := by
  rw [eval, hleft, hright, Outcome.ok_bind, Outcome.ok_bind]
  cases operator.apply a b <;> rfl

/-- A comparison of two expressions is true. -/
def Holds (scope : Scope) (operator : Comparison) (left right : Expr) : Prop :=
  (Expr.compare left operator right).eval scope = .ok (.bool true)

section Scalars

variable (hleft : left.eval scope = .ok a) (hright : right.eval scope = .ok b)
  (ha : a.isScalar = true) (hb : b.isScalar = true)

include hleft hright ha hb

theorem eval_compare_of_isScalar (operator : Comparison) :
    (Expr.compare left operator right).eval scope = .ok (.bool (operator.holds a b)) := by
  rw [eval_compare hleft hright, operator.apply_of_isScalar ha hb]
  rfl

theorem holds_iff (operator : Comparison) :
    Holds scope operator left right ↔ operator.holds a b = true := by
  rw [Holds, eval_compare_of_isScalar hleft hright ha hb]
  simp

theorem holds_ofOrder_iff (order : Ordering) :
    Holds scope (.ofOrder order) left right ↔ a.order? b = some order := by
  rw [holds_iff hleft hright ha hb, Comparison.holds_ofOrder_iff ha hb]

end Scalars

/-- Two scalars can be compared in every way.  Then less or equal is less or loosely equal, and
greater or equal is greater or loosely equal; the one is less than the other if and only if the other
is greater; and of less, loosely equal and greater at most one holds, and one does if both are texts
or both stand for a number.  What is not a scalar has no order. -/
theorem compare_of_eval (hleft : left.eval scope = .ok a) (hright : right.eval scope = .ok b) :
    (a.isScalar = true → b.isScalar = true →
      (∀ operator, ∃ answer,
        (Expr.compare left operator right).eval scope = .ok (.bool answer)) ∧
      (Holds scope .le left right ↔ Holds scope .lt left right ∨ Holds scope .looseEq left right) ∧
      (Holds scope .ge left right ↔ Holds scope .gt left right ∨ Holds scope .looseEq left right) ∧
      (Holds scope .lt left right ↔ Holds scope .gt right left) ∧
      (∀ first ∈ [Comparison.lt, .looseEq, .gt], ∀ second ∈ [Comparison.lt, .looseEq, .gt],
        Holds scope first left right → Holds scope second left right → first = second) ∧
      ((∃ s t, a = .string s ∧ b = .string t) ∨ (a.toNumber? ≠ none ∧ b.toNumber? ≠ none) →
        ∃! operator, operator ∈ [Comparison.lt, .looseEq, .gt] ∧
          Holds scope operator left right)) ∧
    (a.isScalar = false ∨ b.isScalar = false → ∀ operator ∈ [Comparison.lt, .le, .gt, .ge],
      (Expr.compare left operator right).eval scope =
        .error (.mismatch operator a.kind b.kind)) := by
  constructor
  · intro ha hb
    have horder := holds_ofOrder_iff hleft hright ha hb
    have hreverse : Holds scope .gt right left ↔ a.order? b = some .lt :=
      (holds_ofOrder_iff hright hleft hb ha .gt).trans (Value.order?_eq_some_iff .gt)
    refine ⟨fun operator => ⟨_, eval_compare_of_isScalar hleft hright ha hb operator⟩, ?_, ?_, ?_,
      ?_, ?_⟩
    · rw [holds_iff hleft hright ha hb, Comparison.holds_le_iff]
      exact (or_congr (horder .lt) (horder .eq)).symm
    · rw [holds_iff hleft hright ha hb, Comparison.holds_ge_iff]
      exact (or_congr (horder .gt) (horder .eq)).symm
    · exact (horder .lt).trans hreverse.symm
    · intro first hfirst second hsecond hholds hholds'
      obtain ⟨order, rfl⟩ := Comparison.mem_iff_exists_ofOrder.mp hfirst
      obtain ⟨order', rfl⟩ := Comparison.mem_iff_exists_ofOrder.mp hsecond
      rw [horder] at hholds hholds'
      rw [hholds] at hholds'
      rw [Option.some.inj hholds']
    · intro hcomparable
      obtain ⟨order, hfound⟩ := Value.exists_order? hcomparable
      refine ⟨.ofOrder order, ⟨Comparison.mem_iff_exists_ofOrder.mpr ⟨order, rfl⟩,
        (horder order).mpr hfound⟩, ?_⟩
      rintro operator ⟨hmem, hoperator⟩
      obtain ⟨order', rfl⟩ := Comparison.mem_iff_exists_ofOrder.mp hmem
      rw [horder, hfound] at hoperator
      rw [Option.some.inj hoperator]
  · intro h operator hoperator
    have hidentity : operator.isIdentity = false := by
      revert operator
      decide
    rw [eval_compare hleft hright, Comparison.apply_of_not_isScalar hidentity h]
    rfl

theorem compare_of_eval_mixed :
    let scope : Scope := .ofBindings [("n".toList, .null)] .empty
    let left : Expr := .string " 1e1".toList
    let right : Expr := .number (.int 9)
    Holds scope .ge left right ∧ Holds scope .lt right left ∧
      ¬ Holds scope .looseEq left right ∧
      (Expr.compare left .lt (.access "n".toList [])).eval scope =
        .error (.mismatch .lt "string" "null") := by
  intro scope left right
  have hleft : left.eval scope = .ok (.string " 1e1".toList) := by rw [eval]
  have hright : right.eval scope = .ok (.number (.int 9)) := by rw [eval]
  have hnull : (Expr.access "n".toList []).eval scope = .ok .null := by rfl
  have hgreater : Holds scope .gt left right :=
    (holds_iff hleft hright rfl rfl .gt).mpr (by decide +kernel)
  obtain ⟨-, -, hge, -, hone, -⟩ := (compare_of_eval hleft hright).1 rfl rfl
  obtain ⟨-, -, -, hlt, -, -⟩ := (compare_of_eval hright hleft).1 rfl rfl
  refine ⟨hge.mpr (.inl hgreater), hlt.mpr hgreater, fun hequal => ?_, ?_⟩
  · exact absurd (hone .gt (by decide) .looseEq (by decide) hgreater hequal) (by decide)
  · exact (compare_of_eval hleft hnull).2 (.inr rfl) .lt (by decide)

end Expr

end HtmlTemplate
