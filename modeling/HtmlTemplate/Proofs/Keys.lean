import HtmlTemplate.Expr.Eval
import HtmlTemplate.Proofs.Number.Integral
import HtmlTemplate.Proofs.Number.Numeral
/-!
Equal keys.  Keys that are strictly equal select the same member of a map where they have the same
text: an integer and the fraction that is equal to it have it below `10 ^ 15`.  Positions in a list
are integers, and integers that are equal as numbers are the same where there are items.
-/

namespace HtmlTemplate

namespace Number

variable {n : Int} {x y : Binary64}

theorem displayedInt?_float_eq_some_iff :
    (Number.float x).displayedInt? = some n ↔ x.toInt? = some n ∧ n.natAbs < Nat.pow 10 15 := by
  rw [displayedInt?, Option.filter_eq_some_iff, decide_eq_true_eq]

theorem display_of_displayedInt? {a : Number} (h : a.displayedInt? = some n) :
    a.display = Text.ofInt n := by
  rw [display, h]

theorem display_of_displayedInt?_eq_none (h : (Number.float x).displayedInt? = none) :
    (Number.float x).display = x.render := by
  rw [display, h]
  rfl

/-- An integer and the fraction that is equal to it have the same text below `10 ^ 15` only. -/
theorem display_int_eq_iff (h : (Number.int n).key = (Number.float x).key) :
    (Number.int n).display = (Number.float x).display ↔ n.natAbs < Nat.pow 10 15 := by
  have hbound : Nat.pow 10 15 < 2 ^ 53 := by decide
  constructor
  · intro hdisplay
    refine Nat.lt_of_not_le fun hlarge => ?_
    have hnone : (Number.float x).displayedInt? = none := by
      refine Option.eq_none_iff_forall_not_mem.mpr fun i hi => ?_
      obtain ⟨hint, hi⟩ := displayedInt?_float_eq_some_iff.mp hi
      rcases Nat.lt_or_ge n.natAbs (2 ^ 53) with hn | hn
      · rw [toInt?_of_key_eq hn h] at hint
        cases hint
        omega
      · have hscaled := le_scaled_of_key_eq hn h
        rw [Binary64.scaled_of_toInt? hint] at hscaled
        have := Nat.le_of_mul_le_mul_right hscaled Binary64.unit_pos
        omega
    rw [display_of_displayedInt?_eq_none hnone] at hdisplay
    exact render_float_ne_ofInt x n hdisplay.symm
  · intro hsmall
    have hint := toInt?_of_key_eq (Nat.lt_trans hsmall hbound) h
    exact (display_of_displayedInt? (displayedInt?_float_eq_some_iff.mpr ⟨hint, hsmall⟩)).symm

theorem display_int_eq_display_int_iff {m n : Int} :
    (Number.int m).display = (Number.int n).display ↔ m = n :=
  ⟨Text.ofInt_inj, congrArg fun n => (Number.int n).display⟩

/-- Equal fractions have the same text, zeros of either sign included. -/
theorem display_float_eq (h : x.key = y.key) :
    (Number.float x).display = (Number.float y).display := by
  by_cases hzero : x.scaled = 0
  · have hdisplay {z : Binary64} (hz : z.scaled = 0) : (Number.float z).display = Text.ofInt 0 := by
      refine display_of_displayedInt? (displayedInt?_float_eq_some_iff.mpr ⟨?_, by decide⟩)
      exact Binary64.toInt?_of_scaled (by rw [hz, Int.natAbs_zero, Nat.zero_mul]) (absurd rfl)
    rw [hdisplay hzero, hdisplay (Binary64.scaled_eq_of_key_eq h ▸ hzero)]
  · rw [Binary64.eq_of_key_eq h hzero]

end Number

namespace Value

/-- An integer and a fraction, in either order. -/
inductive AreMixed (n : Int) : Value → Value → Prop where
  | int (x : Binary64) : AreMixed n (.number (.int n)) (.number (.float x))
  | float (x : Binary64) : AreMixed n (.number (.float x)) (.number (.int n))

/-- What makes equal keys the same key of a map. -/
structure HaveSameText (first second : Value) : Prop where
  mixed : ∀ n, AreMixed n first second → n.natAbs < Nat.pow 10 15
  ints : ∀ m n, first = .number (.int m) → second = .number (.int n) → m = n
  collections : first.isScalar = false → first.compact = second.compact

variable {first second : Value}

theorem strictEquals_number_iff {a b : Number} :
    strictEquals (.number a) (.number b) = true ↔ a.key = b.key := by
  rw [strictEquals, decide_eq_true_eq]

theorem strictEquals_cases (h : strictEquals first second = true) :
    first = second ∨ (∃ a b, first = .number a ∧ second = .number b ∧ a.key = b.key) ∨
    (∃ items items', first = .list items ∧ second = .list items') ∨
    ∃ entries entries', first = .map entries ∧ second = .map entries' := by
  cases first <;> cases second <;> simp_all [strictEquals, same]

theorem haveSameText_self (v : Value) : HaveSameText v v where
  mixed n h := by cases h
  ints m n hm hn := by
    rw [hm] at hn
    cases hn
    rfl
  collections _ := rfl

theorem haveSameText_number_iff {a b : Number} : HaveSameText (.number a) (.number b) ↔
    (∀ n, AreMixed n (.number a) (.number b) → n.natAbs < Nat.pow 10 15) ∧
      ∀ m n, a = .int m → b = .int n → m = n := by
  constructor
  · intro h
    refine ⟨h.mixed, ?_⟩
    rintro m n rfl rfl
    exact h.ints m n rfl rfl
  · rintro ⟨hmixed, hints⟩
    refine ⟨hmixed, fun m n hm hn => ?_, by simp [isScalar]⟩
    exact hints m n (Value.number.inj hm) (Value.number.inj hn)

/-- Equal numbers have the same text where both are integers or fractions, or the one integer is
below `10 ^ 15`. -/
theorem display_eq_iff {a b : Number} (h : a.key = b.key) :
    a.display = b.display ↔ HaveSameText (.number a) (.number b) := by
  rw [haveSameText_number_iff]
  cases a with
  | int m =>
      cases b with
      | int n =>
          rw [Number.display_int_eq_display_int_iff]
          constructor
          · rintro rfl
            refine ⟨fun n h => (by cases h), ?_⟩
            rintro _ _ ⟨⟩ ⟨⟩
            rfl
          · exact fun h => h.2 m n rfl rfl
      | float y =>
          rw [Number.display_int_eq_iff h]
          constructor
          · intro hsmall
            refine ⟨?_, by simp⟩
            rintro _ ⟨⟩
            exact hsmall
          · exact fun h => h.1 m (.int y)
  | float x =>
      cases b with
      | int n =>
          rw [eq_comm, Number.display_int_eq_iff h.symm]
          constructor
          · intro hsmall
            refine ⟨?_, by simp⟩
            rintro _ ⟨⟩
            exact hsmall
          · exact fun h => h.1 n (.float x)
      | float y =>
          refine iff_of_true (Number.display_float_eq h) ⟨fun n h => (by cases h), by simp⟩

theorem haveSameText_of_collections (hfirst : first.isScalar = false)
    (hnumber : ∀ a, first ≠ .number a) (hdisplay : first.toKey = first.compact)
    (hdisplay' : second.toKey = second.compact) :
    first.toKey = second.toKey ↔ HaveSameText first second := by
  rw [hdisplay, hdisplay']
  constructor
  · intro h
    refine ⟨fun n h => ?_, fun m n hm => absurd hm (hnumber _), fun _ => h⟩
    cases h with
    | int x => exact absurd rfl (hnumber _)
    | float x => exact absurd rfl (hnumber _)
  · exact fun h => h.collections hfirst

/-- Equal keys are the same key of a map if and only if they have the same text. -/
theorem toKey_eq_iff (h : strictEquals first second = true) :
    first.toKey = second.toKey ↔ HaveSameText first second := by
  rcases strictEquals_cases h with rfl | ⟨a, b, rfl, rfl, hkey⟩ | ⟨items, items', rfl, rfl⟩ |
    ⟨entries, entries', rfl, rfl⟩
  · exact iff_of_true rfl (haveSameText_self first)
  · exact display_eq_iff hkey
  · exact haveSameText_of_collections rfl (by simp) rfl rfl
  · exact haveSameText_of_collections rfl (by simp) rfl rfl

/-! ### Members -/

theorem member?_map_eq_iff :
    (∀ entries, (Value.map entries).member? first = (Value.map entries).member? second) ↔
      first.toKey = second.toKey := by
  constructor
  · intro h
    have hentry := h [(first.toKey, .null)]
    by_contra hne
    simp [member?, Fields.get?, hne] at hentry
  · intro h entries
    rw [member?, member?, h]

theorem member?_list_number (items : List Value) (a : Number) :
    (Value.list items).member? (.number a) = (Value.number a).toIndex?.bind (items[·]?) := rfl

theorem member?_list_eq_none {items : List Value} {n : Int} (hn : n < 0 ∨ items.length ≤ n) :
    (Value.list items).member? (.number (.int n)) = none := by
  rw [member?_list_number, toIndex?]
  split
  · exact List.getElem?_eq_none (by omega)
  · rfl

/-- Where two integers are equal as numbers but not the same, no item of a list stands at them
unless it has more than `2 ^ 53` items. -/
theorem member?_list_int_eq {items : List Value} (hlength : items.length ≤ 2 ^ 53) {m n : Int}
    (h : (Number.int m).key = (Number.int n).key) :
    (Value.list items).member? (.number (.int m)) =
      (Value.list items).member? (.number (.int n)) := by
  by_cases hsame : m = n
  · rw [hsame]
  · have hm : ¬ m.natAbs < 2 ^ 53 := fun hm => hsame (Number.eq_of_key_eq hm h)
    have hn : ¬ n.natAbs < 2 ^ 53 := fun hn => hsame (Number.eq_of_key_eq hn h.symm).symm
    rw [member?_list_eq_none (by omega), member?_list_eq_none (by omega)]

theorem member?_list_number_eq {items : List Value} (hlength : items.length ≤ 2 ^ 53) {a b : Number}
    (h : a.key = b.key)
    (hmixed : ∀ n, AreMixed n (.number a) (.number b) → n < 0 ∨ items.length ≤ n) :
    (Value.list items).member? (.number a) = (Value.list items).member? (.number b) := by
  have hfloat (x : Binary64) : (Value.list items).member? (.number (.float x)) = none := rfl
  cases a with
  | int m =>
      cases b with
      | int n => exact member?_list_int_eq hlength h
      | float y => rw [hfloat, member?_list_eq_none (hmixed m (.int y))]
  | float x =>
      cases b with
      | int n => rw [hfloat, member?_list_eq_none (hmixed n (.float x))]
      | float y => rw [hfloat, hfloat]

/-- Keys that are strictly equal select the same member of a value that is neither a list nor a
map; of a list of at most `2 ^ 53` items, if no item stands at an integer that is the one key while
the other is a fraction; and of all maps, if and only if they have the same text. -/
theorem member?_eq_of_strictEquals (h : strictEquals first second = true) :
    (∀ target : Value, target.isScalar = true ∨ target.isNull = true →
      target.member? first = target.member? second) ∧
    (∀ items : List Value, items.length ≤ 2 ^ 53 →
      (∀ n, AreMixed n first second → n < 0 ∨ items.length ≤ n) →
      (Value.list items).member? first = (Value.list items).member? second) ∧
    ((∀ entries, (Value.map entries).member? first = (Value.map entries).member? second) ↔
      HaveSameText first second) := by
  refine ⟨fun target htarget => ?_, fun items hlength hmixed => ?_,
    member?_map_eq_iff.trans (toKey_eq_iff h)⟩
  · rcases strictEquals_cases h with rfl | ⟨a, b, rfl, rfl, -⟩ | ⟨items, items', rfl, rfl⟩ |
      ⟨entries, entries', rfl, rfl⟩
    · rfl
    · cases target <;> simp_all [isScalar, isNull, member?]
    · cases target <;> simp_all [isScalar, isNull, member?]
    · cases target <;> simp_all [isScalar, isNull, member?]
  · rcases strictEquals_cases h with rfl | ⟨a, b, rfl, rfl, hkey⟩ | ⟨items', items'', rfl, rfl⟩ |
      ⟨entries, entries', rfl, rfl⟩
    · rfl
    · exact member?_list_number_eq hlength hkey hmixed
    · rfl
    · rfl

theorem member?_eq_of_strictEquals_seven :
    let fraction : Binary64 := ⟨false, 0x401C000000000000, by decide⟩
    strictEquals (.number (.int 7)) (.number (.float fraction)) = true ∧
      (Value.map [("7".toList, .bool true)]).member? (.number (.float fraction)) =
        some (.bool true) ∧
      (Value.list [.null]).member? (.number (.int 7)) =
        (Value.list [.null]).member? (.number (.float fraction)) := by
  intro fraction
  have h : strictEquals (.number (.int 7)) (.number (.float fraction)) = true := by decide +kernel
  obtain ⟨-, hlist, hmap⟩ := member?_eq_of_strictEquals h
  have htext : HaveSameText (.number (.int 7)) (.number (.float fraction)) := by
    rw [haveSameText_number_iff]
    refine ⟨?_, by simp⟩
    rintro _ ⟨⟩
    decide
  refine ⟨h, (hmap.mpr htext _).symm, hlist _ (by decide) ?_⟩
  rintro _ ⟨⟩
  exact .inr (by decide)

theorem member?_ne_of_strictEquals :
    let fraction : Binary64 := ⟨false, 0x430C6BF526340000, by decide⟩
    let target : Value := .map [("1000000000000000".toList, .bool true)]
    strictEquals (.number (.int 1000000000000000)) (.number (.float fraction)) = true ∧
      target.member? (.number (.int 1000000000000000)) ≠
        target.member? (.number (.float fraction)) := by
  intro fraction target
  have hkey : (Number.int 1000000000000000).key = (Number.float fraction).key := by decide +kernel
  have htext : ¬ (Number.float fraction).display = "1000000000000000".toList := by
    intro heq
    exact absurd ((Number.display_int_eq_iff hkey).mp heq.symm) (by decide)
  have hwhole : target.member? (.number (.int 1000000000000000)) = some (.bool true) := rfl
  have hfraction : target.member? (.number (.float fraction)) = none := by
    rw [member?, Fields.get?, toKey, display, if_neg (Ne.symm htext)]
    rfl
  refine ⟨strictEquals_number_iff.mpr hkey, ?_⟩
  rw [hwhole, hfraction]
  exact Option.some_ne_none _

end Value

end HtmlTemplate
