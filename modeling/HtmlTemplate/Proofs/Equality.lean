import Mathlib.Data.List.Perm.Subperm
import HtmlTemplate.Proofs.DistinctNames
import HtmlTemplate.Proofs.Markup.Attributes
import HtmlTemplate.Proofs.Ordering
/-!
The equalities of values.  Lists and maps are the same where they have the same value at every
position or under every name, in whatever order the names stand.  So sameness does not depend on the
side, and neither does strict equality, which compares numbers by value, nor loose equality, which
compares scalars by their order.
-/

namespace HtmlTemplate

namespace Number

variable {a b c : Number}

theorem same_self (a : Number) : a.same a = true := by
  cases a <;> exact decide_eq_true rfl

theorem same_symm (h : a.same b = true) : b.same a = true := by
  cases a <;> cases b <;> simp_all [same]

theorem same_trans (h : a.same b = true) (h' : b.same c = true) : a.same c = true := by
  cases a <;> cases b <;> cases c <;> simp_all [same]

end Number

namespace Value

variable {a b c : Value}

/-! ### Sameness -/

/-- At a place where one of two collections has a value the other has a same one. -/
abbrev Matches (first second : Option Value) : Prop :=
  Option.Rel (fun a b => same a b = true) first second

theorem matches_self {place : Option Value} (h : ∀ v, place = some v → same v v = true) :
    Matches place place := by
  cases place with
  | none => exact .none
  | some v => exact .some (h v rfl)

theorem exists_iff_of_matches {first second : Option Value} (h : Matches first second) :
    (∃ v, first = some v) ↔ ∃ v, second = some v := by
  cases h <;> simp

theorem matches_symm {first second : Option Value} (hmatches : Matches first second)
    (h : ∀ a b, first = some a → second = some b → same a b = true → same b a = true) :
    Matches second first := by
  cases hmatches with
  | none => exact .none
  | some hsame => exact .some (h _ _ rfl rfl hsame)

theorem matches_trans {first second third : Option Value} (hmatches : Matches first second)
    (hmatches' : Matches second third)
    (h : ∀ a b c, first = some a → second = some b → third = some c → same a b = true →
      same b c = true → same a c = true) : Matches first third := by
  cases hmatches with
  | none => exact hmatches'
  | some hsame =>
      cases hmatches' with
      | some hsame' => exact .some (h _ _ _ rfl rfl rfl hsame hsame')

theorem sameItems_iff {items others : List Value} :
    sameItems items others = true ↔ ∀ i : Nat, Matches items[i]? others[i]? := by
  induction items generalizing others with
  | nil =>
      cases others with
      | nil => exact iff_of_true rfl fun i => .none
      | cons other others =>
          refine iff_of_false Bool.false_ne_true fun h => ?_
          cases h 0
  | cons item items ih =>
      cases others with
      | nil =>
          refine iff_of_false Bool.false_ne_true fun h => ?_
          cases h 0
      | cons other others =>
          rw [sameItems, Bool.and_eq_true, ih]
          constructor
          · rintro ⟨hsame, hrest⟩ i
            cases i with
            | zero => exact .some hsame
            | succ i => exact hrest i
          · intro h
            refine ⟨?_, fun i => h (i + 1)⟩
            cases h 0 with
            | some hsame => exact hsame

theorem sameEntries_iff {entries others : List (Text × Value)} :
    sameEntries entries others = true ↔ ∀ entry ∈ entries, ∃ value,
      Fields.get? entry.1 others = some value ∧ same entry.2 value = true := by
  induction entries with
  | nil => simp [sameEntries]
  | cons entry entries ih =>
      obtain ⟨name, a⟩ := entry
      rw [sameEntries, Bool.and_eq_true, ih, List.forall_mem_cons]
      cases hget : Fields.get? name others <;> simp

/-- Maps of as many entries, of which the one has every name of the other, have the same names. -/
theorem names_perm_of_sameEntries {entries others : List (Text × Value)}
    (hnodup : (Fields.names entries).Nodup) (hlength : entries.length = others.length)
    (hsame : sameEntries entries others = true) :
    (Fields.names entries).Perm (Fields.names others) := by
  have hsubset : Fields.names entries ⊆ Fields.names others := by
    intro name hname
    obtain ⟨entry, hentry, rfl⟩ := List.mem_map.mp hname
    obtain ⟨value, hvalue, -⟩ := sameEntries_iff.mp hsame entry hentry
    exact Fields.mem_names_iff.mpr ⟨value, hvalue⟩
  refine (List.subperm_of_subset hnodup hsubset).perm_of_length_le ?_
  simp only [Fields.names, List.length_map, hlength, Nat.le_refl]

/-- Maps are the same if and only if every name has same values in both, or none in either. -/
theorem same_map_iff {entries others : List (Text × Value)} (hentries : (Fields.names entries).Nodup)
    (hothers : (Fields.names others).Nodup) : same (.map entries) (.map others) = true ↔
      ∀ name, Matches (Fields.get? name entries) (Fields.get? name others) := by
  rw [same, Bool.and_eq_true, decide_eq_true_eq]
  constructor
  · rintro ⟨hlength, hsame⟩ name
    have hnames := names_perm_of_sameEntries hentries hlength hsame
    cases hget : Fields.get? name entries with
    | none =>
        have hnone : name ∉ Fields.names others := fun hmem =>
          Fields.get?_eq_none_iff.mp hget (hnames.mem_iff.mpr hmem)
        rw [Fields.get?_of_not_mem hnone]
        exact .none
    | some value =>
        obtain ⟨other, hother, hvalue⟩ :=
          sameEntries_iff.mp hsame (name, value) (Fields.mem_of_get? hget)
        rw [hother]
        exact .some hvalue
  · intro h
    have hnames : (Fields.names entries).Perm (Fields.names others) := by
      refine (List.perm_ext_iff_of_nodup hentries hothers).mpr fun name => ?_
      rw [Fields.mem_names_iff, Fields.mem_names_iff]
      exact exists_iff_of_matches (h name)
    refine ⟨?_, sameEntries_iff.mpr fun entry hentry => ?_⟩
    · have hlength := hnames.length_eq
      rwa [Fields.names, Fields.names, List.length_map, List.length_map] at hlength
    · have hmatches := h entry.1
      rw [Fields.get?_of_mem hentries hentry] at hmatches
      cases hother : Fields.get? entry.1 others with
      | none =>
          rw [hother] at hmatches
          cases hmatches
      | some value =>
          rw [hother] at hmatches
          cases hmatches with
          | some hsame => exact ⟨value, rfl, hsame⟩

/-! ### What is the same as a value -/

theorem same_null_iff : same .null b = true ↔ b = .null := by
  cases b <;> simp [same]

theorem same_bool_iff {x : Bool} : same (.bool x) b = true ↔ b = .bool x := by
  cases b <;> simp [same, eq_comm]

theorem same_number_iff {n : Number} : same (.number n) b = true ↔
    ∃ m, b = .number m ∧ n.same m = true := by
  cases b <;> simp [same]

theorem same_string_iff {s : Text} : same (.string s) b = true ↔ b = .string s := by
  cases b <;> simp [same, eq_comm]

theorem same_list_iff {items : List Value} : same (.list items) b = true ↔
    ∃ others, b = .list others ∧ ∀ i : Nat, Matches items[i]? others[i]? := by
  cases b with
  | list others =>
      rw [same, sameItems_iff]
      constructor
      · exact fun h => ⟨others, rfl, h⟩
      · rintro ⟨_, ⟨⟩, h⟩
        exact h
  | null | bool | number | string | map => simp [same]

theorem exists_map_of_same {entries : List (Text × Value)} (h : same (.map entries) b = true) :
    ∃ others, b = .map others := by
  cases b with
  | map others => exact ⟨others, rfl⟩
  | null | bool | number | string | list => simp [same] at h

theorem same_self (ha : a.HasDistinctNames) : same a a = true := by
  induction ha with
  | null => rfl
  | bool b => exact decide_eq_true rfl
  | number n => exact n.same_self
  | string s => exact decide_eq_true rfl
  | list hitems ih =>
      refine sameItems_iff.mpr fun i => matches_self fun v hv => ?_
      exact ih v (List.mem_of_getElem? hv)
  | map hnodup hentries ih =>
      refine (same_map_iff hnodup hnodup).mpr fun name => matches_self fun v hv => ?_
      exact ih _ (Fields.mem_of_get? hv)

theorem same_symm (ha : a.HasDistinctNames) (hb : b.HasDistinctNames) (h : same a b = true) :
    same b a = true := by
  induction ha generalizing b with
  | null =>
      obtain rfl := same_null_iff.mp h
      exact h
  | bool x =>
      obtain rfl := same_bool_iff.mp h
      exact h
  | number n =>
      obtain ⟨m, rfl, hsame⟩ := same_number_iff.mp h
      exact Number.same_symm hsame
  | string s =>
      obtain rfl := same_string_iff.mp h
      exact h
  | list hitems ih =>
      obtain ⟨others, rfl, hmatches⟩ := same_list_iff.mp h
      cases hb with
      | list hothers =>
          refine sameItems_iff.mpr fun i => matches_symm (hmatches i) fun v w hv hw hsame => ?_
          exact ih v (List.mem_of_getElem? hv) (hothers w (List.mem_of_getElem? hw)) hsame
  | map hnodup hentries ih =>
      obtain ⟨others, rfl⟩ := exists_map_of_same h
      cases hb with
      | map hnodup' hothers =>
          have hmatches := (same_map_iff hnodup hnodup').mp h
          refine (same_map_iff hnodup' hnodup).mpr fun name =>
            matches_symm (hmatches name) fun v w hv hw hsame => ?_
          exact ih _ (Fields.mem_of_get? hv) (hothers _ (Fields.mem_of_get? hw)) hsame

theorem same_trans (ha : a.HasDistinctNames) (hb : b.HasDistinctNames) (hc : c.HasDistinctNames)
    (h : same a b = true) (h' : same b c = true) : same a c = true := by
  induction ha generalizing b c with
  | null =>
      obtain rfl := same_null_iff.mp h
      exact h'
  | bool x =>
      obtain rfl := same_bool_iff.mp h
      exact h'
  | number n =>
      obtain ⟨m, rfl, hsame⟩ := same_number_iff.mp h
      obtain ⟨k, rfl, hsame'⟩ := same_number_iff.mp h'
      exact Number.same_trans hsame hsame'
  | string s =>
      obtain rfl := same_string_iff.mp h
      exact h'
  | list hitems ih =>
      obtain ⟨others, rfl, hmatches⟩ := same_list_iff.mp h
      obtain ⟨thirds, rfl, hmatches'⟩ := same_list_iff.mp h'
      cases hb with
      | list hothers =>
          cases hc with
          | list hthirds =>
              refine sameItems_iff.mpr fun i =>
                matches_trans (hmatches i) (hmatches' i) fun v w x hv hw hx hsame hsame' => ?_
              exact ih v (List.mem_of_getElem? hv) (hothers w (List.mem_of_getElem? hw))
                (hthirds x (List.mem_of_getElem? hx)) hsame hsame'
  | map hnodup hentries ih =>
      obtain ⟨others, rfl⟩ := exists_map_of_same h
      obtain ⟨thirds, rfl⟩ := exists_map_of_same h'
      cases hb with
      | map hnodup' hothers =>
          cases hc with
          | map hnodup'' hthirds =>
              have hmatches := (same_map_iff hnodup hnodup').mp h
              have hmatches' := (same_map_iff hnodup' hnodup'').mp h'
              refine (same_map_iff hnodup hnodup'').mpr fun name =>
                matches_trans (hmatches name) (hmatches' name) fun v w x hv hw hx hsame hsame' => ?_
              exact ih _ (Fields.mem_of_get? hv) (hothers _ (Fields.mem_of_get? hw))
                (hthirds _ (Fields.mem_of_get? hx)) hsame hsame'

/-! ### Strict and loose equality -/

theorem strictEquals_iff : strictEquals a b = true ↔
    (∃ m n, a = .number m ∧ b = .number n ∧ m.key = n.key) ∨ same a b = true := by
  unfold strictEquals
  split
  · next m n =>
      rw [decide_eq_true_eq]
      constructor
      · exact fun hkey => .inl ⟨m, n, rfl, rfl, hkey⟩
      · rintro (⟨_, _, ⟨⟩, ⟨⟩, hkey⟩ | hsame)
        · exact hkey
        · exact Number.key_eq_of_same hsame
  · next hnumbers =>
      refine ⟨.inr, ?_⟩
      rintro (⟨m, n, rfl, rfl, -⟩ | hsame)
      · exact absurd rfl (hnumbers m n rfl)
      · exact hsame

theorem strictEquals_self (ha : a.HasDistinctNames) : strictEquals a a = true :=
  strictEquals_iff.mpr (.inr (same_self ha))

theorem strictEquals_symm (ha : a.HasDistinctNames) (hb : b.HasDistinctNames)
    (h : strictEquals a b = true) : strictEquals b a = true := by
  rcases strictEquals_iff.mp h with ⟨m, n, rfl, rfl, hkey⟩ | hsame
  · exact strictEquals_iff.mpr (.inl ⟨n, m, rfl, rfl, hkey.symm⟩)
  · exact strictEquals_iff.mpr (.inr (same_symm ha hb hsame))

theorem strictEquals_trans (ha : a.HasDistinctNames) (hb : b.HasDistinctNames)
    (hc : c.HasDistinctNames) (h : strictEquals a b = true) (h' : strictEquals b c = true) :
    strictEquals a c = true := by
  rcases strictEquals_iff.mp h with ⟨m, n, rfl, rfl, hkey⟩ | hsame
  · rcases strictEquals_iff.mp h' with ⟨_, k, ⟨⟩, rfl, hkey'⟩ | hsame'
    · exact strictEquals_iff.mpr (.inl ⟨m, k, rfl, rfl, hkey.trans hkey'⟩)
    · obtain ⟨k, rfl, hsame'⟩ := same_number_iff.mp hsame'
      exact strictEquals_iff.mpr
        (.inl ⟨m, k, rfl, rfl, hkey.trans (Number.key_eq_of_same hsame')⟩)
  · rcases strictEquals_iff.mp h' with ⟨n, k, rfl, rfl, hkey'⟩ | hsame'
    · obtain ⟨m, rfl, hnumber⟩ := same_number_iff.mp (same_symm ha hb hsame)
      exact strictEquals_iff.mpr
        (.inl ⟨m, k, rfl, rfl, (Number.key_eq_of_same hnumber).symm.trans hkey'⟩)
    · exact strictEquals_iff.mpr (.inr (same_trans ha hb hc hsame hsame'))

/-- Where one side is null or a collection, loosely equal values are the same. -/
theorem looseEquals_of_not_scalar (h : a.isScalar = false ∨ b.isScalar = false) :
    a.looseEquals b = a.same b := by
  cases a with
  | null => cases b <;> rfl
  | bool | number | string =>
      have hb := h.resolve_left Bool.noConfusion
      cases b with
      | null | list | map => rfl
      | bool | number | string => cases hb
  | list | map => cases b <;> rfl

theorem order?_self (ha : a.isScalar = true) : a.order? a = some .eq := by
  cases a with
  | null | list | map => cases ha
  | string s => exact order?_string_self s
  | bool x =>
      rw [order?_of_not_texts (by simp)]
      simp [toNumber?]
  | number n =>
      rw [order?_of_not_texts (by simp)]
      simp [toNumber?]

theorem looseEquals_self (ha : a.HasDistinctNames) : looseEquals a a = true := by
  cases hscalar : a.isScalar with
  | true => exact (looseEquals_iff_order? hscalar hscalar).mpr (order?_self hscalar)
  | false =>
      rw [looseEquals_of_not_scalar (.inl hscalar)]
      exact same_self ha

theorem looseEquals_symm (ha : a.HasDistinctNames) (hb : b.HasDistinctNames)
    (h : looseEquals a b = true) : looseEquals b a = true := by
  by_cases hscalar : a.isScalar = true ∧ b.isScalar = true
  · have horder := (looseEquals_iff_order? hscalar.1 hscalar.2).mp h
    exact (looseEquals_iff_order? hscalar.2 hscalar.1).mpr ((order?_eq_some_iff .eq).mpr horder)
  · have hcollection : a.isScalar = false ∨ b.isScalar = false := by
      rw [← Bool.not_eq_true, ← Bool.not_eq_true]
      exact Decidable.not_and_iff_not_or_not.mp hscalar
    rw [looseEquals_of_not_scalar hcollection] at h
    rw [looseEquals_of_not_scalar hcollection.symm]
    exact same_symm ha hb h

theorem looseEquals_of_key_eq {m n : Number} (h : m.key = n.key) :
    looseEquals (.number m) (.number n) = true :=
  (looseEquals_of_not_texts rfl rfl (by simp)).mpr ⟨_, _, rfl, rfl, h⟩

theorem looseEquals_of_same (ha : a.HasDistinctNames) (h : same a b = true) :
    looseEquals a b = true := by
  cases hscalar : a.isScalar with
  | false => rwa [looseEquals_of_not_scalar (.inl hscalar)]
  | true =>
      cases a with
      | null | list | map => cases hscalar
      | bool x =>
          obtain rfl := same_bool_iff.mp h
          exact looseEquals_self ha
      | string s =>
          obtain rfl := same_string_iff.mp h
          exact looseEquals_self ha
      | number n =>
          obtain ⟨m, rfl, hsame⟩ := same_number_iff.mp h
          exact looseEquals_of_key_eq (Number.key_eq_of_same hsame)

theorem looseEquals_of_strictEquals (ha : a.HasDistinctNames) (h : strictEquals a b = true) :
    looseEquals a b = true := by
  rcases strictEquals_iff.mp h with ⟨m, n, rfl, rfl, hkey⟩ | hsame
  · exact looseEquals_of_key_eq hkey
  · exact looseEquals_of_same ha hsame

end Value

/-! ### Comparisons from either side -/

namespace Comparison

variable {a b : Value}

theorem accepts_comm (operator : Comparison) (a b : Value) :
    operator.accepts a b = operator.accepts b a := by
  rw [accepts, accepts, Bool.or_comm a.isNull, Bool.and_comm a.isScalar]

theorem holds_comm {operator : Comparison}
    (hoperator : operator ∈ [Comparison.strictEq, .strictNe, .looseEq, .looseNe])
    (ha : a.HasDistinctNames) (hb : b.HasDistinctNames) :
    operator.holds a b = operator.holds b a := by
  have hstrict : a.strictEquals b = b.strictEquals a :=
    Bool.eq_iff_iff.mpr ⟨Value.strictEquals_symm ha hb, Value.strictEquals_symm hb ha⟩
  have hloose : a.looseEquals b = b.looseEquals a :=
    Bool.eq_iff_iff.mpr ⟨Value.looseEquals_symm ha hb, Value.looseEquals_symm hb ha⟩
  cases operator with
  | strictEq | strictNe => simp only [holds, hstrict]
  | looseEq | looseNe => simp only [holds, hloose]
  | lt | le | gt | ge => exact absurd hoperator (by decide)

end Comparison

namespace Value

/-- Over values with distinct names strict equality is an equivalence, loose equality does not depend
on the side and has every value equal to itself, and what is strictly equal is loosely equal.  So a
comparison for equality has the same answer from either side, or is refused from both. -/
theorem equality_of_hasDistinctNames (ha : a.HasDistinctNames) (hb : b.HasDistinctNames)
    (hc : c.HasDistinctNames) :
    strictEquals a a = true ∧
    (strictEquals a b = true → strictEquals b a = true) ∧
    (strictEquals a b = true → strictEquals b c = true → strictEquals a c = true) ∧
    looseEquals a a = true ∧
    (looseEquals a b = true → looseEquals b a = true) ∧
    (strictEquals a b = true → looseEquals a b = true) ∧
    ∀ (scope : Scope) (left right : Expr), left.eval scope = .ok a → right.eval scope = .ok b →
      ∀ operator ∈ [Comparison.strictEq, .strictNe, .looseEq, .looseNe],
        (∃ answer, (Expr.compare left operator right).eval scope = .ok (.bool answer) ∧
          (Expr.compare right operator left).eval scope = .ok (.bool answer)) ∨
        ((Expr.compare left operator right).eval scope = .error (.mismatch operator a.kind b.kind) ∧
          (Expr.compare right operator left).eval scope =
            .error (.mismatch operator b.kind a.kind)) := by
  refine ⟨strictEquals_self ha, strictEquals_symm ha hb, strictEquals_trans ha hb hc,
    looseEquals_self ha, looseEquals_symm ha hb, looseEquals_of_strictEquals ha,
    fun scope left right hleft hright operator hoperator => ?_⟩
  rw [Expr.eval_compare hleft hright, Expr.eval_compare hright hleft, Comparison.apply,
    Comparison.apply, operator.accepts_comm b a, Comparison.holds_comm hoperator hb ha]
  cases operator.accepts a b with
  | true => exact .inl ⟨_, rfl, rfl⟩
  | false => exact .inr ⟨rfl, rfl⟩

theorem equality_of_hasDistinctNames_reordered :
    let zero (negative : Bool) : Value := .number (.float (.zero negative))
    let a : Value := .map [("x".toList, .list [zero false, .null]), ("y".toList, .map [])]
    let b : Value := .map [("y".toList, .map []), ("x".toList, .list [zero true, .null])]
    let scope : Scope := .ofBindings [("a".toList, a), ("b".toList, b)] .empty
    strictEquals a b = true ∧ strictEquals b a = true ∧ looseEquals a b = true ∧
      (Expr.compare (.access "a".toList []) .looseNe (.access "b".toList [])).eval scope =
        .error (.mismatch .looseNe "object" "object") := by
  intro zero a b scope
  have hlist (negative : Bool) : HasDistinctNames (.list [zero negative, .null]) :=
    .list (List.forall_mem_cons.mpr ⟨.number _, List.forall_mem_singleton.mpr .null⟩)
  have hempty : HasDistinctNames (.map []) := .map List.nodup_nil (by simp)
  have ha : a.HasDistinctNames := .map (by decide)
    (List.forall_mem_cons.mpr ⟨hlist false, List.forall_mem_singleton.mpr hempty⟩)
  have hb : b.HasDistinctNames := .map (by decide)
    (List.forall_mem_cons.mpr ⟨hempty, List.forall_mem_singleton.mpr (hlist true)⟩)
  have hsame : strictEquals a b = true := by decide +kernel
  obtain ⟨-, hsymm, -, -, -, hloose, hcompare⟩ := equality_of_hasDistinctNames ha hb ha
  refine ⟨hsame, hsymm hsame, hloose hsame, ?_⟩
  rcases hcompare scope (.access "a".toList []) (.access "b".toList []) (by rfl) (by rfl) .looseNe
    (by decide) with ⟨answer, hanswer, -⟩ | ⟨herror, -⟩
  · cases hanswer
  · exact herror

end Value

end HtmlTemplate
