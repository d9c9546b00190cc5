import HtmlTemplate.Value.Json
/-!
Values with distinct names.  A map has one value for each of its names, and so have the maps inside
of it: data that is read is of this kind, since a repeated name keeps only its last value.
-/

namespace HtmlTemplate

/-- A value of which every map, however deep inside, has distinct names. -/
inductive Value.HasDistinctNames : Value → Prop where
  | null : HasDistinctNames .null
  | bool (b : Bool) : HasDistinctNames (.bool b)
  | number (n : Number) : HasDistinctNames (.number n)
  | string (s : Text) : HasDistinctNames (.string s)
  | list {items : List Value} (hitems : ∀ item ∈ items, HasDistinctNames item) :
      HasDistinctNames (.list items)
  | map {entries : List (Text × Value)} (hnodup : (Fields.names entries).Nodup)
      (hentries : ∀ entry ∈ entries, HasDistinctNames entry.2) : HasDistinctNames (.map entries)

namespace Fields

theorem exists_of_mem_insert {α : Type} {name : Text} {value : α} {fields : Fields α}
    {entry : Text × α} (h : entry ∈ insert name value fields) :
    entry.2 = value ∨ entry ∈ fields := by
  induction fields with
  | nil =>
      rw [insert, List.mem_singleton] at h
      exact .inl (congrArg Prod.snd h)
  | cons field fields ih =>
      obtain ⟨key, old⟩ := field
      rw [insert] at h
      split at h
      · rcases List.mem_cons.mp h with rfl | hmem
        · exact .inl rfl
        · exact .inr (List.mem_cons_of_mem _ hmem)
      · rcases List.mem_cons.mp h with rfl | hmem
        · exact .inr (List.mem_cons_self ..)
        · exact (ih hmem).imp id (List.mem_cons_of_mem _)

theorem forall_mem_ofList {α : Type} {p : α → Prop} {entries : List (Text × α)}
    (h : ∀ entry ∈ entries, p entry.2) : ∀ entry ∈ ofList entries, p entry.2 := by
  have hstep (start : Fields α) (hstart : ∀ entry ∈ start, p entry.2) : ∀ entry ∈
      entries.foldl (fun fields entry => insert entry.1 entry.2 fields) start, p entry.2 := by
    induction entries generalizing start with
    | nil => exact hstart
    | cons first entries ih =>
        obtain ⟨hfirst, hrest⟩ := List.forall_mem_cons.mp h
        refine ih hrest _ fun entry hentry => ?_
        rcases exists_of_mem_insert hentry with heq | hmem
        · exact heq ▸ hfirst
        · exact hstart entry hmem
  exact hstep [] (by simp)

end Fields

namespace Json

variable {α : Type} {item : Text → Option (α × Text)} {close : Char} {p : α → Prop}
  {s rest : Text} {items : List α}

theorem forall_of_readItems (hitem : ∀ s a rest, item s = some (a, rest) → p a) {fuel : Nat}
    (h : readItems item close fuel s = some (items, rest)) : ∀ a ∈ items, p a := by
  induction fuel generalizing s items rest with
  | zero => cases h
  | succ fuel ih =>
      rw [readItems] at h
      obtain ⟨⟨first, more⟩, hfirst, h⟩ := Option.bind_eq_some_iff.mp h
      have hp := hitem _ _ _ hfirst
      dsimp only at h
      split at h
      · obtain ⟨⟨others, last⟩, hothers, h⟩ := Option.bind_eq_some_iff.mp h
        cases h
        exact List.forall_mem_cons.mpr ⟨hp, ih hothers⟩
      · split at h
        · cases h
          exact List.forall_mem_cons.mpr ⟨hp, by simp⟩
        · cases h
      · cases h

/-- Whatever holds of what is read between two brackets holds of all of it. -/
theorem forall_of_readBracketed (hitem : ∀ s a rest, item s = some (a, rest) → p a)
    (h : readBracketed item close s = some (items, rest)) : ∀ a ∈ items, p a := by
  unfold readBracketed at h
  split at h
  · cases h
  · split at h
    · cases h
      simp
    · exact forall_of_readItems hitem h

theorem exists_of_readEntry {value : Text → Option (Value × Text)} {entry : Text × Value}
    (h : readEntry value s = some (entry, rest)) :
    ∃ text, value text = some (entry.2, rest) := by
  obtain ⟨⟨name, afterName⟩, -, h⟩ := Option.bind_eq_some_iff.mp h
  dsimp only at h
  split at h
  · obtain ⟨⟨content, last⟩, hcontent, h⟩ := Option.bind_eq_some_iff.mp h
    cases h
    exact ⟨_, hcontent⟩
  · cases h

theorem hasDistinctNames_of_readValue {depth : Nat} {v : Value}
    (h : readValue depth s = some (v, rest)) : v.HasDistinctNames := by
  induction depth using Nat.strongRecOn generalizing s v rest with
  | _ depth ih =>
  revert h
  fun_cases readValue depth s with
  | case1 | case2 | case3 =>
      intro h
      cases h
      constructor
  | case4 | case7 | case8 =>
      intro h
      obtain ⟨read, -, heq⟩ := Option.map_eq_some_iff.mp h
      cases heq
      constructor
  | case5 depth tail =>
      intro h
      obtain ⟨⟨items, last⟩, hread, heq⟩ := Option.map_eq_some_iff.mp h
      cases heq
      exact .list (forall_of_readBracketed (fun _ _ _ => ih depth (Nat.lt_succ_self depth)) hread)
  | case6 depth tail =>
      intro h
      obtain ⟨⟨entries, last⟩, hread, heq⟩ := Option.map_eq_some_iff.mp h
      cases heq
      refine .map (Fields.nodup_names_ofList entries) (Fields.forall_mem_ofList ?_)
      refine forall_of_readBracketed (fun _ _ _ hentry => ?_) hread
      obtain ⟨text, hvalue⟩ := exists_of_readEntry hentry
      exact ih depth (Nat.lt_succ_self depth) hvalue

/-- Values that are read have distinct names: a repeated name keeps only its last value. -/
theorem hasDistinctNames_of_read? {v : Value} (h : read? s = some v) : v.HasDistinctNames := by
  obtain ⟨⟨value, after⟩, hvalue, h⟩ := Option.bind_eq_some_iff.mp h
  rw [Option.ite_none_right_eq_some] at h
  cases h.2
  exact hasDistinctNames_of_readValue hvalue

end Json

end HtmlTemplate
