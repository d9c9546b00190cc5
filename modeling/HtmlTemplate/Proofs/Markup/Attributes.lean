import HtmlTemplate.Markup.Attributes
import HtmlTemplate.Template.Naming
/-!
Attributes as a map.  Every operation is described by the names that it leaves, and by what a name
stands for after it.  A name is of the kind that its first characters tell.
-/

namespace HtmlTemplate

namespace Fields

variable {α : Type} {fields : Fields α} {name : Text} {value : α}

theorem mem_of_get? (h : get? name fields = some value) : (name, value) ∈ fields := by
  induction fields with
  | nil => cases h
  | cons field fields ih =>
      obtain ⟨k, v⟩ := field
      rw [get?] at h
      split at h
      · next hk =>
          cases h
          rw [hk]
          exact List.mem_cons_self ..
      · exact List.mem_cons_of_mem _ (ih h)

theorem get?_of_mem (hnodup : (names fields).Nodup) (h : (name, value) ∈ fields) :
    get? name fields = some value := by
  induction fields with
  | nil => cases h
  | cons field fields ih =>
      obtain ⟨k, v⟩ := field
      obtain ⟨hk, hnodup⟩ := List.nodup_cons.mp hnodup
      rw [get?]
      rcases List.mem_cons.mp h with heq | hmem
      · cases heq
        rw [if_pos rfl]
      · rw [if_neg, ih hnodup hmem]
        rintro rfl
        exact hk (List.mem_map.mpr ⟨(k, value), hmem, rfl⟩)

/-- The order of distinct names does not count for what they stand for. -/
theorem get?_eq_of_perm {others : Fields α} (h : fields.Perm others)
    (hnodup : (names fields).Nodup) (name : Text) : get? name fields = get? name others := by
  have hothers : (names others).Nodup := (h.map Prod.fst).nodup_iff.mp hnodup
  apply Option.ext
  intro value
  constructor
  · intro hvalue
    exact get?_of_mem hothers (h.mem_iff.mp (mem_of_get? hvalue))
  · intro hvalue
    exact get?_of_mem hnodup (h.mem_iff.mpr (mem_of_get? hvalue))

theorem filter_ne_eq_self (h : name ∉ names fields) :
    (fields.filter fun field => field.1 != name) = fields := by
  refine List.filter_eq_self.mpr fun field hmem => bne_iff_ne.mpr fun heq => ?_
  exact h (List.mem_map.mpr ⟨field, hmem, heq⟩)

theorem get?_filter (keep : Text → Bool) (key : Text) (fields : Fields α) :
    get? key (fields.filter fun field => keep field.1) =
      if keep key then get? key fields else none := by
  induction fields with
  | nil => simp [get?]
  | cons field fields ih =>
      obtain ⟨k, v⟩ := field
      by_cases hk : k = key
      · subst hk
        cases hkeep : keep k <;> simp [get?, hkeep, ih]
      · cases hkeep : keep k <;> simp [get?, hkeep, hk, ih]

end Fields

namespace Attributes

variable {attributes : Attributes} {key name : Text}

theorem mem_names_iff : key ∈ attributes.names ↔ ∃ value, (key, value) ∈ attributes.entries := by
  simp [names, Fields.names]

theorem get?_eq_none_iff : attributes.get? name = none ↔ name ∉ attributes.names :=
  Fields.get?_eq_none_iff

theorem contains_iff : attributes.contains name = true ↔ name ∈ attributes.names := by
  rw [contains, Option.isSome_iff_ne_none, ne_eq, get?_eq_none_iff, Decidable.not_not]

theorem mem_names_of_get? {value : Text} (h : attributes.get? name = some value) :
    name ∈ attributes.names := by
  rw [← contains_iff, contains, h, Option.isSome_some]

theorem mem_entries_of_mem_retain {keep : Text → Text → Bool} {entry : Text × Text}
    (h : entry ∈ (attributes.retain keep).entries) : entry ∈ attributes.entries :=
  List.filter_sublist.subset h

theorem mem_entries_of_mem_remove {entry : Text × Text}
    (h : entry ∈ (attributes.remove name).entries) : entry ∈ attributes.entries :=
  mem_entries_of_mem_retain h

theorem mem_names_retain_iff {keep : Text → Bool} :
    key ∈ (attributes.retain fun name _ => keep name).names ↔
      key ∈ attributes.names ∧ keep key = true := by
  simp [mem_names_iff, retain]

theorem mem_names_remove_iff : key ∈ (attributes.remove name).names ↔
    key ∈ attributes.names ∧ key ≠ name := by
  rw [remove, mem_names_retain_iff, bne_iff_ne]

theorem retain_eq_self {keep : Text → Bool} (h : ∀ name ∈ attributes.names, keep name = true) :
    (attributes.retain fun name _ => keep name) = attributes := by
  apply ext_entries
  refine List.filter_eq_self.mpr fun entry hentry => ?_
  exact h entry.1 (List.mem_map_of_mem hentry)

theorem remove_eq_self {name : Text} (h : name ∉ attributes.names) :
    attributes.remove name = attributes := by
  refine retain_eq_self fun key hkey => bne_iff_ne.mpr ?_
  rintro rfl
  exact h hkey

theorem mem_names_set {value : Text} (h : key ∈ (attributes.set name value).names) :
    key = name ∨ key ∈ attributes.names := by
  rw [names, set, Fields.names_insert] at h
  split at h
  · exact .inr h
  · rcases List.mem_append.mp h with h | h
    · exact .inr h
    · exact .inl (List.mem_singleton.mp h)

theorem ne_of_mem_names_renameIn {old value : Text} {fields : Fields Text}
    (hnodup : (Fields.names fields).Nodup)
    (h : key ∈ Fields.names (renameIn old name value fields)) : key = name ∨ key ≠ old := by
  induction fields with
  | nil => cases h
  | cons field fields ih =>
      obtain ⟨k, v⟩ := field
      obtain ⟨hk, hnodup⟩ := List.nodup_cons.mp hnodup
      rw [renameIn] at h
      split at h
      · next hold =>
          subst hold
          rcases List.mem_cons.mp h with h | h
          · exact .inl h
          · right
            rintro rfl
            exact hk h
      · next hold =>
          rcases List.mem_cons.mp h with hkey | hmem
          · right
            rintro rfl
            exact hold hkey.symm
          · exact ih hnodup hmem

theorem mem_names_replace {old value : Text} (h : key ∈ (attributes.replace old name value).names) :
    key = name ∨ (key ∈ attributes.names ∧ key ≠ old) := by
  unfold replace at h
  split at h
  · rcases mem_names_renameIn h with hname | hmem
    · exact .inl hname
    · exact (ne_of_mem_names_renameIn attributes.nodup h).imp id fun hold => ⟨hmem, hold⟩
  · exact (mem_names_set h).imp id mem_names_remove_iff.mp

theorem get?_retain (keep : Text → Bool) (key : Text) (attributes : Attributes) :
    (attributes.retain fun name _ => keep name).get? key =
      if keep key then attributes.get? key else none :=
  Fields.get?_filter keep key attributes.entries

theorem get?_remove (name key : Text) (attributes : Attributes) :
    (attributes.remove name).get? key = if name = key then none else attributes.get? key := by
  rw [remove, get?_retain]
  by_cases hkey : name = key
  · simp [hkey]
  · simp [hkey, Ne.symm hkey]

theorem get?_set (name key value : Text) (attributes : Attributes) :
    (attributes.set name value).get? key =
      if name = key then some value else attributes.get? key :=
  Fields.get?_insert name key value attributes.entries

theorem get?_add (name key value : Text) (attributes : Attributes) :
    (attributes.add name value).get? key =
      (attributes.get? key).or (if name = key then some value else none) := by
  rw [add]
  split
  · next hcontains =>
      split
      · next hkey =>
          rw [contains, hkey] at hcontains
          rw [Option.or_of_isSome hcontains]
      · rw [Option.or_none]
  · next hcontains =>
      rw [get?_set]
      split
      · next hkey =>
          rw [contains, hkey, Option.isSome_iff_ne_none, Decidable.not_not] at hcontains
          rw [hcontains, Option.none_or]
      · rw [Option.or_none]

theorem get?_foldl_add (key : Text) (entries : Fields Text) (attributes : Attributes) :
    (entries.foldl (fun attributes entry => attributes.add entry.1 entry.2) attributes).get? key =
      (attributes.get? key).or (Fields.get? key entries) := by
  induction entries generalizing attributes with
  | nil => simp [Fields.get?]
  | cons entry entries ih =>
      obtain ⟨name, value⟩ := entry
      rw [List.foldl_cons, ih, get?_add, Option.or_assoc, Fields.get?]
      split <;> simp

/-- Of the values of a repeated name the first one stays. -/
theorem get?_ofFirsts (key : Text) (entries : Fields Text) :
    (ofFirsts entries).get? key = Fields.get? key entries := by
  rw [ofFirsts, get?_foldl_add]
  rfl

theorem get?_renameIn {old value : Text} {fields : Fields Text} (key : Text)
    (hnodup : (Fields.names fields).Nodup) (hname : name ∉ Fields.names fields)
    (hold : old ∈ Fields.names fields) :
    Fields.get? key (renameIn old name value fields) =
      if name = key then some value else if old = key then none else Fields.get? key fields := by
  induction fields with
  | nil => cases hold
  | cons field fields ih =>
      obtain ⟨k, v⟩ := field
      obtain ⟨hk, hnodup⟩ := List.nodup_cons.mp hnodup
      rw [Fields.names, List.map_cons, List.mem_cons, not_or] at hname
      rw [renameIn]
      split
      · next heq =>
          subst heq
          rw [Fields.get?]
          split
          · rfl
          · split
            · next hkey =>
                subst hkey
                exact Fields.get?_of_not_mem hk
            · next hkey => rw [Fields.get?, if_neg hkey]
      · next hne =>
          have hold : old ∈ Fields.names fields := by
            rcases List.mem_cons.mp hold with heq | hmem
            · exact absurd heq.symm hne
            · exact hmem
          rw [Fields.get?, Fields.get?, ih hnodup hname.2 hold]
          by_cases hkey : k = key
          · subst hkey
            rw [if_pos rfl, if_neg hname.1, if_neg (Ne.symm hne), if_pos rfl]
          · rw [if_neg hkey, if_neg hkey]

theorem get?_replace (old name value key : Text) (attributes : Attributes) :
    (attributes.replace old name value).get? key =
      if name = key then some value else if old = key then none else attributes.get? key := by
  unfold replace
  split
  · next h =>
      exact get?_renameIn key attributes.nodup (get?_eq_none_iff.mp h.1) (contains_iff.mp h.2)
  · rw [get?_set, get?_remove]

end Attributes

namespace AttributeKind

variable {key : Text}

theorem ofName_eq_binding_iff {target : Text} :
    ofName key = .binding target ↔ target? key = some target := by
  unfold ofName
  split
  · next found hfound => simp [hfound]
  · next hnone =>
      rw [hnone]
      split
      · simp
      · split <;> simp

theorem eq_name_of_ofName {directive : Directive} (h : ofName key = .directive directive) :
    key = directive.name := by
  unfold ofName at h
  split at h
  · cases h
  · split at h
    · cases h
    · split at h
      · next hfound =>
          cases h
          have hname := List.find?_some hfound
          exact (of_decide_eq_true hname).symm
      · cases h

end AttributeKind

end HtmlTemplate
