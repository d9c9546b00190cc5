import HtmlTemplate.Text.Basic
/-!
Named entries in the order in which their names were first inserted.
-/

namespace HtmlTemplate

abbrev Fields (α : Type) := List (Text × α)

namespace Fields

variable {α : Type}

def get? (name : Text) : Fields α → Option α
  | [] => none
  | (key, value) :: rest => if key = name then some value else get? name rest

def names (fields : Fields α) : List Text := fields.map Prod.fst

/-- Gives the name a value: where it stands if it is present, else at the end. -/
def insert (name : Text) (value : α) : Fields α → Fields α
  | [] => [(name, value)]
  | (key, old) :: rest =>
      if key = name then (key, value) :: rest else (key, old) :: insert name value rest

def erase (name : Text) (fields : Fields α) : Fields α := fields.filter fun field => field.1 != name

/-- Inserts the entries one after another, so that a repeated name keeps its first place and its
last value. -/
def ofList (entries : List (Text × α)) : Fields α :=
  entries.foldl (fun fields entry => insert entry.1 entry.2 fields) []

theorem get?_insert (name key : Text) (value : α) (fields : Fields α) :
    get? key (insert name value fields) = if name = key then some value else get? key fields := by
  induction fields with
  | nil => simp [insert, get?]
  | cons field fields ih =>
      obtain ⟨k, v⟩ := field
      by_cases hk : k = name
      · subst hk
        by_cases hkey : k = key <;> simp [insert, get?, hkey]
      · simp only [insert, if_neg hk, get?]
        by_cases hkey : k = key
        · have hname : ¬ name = key := fun h => hk (hkey.trans h.symm)
          simp [hkey, hname]
        · simp [hkey, ih]

theorem names_insert (name : Text) (value : α) (fields : Fields α) :
    names (insert name value fields) =
      if name ∈ names fields then names fields else names fields ++ [name] := by
  induction fields with
  | nil => simp [insert, names]
  | cons field fields ih =>
      obtain ⟨k, v⟩ := field
      by_cases hk : k = name
      · simp [insert, names, hk]
      · have hk' : ¬ name = k := fun h => hk h.symm
        have hcons : names (insert name value ((k, v) :: fields)) =
            k :: names (insert name value fields) := by simp [insert, names, hk]
        rw [hcons, ih]
        by_cases hmem : name ∈ names fields
        · have hmem' : name ∈ names ((k, v) :: fields) := List.mem_cons_of_mem k hmem
          rw [if_pos hmem, if_pos hmem']
          rfl
        · have hmem' : ¬ name ∈ names ((k, v) :: fields) := by
            intro h
            rcases List.mem_cons.1 h with h | h
            · exact hk' h
            · exact hmem h
          rw [if_neg hmem, if_neg hmem']
          rfl

theorem get?_of_not_mem {name : Text} {fields : Fields α} (h : name ∉ names fields) :
    get? name fields = none := by
  induction fields with
  | nil => rfl
  | cons field fields ih =>
      rw [names, List.map_cons, List.mem_cons, not_or] at h
      rw [get?, if_neg (Ne.symm h.1), ih h.2]

theorem get?_eq_none_iff {name : Text} {fields : Fields α} :
    get? name fields = none ↔ name ∉ names fields := by
  refine ⟨fun h => ?_, get?_of_not_mem⟩
  induction fields with
  | nil => simp [names]
  | cons field fields ih =>
      obtain ⟨k, v⟩ := field
      simp only [get?] at h
      split at h
      · simp at h
      · next hk =>
          intro hmem
          rcases List.mem_cons.1 hmem with heq | hmem
          · exact hk heq.symm
          · exact ih h hmem

theorem mem_names_iff {name : Text} {fields : Fields α} :
    name ∈ names fields ↔ ∃ value, get? name fields = some value := by
  rw [← Option.ne_none_iff_exists', ne_eq, get?_eq_none_iff, Decidable.not_not]

theorem insert_of_not_mem {name : Text} {value : α} {fields : Fields α}
    (h : name ∉ names fields) : insert name value fields = fields ++ [(name, value)] := by
  induction fields with
  | nil => rfl
  | cons field fields ih =>
      rw [names, List.map_cons, List.mem_cons, not_or] at h
      rw [insert, if_neg (Ne.symm h.1), ih h.2, List.cons_append]

theorem nodup_names_insert {name : Text} {value : α} {fields : Fields α}
    (h : (names fields).Nodup) : (names (insert name value fields)).Nodup := by
  rw [names_insert]
  split
  · exact h
  · next hnot =>
      rw [List.nodup_append]
      refine ⟨h, by simp, ?_⟩
      intro a ha b hb hab
      simp only [List.mem_singleton] at hb
      exact hnot (hb ▸ hab ▸ ha)

theorem nodup_names_ofList (entries : List (Text × α)) : (names (ofList entries)).Nodup := by
  have step : ∀ (fields : Fields α), (names fields).Nodup →
      (names (entries.foldl (fun fields entry => insert entry.1 entry.2 fields) fields)).Nodup := by
    induction entries with
    | nil => exact fun _ h => h
    | cons entry entries ih => exact fun fields h => ih _ (nodup_names_insert h)
  exact step [] (by simp [names])

end Fields

end HtmlTemplate
