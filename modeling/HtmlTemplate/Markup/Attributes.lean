import HtmlTemplate.Value.Fields
/-!
The attributes of an element, in the order in which they are written, with distinct names.
-/

namespace HtmlTemplate

/-- Names with their values.  No name occurs twice. -/
structure Attributes where
  entries : Fields Text
  nodup : (Fields.names entries).Nodup

namespace Attributes

def empty : Attributes := ⟨[], List.nodup_nil⟩

instance : Inhabited Attributes := ⟨empty⟩

theorem ext_entries {a b : Attributes} (h : a.entries = b.entries) : a = b := by
  cases a
  cases b
  simp_all

instance : DecidableEq Attributes := fun a b =>
  decidable_of_iff (a.entries = b.entries) ⟨ext_entries, fun h => by rw [h]⟩

def get? (attributes : Attributes) (name : Text) : Option Text :=
  Fields.get? name attributes.entries

def contains (attributes : Attributes) (name : Text) : Bool := (attributes.get? name).isSome

def names (attributes : Attributes) : List Text := Fields.names attributes.entries

def size (attributes : Attributes) : Nat := attributes.entries.length

def isEmpty (attributes : Attributes) : Bool := attributes.entries.isEmpty

/-- Gives the name a value: where it stands if it is present, else at the end. -/
def set (attributes : Attributes) (name value : Text) : Attributes :=
  ⟨Fields.insert name value attributes.entries, Fields.nodup_names_insert attributes.nodup⟩

def retain (attributes : Attributes) (keep : Text → Text → Bool) : Attributes where
  entries := attributes.entries.filter fun entry => keep entry.1 entry.2
  nodup := attributes.nodup.sublist (List.filter_sublist.map Prod.fst)

def remove (attributes : Attributes) (name : Text) : Attributes :=
  attributes.retain fun key _ => key != name

/-- The first value of a name, and the entries without the one that gives it. -/
def takeIn (name : Text) : Fields Text → Option Text × Fields Text
  | [] => (none, [])
  | (key, value) :: rest =>
      if key = name then (some value, rest)
      else ((takeIn name rest).1, (key, value) :: (takeIn name rest).2)

theorem takeIn_sublist (name : Text) (fields : Fields Text) :
    (takeIn name fields).2.Sublist fields := by
  induction fields with
  | nil => exact List.Sublist.refl []
  | cons field fields ih =>
      obtain ⟨key, value⟩ := field
      rw [takeIn]
      split
      · exact List.sublist_cons_self ..
      · exact ih.cons_cons _

/-- Removes an attribute and gives the value that it had. -/
def take (attributes : Attributes) (name : Text) : Option Text × Attributes :=
  ((takeIn name attributes.entries).1,
    ⟨(takeIn name attributes.entries).2,
      attributes.nodup.sublist ((takeIn_sublist name attributes.entries).map Prod.fst)⟩)

def renameIn (old name value : Text) : Fields Text → Fields Text
  | [] => []
  | (key, previous) :: rest =>
      if key = old then (name, value) :: rest else (key, previous) :: renameIn old name value rest

theorem mem_names_renameIn {old name value key : Text} {fields : Fields Text}
    (h : key ∈ Fields.names (renameIn old name value fields)) :
    key = name ∨ key ∈ Fields.names fields := by
  induction fields with
  | nil => simp [renameIn, Fields.names] at h
  | cons field fields ih =>
      obtain ⟨k, v⟩ := field
      simp only [renameIn] at h
      split at h
      · rcases List.mem_cons.1 h with h | h
        · exact .inl h
        · exact .inr (List.mem_cons_of_mem _ h)
      · rcases List.mem_cons.1 h with h | h
        · exact .inr (by simp [Fields.names, h])
        · rcases ih h with h | h
          · exact .inl h
          · exact .inr (List.mem_cons_of_mem _ h)

theorem nodup_names_renameIn {old name value : Text} {fields : Fields Text}
    (hname : name ∉ Fields.names fields) (h : (Fields.names fields).Nodup) :
    (Fields.names (renameIn old name value fields)).Nodup := by
  induction fields with
  | nil => simp [renameIn, Fields.names]
  | cons field fields ih =>
      obtain ⟨k, v⟩ := field
      have hparts := List.nodup_cons.1 h
      have hname' : name ∉ Fields.names fields := fun hmem => hname (List.mem_cons_of_mem _ hmem)
      simp only [renameIn]
      split
      · exact List.nodup_cons.2 ⟨hname', hparts.2⟩
      · refine List.nodup_cons.2 ⟨fun hmem => ?_, ih hname' hparts.2⟩
        rcases mem_names_renameIn hmem with heq | hmem
        · exact hname (by simp [Fields.names, ← heq])
        · exact hparts.1 hmem

theorem not_mem_names_of_get?_eq_none {name : Text} {fields : Fields Text}
    (h : Fields.get? name fields = none) : name ∉ Fields.names fields :=
  Fields.get?_eq_none_iff.1 h

/-- Puts an attribute in the place of another.  If the new name is present already, it takes the
value where it stands and the other attribute goes; if there is nothing to replace, the attribute
is added. -/
def replace (attributes : Attributes) (old name value : Text) : Attributes :=
  if h : attributes.get? name = none ∧ attributes.contains old then
    ⟨renameIn old name value attributes.entries,
      nodup_names_renameIn (not_mem_names_of_get?_eq_none h.1) attributes.nodup⟩
  else (attributes.remove old).set name value

/-- Sets the attributes one after another, so that a repeated name has its last value. -/
def ofList (entries : List (Text × Text)) : Attributes :=
  entries.foldl (fun attributes entry => attributes.set entry.1 entry.2) empty

def add (attributes : Attributes) (name value : Text) : Attributes :=
  if attributes.contains name then attributes else attributes.set name value

/-- Adds the attributes one after another, so that a repeated name has its first value. -/
def ofFirsts (entries : List (Text × Text)) : Attributes :=
  entries.foldl (fun attributes entry => attributes.add entry.1 entry.2) empty

theorem entries_add {attributes : Attributes} {name value : Text}
    (h : name ∉ attributes.names) :
    (attributes.add name value).entries = attributes.entries ++ [(name, value)] := by
  have hcontains : attributes.contains name = false := by
    rw [contains, get?, Fields.get?_of_not_mem h]
    rfl
  rw [add, hcontains]
  exact Fields.insert_of_not_mem h

theorem entries_foldl_add {attributes : Attributes} {entries : List (Text × Text)}
    (h : (Fields.names (attributes.entries ++ entries)).Nodup) :
    (entries.foldl (fun attributes entry => attributes.add entry.1 entry.2) attributes).entries =
      attributes.entries ++ entries := by
  induction entries generalizing attributes with
  | nil => simp
  | cons entry entries ih =>
      have hsplit : attributes.entries ++ entry :: entries =
          attributes.entries ++ [entry] ++ entries := by simp
      have hnew : entry.1 ∉ attributes.names := by
        rw [Fields.names, List.map_append, List.nodup_append] at h
        exact fun hmem => h.2.2 _ hmem _ (List.mem_cons_self ..) rfl
      have hadd : (attributes.add entry.1 entry.2).entries = attributes.entries ++ [entry] :=
        entries_add hnew
      rw [hsplit] at h ⊢
      rw [List.foldl_cons, ih (by rw [hadd]; exact h), hadd]

theorem ofFirsts_entries (attributes : Attributes) : ofFirsts attributes.entries = attributes :=
  ext_entries (entries_foldl_add attributes.nodup)

end Attributes

end HtmlTemplate
