import HtmlTemplate.Proofs.Markup.Edits
/-!
The order of edited attributes.  Every edit leaves the names that stay in the order in which they
stand, and an attribute that is given a new value or a new name keeps its place.  The one exception
is an attribute that is replaced under its own name: it goes to the end.
-/

namespace HtmlTemplate

/-- Of distinct elements those that are kept are known by which they are, and their order. -/
theorem filter_eq_of_sublist {α : Type} {kept all : List α} {keep : α → Bool} (hnodup : all.Nodup)
    (hsublist : kept.Sublist all) (hkeep : ∀ a ∈ all, keep a = true ↔ a ∈ kept) :
    all.filter keep = kept := by
  have hself : kept.filter keep = kept := by
    refine List.filter_eq_self.mpr fun a ha => ?_
    exact (hkeep a (hsublist.subset ha)).mpr ha
  have hperm : (all.filter keep).Perm kept := by
    refine (List.perm_ext_iff_of_nodup (hnodup.filter keep) (hnodup.sublist hsublist)).mpr ?_
    intro a
    rw [List.mem_filter]
    constructor
    · rintro ⟨hmem, hkept⟩
      exact (hkeep a hmem).mp hkept
    · intro hkept
      have hmem := hsublist.subset hkept
      exact ⟨hmem, (hkeep a hmem).mpr hkept⟩
  have hfilter := hsublist.filter keep
  rw [hself] at hfilter
  exact (hfilter.eq_of_length hperm.length_eq.symm).symm

theorem cons_eq_concat_iff {α : Type} {a : α} {rest : List α} (h : a ∉ rest) :
    a :: rest = rest ++ [a] ↔ (a :: rest).getLast? = some a := by
  cases rest with
  | nil => simp
  | cons next rest =>
      refine iff_of_false (fun heq => ?_) fun hlast => ?_
      · rw [List.cons_append, List.cons.injEq] at heq
        exact h (heq.1 ▸ List.mem_cons_self ..)
      · rw [List.getLast?_cons_cons] at hlast
        exact h (List.mem_of_getLast? hlast)

namespace Fields

theorem insert_of_split {α : Type} {name : Text} {before after : Fields α}
    (hbefore : name ∉ names before) (previous value : α) :
    insert name value (before ++ (name, previous) :: after) = before ++ (name, value) :: after := by
  induction before with
  | nil => rw [List.nil_append, insert, if_pos rfl, List.nil_append]
  | cons field before ih =>
      obtain ⟨key, other⟩ := field
      rw [names, List.map_cons, List.mem_cons, not_or] at hbefore
      rw [List.cons_append, insert, if_neg (Ne.symm hbefore.1), ih hbefore.2, List.cons_append]

end Fields

namespace Attributes

variable {attributes others : Attributes} {name old value previous : Text}
  {before after : Fields Text}

/-! ### The place of an attribute -/

theorem renameIn_of_split (hbefore : old ∉ Fields.names before) (name previous value : Text) :
    renameIn old name value (before ++ (old, previous) :: after) =
      before ++ (name, value) :: after := by
  induction before with
  | nil => rw [List.nil_append, renameIn, if_pos rfl, List.nil_append]
  | cons field before ih =>
      obtain ⟨key, other⟩ := field
      rw [Fields.names, List.map_cons, List.mem_cons, not_or] at hbefore
      rw [List.cons_append, renameIn, if_neg (Ne.symm hbefore.1), ih hbefore.2, List.cons_append]

theorem exists_split_of_mem (h : name ∈ attributes.names) :
    ∃ before previous after, attributes.entries = before ++ (name, previous) :: after := by
  obtain ⟨previous, hmem⟩ := mem_names_iff.mp h
  obtain ⟨before, after, hentries⟩ := List.append_of_mem hmem
  exact ⟨before, previous, after, hentries⟩

theorem entries_set (attributes : Attributes) (name value : Text) :
    (attributes.set name value).entries = Fields.insert name value attributes.entries := rfl

theorem entries_remove (attributes : Attributes) (name : Text) :
    (attributes.remove name).entries = attributes.entries.filter fun field => field.1 != name := rfl

theorem entries_set_of_not_mem (h : name ∉ attributes.names) (value : Text) :
    (attributes.set name value).entries = attributes.entries ++ [(name, value)] :=
  Fields.insert_of_not_mem h

/-- Only an attribute that is there, and whose new name is not, is renamed. -/
theorem replace_eq_set (h : name ∈ attributes.names ∨ old ∉ attributes.names) (value : Text) :
    attributes.replace old name value = (attributes.remove old).set name value := by
  rw [replace, dif_neg]
  rintro ⟨hname, hold⟩
  rw [get?_eq_none_iff] at hname
  rw [contains_iff] at hold
  rcases h with h | h
  · exact hname h
  · exact h hold

theorem entries_replace_of_not_mem (hname : name ∉ attributes.names) (hold : old ∈ attributes.names)
    (value : Text) :
    (attributes.replace old name value).entries = renameIn old name value attributes.entries := by
  rw [replace, dif_pos ⟨get?_eq_none_iff.mpr hname, contains_iff.mpr hold⟩]

section Split

variable (h : attributes.entries = before ++ (name, previous) :: after)

include h

theorem names_of_split : attributes.names = Fields.names before ++ name :: Fields.names after := by
  rw [names, h, Fields.names, List.map_append, List.map_cons]
  rfl

theorem mem_names_of_split : name ∈ attributes.names := by
  rw [names_of_split h]
  exact List.mem_append_right _ (List.mem_cons_self ..)

theorem not_mem_of_split : name ∉ Fields.names before ∧ name ∉ Fields.names after := by
  have hnodup : attributes.names.Nodup := attributes.nodup
  rw [names_of_split h] at hnodup
  obtain ⟨-, hafter, hdistinct⟩ := List.nodup_append.mp hnodup
  refine ⟨fun hmem => ?_, (List.nodup_cons.mp hafter).1⟩
  exact hdistinct name hmem name (List.mem_cons_self ..) rfl

theorem entries_set_of_split (value : Text) :
    (attributes.set name value).entries = before ++ (name, value) :: after := by
  rw [entries_set, h, Fields.insert_of_split (not_mem_of_split h).1]

theorem entries_remove_of_split : (attributes.remove name).entries = before ++ after := by
  obtain ⟨hbefore, hafter⟩ := not_mem_of_split h
  rw [entries_remove, h, List.filter_append, List.filter_cons_of_neg (by simp),
    Fields.filter_ne_eq_self hbefore, Fields.filter_ne_eq_self hafter]

/-- A new name takes the place of the old one. -/
theorem entries_replace_of_split (hnew : old ∉ attributes.names) (value : Text) :
    (attributes.replace name old value).entries = before ++ (old, value) :: after := by
  rw [entries_replace_of_not_mem hnew (mem_names_of_split h), h,
    renameIn_of_split (not_mem_of_split h).1]

/-- A name that is there has its new value where it stands. -/
theorem entries_replace_onto (hold : old ≠ name) (value : Text) :
    (attributes.replace old name value).entries =
      (before.filter fun field => field.1 != old) ++
        (name, value) :: after.filter fun field => field.1 != old := by
  have hkept : (name, previous).1 != old := bne_iff_ne.mpr (Ne.symm hold)
  have hremove : (attributes.remove old).entries = (before.filter fun field => field.1 != old) ++
      (name, previous) :: after.filter fun field => field.1 != old := by
    rw [entries_remove, h, List.filter_append, List.filter_cons, if_pos hkept]
  rw [replace_eq_set (.inl (mem_names_of_split h)), entries_set_of_split hremove]

/-- An attribute that is replaced under its own name goes to the end. -/
theorem entries_replace_self (value : Text) :
    (attributes.replace name name value).entries = before ++ after ++ [(name, value)] := by
  have hnone : name ∉ (attributes.remove name).names := fun hmem =>
    (mem_names_remove_iff.mp hmem).2 rfl
  rw [replace_eq_set (.inl (mem_names_of_split h)), entries_set_of_not_mem hnone,
    entries_remove_of_split h]

end Split

/-! ### The order of the names that stay -/

/-- The names that two elements share stand in one order. -/
def InSameOrder (attributes others : Attributes) : Prop :=
  attributes.names.filter others.contains = others.names.filter attributes.contains

instance (attributes others : Attributes) : Decidable (InSameOrder attributes others) :=
  inferInstanceAs (Decidable (_ = _))

/-- Names stand in one order if those that are shared stand so in both. -/
theorem inSameOrder_of_common {common : List Text} (hfirst : common.Sublist attributes.names)
    (hsecond : common.Sublist others.names)
    (hshared : ∀ name ∈ attributes.names, name ∈ others.names → name ∈ common) :
    InSameOrder attributes others := by
  have hleft : attributes.names.filter others.contains = common := by
    refine filter_eq_of_sublist attributes.nodup hfirst fun name hmem => ?_
    rw [contains_iff]
    exact ⟨hshared name hmem, fun h => hsecond.subset h⟩
  have hright : others.names.filter attributes.contains = common := by
    refine filter_eq_of_sublist others.nodup hsecond fun name hmem => ?_
    rw [contains_iff]
    exact ⟨fun h => hshared name h hmem, fun h => hfirst.subset h⟩
  rw [InSameOrder, hleft, hright]

theorem names_sublist_set (attributes : Attributes) (name value : Text) :
    attributes.names.Sublist (attributes.set name value).names := by
  rw [names, names, entries_set, Fields.names_insert]
  split
  · exact List.Sublist.refl _
  · exact List.sublist_append_left ..

theorem names_retain_sublist (keep : Text → Text → Bool) (attributes : Attributes) :
    (attributes.retain keep).names.Sublist attributes.names :=
  List.filter_sublist.map Prod.fst

theorem names_remove_sublist_replace (attributes : Attributes) (old name value : Text) :
    (attributes.remove old).names.Sublist (attributes.replace old name value).names := by
  by_cases h : name ∈ attributes.names ∨ old ∉ attributes.names
  · rw [replace_eq_set h]
    exact names_sublist_set ..
  · rw [not_or, Decidable.not_not] at h
    obtain ⟨before, previous, after, hentries⟩ := exists_split_of_mem h.2
    rw [names, names, entries_remove_of_split hentries, entries_replace_of_split hentries h.1]
    exact ((List.sublist_cons_self (name, value) after).append_left before).map Prod.fst

theorem inSameOrder_set (attributes : Attributes) (name value : Text) :
    InSameOrder attributes (attributes.set name value) :=
  inSameOrder_of_common (List.Sublist.refl _) (names_sublist_set ..) fun _ h _ => h

theorem inSameOrder_retain (keep : Text → Text → Bool) (attributes : Attributes) :
    InSameOrder attributes (attributes.retain keep) :=
  inSameOrder_of_common (names_retain_sublist ..) (List.Sublist.refl _) fun _ _ h => h

/-- What stays when an attribute is replaced is what stays when it is removed. -/
theorem inSameOrder_replace (h : old ≠ name ∨ old ∉ attributes.names) (value : Text) :
    InSameOrder attributes (attributes.replace old name value) := by
  have hkept : (attributes.remove old).names.Sublist attributes.names := names_retain_sublist ..
  refine inSameOrder_of_common hkept (names_remove_sublist_replace ..) fun key hkey hreplaced => ?_
  refine mem_names_remove_iff.mpr ⟨hkey, ?_⟩
  rintro rfl
  rcases mem_names_replace hreplaced with rfl | ⟨-, hne⟩
  · rcases h with h | h
    · exact h rfl
    · exact h hkey
  · exact hne rfl

/-- Where no name is new and none is gone, the order is the same if the names are. -/
theorem inSameOrder_iff_of_perm (h : attributes.names.Perm others.names) :
    InSameOrder attributes others ↔ attributes.names = others.names := by
  have hleft : attributes.names.filter others.contains = attributes.names :=
    List.filter_eq_self.mpr fun _ hmem => contains_iff.mpr (h.subset hmem)
  have hright : others.names.filter attributes.contains = others.names :=
    List.filter_eq_self.mpr fun _ hmem => contains_iff.mpr (h.symm.subset hmem)
  rw [InSameOrder, hleft, hright]

/-- An attribute that is replaced under its own name keeps its place if it is the last. -/
theorem inSameOrder_replace_self_iff (h : name ∈ attributes.names) (value : Text) :
    InSameOrder attributes (attributes.replace name name value) ↔
      attributes.names.getLast? = some name := by
  obtain ⟨before, previous, after, hentries⟩ := exists_split_of_mem h
  have hnames := names_of_split hentries
  have hreplaced : (attributes.replace name name value).names =
      Fields.names before ++ (Fields.names after ++ [name]) := by
    rw [names, entries_replace_self hentries]
    simp [Fields.names]
  have hperm : attributes.names.Perm (attributes.replace name name value).names := by
    rw [hnames, hreplaced]
    exact (List.perm_append_singleton name (Fields.names after)).symm.append_left _
  rw [inSameOrder_iff_of_perm hperm, hreplaced, hnames, List.append_cancel_left_eq,
    List.getLast?_append_cons]
  exact cons_eq_concat_iff (not_mem_of_split hentries).2

namespace Edit

/-- Whether an edit replaces an attribute that is not the last under its own name. -/
def MovesToEnd (attributes : Attributes) : Edit → Prop
  | replace old name _ =>
      old = name ∧ name ∈ attributes.names ∧ attributes.names.getLast? ≠ some name
  | set .. | remove _ | retain _ => False

theorem inSameOrder_perform_iff (attributes : Attributes) (edit : Edit) :
    InSameOrder attributes (edit.perform attributes).2 ↔ ¬ edit.MovesToEnd attributes := by
  cases edit with
  | set name value => exact iff_of_true (inSameOrder_set ..) id
  | remove name =>
      rw [perform, take_eq]
      exact iff_of_true (inSameOrder_retain ..) id
  | retain keep => exact iff_of_true (inSameOrder_retain ..) id
  | replace old name value =>
      rw [MovesToEnd]
      by_cases hself : old = name ∧ name ∈ attributes.names
      · obtain ⟨rfl, hmem⟩ := hself
        rw [perform, inSameOrder_replace_self_iff hmem]
        simp [hmem]
      · have hother : old ≠ name ∨ old ∉ attributes.names := by
          by_cases heq : old = name
          · exact .inr fun hmem => hself ⟨heq, heq ▸ hmem⟩
          · exact .inl heq
        refine iff_of_true (inSameOrder_replace hother value) ?_
        rintro ⟨heq, hmem, -⟩
        exact hself ⟨heq, hmem⟩

/-- Every edit leaves the names that stay in their order, but for one that replaces an attribute
other than the last under its own name.  A new name is set at the end; a name that is there is set
where it stands, and where it stands it replaces any other name; and a name that is not there
replaces another in its place. -/
theorem inSameOrder_and_entries (attributes : Attributes) :
    (∀ edit : Edit, InSameOrder attributes (edit.perform attributes).2 ↔
      ¬ edit.MovesToEnd attributes) ∧
    (∀ name value, name ∉ attributes.names →
      (attributes.set name value).entries = attributes.entries ++ [(name, value)]) ∧
    ∀ before name previous after, attributes.entries = before ++ (name, previous) :: after →
      ∀ value, (attributes.set name value).entries = before ++ (name, value) :: after ∧
        (∀ old, old ≠ name → (attributes.replace old name value).entries =
          (before.filter fun field => field.1 != old) ++
            (name, value) :: after.filter fun field => field.1 != old) ∧
        (∀ new, new ∉ attributes.names →
          (attributes.replace name new value).entries = before ++ (new, value) :: after) ∧
        (attributes.replace name name value).entries = before ++ after ++ [(name, value)] := by
  refine ⟨inSameOrder_perform_iff attributes, fun name value h => entries_set_of_not_mem h value,
    fun before name previous after h value => ?_⟩
  exact ⟨entries_set_of_split h value, fun old hold => entries_replace_onto h hold value,
    fun new hnew => entries_replace_of_split h hnew value, entries_replace_self h value⟩

theorem inSameOrder_and_entries_link :
    let attributes : Attributes :=
      .ofList [("id".toList, ['x']), (":href".toList, ['u']), ("title".toList, ['t'])]
    InSameOrder attributes (attributes.replace ":href".toList "href".toList ['v']) ∧
    (attributes.replace ":href".toList "href".toList ['v']).entries =
      [("id".toList, ['x']), ("href".toList, ['v']), ("title".toList, ['t'])] ∧
    (attributes.replace "id".toList "title".toList ['v']).entries =
      [(":href".toList, ['u']), ("title".toList, ['v'])] := by
  intro attributes
  obtain ⟨horder, -, hplaces⟩ := inSameOrder_and_entries attributes
  have hhref := hplaces [("id".toList, ['x'])] ":href".toList ['u'] [("title".toList, ['t'])] rfl
  have htitle := hplaces [("id".toList, ['x']), (":href".toList, ['u'])] "title".toList ['t'] [] rfl
  refine ⟨(horder (.replace ":href".toList "href".toList ['v'])).mpr ?_,
    (hhref ['v']).2.2.1 "href".toList (by decide),
    (htitle ['v']).2.1 "id".toList (by decide)⟩
  rintro ⟨hname, -⟩
  exact absurd hname (by decide)

/-- An attribute that is replaced under its own name does not keep its place. -/
theorem not_inSameOrder_replace_self :
    let attributes : Attributes := .ofList [(['a'], ['1']), (['b'], ['2'])]
    ['a'] ∈ attributes.names ∧ ¬ InSameOrder attributes (attributes.replace ['a'] ['a'] ['3']) ∧
      (attributes.replace ['a'] ['a'] ['3']).entries = [(['b'], ['2']), (['a'], ['3'])] := by
  decide

end Edit

end Attributes

end HtmlTemplate
