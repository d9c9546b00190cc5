import Mathlib.Data.List.Forall2
import Mathlib.Data.Set.Card
import HtmlTemplate.Proofs.Markup.Attributes
/-!
Edits of attributes.  Attributes that are edited again and again answer as a map from names to
values does: at every time they have one value for each name that the map has, and none else.
-/

namespace HtmlTemplate

namespace Fields

variable {α : Type} {fields : Fields α} {name : Text}

/-- With distinct names a value that is not kept leaves its name without one. -/
theorem get?_filter_of_nodup (keep : Text → α → Bool) (hnodup : (names fields).Nodup) :
    get? name (fields.filter fun field => keep field.1 field.2) =
      (get? name fields).filter (keep name) := by
  induction fields with
  | nil => rfl
  | cons field fields ih =>
      obtain ⟨key, value⟩ := field
      obtain ⟨hkey, hnodup⟩ := List.nodup_cons.mp hnodup
      rw [List.filter_cons, get?]
      by_cases heq : key = name
      · subst heq
        have hrest : get? key (fields.filter fun field => keep field.1 field.2) = none := by
          rw [ih hnodup, get?_of_not_mem hkey, Option.filter_none]
        cases hkeep : keep key value <;> simp [get?, Option.filter, hkeep, hrest]
      · cases hkeep : keep key value <;> simp [get?, heq, ih hnodup]

theorem get?_append (fields others : Fields α) (name : Text) :
    get? name (fields ++ others) = (get? name fields).or (get? name others) := by
  induction fields with
  | nil => rw [List.nil_append, get?, Option.none_or]
  | cons field fields ih =>
      obtain ⟨key, value⟩ := field
      rw [List.cons_append, get?, get?]
      split
      · rw [Option.some_or]
      · exact ih

end Fields

namespace Attributes

variable {attributes : Attributes} {name : Text}

/-! ### Single edits -/

theorem takeIn_eq {fields : Fields Text} (hnodup : (Fields.names fields).Nodup) :
    takeIn name fields = (Fields.get? name fields, fields.filter fun field => field.1 != name) := by
  induction fields with
  | nil => rfl
  | cons field fields ih =>
      obtain ⟨key, value⟩ := field
      obtain ⟨hkey, hnodup⟩ := List.nodup_cons.mp hnodup
      rw [takeIn, Fields.get?]
      by_cases heq : key = name
      · subst heq
        have hrest := Fields.filter_ne_eq_self hkey
        simp [hrest]
      · have hkeep : ((key, value).1 != name) = true := bne_iff_ne.mpr heq
        rw [if_neg heq, if_neg heq, ih hnodup, List.filter_cons, if_pos hkeep]

/-- With distinct names an attribute that is taken is removed altogether. -/
theorem take_eq (attributes : Attributes) (name : Text) :
    attributes.take name = (attributes.get? name, attributes.remove name) := by
  have htake : takeIn name attributes.entries = _ := takeIn_eq attributes.nodup
  have hanswer := congrArg Prod.fst htake
  have hentries := congrArg Prod.snd htake
  exact Prod.ext hanswer (ext_entries hentries)

theorem get?_retain_of_nodup (keep : Text → Text → Bool) (name : Text) (attributes : Attributes) :
    (attributes.retain keep).get? name = (attributes.get? name).filter (keep name) :=
  Fields.get?_filter_of_nodup keep attributes.nodup

theorem get?_foldl_set (name : Text) (entries : Fields Text) (attributes : Attributes) :
    (entries.foldl (fun attributes entry => attributes.set entry.1 entry.2) attributes).get? name =
      (Fields.get? name entries.reverse).or (attributes.get? name) := by
  induction entries generalizing attributes with
  | nil => rfl
  | cons entry entries ih =>
      obtain ⟨key, value⟩ := entry
      rw [List.foldl_cons, ih, get?_set, List.reverse_cons, Fields.get?_append, Option.or_assoc,
        Fields.get?]
      split
      · rw [Option.some_or]
      · rw [Fields.get?, Option.none_or]

/-- Of the values of a repeated name the last one stays. -/
theorem get?_ofList (name : Text) (entries : Fields Text) :
    (ofList entries).get? name = Fields.get? name entries.reverse := by
  rw [ofList, get?_foldl_set]
  exact Option.or_none

/-! ### Attributes and maps -/

/-- Attributes stand for a map: they have the names that it has a value for, each of them once, and
with that value. -/
structure Represents (attributes : Attributes) (map : Text → Option Text) : Prop where
  nodup : attributes.names.Nodup
  get : ∀ name, attributes.get? name = map name
  contains : ∀ name, attributes.contains name = (map name).isSome
  names : ∀ name, name ∈ attributes.names ↔ (map name).isSome
  size : attributes.size = {name | (map name).isSome}.ncard
  isEmpty : attributes.isEmpty ↔ ∀ name, map name = none

theorem size_eq_ncard (attributes : Attributes) :
    attributes.size = {name | name ∈ attributes.names}.ncard := by
  have hcoe : {name | name ∈ attributes.names} = (attributes.names.toFinset : Set Text) := by
    ext name
    simp
  have hnodup : attributes.names.Nodup := attributes.nodup
  rw [hcoe, Set.ncard_coe_finset, List.toFinset_card_of_nodup hnodup, size, names, Fields.names,
    List.length_map]

theorem isEmpty_iff : attributes.isEmpty ↔ ∀ name, name ∉ attributes.names := by
  rw [← List.eq_nil_iff_forall_not_mem, isEmpty, List.isEmpty_iff, names, Fields.names,
    List.map_eq_nil_iff]

/-- Where every name stands for the right value, all else is right too. -/
theorem represents_iff {map : Text → Option Text} :
    attributes.Represents map ↔ ∀ name, attributes.get? name = map name := by
  refine ⟨Represents.get, fun h => ?_⟩
  have hnames (name : Text) : name ∈ attributes.names ↔ (map name).isSome := by
    rw [← contains_iff, contains, h name]
  exact {
    nodup := attributes.nodup
    get := h
    contains := fun name => by rw [contains, h name]
    names := hnames
    size := by simp only [size_eq_ncard, hnames]
    isEmpty := by simp only [isEmpty_iff, hnames, Option.not_isSome_iff_eq_none] }

/-! ### Sequences of edits -/

/-- A change of attributes. -/
inductive Edit where
  | set (name value : Text)
  | remove (name : Text)
  | replace (old name value : Text)
  | retain (keep : Text → Text → Bool)

namespace Edit

/-- What an edit makes of attributes.  A removal answers with the value that it removes. -/
def perform (attributes : Attributes) : Edit → Option Text × Attributes
  | set name value => (none, attributes.set name value)
  | remove name => attributes.take name
  | replace old name value => (none, attributes.replace old name value)
  | retain keep => (none, attributes.retain keep)

/-- What an edit makes of a map. -/
def performOn (map : Text → Option Text) : Edit → Option Text × (Text → Option Text)
  | set name value => (none, Function.update map name (some value))
  | remove name => (map name, Function.update map name none)
  | replace old name value =>
      (none, Function.update (Function.update map old none) name (some value))
  | retain keep => (none, fun name => (map name).filter (keep name))

/-- The answers of edits one after another, each with the state after it. -/
def trace {State : Type} (step : State → Edit → Option Text × State) (state : State) :
    List Edit → List (Option Text × State)
  | [] => []
  | edit :: edits => step state edit :: trace step (step state edit).2 edits

/-- The same answer, and attributes that stand for the map. -/
def Agrees (found : Option Text × Attributes) (wanted : Option Text × (Text → Option Text)) : Prop :=
  found.1 = wanted.1 ∧ found.2.Represents wanted.2

variable {map : Text → Option Text}

theorem agrees_perform (h : attributes.Represents map) (edit : Edit) :
    Agrees (edit.perform attributes) (edit.performOn map) := by
  cases edit with
  | set name value =>
      refine ⟨rfl, represents_iff.mpr fun key => ?_⟩
      simp only [perform, performOn, get?_set, h.get, Function.update_apply, eq_comm]
  | remove name =>
      rw [perform, take_eq]
      refine ⟨h.get name, represents_iff.mpr fun key => ?_⟩
      simp only [performOn, get?_remove, h.get, Function.update_apply, eq_comm]
  | replace old name value =>
      refine ⟨rfl, represents_iff.mpr fun key => ?_⟩
      simp only [perform, performOn, get?_replace, h.get, Function.update_apply, eq_comm]
  | retain keep =>
      refine ⟨rfl, represents_iff.mpr fun key => ?_⟩
      simp only [perform, performOn, get?_retain_of_nodup, h.get]

theorem agrees_trace (h : attributes.Represents map) (edits : List Edit) :
    List.Forall₂ Agrees (trace perform attributes edits) (trace performOn map edits) := by
  induction edits generalizing attributes map with
  | nil => exact .nil
  | cons edit edits ih =>
      have hfirst := agrees_perform h edit
      exact .cons hfirst (ih hfirst.2)

/-- Attributes that are made from a list stand for the map with the last value of each name, or with
the first where that is asked for; and edited, they give the answers that the map gives, and stand
for it after every edit. -/
theorem represents_and_agrees_trace (entries : List (Text × Text)) (edits : List Edit) :
    ((ofList entries).Represents (Fields.get? · entries.reverse) ∧
      List.Forall₂ Agrees (trace perform (ofList entries) edits)
        (trace performOn (Fields.get? · entries.reverse) edits)) ∧
    (ofFirsts entries).Represents (Fields.get? · entries) ∧
      List.Forall₂ Agrees (trace perform (ofFirsts entries) edits)
        (trace performOn (Fields.get? · entries) edits) := by
  have hlast : (ofList entries).Represents (Fields.get? · entries.reverse) :=
    represents_iff.mpr fun name => get?_ofList name entries
  have hfirst : (ofFirsts entries).Represents (Fields.get? · entries) :=
    represents_iff.mpr fun name => get?_ofFirsts name entries
  exact ⟨⟨hlast, agrees_trace hlast edits⟩, hfirst, agrees_trace hfirst edits⟩

end Edit

end Attributes

end HtmlTemplate
