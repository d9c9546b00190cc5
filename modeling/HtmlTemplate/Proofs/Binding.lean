import HtmlTemplate.Proofs.Markup.Attributes
import HtmlTemplate.Proofs.Outcome
import HtmlTemplate.Template.Binding
/-!
What bindings do to the attributes of an element.  Bindings are gone through one after another in
the order of the element, and each of them changes what stands under its own name and under that of
its target, and nothing else.  So a binding that no other one of the element is mixed up with
decides its target, wherever it stands.
-/

namespace HtmlTemplate

namespace Binding

variable {scope : Scope} {attributes bound : Attributes} {key name : Text}

theorem mem_names_assign {target source : Text} {value : Value}
    (hassign : assign attributes name target source value = .ok bound) (h : key ∈ bound.names) :
    key = target ∨ (key ∈ attributes.names ∧ key ≠ name) := by
  unfold assign at hassign
  split at hassign
  · next htarget =>
      subst htarget
      dsimp only at hassign
      split at hassign <;> cases hassign
      · exact .inr (Attributes.mem_names_remove_iff.mp (Attributes.mem_names_remove_iff.mp h).1)
      · exact Attributes.mem_names_replace h
  · split at hassign <;> cases hassign
    · exact Attributes.mem_names_replace h
    · exact .inr (Attributes.mem_names_remove_iff.mp h)
    · exact .inr (Attributes.mem_names_remove_iff.mp h)
    · exact Attributes.mem_names_replace h
    · exact Attributes.mem_names_replace h

theorem mem_names_bindOne (hbind : bindOne scope attributes name = .ok bound)
    (h : key ∈ bound.names) : AttributeKind.ofName name = .binding key ∨
      (key ∈ attributes.names ∧ (key = name → AttributeKind.target? name = none)) := by
  unfold bindOne at hbind
  split at hbind
  · next target htarget =>
      obtain ⟨value, -, hassign⟩ := Outcome.bind_eq_ok_iff.mp hbind
      rcases mem_names_assign hassign h with rfl | ⟨hmem, hne⟩
      · exact .inl htarget
      · exact .inr ⟨hmem, fun heq => absurd heq hne⟩
  · next hother =>
      cases hbind
      refine .inr ⟨h, fun _ => ?_⟩
      cases htarget : AttributeKind.target? name with
      | none => rfl
      | some target =>
          exact absurd (AttributeKind.ofName_eq_binding_iff.mpr htarget) (hother target)

theorem mem_names_bindAll {names : List Text} (hbind : bindAll scope attributes names = .ok bound)
    (h : key ∈ bound.names) : (∃ name ∈ names, AttributeKind.ofName name = .binding key) ∨
      (key ∈ attributes.names ∧ (key ∈ names → AttributeKind.target? key = none)) := by
  induction names generalizing attributes with
  | nil =>
      cases hbind
      exact .inr ⟨h, nofun⟩
  | cons name names ih =>
      obtain ⟨next, hone, hall⟩ := Outcome.bind_eq_ok_iff.mp hbind
      rcases ih hall with ⟨other, hother, htarget⟩ | ⟨hmem, hnames⟩
      · exact .inl ⟨other, List.mem_cons_of_mem name hother, htarget⟩
      · rcases mem_names_bindOne hone hmem with htarget | ⟨hmem, hname⟩
        · exact .inl ⟨name, List.mem_cons_self .., htarget⟩
        · refine .inr ⟨hmem, fun hkey => ?_⟩
          rcases List.mem_cons.mp hkey with rfl | hkey
          · exact hname rfl
          · exact hnames hkey

theorem mem_names_bind (hbind : bind scope attributes = .ok bound) (h : key ∈ bound.names) :
    (∃ name ∈ attributes.names, AttributeKind.ofName name = .binding key) ∨
      (key ∈ attributes.names ∧ AttributeKind.target? key = none) :=
  (mem_names_bindAll hbind h).imp id fun ⟨hmem, hnames⟩ => ⟨hmem, hnames hmem⟩

/-- A binding changes the attributes under its own name and that of its target only. -/
theorem get?_assign {attributes bound : Attributes} {name target source key : Text} {value : Value}
    (h : assign attributes name target source value = .ok bound) (hname : key ≠ name)
    (htarget : key ≠ target) : bound.get? key = attributes.get? key := by
  have hname := Ne.symm hname
  have htarget := Ne.symm htarget
  unfold assign at h
  split at h
  · next hclass =>
      subst hclass
      dsimp only at h
      split at h <;> cases h
      · rw [Attributes.get?_remove, Attributes.get?_remove, if_neg htarget, if_neg hname]
      · rw [Attributes.get?_replace, if_neg htarget, if_neg hname]
  · split at h <;> cases h
    · rw [Attributes.get?_replace, if_neg htarget, if_neg hname]
    · rw [Attributes.get?_remove, if_neg hname]
    · rw [Attributes.get?_remove, if_neg hname]
    · rw [Attributes.get?_replace, if_neg htarget, if_neg hname]
    · rw [Attributes.get?_replace, if_neg htarget, if_neg hname]

/-! ### What stays as it is -/

theorem get?_bindOne (hbind : bindOne scope attributes name = .ok bound)
    (htarget : AttributeKind.ofName name ≠ .binding key)
    (hname : key = name → ∀ target, AttributeKind.ofName key ≠ .binding target) :
    bound.get? key = attributes.get? key := by
  unfold bindOne at hbind
  split at hbind
  · next target hkind =>
      obtain ⟨value, -, hassign⟩ := Outcome.bind_eq_ok_iff.mp hbind
      refine get?_assign hassign ?_ ?_
      · rintro rfl
        exact hname rfl target hkind
      · rintro rfl
        exact htarget hkind
  · cases hbind
    rfl

/-- What no binding gives a value to and is not a binding itself stays as it is. -/
theorem get?_bindAll {names : List Text} (hbind : bindAll scope attributes names = .ok bound)
    (htarget : ∀ name ∈ names, AttributeKind.ofName name ≠ .binding key)
    (hname : key ∈ names → ∀ target, AttributeKind.ofName key ≠ .binding target) :
    bound.get? key = attributes.get? key := by
  induction names generalizing attributes with
  | nil =>
      cases hbind
      rfl
  | cons name names ih =>
      obtain ⟨next, hone, hall⟩ := Outcome.bind_eq_ok_iff.mp hbind
      have htargets := List.forall_mem_cons.mp htarget
      have hfirst : next.get? key = attributes.get? key := by
        refine get?_bindOne hone htargets.1 ?_
        rintro rfl
        exact hname (List.mem_cons_self ..)
      have hrest := ih hall htargets.2 fun hmem => hname (List.mem_cons_of_mem name hmem)
      rw [hrest, hfirst]

theorem bindAll_append (scope : Scope) (attributes : Attributes) (first second : List Text) :
    bindAll scope attributes (first ++ second) =
      bindAll scope attributes first >>= fun bound => bindAll scope bound second := by
  induction first generalizing attributes with
  | nil => rfl
  | cons name first ih =>
      rw [List.cons_append, bindAll, bindAll]
      cases bindOne scope attributes name with
      | error error => rfl
      | ok next => exact ih next

/-! ### The target of a binding -/

/-- A binding of an element, with its source, that no other binding of the element gives a value to
and that is the only one with its target; the target is an attribute to be taken literally. -/
structure IsApart (attributes : Attributes) (name target source : Text) : Prop where
  source : attributes.get? name = some source
  kind : AttributeKind.ofName name = .binding target
  literal : AttributeKind.ofName target = .literal
  only : ∀ other ∈ attributes.names, AttributeKind.ofName other = .binding target → other = name
  unbound : ∀ other ∈ attributes.names, AttributeKind.ofName other ≠ .binding name

namespace IsApart

variable {target source : Text} (h : IsApart attributes name target source)

include h

theorem ne : target ≠ name := by
  rintro rfl
  have hkind := h.kind
  rw [h.literal] at hkind
  cases hkind

theorem mem_names : name ∈ attributes.names := Attributes.mem_names_of_get? h.source

/-- The other bindings of the element leave the binding and its target as they are. -/
theorem get?_of_bindAll {start : Attributes} {names : List Text}
    (hnames : ∀ other ∈ names, other ∈ attributes.names ∧ other ≠ name)
    (hbind : bindAll scope start names = .ok bound) :
    bound.get? name = start.get? name ∧ bound.get? target = start.get? target := by
  constructor
  · refine get?_bindAll hbind (fun other hother => h.unbound other (hnames other hother).1) ?_
    intro hmem
    exact absurd rfl (hnames name hmem).2
  · refine get?_bindAll hbind (fun other hother hkind => ?_) fun _ found hkind => ?_
    · obtain ⟨hmem, hne⟩ := hnames other hother
      exact hne (h.only other hmem hkind)
    · rw [h.literal] at hkind
      cases hkind

theorem exists_names_eq : ∃ before after, attributes.names = before ++ name :: after ∧
    (∀ other ∈ before, other ∈ attributes.names ∧ other ≠ name) ∧
    ∀ other ∈ after, other ∈ attributes.names ∧ other ≠ name := by
  obtain ⟨before, after, hnames⟩ := List.append_of_mem h.mem_names
  have hnodup : (before ++ name :: after).Nodup := hnames ▸ attributes.nodup
  obtain ⟨-, hafter, hdistinct⟩ := List.nodup_append.mp hnodup
  refine ⟨before, after, hnames, fun other hother => ?_, fun other hother => ?_⟩
  · exact ⟨by simp [hnames, hother], hdistinct other hother name (List.mem_cons_self ..)⟩
  · refine ⟨by simp [hnames, hother], ?_⟩
    rintro rfl
    exact (List.nodup_cons.mp hafter).1 hother

theorem bindOne_eq {start : Attributes} {value : Value} (hstart : start.get? name = some source)
    (hvalue : scope.evaluate source = .ok value) :
    bindOne scope start name = assign start name target source value := by
  unfold bindOne
  rw [h.kind]
  simp only [hstart, Option.getD_some, hvalue]
  rfl

end IsApart

/-- What a binding puts in the place of what stood under its target. -/
def decided (before : Option Text) : Value → Option Text
  | .bool true => some []
  | .bool false | .null => before
  | value => some value.display

theorem get?_assign_target {target source : Text} {value : Value} (hclass : target ≠ className)
    (hassign : assign attributes name target source value = .ok bound) (hne : target ≠ name) :
    bound.get? name = none ∧ bound.get? target = decided (attributes.get? target) value := by
  have hne' := Ne.symm hne
  unfold assign at hassign
  rw [if_neg hclass] at hassign
  split at hassign <;> cases hassign
  · simp [Attributes.get?_replace, decided, hne]
  · simp [Attributes.get?_remove, decided, hne']
  · simp [Attributes.get?_remove, decided, hne']
  · simp [Attributes.get?_replace, decided, hne]
  · simp [Attributes.get?_replace, decided, hne]

theorem assign_collection {target source : Text} {value : Value} (hclass : target ≠ className)
    (hvalue : (∃ items, value = .list items) ∨ ∃ entries, value = .map entries) :
    assign attributes name target source value =
      .error (.collectionBinding target source.trim) := by
  unfold assign
  rw [if_neg hclass]
  rcases hvalue with ⟨items, rfl⟩ | ⟨entries, rfl⟩ <;> rfl

/-- A binding decides its target: true leaves it without a value, a number or a text leave their
written form, and false and null leave what stands there beside the binding.  The binding itself is
gone.  A collection is an error, unless a binding before it has failed. -/
theorem bind_of_isApart {target source : Text} {value : Value}
    (h : IsApart attributes name target source) (hclass : target ≠ className)
    (hvalue : scope.evaluate source = .ok value) :
    (∀ bound, bind scope attributes = .ok bound →
      name ∉ bound.names ∧
      (value = .bool false ∨ value = .null → bound.get? target = attributes.get? target) ∧
      (value = .bool true → bound.get? target = some []) ∧
      ((∃ number, value = .number number) ∨ (∃ text, value = .string text) →
        bound.get? target = some value.display)) ∧
    ((∃ items, value = .list items) ∨ (∃ entries, value = .map entries) →
      ∃ before after, attributes.names = before ++ name :: after ∧
        bind scope attributes = bindAll scope attributes before >>= fun _ =>
          .error (.collectionBinding target source.trim)) := by
  -- The bindings before this one leave it its source, and those after it leave what it has done.
  obtain ⟨before, after, hnames, hbefore, hafter⟩ := h.exists_names_eq
  have hbind : bind scope attributes = bindAll scope attributes before >>= fun middle =>
      bindOne scope middle name >>= fun next => bindAll scope next after := by
    rw [bind, hnames, bindAll_append]
    rfl
  have hmiddle (middle : Attributes) (hmiddle : bindAll scope attributes before = .ok middle) :
      bindOne scope middle name = assign middle name target source value := by
    have hkept := h.get?_of_bindAll hbefore hmiddle
    exact h.bindOne_eq (hkept.1.trans h.source) hvalue
  constructor
  · intro bound hbound
    rw [hbind] at hbound
    obtain ⟨middle, hfirst, hbound⟩ := Outcome.bind_eq_ok_iff.mp hbound
    obtain ⟨next, hone, hlast⟩ := Outcome.bind_eq_ok_iff.mp hbound
    rw [hmiddle middle hfirst] at hone
    obtain ⟨hname, htarget⟩ := get?_assign_target hclass hone h.ne
    obtain ⟨hname', htarget'⟩ := h.get?_of_bindAll hafter hlast
    have hdecided : bound.get? target = decided (attributes.get? target) value := by
      rw [htarget', htarget, (h.get?_of_bindAll hbefore hfirst).2]
    refine ⟨Attributes.get?_eq_none_iff.mp (hname'.trans hname), ?_, ?_, ?_⟩
    · rintro (rfl | rfl) <;> exact hdecided
    · rintro rfl
      exact hdecided
    · rintro (⟨number, rfl⟩ | ⟨text, rfl⟩) <;> exact hdecided
  · intro hcollection
    refine ⟨before, after, hnames, ?_⟩
    rw [hbind]
    cases hfirst : bindAll scope attributes before with
    | error error => rfl
    | ok middle =>
        rw [Outcome.ok_bind, Outcome.ok_bind, hmiddle middle hfirst,
          assign_collection hclass hcollection]
        rfl

theorem bind_of_isApart_string :
    let attributes : Attributes := .ofList [(":id".toList, "n".toList), ("title".toList, ['a']),
      ("v-bind:title".toList, "t".toList), ("class".toList, ['c'])]
    let scope : Scope := .ofBindings [("n".toList, .null), ("t".toList, .string ['b'])] .empty
    IsApart attributes "v-bind:title".toList "title".toList "t".toList ∧
    ∃ bound, bind scope attributes = .ok bound ∧ "v-bind:title".toList ∉ bound.names ∧
      bound.get? "title".toList = some ['b'] := by
  intro attributes scope
  have hapart : IsApart attributes "v-bind:title".toList "title".toList "t".toList :=
    ⟨by decide, by decide, by decide, by decide, by decide⟩
  have hvalue : scope.evaluate "t".toList = .ok (.string ['b']) := by rfl
  have hbind : ∃ bound ∈ (bind scope attributes).toOption, True := by decide +kernel
  obtain ⟨bound, hbound, -⟩ := hbind
  have hbound := Outcome.eq_ok_of_toOption hbound
  obtain ⟨hname, -, -, htarget⟩ :=
    (bind_of_isApart hapart (by decide) hvalue).1 bound hbound
  exact ⟨hapart, bound, hbound, hname, htarget (.inr ⟨_, rfl⟩)⟩

/-- A binding to null leaves an attribute that stands beside it. -/
theorem get?_of_bind_null :
    let attributes : Attributes := .ofList [("title".toList, ['a']), (":title".toList, "null".toList)]
    let scope : Scope := .ofBindings [] .empty
    IsApart attributes ":title".toList "title".toList "null".toList ∧
    scope.evaluate "null".toList = .ok .null ∧
    ∃ bound, bind scope attributes = .ok bound ∧ bound.get? "title".toList = some ['a'] := by
  intro attributes scope
  have hbind : ∃ bound ∈ (bind scope attributes).toOption,
      bound.get? "title".toList = some ['a'] := by decide +kernel
  obtain ⟨bound, hbound, htitle⟩ := hbind
  exact ⟨⟨by decide, by decide, by decide, by decide, by decide⟩, by rfl, bound,
    Outcome.eq_ok_of_toOption hbound, htitle⟩

end Binding

end HtmlTemplate
