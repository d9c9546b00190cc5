import HtmlTemplate.Template.Store
/-!
Success of computations that are made of steps: a sequence of two steps succeeds where both of them
do, and the second starts from what the first remembered.  It fails with the error of the first step
that does.
-/

namespace HtmlTemplate

namespace Outcome

variable {ε α β : Type}

theorem bind_eq_ok_iff {first : Except ε α} {second : α → Except ε β} {b : β} :
    first >>= second = .ok b ↔ ∃ a, first = .ok a ∧ second a = .ok b := by
  cases first with
  | error error => simp [bind, Except.bind]
  | ok a => simp [bind, Except.bind]

theorem bind_eq_error_iff {first : Except ε α} {second : α → Except ε β} {error : ε} :
    first >>= second = .error error ↔
      first = .error error ∨ ∃ a, first = .ok a ∧ second a = .error error := by
  cases first with
  | error error => simp [bind, Except.bind]
  | ok a => simp [bind, Except.bind]

theorem map_eq_error_iff {f : α → β} {r : Except ε α} {error : ε} :
    r.map f = .error error ↔ r = .error error := by
  cases r <;> simp [Except.map]

theorem ok_bind (a : α) (f : α → Except ε β) : Except.ok a >>= f = f a := rfl

theorem eq_ok_of_toOption {r : Except ε α} {a : α} (h : r.toOption = some a) : r = .ok a := by
  cases r with
  | error error => cases h
  | ok b =>
      cases h
      rfl

/-- The second step of a sequence starts from the state that the first comes to, unless the first
fails. -/
theorem run_bind {σ : Type} (m : ExceptT ε (StateM σ) α) (f : α → ExceptT ε (StateM σ) β) (s : σ) :
    (m >>= f).run s =
      match m.run s with
      | (.ok a, next) => (f a).run next
      | (.error error, next) => (.error error, next) := by
  show (match m.run s with | (r, next) => (ExceptT.bindCont f r) next) = _
  rcases m.run s with ⟨r, next⟩
  cases r <;> rfl

theorem run_bind_error {σ : Type} {m : ExceptT ε (StateM σ) α} {f : α → ExceptT ε (StateM σ) β}
    {s : σ} {error : ε} (h : (m.run s).1 = .error error) : ((m >>= f).run s).1 = .error error := by
  rw [run_bind]
  generalize m.run s = outcome at h
  obtain ⟨result, next⟩ := outcome
  cases h
  rfl

section Run

variable {σ : Type} {m : ExceptT ε (StateM σ) α} {f : α → ExceptT ε (StateM σ) β} {s last : σ}

theorem run_bind_eq_ok_iff {b : β} :
    (m >>= f).run s = (.ok b, last) ↔
      ∃ a middle, m.run s = (.ok a, middle) ∧ (f a).run middle = (.ok b, last) := by
  rw [run_bind]
  rcases m.run s with ⟨error | a, next⟩
  · constructor
    · rintro ⟨⟩
    · rintro ⟨a, middle, ⟨⟩, -⟩
  · constructor
    · intro h
      exact ⟨a, next, rfl, h⟩
    · rintro ⟨a, middle, ⟨⟩, h⟩
      exact h

theorem run_bind_eq_error_iff {error : ε} :
    (m >>= f).run s = (.error error, last) ↔
      m.run s = (.error error, last) ∨
        ∃ a middle, m.run s = (.ok a, middle) ∧ (f a).run middle = (.error error, last) := by
  rw [run_bind]
  rcases m.run s with ⟨found | a, next⟩
  · constructor
    · rintro ⟨⟩
      exact .inl rfl
    · rintro (⟨⟨⟩⟩ | ⟨a, middle, ⟨⟩, -⟩)
      rfl
  · constructor
    · intro h
      exact .inr ⟨a, next, rfl, h⟩
    · rintro (⟨⟨⟩⟩ | ⟨a, middle, ⟨⟩, h⟩)
      exact h

theorem exists_run_of_toOption {γ : Type} {g : α → γ} {c : γ}
    (h : (m.run s).1.toOption.map g = some c) :
    ∃ a last, m.run s = (.ok a, last) ∧ g a = c := by
  generalize m.run s = outcome at h
  obtain ⟨result, last⟩ := outcome
  obtain ⟨a, ha, hg⟩ := Option.map_eq_some_iff.mp h
  obtain rfl := eq_ok_of_toOption ha
  exact ⟨a, last, rfl, hg⟩

end Run

end Outcome

namespace RenderM

variable {α β : Type} {I : Store → Prop} {Q : α → Prop} {R : β → Prop}

/-- A step keeps an invariant of what is remembered, also where it fails, and what it comes to
satisfies `Q`. -/
def Ensures (I : Store → Prop) (Q : α → Prop) (m : RenderM α) : Prop :=
  ∀ store, I store → I (m.run store).2 ∧ ∀ a, (m.run store).1 = .ok a → Q a

theorem ofExcept_ok_bind (a : α) (f : α → RenderM β) : ofExcept (.ok a) >>= f = f a := rfl

theorem run_ofExcept_bind_eq_ok_iff {r : Except RenderError α} {f : α → RenderM β}
    {store last : Store} {b : β} :
    (ofExcept r >>= f).run store = (.ok b, last) ↔
      ∃ a, r = .ok a ∧ (f a).run store = (.ok b, last) := by
  cases r with
  | error error =>
      constructor
      · rintro ⟨⟩
      · rintro ⟨a, ⟨⟩, -⟩
  | ok a =>
      constructor
      · intro h
        exact ⟨a, rfl, h⟩
      · rintro ⟨a, ⟨⟩, h⟩
        exact h

theorem Ensures.pure {a : α} (h : Q a) : Ensures I Q (pure a) := by
  intro store hstore
  refine ⟨hstore, ?_⟩
  rintro b ⟨⟩
  exact h

theorem Ensures.imp {P : α → Prop} {m : RenderM α} (h : Ensures I P m) (himp : ∀ a, P a → Q a) :
    Ensures I Q m := by
  intro store hstore
  obtain ⟨hnext, hvalue⟩ := h store hstore
  exact ⟨hnext, fun a ha => himp a (hvalue a ha)⟩

theorem Ensures.throw {error : RenderError} : Ensures I Q (throw error) := by
  intro store hstore
  refine ⟨hstore, ?_⟩
  rintro a ⟨⟩

theorem Ensures.ofExcept {r : Except RenderError α} (h : ∀ a, r = .ok a → Q a) :
    Ensures I Q (ofExcept r) := by
  intro store hstore
  exact ⟨hstore, h⟩

theorem Ensures.bind {m : RenderM α} {f : α → RenderM β} (hm : Ensures I Q m)
    (hf : ∀ a, Q a → Ensures I R (f a)) : Ensures I R (m >>= f) := by
  intro store hstore
  obtain ⟨hnext, hvalue⟩ := hm store hstore
  rw [Outcome.run_bind]
  generalize m.run store = outcome at hnext hvalue
  obtain ⟨r, next⟩ := outcome
  cases r with
  | error error =>
      refine ⟨hnext, ?_⟩
      rintro b ⟨⟩
  | ok a => exact hf a (hvalue a rfl) next hnext

theorem Ensures.get_bind {f : Store → RenderM β} (h : ∀ store, I store → Ensures I R (f store)) :
    Ensures I R (get >>= f) := by
  intro store hstore
  exact h store hstore store hstore

theorem Ensures.set_bind {store : Store} {f : PUnit → RenderM β} (hstore : I store)
    (hf : Ensures I R (f ⟨⟩)) : Ensures I R (set store >>= f) := by
  intro _ _
  exact hf store hstore

end RenderM

end HtmlTemplate
