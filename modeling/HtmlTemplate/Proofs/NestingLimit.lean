import HtmlTemplate.Proofs.Host
import HtmlTemplate.Proofs.Simulation
import HtmlTemplate.Template.App
/-!
The nesting limit only ends renders.  Under a higher limit a render goes through the same steps, and
so it comes to the same outcome and remembers the same, unless the lower limit was met.
-/

namespace HtmlTemplate

namespace RenderM

/-- From any store, `second` does as `first` does unless `first` meets the nesting limit. -/
def Extends (limit : Nat) {α : Type} (first second : RenderM α) : Prop :=
  ∀ store, (∃ name, (first.run store).1 = .error (.tooDeep name limit)) ∨
    second.run store = first.run store

namespace Extends

variable {limit : Nat} {α β : Type}

theorem refl (limit : Nat) (m : RenderM α) : Extends limit m m := fun _ => .inr rfl

theorem bind {first second : RenderM α} {f g : α → RenderM β} (h : Extends limit first second)
    (hrest : ∀ a, Extends limit (f a) (g a)) : Extends limit (first >>= f) (second >>= g) := by
  intro store
  rcases h store with ⟨name, hname⟩ | hrun
  · exact .inl ⟨name, Outcome.run_bind_error hname⟩
  · rw [Outcome.run_bind, Outcome.run_bind, hrun]
    rcases first.run store with ⟨result, next⟩
    cases result with
    | error error => exact .inr rfl
    | ok a => exact hrest a next

end Extends

end RenderM

namespace Host

open RenderM

/-- Engines answer alike up to a limit where their components do. -/
theorem related_of_extends {limit : Nat} {first second : Instantiate}
    (h : ∀ name properties, Extends limit (first name properties) (second name properties)) :
    Related (fun _ => Extends limit) Eq (fun _ => True) (ofInstantiate first)
      (ofInstantiate second) where
  pure a := .refl limit (pure a)
  bind hfirst hrest := hfirst.bind hrest
  fail error := .refl limit (throw error)
  evaluate hst _ := by
    subst hst
    exact .refl limit _
  instantiate := h
  extend bindings hst := by rw [hst]

end Host

namespace App

open RenderM

variable {d d₂ : Nat}

/-- A component in which more others may be nested goes on where it met the limit before. -/
theorem extends_instantiate (app : App) (d d₂ : Nat) {remaining more : Nat}
    (h : remaining ≤ more) (name : Text) (properties : Bindings) :
    Extends d ({ app with limit := d }.instantiate remaining name properties)
      ({ app with limit := d₂ }.instantiate more name properties) := by
  induction remaining generalizing more name properties with
  | zero => exact fun store => .inl ⟨name, rfl⟩
  | succ remaining ih =>
      obtain ⟨more, rfl⟩ : ∃ rest, more = rest + 1 := ⟨more - 1, by omega⟩
      have hrelated := Host.related_of_extends (ih (Nat.le_of_succ_le_succ h))
      rw [instantiate, instantiate]
      dsimp only
      split
      · exact .refl d _
      · next component _ =>
          refine (Extends.refl d (component.root name)).bind fun root => ?_
          refine (Extends.refl d (component.prepare properties)).bind fun bindings => ?_
          have hnodes := hrelated.renderNodes (t := .ofBindings bindings app.methods) rfl
            (Writes.of_forall (fun _ => trivial) [root])
          rwa [Host.renderNodes_ofInstantiate, Host.renderNodes_ofInstantiate] at hnodes

theorem extends_render (app : App) (h : d ≤ d₂) (name : Text) (data : Bindings) :
    Extends d ({ app with limit := d }.render name data)
      ({ app with limit := d₂ }.render name data) := by
  have hnodes := app.extends_instantiate d d₂ (Nat.succ_le_succ h) name data
  exact hnodes.bind fun nodes => .refl d _

/-- Under a higher limit a render that succeeds has the same result, and one that fails for another
reason than the limit fails for the same reason; in both cases it remembers the same. -/
theorem render_of_limit_le (app : App) (store : Store) (name : Text) (data : Bindings)
    (h : d ≤ d₂) :
    let lower := ({ app with limit := d }.render name data).run store
    let higher := ({ app with limit := d₂ }.render name data).run store
    (∀ html, lower.1 = .ok html → higher.1 = .ok html ∧ higher.2 = lower.2) ∧
    ∀ error, lower.1 = .error error → (∀ component, error ≠ .tooDeep component d) →
      higher.1 = .error error ∧ higher.2 = lower.2 := by
  intro lower higher
  have hextends : (∃ component, lower.1 = .error (.tooDeep component d)) ∨ higher = lower :=
    app.extends_render h name data store
  constructor
  · intro html hhtml
    rcases hextends with ⟨component, hlimit⟩ | heq
    · rw [hlimit] at hhtml
      cases hhtml
    · rw [heq]
      exact ⟨hhtml, rfl⟩
  · intro error herror hother
    rcases hextends with ⟨component, hlimit⟩ | heq
    · rw [hlimit] at herror
      cases herror
      exact absurd rfl (hother component)
    · rw [heq]
      exact ⟨herror, rfl⟩

theorem render_of_limit_le_nested :
    let app := ((ofMethods .empty).register rootName (.markup "<p><x-a :t='1'/></p>".toList)
      none).register "x-a".toList (.markup "<b>{{ t }}</b>".toList) none
    let html := "<p><b>1</b></p>".toList
    1 ≤ 5 ∧ (({ app with limit := 1 }.render rootName []).run .empty).1 = .ok html ∧
    (({ app with limit := 5 }.render rootName []).run .empty).1 = .ok html := by
  intro app html
  have hlimit : 1 ≤ 5 := by decide
  have hlower : (({ app with limit := 1 }.render rootName []).run .empty).1 = .ok html :=
    Outcome.eq_ok_of_toOption (by decide +kernel)
  have hhigher := (render_of_limit_le app .empty rootName [] hlimit).1 html hlower
  exact ⟨hlimit, hlower, hhigher.1⟩

end App

end HtmlTemplate
