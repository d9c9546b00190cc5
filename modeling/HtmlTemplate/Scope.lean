import HtmlTemplate.Value.Basic
/-!
What an expression can name: the variables of nested scopes, of which the innermost that binds a
name decides, and the methods of the host.
-/

namespace HtmlTemplate

abbrev Method := List Value → Value

/-- Things under distinct names, in the order of the names. -/
structure Registry (α : Type) where
  entries : List (Text × α)

namespace Registry

variable {α : Type}

def empty : Registry α := ⟨[]⟩

def get? (registry : Registry α) (name : Text) : Option α := Fields.get? name registry.entries

def contains (registry : Registry α) (name : Text) : Bool := (registry.get? name).isSome

def names (registry : Registry α) : List Text := Fields.names registry.entries

/-- Puts a thing in its place among sorted entries, instead of one of the same name. -/
def place (name : Text) (a : α) : List (Text × α) → List (Text × α)
  | [] => [(name, a)]
  | (key, b) :: rest =>
      if name = key then (name, a) :: rest
      else if name < key then (name, a) :: (key, b) :: rest
      else (key, b) :: place name a rest

def register (registry : Registry α) (name : Text) (a : α) : Registry α :=
  ⟨place name a registry.entries⟩

theorem get?_place (name key : Text) (a : α) (entries : List (Text × α)) :
    Fields.get? key (place name a entries) =
      if name = key then some a else Fields.get? key entries := by
  induction entries with
  | nil => simp [place, Fields.get?]
  | cons entry entries ih =>
      obtain ⟨k, b⟩ := entry
      simp only [place]
      split
      · next hname =>
          subst hname
          by_cases hkey : name = key <;> simp [Fields.get?, hkey]
      · next hname =>
          split
          · by_cases hkey : name = key <;> simp [Fields.get?, hkey]
          · simp only [Fields.get?, ih]
            by_cases hkey : k = key
            · have hne : ¬ name = key := fun h => hname (h.trans hkey.symm)
              simp [hkey, hne]
            · simp [hkey]

theorem get?_register (registry : Registry α) (name key : Text) (a : α) :
    (registry.register name a).get? key = if name = key then some a else registry.get? key :=
  get?_place name key a registry.entries

end Registry

abbrev Methods := Registry Method

/-- Nested scopes, the innermost first, and the methods of the host. -/
structure Scope where
  frames : List Bindings
  methods : Methods

namespace Scope

def ofBindings (bindings : Bindings) (methods : Methods) : Scope := ⟨[bindings], methods⟩

def extendWith (scope : Scope) (bindings : Bindings) : Scope :=
  { scope with frames := bindings :: scope.frames }

def extend (scope : Scope) (name : Text) (value : Value) : Scope :=
  scope.extendWith [(name, value)]

/-- What a name stands for in the innermost of some scopes that binds it. -/
def find? (name : Text) : List Bindings → Option Value
  | [] => none
  | frame :: rest =>
      match Fields.get? name frame with
      | some value => some value
      | none => find? name rest

def lookup (scope : Scope) (name : Text) : Option Value := find? name scope.frames

theorem lookup_extendWith (scope : Scope) (bindings : Bindings) (name : Text) :
    (scope.extendWith bindings).lookup name =
      (Fields.get? name bindings).or (scope.lookup name) := by
  simp only [lookup, extendWith, find?]
  split <;> simp_all

end Scope

end HtmlTemplate
