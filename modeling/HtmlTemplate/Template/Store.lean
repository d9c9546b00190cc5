import HtmlTemplate.Template.Error
/-!
What is remembered between renders: for each registered component the root of its template, once
that has been loaded, and how often its template was asked for and its setup was run.
-/

namespace HtmlTemplate

structure Record where
  root : Option Node
  loads : Nat
  setups : Nat
  deriving Inhabited

def Record.fresh : Record := ⟨none, 0, 0⟩

structure Store where
  records : List (Nat × Record)

namespace Store

def empty : Store := ⟨[]⟩

def find? (id : Nat) : List (Nat × Record) → Option Record
  | [] => none
  | (key, record) :: rest => if key = id then some record else find? id rest

/-- The record of a component, fresh where nothing was remembered yet. -/
def get (store : Store) (id : Nat) : Record := (find? id store.records).getD .fresh

def put (id : Nat) (record : Record) : List (Nat × Record) → List (Nat × Record)
  | [] => [(id, record)]
  | (key, old) :: rest =>
      if key = id then (id, record) :: rest else (key, old) :: put id record rest

def set (store : Store) (id : Nat) (record : Record) : Store := ⟨put id record store.records⟩

theorem find?_put (id key : Nat) (record : Record) (records : List (Nat × Record)) :
    find? key (put id record records) = if id = key then some record else find? key records := by
  induction records with
  | nil => simp [put, find?]
  | cons entry records ih =>
      obtain ⟨k, old⟩ := entry
      simp only [put]
      split
      · next hk =>
          subst hk
          by_cases hkey : k = key <;> simp [find?, hkey]
      · next hk =>
          simp only [find?, ih]
          by_cases hkey : k = key
          · have hne : ¬ id = key := fun h => hk (hkey.trans h.symm)
            simp [hkey, hne]
          · simp [hkey]

theorem get_set (store : Store) (id key : Nat) (record : Record) :
    (store.set id record).get key = if id = key then record else store.get key := by
  simp only [get, set, find?_put]
  split <;> simp

end Store

/-- A step of rendering, which may fail.  What was remembered before a failure stays. -/
abbrev RenderM := ExceptT RenderError (StateM Store)

namespace RenderM

/-- The outcome of a computation that remembers nothing. -/
def ofExcept {α : Type} (result : Except RenderError α) : RenderM α := ExceptT.mk (pure result)

end RenderM

end HtmlTemplate
