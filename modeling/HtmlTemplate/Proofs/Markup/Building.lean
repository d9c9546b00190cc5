import HtmlTemplate.Proofs.Markup.Written
import HtmlTemplate.Markup.Tree
/-!
What holds of all lists of siblings that the tree builder comes to.  It is enough that it holds
where there are no nodes yet and that it is kept where a node is put behind the others or a text is
appended to them.
-/

namespace HtmlTemplate.Markup.Forest

def parent (forest : Forest) : Option Text := forest.unclosed.head?.map OpenElement.tag

theorem isVerbatim_eq (forest : Forest) :
    forest.isVerbatim = forest.parent.any isVerbatimTag := by
  rw [isVerbatim, parent, Option.any_map]

theorem isWritten_storedText (source decoded : Text) : IsWritten (storedText source decoded) := by
  rw [storedText]
  split
  · exact isWritten_normalize source
  · exact isWritten_escapeText decoded

/-- The tokens open such an element. -/
def Opens (tokens : List Token) (tag : Text) (attributes : Attributes) : Prop :=
  ∃ selfClosing, .startTag tag attributes selfClosing ∈ tokens

/-- A property of siblings and of the tag of their parent is kept where some tokens make nodes. -/
structure Keeps (tokens : List Token) (P : Option Text → List Node → Prop) : Prop where
  nil : ∀ parent, P parent []
  element : ∀ {parent nodes tag attributes children}, Opens tokens tag attributes →
    (isVoidTag tag = true → children = []) → P parent nodes → P (some tag) children →
    P parent (nodes ++ [.element tag attributes children])
  comment : ∀ {parent nodes} (content : Text), P parent nodes →
    P parent (nodes ++ [.comment content])
  text : ∀ {parent nodes text}, text ≠ [] → (parent.any isVerbatimTag = false → IsWritten text) →
    P parent nodes → P parent (appendText text nodes)

/-- An open element that the tokens have opened, with siblings in it. -/
structure HoldsOf (tokens : List Token) (P : Option Text → List Node → Prop) (e : OpenElement) :
    Prop where
  opens : Opens tokens e.tag e.attributes
  not_void : isVoidTag e.tag = false
  children : P (some e.tag) e.children

structure Holds (tokens : List Token) (P : Option Text → List Node → Prop) (forest : Forest) :
    Prop where
  roots : P none forest.roots
  unclosed : ∀ e ∈ forest.unclosed, HoldsOf tokens P e

variable {tokens : List Token} {P : Option Text → List Node → Prop} {forest : Forest}

namespace Holds

theorem modifySiblings {f : List Node → List Node} (h : forest.Holds tokens P)
    (hf : ∀ nodes, P forest.parent nodes → P forest.parent (f nodes)) :
    (forest.modifySiblings f).Holds tokens P := by
  obtain ⟨roots, unclosed⟩ := forest
  cases unclosed with
  | nil => exact ⟨hf roots h.roots, h.unclosed⟩
  | cons e outer =>
      refine ⟨h.roots, ?_⟩
      intro e' hmem
      rcases List.mem_cons.mp hmem with rfl | hmem
      · have he := h.unclosed e (List.mem_cons_self ..)
        exact ⟨he.opens, he.not_void, hf e.children he.children⟩
      · exact h.unclosed e' (List.mem_cons_of_mem e hmem)

theorem attachText {text : Text} (h : forest.Holds tokens P) (hkeeps : Keeps tokens P)
    (htext : forest.parent.any isVerbatimTag = false → IsWritten text) :
    (forest.attachText text).Holds tokens P := by
  unfold Forest.attachText
  split
  · exact h
  · next hne =>
      rw [List.isEmpty_iff] at hne
      exact h.modifySiblings fun _ hnodes => hkeeps.text hne htext hnodes

theorem closeOne (h : forest.Holds tokens P) (hkeeps : Keeps tokens P) :
    forest.closeOne.Holds tokens P := by
  obtain ⟨roots, unclosed⟩ := forest
  cases unclosed with
  | nil => exact h
  | cons e outer =>
      have houter : Holds tokens P ⟨roots, outer⟩ :=
        ⟨h.roots, fun e' hmem => h.unclosed e' (List.mem_cons_of_mem e hmem)⟩
      have he := h.unclosed e (List.mem_cons_self ..)
      refine houter.modifySiblings fun _ hnodes =>
        hkeeps.element he.opens (fun hvoid => ?_) hnodes he.children
      rw [he.not_void] at hvoid
      cases hvoid

theorem close (h : forest.Holds tokens P) (hkeeps : Keeps tokens P) (count : Nat) :
    (forest.close count).Holds tokens P := by
  induction count generalizing forest with
  | zero => exact h
  | succ count ih => exact ih (h.closeOne hkeeps)

/-- Each token keeps what holds. -/
theorem step {token : Token} (h : forest.Holds tokens P) (hkeeps : Keeps tokens P)
    (hmem : token ∈ tokens) : (forest.step token).Holds tokens P := by
  cases token with
  | startTag tag attributes selfClosing =>
      have hopens : Opens tokens tag attributes := ⟨selfClosing, hmem⟩
      rw [Forest.step]
      split
      · exact h.modifySiblings fun _ hnodes =>
          hkeeps.element hopens (fun _ => rfl) hnodes (hkeeps.nil _)
      · next hopen =>
          rw [Bool.or_eq_true, not_or] at hopen
          refine ⟨h.roots, ?_⟩
          intro e hmem
          rcases List.mem_cons.mp hmem with rfl | hmem
          · exact ⟨hopens, Bool.eq_false_iff.mpr hopen.2, hkeeps.nil _⟩
          · exact h.unclosed e hmem
  | endTag tag =>
      rw [Forest.step, Forest.closeTag]
      split
      · exact h.close hkeeps _
      · exact h
  | text source decoded =>
      refine h.attachText hkeeps fun hparent => ?_
      rw [isVerbatim_eq, hparent]
      exact isWritten_storedText source decoded
  | comment content => exact h.modifySiblings fun _ hnodes => hkeeps.comment content hnodes

theorem foldl (h : forest.Holds tokens P) (hkeeps : Keeps tokens P) {others : List Token}
    (hothers : ∀ token ∈ others, token ∈ tokens) :
    (others.foldl Forest.step forest).Holds tokens P := by
  induction others generalizing forest with
  | nil => exact h
  | cons token others ih =>
      obtain ⟨htoken, hothers⟩ := List.forall_mem_cons.mp hothers
      exact ih (h.step hkeeps htoken) hothers

end Holds

/-- What the tokens keep holds of the roots that they come to. -/
theorem Keeps.ofTokens (hkeeps : Keeps tokens P) : P none (ofTokens tokens) := by
  have hempty : Forest.empty.Holds tokens P := ⟨hkeeps.nil none, by simp [Forest.empty]⟩
  exact ((hempty.foldl hkeeps fun _ hmem => hmem).close hkeeps _).roots

end HtmlTemplate.Markup.Forest
