import HtmlTemplate.Markup.Serialize
import HtmlTemplate.Proofs.Markup.Written
/-!
Nodes in the form in which they are read from a source.  Names are in lower case, texts are in their
written form and apart from each other, and nothing is contained that would end a comment or a
verbatim text.
-/

namespace HtmlTemplate.Markup

/-- A text without line breaks and characters that are replaced where they are read. -/
def IsClean (s : Text) : Prop := '\r' ∉ s ∧ '\x00' ∉ s

instance (s : Text) : Decidable (IsClean s) := inferInstanceAs (Decidable (_ ∧ _))

def isTagName : Text → Bool
  | [] => false
  | c :: rest => c.isLower && rest.all fun d => d.isLower || d.isDigit || d = '-'

def isAttributeChar (c : Char) : Bool := c.isLower || c.isDigit || "-_.:@".toList.contains c

/-- A name and a value as they are read from a tag. -/
structure IsAttribute (name value : Text) : Prop where
  name_ne_nil : name ≠ []
  name : ∀ c ∈ name, isAttributeChar c = true
  value : IsClean value

theorem isAttribute_of_mem_empty :
    ∀ entry ∈ Attributes.empty.entries, IsAttribute entry.1 entry.2 := by
  simp [Attributes.empty]

/-- What may stand in a comment. -/
structure IsComment (content : Text) : Prop where
  clean : IsClean content
  dashes : ¬ ['-', '-'] <:+: content
  bracket : ¬ ['>'] <+: content
  arrow : ¬ ['-', '>'] <+: content
  last : content.getLast? ≠ some '-'

/-- The text of an element as its children. -/
def textNodes (text : Text) : List Node := if text.isEmpty then [] else [.text text]

/-- Nodes in the form in which they are read. -/
inductive Canonical : List Node → Prop where
  | nil : Canonical []
  | text {markup : Text} {nodes : List Node} : markup ≠ [] → IsClean markup →
      normalize markup = markup → (∀ next, nodes.head? ≠ some (.text next)) → Canonical nodes →
      Canonical (.text markup :: nodes)
  | comment {content : Text} {nodes : List Node} : IsComment content → Canonical nodes →
      Canonical (.comment content :: nodes)
  | element {tag : Text} {attributes : Attributes} {children nodes : List Node} :
      isTagName tag = true → Content.ofTag tag = .markup →
      (∀ entry ∈ attributes.entries, IsAttribute entry.1 entry.2) →
      (isVoidTag tag = true → children = []) → Canonical children → Canonical nodes →
      Canonical (.element tag attributes children :: nodes)
  | verbatim {tag text : Text} {attributes : Attributes} {nodes : List Node} :
      isVerbatimTag tag = true → (∀ entry ∈ attributes.entries, IsAttribute entry.1 entry.2) →
      IsClean text → '<' ∉ text → Canonical nodes →
      Canonical (.element tag attributes (textNodes text) :: nodes)

/-! ### Names -/

theorem toNat_lt_of_isAttributeChar {c : Char} (h : isAttributeChar c = true) : c.toNat < 128 := by
  simp only [isAttributeChar, Bool.or_eq_true] at h
  rcases h with (hlower | hdigit) | hmark
  · exact Text.toNat_lt_of_isLower hlower
  · exact Text.toNat_lt_of_isDigit hdigit
  · have hall : ("-_.:@".toList.all fun mark => mark.toNat < 128) = true := by decide
    exact of_decide_eq_true (List.all_eq_true.mp hall c (List.contains_iff_mem.mp hmark))

/-- What no reader of tags stops at or changes. -/
def isKept (c : Char) : Bool :=
  !endsTagName c && c ≠ '=' && c.toLower = c && c ≠ '\r' && c ≠ '\x00'

theorem isKept_of_isAttributeChar {c : Char} (h : isAttributeChar c = true) : isKept c = true :=
  Text.of_toNat_lt (by decide +kernel) (toNat_lt_of_isAttributeChar h) h

theorem isAttributeChar_of_mem_tag {tag : Text} {c : Char} (h : isTagName tag = true)
    (hc : c ∈ tag) : isAttributeChar c = true := by
  cases tag with
  | nil => cases hc
  | cons d rest =>
      simp only [isTagName, Bool.and_eq_true, List.all_eq_true] at h
      rcases List.mem_cons.mp hc with rfl | hc
      · simp [isAttributeChar, h.1]
      · have hchar := h.2 c hc
        simp only [Bool.or_eq_true, decide_eq_true_eq] at hchar
        rcases hchar with (hlower | hdigit) | rfl
        · simp [isAttributeChar, hlower]
        · simp [isAttributeChar, hdigit]
        · decide

theorem isKept_of_mem_tag {tag : Text} {c : Char} (h : isTagName tag = true) (hc : c ∈ tag) :
    isKept c = true :=
  isKept_of_isAttributeChar (isAttributeChar_of_mem_tag h hc)

theorem isTagName_of_isVerbatimTag {tag : Text} (h : isVerbatimTag tag = true) :
    isTagName tag = true := by
  simp only [isVerbatimTag, Bool.or_eq_true, decide_eq_true_eq] at h
  rcases h with rfl | rfl <;> decide

theorem not_isVoidTag_of_isVerbatimTag {tag : Text} (h : isVerbatimTag tag = true) :
    isVoidTag tag = false := by
  simp only [isVerbatimTag, Bool.or_eq_true, decide_eq_true_eq] at h
  rcases h with rfl | rfl <;> decide

/-! ### Clean texts -/

theorem isClean_of_isKept {s : Text} (h : ∀ c ∈ s, isKept c = true) : IsClean s :=
  ⟨fun hmem => absurd (h _ hmem) (by decide), fun hmem => absurd (h _ hmem) (by decide)⟩

theorem unifyBreaks_eq_self {s : Text} (h : '\r' ∉ s) : unifyBreaks s = s := by
  fun_induction unifyBreaks s with
  | case1 => rfl
  | case2 => simp at h
  | case3 => simp at h
  | case4 c s _ _ ih =>
      rw [List.mem_cons, not_or] at h
      rw [ih h.2]

theorem cleaned_eq_self {s : Text} (h : IsClean s) : cleaned s = s := by
  have hkeep : ∀ c ∈ s, (if c = '\x00' then replacement else c) = id c := by
    intro c hc
    refine if_neg ?_
    rintro rfl
    exact h.2 hc
  rw [cleaned, unifyBreaks_eq_self h.1, replaceNull, List.map_congr_left hkeep, List.map_id]

theorem lower_eq_self {s : Text} (h : ∀ c ∈ s, isKept c = true) : Text.lower s = s := by
  have hkeep : ∀ c ∈ s, c.toLower = id c := by
    intro c hc
    have hkept := h c hc
    simp only [isKept, Bool.and_eq_true, decide_eq_true_eq] at hkept
    exact hkept.1.1.2
  rw [Text.lower, List.map_congr_left hkeep, List.map_id]

end HtmlTemplate.Markup
