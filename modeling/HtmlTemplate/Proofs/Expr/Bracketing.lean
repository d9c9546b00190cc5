import HtmlTemplate.Proofs.Expr.Literal
import HtmlTemplate.Text.Blank
/-!
How an expression lies in brackets.  Its brackets pair up, what they hold is bracketed again, and
commas stand in brackets or in quoted texts only.
-/

namespace HtmlTemplate

/-- A bracket that opens a group, and the one that closes it. -/
inductive IsPair : Char → Char → Prop where
  | paren : IsPair '(' ')'
  | square : IsPair '[' ']'
  | curly : IsPair '\x7b' '\x7d'

def isBracket (c : Char) : Bool := ['(', ')', '[', ']', '\x7b', '\x7d'].contains c

/-- A character of code that belongs to no group or quoted text of its own.  A comma is one only
inside of brackets, and a blank only if it may stand between the parts of an expression. -/
def isFree (inside : Bool) (c : Char) : Bool :=
  isCode c && !isBracket c && (inside || c != ',') && (Reader.isGap c || !Text.isBlank c)

/-- A text of free characters, quoted texts and groups, with the bodies of its quoted texts.
`inside` tells whether it stands in brackets itself. -/
inductive Bracketing : Bool → Text → List Text → Prop where
  | nil {inside : Bool} : Bracketing inside [] []
  | free {inside : Bool} {s : Text} {bodies : List Text} {c : Char} : isFree inside c = true →
      Bracketing inside s bodies → Bracketing inside (c :: s) bodies
  | quoted {inside : Bool} {s body : Text} {bodies : List Text} {quote : Char} :
      quote = '\'' ∨ quote = '"' → RawBody quote body → Bracketing inside s bodies →
      Bracketing inside (quote :: (body ++ quote :: s)) (body :: bodies)
  | group {inside : Bool} {s inner : Text} {first second : List Text} {opening closing : Char} :
      IsPair opening closing → Bracketing true inner first → Bracketing inside s second →
      Bracketing inside (opening :: (inner ++ closing :: s)) (first ++ second)

def Bracketed (inside : Bool) (s : Text) : Prop := ∃ bodies, Bracketing inside s bodies

theorem isCode_of_isFree {inside : Bool} {c : Char} (h : isFree inside c = true) :
    isCode c = true := by
  simp only [isFree, Bool.and_eq_true] at h
  exact h.1.1.1

theorem IsPair.isCode {opening closing : Char} (h : IsPair opening closing) :
    isCode opening = true ∧ isCode closing = true := by
  cases h <;> decide

theorem isFree_of_isGap {inside : Bool} {c : Char} (h : Reader.isGap c = true) :
    isFree inside c = true := by
  simp only [Reader.isGap, Bool.or_eq_true, decide_eq_true_eq] at h
  cases inside <;> rcases h with ((rfl | rfl) | rfl) | rfl <;> decide

namespace Bracketing

variable {inside : Bool} {s t : Text} {bodies first second : List Text}

theorem append (hs : Bracketing inside s first) (ht : Bracketing inside t second) :
    Bracketing inside (s ++ t) (first ++ second) := by
  induction hs with
  | nil => exact ht
  | free hc _ ih => exact .free hc (ih ht)
  | quoted hquote hbody _ ih =>
      rw [List.cons_append, List.append_assoc]
      exact .quoted hquote hbody (ih ht)
  | group hpair hinner _ _ ih =>
      rw [List.cons_append, List.append_assoc, List.append_assoc]
      exact .group hpair hinner (ih ht)

theorem of_free (h : ∀ c ∈ s, isFree inside c = true) : Bracketing inside s [] := by
  induction s with
  | nil => exact .nil
  | cons c s ih =>
      have htail := ih fun d hd => h d (List.mem_cons_of_mem c hd)
      exact .free (h c (by simp)) htail

/-- What may stand outside of brackets may stand inside of them. -/
theorem enclosed (h : Bracketing inside s bodies) : Bracketing true s bodies := by
  induction h with
  | nil => exact .nil
  | free hc _ ih =>
      refine .free ?_ ih
      simp only [isFree, Bool.and_eq_true, Bool.true_or] at hc ⊢
      exact ⟨⟨hc.1.1, trivial⟩, hc.2⟩
  | quoted hquote hbody _ ih => exact .quoted hquote hbody ih
  | group hpair hinner _ _ ih => exact .group hpair hinner ih

theorem quoting (h : Bracketing inside s bodies) : Quoting s bodies := by
  induction h with
  | nil => exact .nil
  | free hc _ ih => exact .code (isCode_of_isFree hc) ih
  | quoted hquote hbody _ ih => exact .quoted hquote hbody ih
  | group hpair _ _ ihinner ih =>
      exact .code hpair.isCode.1 (ihinner.append (.code hpair.isCode.2 ih))

end Bracketing

namespace Bracketed

variable {inside : Bool} {s : Text}

theorem composes (inside : Bool) : Reader.Composes (Bracketed inside) where
  nil := ⟨[], .nil⟩
  append := by
    rintro s t ⟨first, hs⟩ ⟨second, ht⟩
    exact ⟨first ++ second, hs.append ht⟩
  gap hc := ⟨[], .free (isFree_of_isGap hc) .nil⟩

theorem of_free (h : s.all (isFree inside) = true) : Bracketed inside s :=
  ⟨[], .of_free (List.all_eq_true.mp h)⟩

theorem enclosed (h : Bracketed inside s) : Bracketed true s := by
  obtain ⟨bodies, h⟩ := h
  exact ⟨bodies, h.enclosed⟩

theorem quoted (h : Bracketed inside s) : Quoted s := by
  obtain ⟨bodies, h⟩ := h
  exact ⟨bodies, h.quoting⟩

theorem group {opening closing : Char} (hpair : IsPair opening closing) (h : Bracketed true s) :
    Bracketed inside (opening :: (s ++ [closing])) := by
  obtain ⟨bodies, h⟩ := h
  exact ⟨bodies ++ [], .group hpair h .nil⟩

end Bracketed

namespace Literal

theorem toNat_lt_of_isNumeralChar {c : Char} (h : isNumeralChar c = true) : c.toNat < 128 := by
  simp only [isNumeralChar, Bool.or_eq_true, decide_eq_true_eq] at h
  rcases h with ((((hdigit | rfl) | rfl) | rfl) | rfl) | rfl
  · exact Text.toNat_lt_of_isDigit hdigit
  all_goals decide

theorem isFree_of_isNameChar {inside : Bool} {c : Char} (h : Text.isNameChar c = true) :
    isFree inside c = true :=
  Text.of_toNat_lt (by cases inside <;> decide +kernel) (Text.toNat_lt_of_isNameChar h) h

theorem isFree_of_isNumeralChar {inside : Bool} {c : Char} (h : isNumeralChar c = true) :
    isFree inside c = true :=
  Text.of_toNat_lt (by cases inside <;> decide +kernel) (toNat_lt_of_isNumeralChar h) h

theorem bracketing_of_isName {inside : Bool} {name : Text} (h : Text.isName name = true) :
    Bracketing inside name [] :=
  Bracketing.of_free fun _ hc => isFree_of_isNameChar (Text.isNameChar_of_mem h hc)

end Literal

end HtmlTemplate
