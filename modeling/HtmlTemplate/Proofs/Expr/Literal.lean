import HtmlTemplate.Expr.Literal
import HtmlTemplate.Proofs.Name
import HtmlTemplate.Proofs.Reader
/-!
What the words of the expression language take off a text.  Outside of quoted texts an expression
has neither quotes nor bars, slashes or backslashes; `Quoting` cuts a text into such characters and
quoted texts, whose bodies it lists as they are written.
-/

namespace HtmlTemplate

/-- A character that has no meaning for quoting. -/
def isCode (c : Char) : Bool :=
  c ≠ '\'' && c ≠ '"' && c ≠ '`' && c ≠ '|' && c ≠ '/' && c ≠ '\\'

/-- What may stand between two quotes: a backslash hides the character after it. -/
inductive RawBody (quote : Char) : Text → Prop where
  | nil : RawBody quote []
  | escape {body : Text} (c : Char) : RawBody quote body → RawBody quote ('\\' :: c :: body)
  | plain {body : Text} {c : Char} : c ≠ quote → c ≠ '\\' → RawBody quote body →
      RawBody quote (c :: body)

/-- A text of code and quoted texts, with the bodies of these in their order. -/
inductive Quoting : Text → List Text → Prop where
  | nil : Quoting [] []
  | code {s : Text} {bodies : List Text} {c : Char} : isCode c = true → Quoting s bodies →
      Quoting (c :: s) bodies
  | quoted {s body : Text} {bodies : List Text} {quote : Char} : quote = '\'' ∨ quote = '"' →
      RawBody quote body → Quoting s bodies →
      Quoting (quote :: (body ++ quote :: s)) (body :: bodies)

def Quoted (s : Text) : Prop := ∃ bodies, Quoting s bodies

namespace Quoting

theorem append {s t : Text} {first second : List Text} (hs : Quoting s first)
    (ht : Quoting t second) : Quoting (s ++ t) (first ++ second) := by
  induction hs with
  | nil => exact ht
  | code hc _ ih => exact .code hc ih
  | quoted hquote hbody _ ih =>
      rw [List.cons_append, List.append_assoc]
      exact .quoted hquote hbody ih

theorem of_code {s : Text} (h : ∀ c ∈ s, isCode c = true) : Quoting s [] := by
  induction s with
  | nil => exact .nil
  | cons c s ih =>
      have htail := ih fun d hd => h d (List.mem_cons_of_mem c hd)
      exact .code (h c (by simp)) htail

/-- What stands in the body of a quoted text stands in the text. -/
theorem mem_of_mem_body {s body : Text} {bodies : List Text} {c : Char} (h : Quoting s bodies)
    (hbody : body ∈ bodies) (hc : c ∈ body) : c ∈ s := by
  induction h with
  | nil => cases hbody
  | code _ _ ih => exact List.mem_cons_of_mem _ (ih hbody)
  | @quoted s first bodies quote _ _ _ ih =>
      apply List.mem_cons_of_mem
      rcases List.mem_cons.mp hbody with rfl | hbody
      · exact List.mem_append_left _ hc
      · exact List.mem_append_right _ (List.mem_cons_of_mem _ (ih hbody))

end Quoting

namespace Literal

theorem exists_rawBody_of_upToQuote {quote : Char} {s text rest : Text}
    (h : upToQuote quote s = some (text, rest)) :
    ∃ body, s = body ++ quote :: rest ∧ RawBody quote body := by
  fun_induction upToQuote quote s generalizing text with
  | case1 => cases h
  | case2 c s ih =>
      obtain ⟨⟨others, left⟩, hothers, heq⟩ := Option.map_eq_some_iff.mp h
      cases heq
      obtain ⟨body, rfl, hbody⟩ := ih hothers
      exact ⟨'\\' :: c :: body, rfl, .escape c hbody⟩
  | case3 s _ =>
      cases h
      exact ⟨[], rfl, .nil⟩
  | case4 => cases h
  | case5 c s _ hc hb ih =>
      obtain ⟨⟨others, left⟩, hothers, heq⟩ := Option.map_eq_some_iff.mp h
      cases heq
      obtain ⟨body, rfl, hbody⟩ := ih hothers
      exact ⟨c :: body, rfl, .plain hc hb hbody⟩

theorem exists_rawBody_of_quoted? {s text rest : Text} (h : quoted? s = some (text, rest)) :
    ∃ quote body, (quote = '\'' ∨ quote = '"') ∧ s = quote :: (body ++ quote :: rest) ∧
      RawBody quote body := by
  unfold quoted? at h
  split at h
  · obtain ⟨body, rfl, hbody⟩ := exists_rawBody_of_upToQuote h
    exact ⟨'\'', body, .inl rfl, rfl, hbody⟩
  · obtain ⟨body, rfl, hbody⟩ := exists_rawBody_of_upToQuote h
    exact ⟨'"', body, .inr rfl, rfl, hbody⟩
  · cases h

theorem head_dropWhile_any (p : Char → Bool) (s : Text) :
    (s.dropWhile p).head?.any p = false := by
  induction s with
  | nil => rfl
  | cons c s ih =>
      cases hc : p c with
      | true => simpa [hc] using ih
      | false => simp [hc]

theorem name?_eq_some_iff {s name rest : Text} :
    name? s = some (name, rest) ↔
      s = name ++ rest ∧ Text.isName name = true ∧ rest.head?.any Text.isNameChar = false := by
  constructor
  · intro h
    cases s with
    | nil => cases h
    | cons c s =>
        rw [name?] at h
        split at h
        · next hc =>
            cases h
            refine ⟨?_, ?_, head_dropWhile_any _ _⟩
            · rw [List.cons_append, List.takeWhile_append_dropWhile]
            · simp only [Text.isName, hc, Bool.true_and, List.all_eq_true]
              intro d hd
              exact List.mem_takeWhile_imp hd
        · cases h
  · rintro ⟨rfl, hname, hrest⟩
    cases name with
    | nil => cases hname
    | cons c more =>
        simp only [Text.isName, Bool.and_eq_true, List.all_eq_true] at hname
        obtain ⟨htake, hdrop⟩ := Text.takeWhile_append_of_head hname.2 hrest
        rw [List.cons_append, name?, if_pos hname.1, htake, hdrop]

/-! ### Numerals -/

def isNumeralChar (c : Char) : Bool :=
  c.isDigit || c = '.' || c = 'e' || c = 'E' || c = '+' || c = '-'

theorem isNumeralChar_of_isDigit {c : Char} (h : c.isDigit = true) : isNumeralChar c = true := by
  simp [isNumeralChar, h]

theorem digits?_eq_some_iff {s digits rest : Text} :
    digits? s = some (digits, rest) ↔ s = digits ++ rest ∧ digits ≠ [] ∧
      (∀ c ∈ digits, c.isDigit = true) ∧ rest.head?.any Char.isDigit = false := by
  constructor
  · intro h
    simp only [digits?] at h
    split at h
    · cases h
    · next hne =>
        cases h
        refine ⟨List.takeWhile_append_dropWhile.symm, by simpa using hne, ?_,
          head_dropWhile_any _ _⟩
        intro c hc
        exact List.mem_takeWhile_imp hc
  · rintro ⟨rfl, hne, hall, hrest⟩
    obtain ⟨htake, hdrop⟩ := Text.takeWhile_append_of_head hall hrest
    simp [digits?, htake, hdrop, hne]

theorem digits?_append {s digits rest : Text} (h : digits? s = some (digits, rest)) :
    s = digits ++ rest ∧ ∀ c ∈ digits, isNumeralChar c = true := by
  obtain ⟨hs, -, hall, -⟩ := digits?_eq_some_iff.mp h
  exact ⟨hs, fun c hc => isNumeralChar_of_isDigit (hall c hc)⟩

theorem fraction_append (s : Text) :
    s = (fraction s).1 ++ (fraction s).2 ∧ ∀ c ∈ (fraction s).1, isNumeralChar c = true := by
  unfold fraction
  split
  · next rest =>
      split
      · next digits left hdigits =>
          obtain ⟨rfl, hall⟩ := digits?_append hdigits
          refine ⟨rfl, ?_⟩
          intro c hc
          rcases List.mem_cons.mp hc with rfl | hc
          · rfl
          · exact hall c hc
      · simp
  · simp

theorem exponentSign_append (s : Text) :
    s = (exponentSign s).1 ++ (exponentSign s).2 ∧
      ∀ c ∈ (exponentSign s).1, isNumeralChar c = true := by
  unfold exponentSign
  split <;> simp [isNumeralChar]

theorem exponent_append (s : Text) :
    s = (exponent s).1 ++ (exponent s).2 ∧ ∀ c ∈ (exponent s).1, isNumeralChar c = true := by
  cases s with
  | nil => simp [exponent]
  | cons c rest =>
      rw [exponent]
      split
      · next hc =>
          obtain ⟨hsign, hsigns⟩ := exponentSign_append rest
          dsimp only
          split
          · next digits left hdigits =>
              obtain ⟨hunsigned, hall⟩ := digits?_append hdigits
              constructor
              · rw [List.cons_append, List.append_assoc, ← hunsigned, ← hsign]
              · intro d hd
                rcases List.mem_cons.mp hd with rfl | hd
                · simp only [Bool.or_eq_true, decide_eq_true_eq] at hc
                  rcases hc with rfl | rfl <;> rfl
                · rcases List.mem_append.mp hd with hd | hd
                  · exact hsigns d hd
                  · exact hall d hd
          · simp
      · simp

theorem unsigned?_eq_some_iff {s text rest : Text} :
    unsigned? s = some (text, rest) ↔ ∃ whole left, digits? s = some (whole, left) ∧
      text = whole ++ (fraction left).1 ++ (exponent (fraction left).2).1 ∧
      rest = (exponent (fraction left).2).2 := by
  simp only [unsigned?, Option.map_eq_some_iff, Prod.exists, Prod.mk.injEq]
  constructor
  · rintro ⟨whole, left, hdigits, htext, hrest⟩
    exact ⟨whole, left, hdigits, htext.symm, hrest.symm⟩
  · rintro ⟨whole, left, hdigits, htext, hrest⟩
    exact ⟨whole, left, hdigits, htext.symm, hrest.symm⟩

theorem unsigned?_append {s text rest : Text} (h : unsigned? s = some (text, rest)) :
    s = text ++ rest ∧ ∀ c ∈ text, isNumeralChar c = true := by
  obtain ⟨whole, left, hdigits, rfl, rfl⟩ := unsigned?_eq_some_iff.mp h
  obtain ⟨rfl, hwhole⟩ := digits?_append hdigits
  obtain ⟨hfraction, hfractions⟩ := fraction_append left
  obtain ⟨hexponent, hexponents⟩ := exponent_append (fraction left).2
  constructor
  · rw [List.append_assoc, List.append_assoc, ← hexponent, ← hfraction]
  · intro c hc
    rcases List.mem_append.mp hc with hc | hc
    · rcases List.mem_append.mp hc with hc | hc
      · exact hwhole c hc
      · exact hfractions c hc
    · exact hexponents c hc

theorem numeral?_append {s text rest : Text} (h : numeral? s = some (text, rest)) :
    s = text ++ rest ∧ ∀ c ∈ text, isNumeralChar c = true := by
  unfold numeral? at h
  split at h
  · obtain ⟨⟨text', left⟩, hunsigned, heq⟩ := Option.map_eq_some_iff.mp h
    cases heq
    obtain ⟨rfl, hall⟩ := unsigned?_append hunsigned
    refine ⟨rfl, ?_⟩
    intro c hc
    rcases List.mem_cons.mp hc with rfl | hc
    · rfl
    · exact hall c hc
  · exact unsigned?_append h

theorem keyword?_eq_some_iff {word s rest : Text} :
    keyword? word s = some rest ↔ s = word ++ rest ∧ rest.head?.any Text.isNameChar = false := by
  rw [keyword?, Option.filter_eq_some_iff]
  constructor
  · rintro ⟨hafter, hhead⟩
    exact ⟨Text.eq_append_of_after? hafter, by simpa using hhead⟩
  · rintro ⟨rfl, hhead⟩
    exact ⟨Text.after?_append word rest, by simpa using hhead⟩

end Literal

end HtmlTemplate
