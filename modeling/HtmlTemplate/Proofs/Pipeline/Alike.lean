import HtmlTemplate.Expr.Cursor
import HtmlTemplate.Proofs.Name
import HtmlTemplate.Proofs.Pipeline.Cut
import HtmlTemplate.Proofs.Pipeline.Slices
/-!
A scan over the bytes of a text.  What is not below 128 is no delimiter and no bracket, be it a
character or one of its bytes, so that the scan finds the same literals and brackets in the bytes of
a text as in its characters.
-/

namespace HtmlTemplate

namespace Scan

variable {scan other third : Scan} {c : Char} {n m : Nat}

/-- Two scans that will find the same literals and brackets. -/
structure Alike (scan other : Scan) : Prop where
  closing : scan.closing = other.closing
  curly : scan.curly = other.curly
  square : scan.square = other.square
  paren : scan.paren = other.paren
  escape : (scan.last != some '\\') = (other.last != some '\\')
  division : scan.lastSolid.any precedesDivision = other.lastSolid.any precedesDivision

theorem Alike.refl (scan : Scan) : scan.Alike scan := ⟨rfl, rfl, rfl, rfl, rfl, rfl⟩

theorem Alike.symm (h : scan.Alike other) : other.Alike scan :=
  ⟨h.closing.symm, h.curly.symm, h.square.symm, h.paren.symm, h.escape.symm, h.division.symm⟩

theorem Alike.trans (h : scan.Alike other) (h' : other.Alike third) : scan.Alike third :=
  ⟨h.closing.trans h'.closing, h.curly.trans h'.curly, h.square.trans h'.square,
    h.paren.trans h'.paren, h.escape.trans h'.escape, h.division.trans h'.division⟩

theorem Alike.inCode (h : scan.Alike other) : scan.inCode = other.inCode := by
  simp only [Scan.inCode, h.closing]

theorem Alike.isTop (h : scan.Alike other) : scan.isTop = other.isTop := by
  simp only [Scan.isTop, h.curly, h.square, h.paren]

theorem Alike.step (h : scan.Alike other) (c : Char) : (scan.step c).Alike (other.step c) := by
  obtain ⟨hclosing, hcurly, hsquare, hparen, hescape, hdivision⟩ := h
  have hpass : (scan.pass c).closing = (other.pass c).closing ∧
      (scan.pass c).curly = (other.pass c).curly ∧ (scan.pass c).square = (other.pass c).square ∧
        (scan.pass c).paren = (other.pass c).paren := by
    simp only [pass, hclosing, hescape, hdivision]
    repeat' split
    all_goals simp [hclosing, hcurly, hsquare, hparen]
  obtain ⟨hclosing, hcurly, hsquare, hparen⟩ := hpass
  refine ⟨hclosing, hcurly, hsquare, hparen, rfl, ?_⟩
  simp only [Scan.step]
  split
  · exact hdivision
  · rfl

/-! ### What a character adds to a scan -/

/-- No more brackets of a kind are open, or closed before they opened, than characters were
passed. -/
structure Bounded (scan : Scan) (n : Nat) : Prop where
  curly : scan.curly.natAbs ≤ n
  square : scan.square.natAbs ≤ n
  paren : scan.paren.natAbs ≤ n

theorem Bounded.step (h : scan.Bounded n) (c : Char) : (scan.step c).Bounded (n + 1) := by
  obtain ⟨hcurly, hsquare, hparen⟩ := h
  simp only [Scan.step, pass]
  repeat' split
  all_goals exact ⟨by simp only; omega, by simp only; omega, by simp only; omega⟩

theorem Bounded.foldl (h : scan.Bounded n) (bs : Text) :
    (bs.foldl Scan.step scan).Bounded (n + bs.length) := by
  induction bs generalizing scan n with
  | nil => exact h
  | cons b bs ih =>
      rw [List.length_cons, Nat.add_comm bs.length, ← Nat.add_assoc]
      exact ih (h.step b)

theorem Bounded.fits (h : scan.Bounded n) (hn : n < 2147483648) : scan.fits = true := by
  obtain ⟨hcurly, hsquare, hparen⟩ := h
  simp only [Scan.fits, List.all_cons, List.all_nil, Bool.and_true, Bool.and_eq_true,
    decide_eq_true_eq]
  omega

/-- Only a quote or a slash ends a literal. -/
theorem closing_step_lt (h : ∀ quote ∈ scan.closing, quote.toNat < 128) (c : Char) :
    ∀ quote ∈ (scan.step c).closing, quote.toNat < 128 := by
  simp only [Scan.step, pass]
  split
  · split
    · simp
    · exact h
  · next hcode =>
      split
      · next hquote =>
          simp only [Bool.or_eq_true, decide_eq_true_eq] at hquote
          rcases hquote with (rfl | rfl) | rfl <;> simp
      · repeat' split
        all_goals simp [hcode]

theorem paren_step (scan : Scan) (c : Char) : (scan.step c).paren =
    if scan.inCode && c = '(' then scan.paren + 1
    else if scan.inCode && c = ')' then scan.paren - 1
    else scan.paren := by
  simp only [Scan.step, pass, inCode]
  split
  · next closing hclosing =>
      simp only [hclosing, Option.isNone_some, Bool.false_and, Bool.false_eq_true, if_false]
      split <;> rfl
  · next hcode =>
      simp only [hcode, Option.isNone_none, Bool.true_and, decide_eq_true_eq]
      by_cases hopening : c = '('
      · subst hopening
        rfl
      · by_cases hclosing : c = ')'
        · subst hclosing
          rfl
        · simp only [hopening, hclosing, if_false]
          repeat' split
          all_goals rfl

/-- The scan without the characters it has passed. -/
def forget (scan : Scan) : Scan := { scan with last := none, lastSolid := none }

theorem Alike.forget (h : scan.Alike other) : scan.forget.Alike other.forget :=
  ⟨h.closing, h.curly, h.square, h.paren, rfl, rfl⟩

/-- A character from 128 on is no delimiter, no bracket and nothing after which a slash divides. -/
theorem step_of_le (hc : 128 ≤ c.toNat) (h : ∀ quote ∈ scan.closing, quote.toNat < 128) :
    scan.step c = { scan with last := some c, lastSolid := some c } := by
  have hne (d : Char) (hd : d.toNat < 128) : c ≠ d := by
    rintro rfl
    omega
  have hpass : scan.pass c = scan := by
    rw [pass]
    split
    · next quote hquote => simp [hne quote (h quote hquote)]
    · simp [hne '"' (by decide), hne '\'' (by decide), hne '`' (by decide), hne '(' (by decide),
        hne ')' (by decide), hne '[' (by decide), hne ']' (by decide), hne '\x7b' (by decide),
        hne '\x7d' (by decide), hne '/' (by decide)]
  rw [Scan.step, hpass, if_neg (hne ' ' (by decide))]

theorem some_bne {d : Char} (hc : 128 ≤ c.toNat) (hd : d.toNat < 128) :
    (some c != some d) = true := by
  refine bne_iff_ne.mpr fun heq => ?_
  rw [Option.some.inj heq] at hc
  omega

theorem toNat_lt_of_precedesDivision (h : precedesDivision c = true) : c.toNat < 128 := by
  simp only [precedesDivision, Bool.or_eq_true, decide_eq_true_eq] at h
  rcases h with ((((((h | rfl) | rfl) | rfl) | rfl) | rfl) | rfl) | rfl
  · exact Text.toNat_lt_of_isNameChar (by simp [Text.isNameChar, h])
  all_goals decide

theorem alike_forget (hc : 128 ≤ c.toNat) (h : ∀ quote ∈ scan.closing, quote.toNat < 128) :
    (scan.step c).Alike scan.forget := by
  have hescape : (some c != some '\\') = true := some_bne hc (by decide)
  have hdivision : precedesDivision c = false :=
    Bool.eq_false_iff.mpr fun hdivides => by
      have hlt := toNat_lt_of_precedesDivision hdivides
      omega
  rw [step_of_le hc h]
  exact ⟨rfl, rfl, rfl, rfl, hescape, by simp [Scan.forget, hdivision]⟩

/-- The bytes of a character from 128 on do to a scan what the character does. -/
theorem alike_foldl_step {bs : Text} (hbs : ∀ b ∈ bs, 128 ≤ b.toNat) (hne : bs ≠ [])
    (h : ∀ quote ∈ scan.closing, quote.toNat < 128) :
    (bs.foldl Scan.step scan).Alike scan.forget := by
  induction bs generalizing scan with
  | nil => exact absurd rfl hne
  | cons b bs ih =>
      have hb := hbs b (List.mem_cons_self ..)
      cases bs with
      | nil => exact alike_forget hb h
      | cons second bs =>
          have hrest := ih (fun later hmem => hbs later (List.mem_cons_of_mem b hmem))
            (List.cons_ne_nil second bs) (closing_step_lt h b)
          have hforget : (scan.step b).forget = scan.forget := by
            rw [step_of_le hb h]
            rfl
          rwa [hforget] at hrest

/-- Scans that are alike are alike after a character that one passes by its bytes. -/
theorem Alike.bytes (h : scan.Alike other) (hascii : ∀ quote ∈ other.closing, quote.toNat < 128)
    (c : Char) : ((Text.bytes [c]).foldl Scan.step scan).Alike (other.step c) := by
  by_cases hc : c.toNat < 128
  · rw [Text.bytes_of_lt hc]
    exact h.step c
  · have hc : 128 ≤ c.toNat := Nat.not_lt.mp hc
    have hwide : ((Text.bytes [c]).foldl Scan.step scan).Alike scan.forget :=
      alike_foldl_step (Text.le_of_mem_bytes hc) (Text.bytes_singleton_ne_nil c)
        (h.closing ▸ hascii)
    exact (hwide.trans h.forget).trans (alike_forget hc hascii).symm

/-- The last byte of a character is a bar where the character is one. -/
theorem last_bytes (scan other : Scan) (c : Char) :
    (((Text.bytes [c]).foldl Scan.step scan).last != some '|') =
      ((other.step c).last != some '|') := by
  by_cases hc : c.toNat < 128
  · rw [Text.bytes_of_lt hc]
    rfl
  · have hc : 128 ≤ c.toNat := Nat.not_lt.mp hc
    have hne := Text.bytes_singleton_ne_nil c
    have hlast := Text.le_of_mem_bytes hc _ (List.getLast_mem hne)
    rw [last_foldl_step, List.getLast?_eq_some_getLast hne]
    exact (some_bne hlast (by decide)).trans (some_bne hc (by decide)).symm

end Scan

namespace Separator

variable {sep : Separator} {scan other : Scan} {c : Char} {rest first : Text} {others : List Text}

theorem exists_of_cutFrom_cons (hsep : sep.separates scan c rest = false)
    (h : sep.cutFrom scan (c :: rest) = first :: others) :
    ∃ more, first = c :: more ∧ sep.cutFrom (scan.step c) rest = more :: others := by
  rw [cutFrom, hsep, if_neg Bool.false_ne_true] at h
  split at h
  · next hnil => exact absurd hnil (cutFrom_ne_nil sep _ rest)
  · next more pieces hcut =>
      obtain ⟨hfirst, hothers⟩ := List.cons.inj h
      exact ⟨more, hfirst.symm, hothers ▸ hcut⟩

theorem atTop_of_separates (h : sep.separates scan c rest = true) :
    c = sep.char ∧ scan.AtTop := by
  simp only [separates, Scan.inCode, Scan.isTop, Bool.and_eq_true, decide_eq_true_eq,
    Option.isNone_iff_eq_none] at h
  obtain ⟨⟨⟨hc, hcode⟩, ⟨hcurly, hsquare⟩, hparen⟩, -⟩ := h
  exact ⟨hc, hcode, hcurly, hsquare, hparen⟩

/-- Behind a bar that separates, a scan finds what it finds from the beginning of a text. -/
theorem alike_start_of_separates (h : Separator.pipe.separates scan c rest = true) :
    (scan.step c).Alike .start := by
  obtain ⟨rfl, htop⟩ := atTop_of_separates h
  have hstep : (scan.step Separator.pipe.char).AtTop := atTop_step_separator htop
  exact ⟨hstep.closing, hstep.curly, hstep.square, hstep.paren, rfl, rfl⟩

theorem separates_eq_false_of_ne (hc : c ≠ sep.char) (rest : Text) :
    sep.separates scan c rest = false := by
  simp [separates, hc]

/-- A separator stands among the bytes of a text where it stands among its characters. -/
theorem separates_bytes (h : scan.Alike other)
    (hbar : (scan.last != some '|') = (other.last != some '|')) (rest : Text) :
    sep.separates scan c rest.bytes = sep.separates other c rest := by
  have hhead : (rest.bytes.head? != some '|') = (rest.head? != some '|') := by
    cases rest with
    | nil => rfl
    | cons d rest =>
        rw [Text.bytes_cons]
        by_cases hd : d.toNat < 128
        · rw [Text.bytes_of_lt hd]
          rfl
        · have hd : 128 ≤ d.toNat := Nat.not_lt.mp hd
          obtain ⟨b, bs, hbs⟩ := List.exists_cons_of_ne_nil (Text.bytes_singleton_ne_nil d)
          have hb : 128 ≤ b.toNat := Text.le_of_mem_bytes hd b (hbs ▸ List.mem_cons_self ..)
          rw [hbs]
          exact (Scan.some_bne hb (by decide)).trans (Scan.some_bne hd (by decide)).symm
  cases sep <;> simp only [separates, h.inCode, h.isTop, hbar, hhead]

end Separator

namespace Stage

variable {scan other : Scan}

theorem upToClosing_of_alike (h : scan.Alike other) (s : Text) :
    upToClosing scan s = upToClosing other s := by
  induction s generalizing scan other with
  | nil => rfl
  | cons c s ih => simp only [upToClosing, h.inCode, h.paren, ih (h.step c)]

theorem lastGroup?_of_alike (h : scan.Alike other) (s : Text) :
    lastGroup? scan s = lastGroup? other s := by
  induction s generalizing scan other with
  | nil => rfl
  | cons c s ih =>
      simp only [lastGroup?, h.inCode, h.paren, ih (h.step c), upToClosing_of_alike (h.step c)]

end Stage

end HtmlTemplate
