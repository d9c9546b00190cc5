import Mathlib.Algebra.Order.Group.Int
import HtmlTemplate.Proofs.Expr.Scan
/-!
The scan over bracketed texts.  Along such a text the scan never gets out of the brackets that it
began in, and at its end it is in code again, in just these brackets.
-/

namespace HtmlTemplate

namespace Scan

/-- Each character of a text satisfies `p`, together with the scan that reaches it. -/
def Always (p : Scan → Char → Prop) (scan : Scan) : Text → Prop
  | [] => True
  | c :: s => p scan c ∧ Always p (scan.step c) s

section Always

variable {p q : Scan → Char → Prop} {scan : Scan} {s t : Text}

theorem always_append_iff :
    Always p scan (s ++ t) ↔ Always p scan s ∧ Always p (s.foldl step scan) t := by
  induction s generalizing scan with
  | nil => simp [Always]
  | cons c s ih => simp [Always, ih, and_assoc]

theorem Always.imp (h : Always p scan s) (hpq : ∀ scan c, p scan c → q scan c) :
    Always q scan s := by
  induction s generalizing scan with
  | nil => trivial
  | cons c s ih => exact ⟨hpq scan c h.1, ih h.2⟩

theorem always_of_forall (h : ∀ scan, ∀ c ∈ s, p scan c) : Always p scan s := by
  induction s generalizing scan with
  | nil => trivial
  | cons c s ih =>
      exact ⟨h scan c (by simp), ih fun scan d hd => h scan d (List.mem_cons_of_mem c hd)⟩

end Always

/-- As many brackets of each kind are open at one place as at another. -/
structure SameDepth (a b : Scan) : Prop where
  curly : a.curly = b.curly
  square : a.square = b.square
  paren : a.paren = b.paren

/-- At least as many brackets of each kind are open at a place as there were at `base`. -/
structure Within (base scan : Scan) : Prop where
  curly : base.curly ≤ scan.curly
  square : base.square ≤ scan.square
  paren : base.paren ≤ scan.paren

/-- What a character of code keeps to, after the scan went on from `base`: it is inside the brackets
open there, it closes none of them, it is no bar, and it is a comma only in further brackets, or
`inside` of some. -/
structure Guarded (inside : Bool) (base scan : Scan) (c : Char) : Prop where
  within : base.Within scan
  bar : c ≠ '|'
  comma : c = ',' → inside = true ∨ ¬ scan.Within base
  paren : c = ')' → base.paren < scan.paren

section Depth

variable {inside : Bool} {base other scan : Scan} {c quote : Char} {s t : Text}

theorem SameDepth.refl (scan : Scan) : SameDepth scan scan := ⟨rfl, rfl, rfl⟩

theorem SameDepth.trans {third : Scan} (h : SameDepth scan other) (h' : SameDepth other third) :
    SameDepth scan third :=
  ⟨h.curly.trans h'.curly, h.square.trans h'.square, h.paren.trans h'.paren⟩

theorem within_iff : base.Within scan ↔ base.curly ≤ scan.curly ∧ base.square ≤ scan.square ∧
    base.paren ≤ scan.paren :=
  ⟨fun h => ⟨h.curly, h.square, h.paren⟩, fun h => ⟨h.1, h.2.1, h.2.2⟩⟩

theorem Within.refl (scan : Scan) : Within scan scan :=
  ⟨Int.le_refl _, Int.le_refl _, Int.le_refl _⟩

theorem SameDepth.symm (h : SameDepth scan other) : SameDepth other scan :=
  ⟨h.curly.symm, h.square.symm, h.paren.symm⟩

theorem SameDepth.within (h : SameDepth base scan) : Within base scan :=
  ⟨Int.le_of_eq h.curly, Int.le_of_eq h.square, Int.le_of_eq h.paren⟩

theorem Within.trans {third : Scan} (h : Within base scan) (h' : Within scan third) :
    Within base third :=
  ⟨Int.le_trans h.curly h'.curly, Int.le_trans h.square h'.square, Int.le_trans h.paren h'.paren⟩

theorem Guarded.of_sameDepth (h : Guarded inside other scan c) (hdepth : SameDepth other base) :
    Guarded inside base scan c where
  within := hdepth.symm.within.trans h.within
  bar := h.bar
  comma hc := (h.comma hc).imp id fun hnot hwithin => hnot (hwithin.trans hdepth.symm.within)
  paren hc := hdepth.paren ▸ h.paren hc

/-- What keeps inside of further brackets keeps inside of those around them. -/
theorem Guarded.of_group (h : Guarded true other scan c) (hbase : base.Within other)
    (hdeeper : ¬ other.Within base) : Guarded inside base scan c where
  within := hbase.trans h.within
  bar := h.bar
  comma _ := .inr fun hscan => hdeeper (h.within.trans hscan)
  paren hc := Int.lt_of_le_of_lt hbase.paren (h.paren hc)

theorem code_of_isBlank (h : Text.isBlank c = true) :
    isCode c = true ∧ isBracket c = false ∧ c ≠ ',' := by
  simp only [isCode, isBracket, Bool.and_eq_true, decide_eq_true_eq, ne_eq, List.contains_eq_mem,
    List.mem_cons, List.not_mem_nil, or_false, decide_eq_false_iff_not, not_or]
  refine ⟨⟨⟨⟨⟨⟨?_, ?_⟩, ?_⟩, ?_⟩, ?_⟩, ?_⟩, ⟨?_, ?_, ?_, ?_, ?_, ?_⟩, ?_⟩ <;>
    (rintro rfl; exact absurd h (by decide))

theorem pass_eq_self (hscan : scan.closing = none) (hcode : isCode c = true)
    (hbracket : isBracket c = false) : scan.pass c = scan := by
  simp only [isCode, Bool.and_eq_true, decide_eq_true_eq, ne_eq] at hcode
  obtain ⟨⟨⟨⟨⟨hsingle, hdouble⟩, htick⟩, -⟩, hslash⟩, -⟩ := hcode
  simp only [isBracket, List.contains_eq_mem, List.mem_cons, List.not_mem_nil, or_false,
    decide_eq_false_iff_not, not_or] at hbracket
  obtain ⟨hopen, hclose, hsquare, hsquare', hcurly, hcurly'⟩ := hbracket
  simp [pass, hscan, hsingle, hdouble, htick, hslash, hopen, hclose, hsquare, hsquare', hcurly,
    hcurly']

theorem sameDepth_step_code (hscan : scan.closing = none) (hcode : isCode c = true)
    (hbracket : isBracket c = false) : SameDepth (scan.step c) scan := by
  simp only [step, pass_eq_self hscan hcode hbracket]
  exact ⟨rfl, rfl, rfl⟩

theorem sameDepth_step_quote (hscan : scan.closing = none) (hquote : quote = '\'' ∨ quote = '"') :
    SameDepth (scan.step quote) scan := by
  rcases hquote with rfl | rfl <;> simp only [step, pass, hscan] <;> exact ⟨rfl, rfl, rfl⟩

theorem sameDepth_step_inside (hscan : scan.closing = some quote) :
    SameDepth (scan.step c) scan := by
  simp only [step, pass, hscan]
  split <;> exact ⟨rfl, rfl, rfl⟩

theorem sameDepth_foldl_inside (h : Always (fun scan _ => scan.closing = some quote) scan s) :
    SameDepth (s.foldl step scan) scan := by
  induction s generalizing scan with
  | nil => exact SameDepth.refl scan
  | cons c s ih => exact (ih h.2).trans (sameDepth_step_inside h.1)

theorem always_rawBody (hbody : RawBody quote s) (hquote : quote ≠ '\\')
    (hscan : scan.closing = some quote) :
    Always (fun scan _ => scan.closing = some quote) scan s := by
  induction hbody generalizing scan with
  | nil => trivial
  | escape c _ ih =>
      have hfirst := closing_step_inside (c := '\\') hscan (.inl hquote.symm)
      have hsecond := closing_step_inside (c := c) hfirst (.inr rfl)
      exact ⟨hscan, hfirst, ih hsecond⟩
  | plain hc _ _ ih => exact ⟨hscan, ih (closing_step_inside hscan (.inl hc))⟩

theorem step_opening {opening closing : Char} (hpair : IsPair opening closing)
    (hbase : base.closing = none) :
    (base.step opening).closing = none ∧ base.Within (base.step opening) ∧
      ¬ (base.step opening).Within base ∧
        (closing = ')' → base.paren < (base.step opening).paren) := by
  cases hpair <;> simp [step, pass, hbase, within_iff]

theorem step_closing {opening closing : Char} (hpair : IsPair opening closing)
    (hbase : base.closing = none) (hscan : scan.closing = none)
    (hdepth : SameDepth scan (base.step opening)) :
    (scan.step closing).closing = none ∧ SameDepth (scan.step closing) base := by
  obtain ⟨hcurly, hsquare, hparen⟩ := hdepth
  cases hpair <;> simp [step, pass, hbase] at hcurly hsquare hparen <;>
    refine ⟨by simp [step, pass, hscan], ⟨?_, ?_, ?_⟩⟩ <;>
    simp [step, pass, hscan, hcurly, hsquare, hparen]

end Depth

/-- A text along which the scan stays in the brackets in which it begins, and after which it is in
code again. -/
structure Passes (inside : Bool) (s : Text) : Prop where
  guarded : ∀ base : Scan, base.closing = none →
    Always (fun scan c => scan.closing = none → Guarded inside base scan c) base s
  closing : ∀ base : Scan, base.closing = none → (s.foldl step base).closing = none
  depth : ∀ base : Scan, base.closing = none → SameDepth (s.foldl step base) base

namespace Passes

variable {inside : Bool} {s t : Text} {c : Char}

/-- What the scan comes through outside of brackets, it comes through inside of them. -/
theorem enclosed (h : Passes inside s) : Passes true s := by
  refine ⟨fun base hbase => ?_, h.closing, h.depth⟩
  refine (h.guarded base hbase).imp fun scan c hguarded hcode => ?_
  obtain ⟨hwithin, hbar, -, hparen⟩ := hguarded hcode
  exact ⟨hwithin, hbar, fun _ => .inl rfl, hparen⟩

theorem nil : Passes inside [] := ⟨fun _ _ => trivial, fun _ h => h, fun base _ => .refl base⟩

theorem append (hs : Passes inside s) (ht : Passes inside t) : Passes inside (s ++ t) := by
  refine ⟨fun base hbase => ?_, fun base hbase => ?_, fun base hbase => ?_⟩
  · have hmiddle := hs.closing base hbase
    refine always_append_iff.mpr ⟨hs.guarded base hbase, ?_⟩
    have hdepth := hs.depth base hbase
    exact (ht.guarded _ hmiddle).imp fun scan c h hscan => (h hscan).of_sameDepth hdepth
  · rw [List.foldl_append]
    exact ht.closing _ (hs.closing base hbase)
  · rw [List.foldl_append]
    exact (ht.depth _ (hs.closing base hbase)).trans (hs.depth base hbase)

theorem code (hcode : isCode c = true) (hbracket : isBracket c = false)
    (hcomma : c = ',' → inside = true) : Passes inside [c] := by
  refine ⟨fun base hbase => ⟨fun _ => ?_, trivial⟩, fun base hbase => ?_, fun base hbase => ?_⟩
  · refine ⟨.refl base, ?_, fun hc => .inl (hcomma hc), ?_⟩
    · rintro rfl
      exact absurd hcode (by decide)
    · rintro rfl
      exact absurd hbracket (by decide)
  · exact closing_step_code hbase hcode
  · exact sameDepth_step_code hbase hcode hbracket

theorem of_code (h : ∀ c ∈ s, isCode c = true ∧ isBracket c = false ∧ c ≠ ',') :
    Passes inside s := by
  induction s with
  | nil => exact nil
  | cons c s ih =>
      obtain ⟨hcode, hbracket, hcomma⟩ := h c (by simp)
      have htail := ih fun d hd => h d (List.mem_cons_of_mem c hd)
      exact (code hcode hbracket fun hc => absurd hc hcomma).append htail

theorem quoted {quote : Char} {body : Text} (hquote : quote = '\'' ∨ quote = '"')
    (hbody : RawBody quote body) (hlast : body.getLast? ≠ some '\\') :
    Passes inside (quote :: (body ++ [quote])) := by
  have hback : quote ≠ '\\' := by rcases hquote with rfl | rfl <;> decide
  have hends (base : Scan) (hbase : base.closing = none) :
      ((body.foldl step (base.step quote)).step quote).closing = none := by
    have hopen := closing_step_quote hbase hquote
    obtain ⟨hinside, hend⟩ := foldl_step_rawBody hbody hback hopen
    refine closing_step_end hinside ?_
    rw [hend]
    cases hbodyLast : body.getLast? with
    | none => simpa [step] using hback
    | some c =>
        rw [hbodyLast] at hlast
        simpa using hlast
  refine ⟨fun base hbase => ?_, fun base hbase => ?_, fun base hbase => ?_⟩
  · have hinside := always_rawBody hbody hback (closing_step_quote hbase hquote)
    have hclosing := (foldl_step_rawBody hbody hback (closing_step_quote hbase hquote)).1
    refine ⟨fun _ => ⟨.refl base, ?_, ?_, ?_⟩, always_append_iff.mpr ⟨?_, ?_, trivial⟩⟩
    · rcases hquote with rfl | rfl <;> decide
    · rcases hquote with rfl | rfl <;> exact fun h => absurd h (by decide)
    · rcases hquote with rfl | rfl <;> exact fun h => absurd h (by decide)
    · refine hinside.imp fun scan c hscan hcode => ?_
      rw [hscan] at hcode
      cases hcode
    · intro hcode
      rw [hclosing] at hcode
      cases hcode
  · rw [List.foldl_cons, List.foldl_append]
    exact hends base hbase
  · have hopen := closing_step_quote hbase hquote
    have hbodyDepth := sameDepth_foldl_inside (always_rawBody hbody hback hopen)
    have hclosing := (foldl_step_rawBody hbody hback hopen).1
    rw [List.foldl_cons, List.foldl_append]
    have hopenDepth := sameDepth_step_quote hbase hquote
    exact (sameDepth_step_inside hclosing).trans (hbodyDepth.trans hopenDepth)

theorem group {opening closing : Char} (hpair : IsPair opening closing) (h : Passes true s) :
    Passes inside (opening :: (s ++ [closing])) := by
  refine ⟨fun base hbase => ?_, fun base hbase => ?_, fun base hbase => ?_⟩
  · obtain ⟨hopen, hwithin, hdeeper, hparen⟩ := step_opening hpair hbase
    refine ⟨fun _ => ⟨.refl base, ?_, ?_, ?_⟩, always_append_iff.mpr ⟨?_, fun _ => ?_, trivial⟩⟩
    · cases hpair <;> decide
    · cases hpair <;> exact fun h => absurd h (by decide)
    · cases hpair <;> exact fun h => absurd h (by decide)
    · exact (h.guarded _ hopen).imp fun scan c hguarded hcode =>
        (hguarded hcode).of_group hwithin hdeeper
    · have hdepth := h.depth _ hopen
      refine ⟨hwithin.trans hdepth.symm.within, ?_, ?_, fun hc => ?_⟩
      · cases hpair <;> decide
      · cases hpair <;> exact fun h => absurd h (by decide)
      · exact hdepth.paren ▸ hparen hc
  · obtain ⟨hopen, -⟩ := step_opening hpair hbase
    rw [List.foldl_cons, List.foldl_append]
    exact (step_closing hpair hbase (h.closing _ hopen) (h.depth _ hopen)).1
  · obtain ⟨hopen, -⟩ := step_opening hpair hbase
    rw [List.foldl_cons, List.foldl_append]
    exact (step_closing hpair hbase (h.closing _ hopen) (h.depth _ hopen)).2

theorem blank (h : Text.isBlankText s = true) : Passes inside s :=
  of_code fun c hc => code_of_isBlank (List.all_eq_true.mp h c hc)

theorem of_bracketing {bodies : List Text} (h : Bracketing inside s bodies)
    (hbodies : ∀ body ∈ bodies, body.getLast? ≠ some '\\') : Passes inside s := by
  induction h with
  | nil => exact nil
  | free hc _ ih =>
      simp only [isFree, Bool.and_eq_true, Bool.not_eq_true', Bool.or_eq_true, bne_iff_ne] at hc
      obtain ⟨⟨⟨hcode, hbracket⟩, hcomma⟩, -⟩ := hc
      exact (code hcode hbracket fun heq => hcomma.resolve_right fun hne => hne heq).append
        (ih hbodies)
  | @quoted inside s body bodies quote hquote hbody _ ih =>
      have hhead : Passes inside (quote :: (body ++ [quote])) :=
        quoted hquote hbody (hbodies body (List.mem_cons_self ..))
      have hwhole := hhead.append (ih fun later hmem => hbodies later (List.mem_cons_of_mem _ hmem))
      simpa using hwhole
  | @group inside s inner first second opening closing hpair _ _ ihinner ih =>
      have hinner := ihinner fun body hmem => hbodies body (List.mem_append_left _ hmem)
      have hrest := ih fun body hmem => hbodies body (List.mem_append_right _ hmem)
      have hgroup : Passes inside (opening :: (inner ++ [closing])) := group hpair hinner
      simpa using hgroup.append hrest

end Passes

end Scan

end HtmlTemplate
