import HtmlTemplate.Proofs.Pipeline.Alike
/-!
A cursor over the bytes of a source.  Where it has come between two characters, the piece that it
has read since its head or its stage began is the slice between its places, and on the way to the
next character no count of open brackets overflows.
-/

namespace HtmlTemplate

namespace Pipeline

namespace Cursor

variable {cursor visited : Cursor} {s before piece rest : Text} {scan : Scan} {b c : Char}

theorem mark_of_ne (hopen : c ≠ '(') (hclose : c ≠ ')') : cursor.mark c = cursor := by
  simp [mark, hopen, hclose]

/-- The cursor has come to `rest`, where the scan of the characters is `scan`.  Since its head or
its stage began it has read `piece`, and `before` is what it had read then. -/
structure Reaches (cursor : Cursor) (s before piece rest : Text) (scan : Scan) : Prop where
  text : s = before ++ (piece ++ rest)
  start : cursor.stageStart.getD cursor.headStart = before.bytes.length
  offset : cursor.offset = (before ++ piece).bytes.length
  alike : cursor.scan.Alike scan
  bar : (cursor.scan.last != some '|') = (scan.last != some '|')
  ascii : ∀ quote ∈ scan.closing, quote.toNat < 128
  bounded : cursor.scan.Bounded cursor.offset

/-- The cursor behind a character that does not separate. -/
def behind (cursor : Cursor) (c : Char) : Cursor :=
  { cursor.mark c with
    scan := (Text.bytes [c]).foldl Scan.step cursor.scan
    offset := cursor.offset + (Text.bytes [c]).length }

theorem walk?_cons (hvisit : cursor.visit? s b rest = some visited)
    (hbounded : visited.scan.Bounded visited.offset) (hlt : visited.offset + 1 < 2147483648) :
    cursor.walk? s (b :: rest) = (visited.pass b).walk? s rest := by
  have hpass : visited.pass? b = some (visited.pass b) := if_pos ((hbounded.step b).fits hlt)
  simp only [walk?, hvisit, hpass, Option.bind_eq_bind, Option.bind_some]

/-- Bytes from 128 on are passed without more. -/
theorem walk?_wide {bs : Text} (hbs : ∀ b ∈ bs, 128 ≤ b.toNat)
    (hbounded : cursor.scan.Bounded cursor.offset)
    (hlt : cursor.offset + bs.length < 2147483648) :
    cursor.walk? s (bs ++ rest) = walk? s { cursor with
      scan := bs.foldl Scan.step cursor.scan
      offset := cursor.offset + bs.length } rest := by
  induction bs generalizing cursor with
  | nil => rfl
  | cons b bs ih =>
      have hb := hbs b (List.mem_cons_self ..)
      have hne (d : Char) (hd : d.toNat < 128) : b ≠ d := by
        rintro rfl
        omega
      have hpipe : Separator.pipe.separates cursor.scan b (bs ++ rest) = false :=
        Separator.separates_eq_false_of_ne (hne '|' (by decide)) _
      have hcomma : Separator.comma.separates cursor.scan b (bs ++ rest) = false :=
        Separator.separates_eq_false_of_ne (hne ',' (by decide)) _
      have hvisit : cursor.visit? s b (bs ++ rest) = some cursor := by
        simp [visit?, hpipe, hcomma, mark_of_ne (hne '(' (by decide)) (hne ')' (by decide))]
      have hlater : ∀ later ∈ bs, 128 ≤ later.toNat := fun later hmem =>
        hbs later (List.mem_cons_of_mem b hmem)
      have hpass : (cursor.pass b).scan.Bounded (cursor.pass b).offset := hbounded.step b
      rw [List.length_cons] at hlt
      rw [List.cons_append, walk?_cons hvisit hbounded (by omega),
        ih hlater hpass (by simp only [pass]; omega)]
      simp only [pass, List.foldl_cons, List.length_cons, Nat.add_assoc, Nat.add_comm 1]

namespace Reaches

theorem slice? (h : cursor.Reaches s before piece rest scan) :
    s.slice? (cursor.stageStart.getD cursor.headStart) cursor.offset = some piece :=
  Text.slice?_eq_some_iff.mpr ⟨before, rest, h.text, h.start.symm, h.offset.symm⟩

theorem offset_lt (h : cursor.Reaches s before piece (c :: rest) scan)
    (hsize : s.bytes.length < 2147483648) :
    cursor.offset + (Text.bytes [c]).length < 2147483648 := by
  rw [h.text, ← List.append_assoc, Text.bytes_append, List.length_append, ← h.offset,
    Text.bytes_cons, List.length_append] at hsize
  omega

theorem separates (h : cursor.Reaches s before piece rest scan) (sep : Separator) (c : Char)
    (more : Text) : sep.separates cursor.scan c more.bytes = sep.separates scan c more :=
  Separator.separates_bytes h.alike h.bar more

theorem behind (h : cursor.Reaches s before piece (c :: rest) scan) :
    (cursor.behind c).Reaches s before (piece ++ [c]) rest (scan.step c) where
  text := by simpa using h.text
  start := h.start
  offset := by
    rw [← List.append_assoc, Text.bytes_append, List.length_append, ← h.offset]
    rfl
  alike := h.alike.bytes h.ascii c
  bar := Scan.last_bytes cursor.scan scan c
  ascii := Scan.closing_step_lt h.ascii c
  bounded := h.bounded.foldl _

/-- A character that does not separate is passed. -/
theorem walk?_behind (h : cursor.Reaches s before piece (c :: rest) scan)
    (hsize : s.bytes.length < 2147483648) (hpipe : Separator.pipe.separates scan c rest = false)
    (hcomma : cursor.stageStart = none → Separator.comma.separates scan c rest = false) :
    cursor.walk? s (Text.bytes (c :: rest)) = (cursor.behind c).walk? s rest.bytes := by
  have hlt := h.offset_lt hsize
  rw [Text.bytes_cons]
  by_cases hc : c.toNat < 128
  · have hvisit : cursor.visit? s c rest.bytes = some (cursor.mark c) := by
      have hcomma :
          (cursor.stageStart.isNone && Separator.comma.separates scan c rest) = false := by
        cases hstage : cursor.stageStart with
        | none => simpa using hcomma hstage
        | some start => rfl
      simp only [visit?, h.separates, hpipe, hcomma, Bool.false_eq_true, if_false]
    have hbehind : cursor.behind c = (cursor.mark c).pass c := by
      simp only [Cursor.behind, Text.bytes_of_lt hc]
      rfl
    rw [Text.bytes_of_lt hc] at hlt ⊢
    rw [hbehind]
    exact walk?_cons hvisit h.bounded hlt
  · have hc : 128 ≤ c.toNat := Nat.not_lt.mp hc
    have hmark : cursor.mark c = cursor := by
      apply mark_of_ne
      · rintro rfl
        exact absurd hc (by decide)
      · rintro rfl
        exact absurd hc (by decide)
    rw [walk?_wide (Text.le_of_mem_bytes hc) h.bounded hlt, Cursor.behind, hmark]

theorem argumentsStart_behind (h : cursor.Reaches s before piece rest scan)
    (hstage : cursor.stageStart.isSome = true) (c : Char) :
    (cursor.behind c).argumentsStart =
      if c = '(' && scan.inCode && scan.paren = 0 then some (cursor.offset + 1)
      else cursor.argumentsStart := by
  simp only [Cursor.behind, mark, hstage, Bool.true_and, h.alike.inCode, h.alike.paren]

theorem argumentsStop_behind (h : cursor.Reaches s before piece rest scan)
    (hstage : cursor.stageStart.isSome = true) (c : Char) :
    (cursor.behind c).argumentsStop =
      if c = ')' && scan.inCode && scan.paren = 1 then some cursor.offset
      else cursor.argumentsStop := by
  simp only [Cursor.behind, mark, hstage, Bool.true_and, h.alike.inCode, h.alike.paren]

/-- Behind a separator a new piece begins. -/
theorem pass_separator {sep : Separator}
    (h : cursor.Reaches s before piece (sep.char :: rest) scan) (visited : Cursor)
    (hscan : visited.scan = cursor.scan) (hoffset : visited.offset = cursor.offset)
    (hstart : visited.stageStart.getD visited.headStart = cursor.offset + 1) :
    (visited.pass sep.char).Reaches s (before ++ (piece ++ [sep.char])) [] rest
      (scan.step sep.char) where
  text := by simpa using h.text
  start := by
    have hsize : (before ++ (piece ++ [sep.char])).bytes.length = cursor.offset + 1 := by
      rw [← List.append_assoc, Text.bytes_append, List.length_append, ← h.offset]
      cases sep <;> rfl
    rw [hsize]
    exact hstart
  offset := by
    rw [List.append_nil, ← List.append_assoc, Text.bytes_append, List.length_append, ← h.offset]
    simp only [pass, hoffset]
    cases sep <;> rfl
  alike := by
    simp only [pass, hscan]
    exact h.alike.step sep.char
  bar := rfl
  ascii := Scan.closing_step_lt h.ascii sep.char
  bounded := by
    simp only [pass, hscan, hoffset]
    exact h.bounded.step sep.char

theorem walk?_separator {sep : Separator}
    (h : cursor.Reaches s before piece (sep.char :: rest) scan)
    (hsize : s.bytes.length < 2147483648)
    (hvisit : cursor.visit? s sep.char rest.bytes = some visited)
    (hscan : visited.scan = cursor.scan) (hoffset : visited.offset = cursor.offset) :
    cursor.walk? s (Text.bytes (sep.char :: rest)) =
      (visited.pass sep.char).walk? s rest.bytes := by
  have hbytes : Text.bytes [sep.char] = [sep.char] := by cases sep <;> rfl
  have hlt := h.offset_lt hsize
  rw [hbytes, ← hoffset] at hlt
  rw [Text.bytes_cons, hbytes]
  exact walk?_cons hvisit (by rw [hscan, hoffset]; exact h.bounded) hlt

end Reaches

end Cursor

end Pipeline

end HtmlTemplate
