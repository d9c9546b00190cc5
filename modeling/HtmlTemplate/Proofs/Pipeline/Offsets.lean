import HtmlTemplate.Proofs.Pipeline.Window
/-!
Cutting a source by the places of its bytes.  No slice fails, the counts of open brackets do not
overflow, and what comes out is the pipeline that is read from the characters of the source.
-/

namespace HtmlTemplate

namespace Pipeline

namespace Cursor

variable {cursor closed : Cursor} {s before piece rest : Text} {scan : Scan} {c : Char}
  {others : List Text}

/-- At the beginning of a stage its group is still to come. -/
theorem group?_unopened (hsep : Separator.pipe.separates scan c rest = true) (source : Text) :
    Window.unopened.group? (scan.step c) source = Stage.lastGroup? .start source :=
  Option.or_none.trans
    (Stage.lastGroup?_of_alike (Separator.alike_start_of_separates hsep) source)

/-- Behind a pipe a stage begins. -/
theorem Reaches.walk?_pipe (h : cursor.Reaches s before piece (c :: rest) scan)
    (hsize : s.bytes.length < 2147483648)
    (hsep : Separator.pipe.separates scan c rest = true) (hclose : cursor.close? s = some closed)
    (hscan : closed.scan = cursor.scan) (hoffset : closed.offset = cursor.offset) :
    ∃ next : Cursor, cursor.walk? s (Text.bytes (c :: rest)) = next.walk? s rest.bytes ∧
      next.Reaches s (before ++ (piece ++ [c])) [] rest (scan.step c) ∧
      next.stageStart.isSome = true ∧
      Window.Marked next (before ++ (piece ++ [c])) [] .unopened ∧
      next.heads = closed.heads ∧ next.calls = closed.calls := by
  obtain ⟨rfl, -⟩ := Separator.atTop_of_separates hsep
  have hvisit : cursor.visit? s Separator.pipe.char rest.bytes = some { closed with
      stageStart := some (cursor.offset + 1), argumentsStart := none, argumentsStop := none } := by
    simp only [visit?, h.separates, hsep, if_true, hclose, Option.map_some]
  have hnext := h.pass_separator { closed with
    stageStart := some (cursor.offset + 1), argumentsStart := none, argumentsStop := none }
    hscan hoffset rfl
  have hwalk := h.walk?_separator hsize hvisit hscan hoffset
  refine ⟨_, hwalk, hnext, rfl, .unopened rfl rfl ?_, rfl, rfl⟩
  rw [hnext.alike.paren, (Separator.alike_start_of_separates hsep).paren]
  rfl

/-- From a stage on, a source is cut into calls, of which the first ends the stage. -/
theorem Reaches.walk?_stages {window : Window} {first : Text}
    (hsize : s.bytes.length < 2147483648) (h : cursor.Reaches s before piece rest scan)
    (hstage : cursor.stageStart.isSome = true)
    (hmarked : Window.Marked cursor before piece window)
    (hcut : Separator.pipe.cutFrom scan rest = first :: others) :
    ∃ final, cursor.walk? s rest.bytes = some final ∧ final.heads = cursor.heads ∧
      final.calls = cursor.calls ++
        Call.of (piece ++ first) (window.group? scan first) :: others.map Call.ofSource := by
  -- on what is still to come: of its cut, the first piece goes on with the one that was begun
  induction rest generalizing cursor before piece scan window first others with
  | nil =>
      obtain ⟨rfl, rfl⟩ := List.cons.inj hcut
      refine ⟨_, h.close?_stage hstage hmarked, rfl, ?_⟩
      rw [List.append_nil, List.map_nil]
  | cons c rest ih =>
      cases hsep : Separator.pipe.separates scan c rest with
      | false =>
          obtain ⟨more, rfl, hmore⟩ := Separator.exists_of_cutFrom_cons hsep hcut
          have hcomma (hnone : cursor.stageStart = none) :
              Separator.comma.separates scan c rest = false := by
            rw [hnone] at hstage
            cases hstage
          obtain ⟨final, hfinal, hheads, hcalls⟩ :=
            ih h.behind hstage (hmarked.step h hstage) hmore
          refine ⟨final, (h.walk?_behind hsize hsep hcomma).trans hfinal, hheads, ?_⟩
          rw [hcalls, window.group?_cons, List.append_assoc, List.singleton_append]
          rfl
      | true =>
          rw [Separator.cutFrom, if_pos hsep] at hcut
          obtain ⟨rfl, rfl⟩ := List.cons.inj hcut
          obtain ⟨next, hwalk, hnext, hnextStage, hnextMarked, hnextHeads, hnextCalls⟩ :=
            h.walk?_pipe hsize hsep (h.close?_stage hstage hmarked) rfl rfl
          obtain ⟨second, later, hlater⟩ :=
            List.exists_cons_of_ne_nil (Separator.cutFrom_ne_nil .pipe (scan.step c) rest)
          obtain ⟨final, hfinal, hheads, hcalls⟩ := ih hnext hnextStage hnextMarked hlater
          refine ⟨final, hwalk.trans hfinal, hheads.trans hnextHeads, ?_⟩
          rw [hcalls, hnextCalls, group?_unopened hsep, hlater, List.append_nil, List.map_cons,
            List.append_assoc]
          rfl

/-- Behind a comma that separates heads, the next head begins. -/
theorem Reaches.walk?_comma (h : cursor.Reaches s before piece (c :: rest) scan)
    (hsize : s.bytes.length < 2147483648) (hstage : cursor.stageStart = none)
    (hsep : Separator.comma.separates scan c rest = true) :
    ∃ next : Cursor, cursor.walk? s (Text.bytes (c :: rest)) = next.walk? s rest.bytes ∧
      next.Reaches s (before ++ (piece ++ [c])) [] rest (scan.step c) ∧
      next.stageStart = none ∧ next.heads = cursor.heads ++ [piece.trim] ∧
      next.calls = cursor.calls := by
  obtain ⟨rfl, -⟩ := Separator.atTop_of_separates hsep
  have hpipe : Separator.pipe.separates scan Separator.comma.char rest = false :=
    Separator.separates_eq_false_of_ne (by decide) rest
  have hvisit : cursor.visit? s Separator.comma.char rest.bytes = some { cursor with
      heads := cursor.heads ++ [piece.trim], headStart := cursor.offset + 1 } := by
    simp only [visit?, h.separates, hpipe, hsep, hstage, h.close?_head hstage]
    rfl
  have hnext := h.pass_separator { cursor with
    heads := cursor.heads ++ [piece.trim], headStart := cursor.offset + 1 } rfl rfl
    (by rw [hstage, Option.getD_none])
  exact ⟨_, h.walk?_separator hsize hvisit rfl rfl, hnext, hstage, rfl, rfl⟩

/-- Before its first stage a source is cut into heads. -/
theorem Reaches.walk?_heads {first head : Text} {heads : List Text}
    (hsize : s.bytes.length < 2147483648) (h : cursor.Reaches s before piece rest scan)
    (hstage : cursor.stageStart = none)
    (hcut : Separator.pipe.cutFrom scan rest = first :: others)
    (hheads : Separator.comma.cutFrom scan first = head :: heads) :
    ∃ final, cursor.walk? s rest.bytes = some final ∧
      final.heads = cursor.heads ++ ((piece ++ head) :: heads).map Text.trim ∧
      final.calls = cursor.calls ++ others.map Call.ofSource := by
  -- a pipe hands the rest over to the stages, a comma begins the next head
  induction rest generalizing cursor before piece scan first others head heads with
  | nil =>
      obtain ⟨rfl, rfl⟩ := List.cons.inj hcut
      obtain ⟨rfl, rfl⟩ := List.cons.inj hheads
      refine ⟨_, h.close?_head hstage, ?_, ?_⟩ <;> simp
  | cons c rest ih =>
      cases hsep : Separator.pipe.separates scan c rest with
      | true =>
          rw [Separator.cutFrom, if_pos hsep] at hcut
          obtain ⟨rfl, rfl⟩ := List.cons.inj hcut
          obtain ⟨rfl, rfl⟩ := List.cons.inj hheads
          obtain ⟨next, hwalk, hnext, hnextStage, hnextMarked, hnextHeads, hnextCalls⟩ :=
            h.walk?_pipe hsize hsep (h.close?_head hstage) rfl rfl
          obtain ⟨second, later, hlater⟩ :=
            List.exists_cons_of_ne_nil (Separator.cutFrom_ne_nil .pipe (scan.step c) rest)
          obtain ⟨final, hfinal, hfinalHeads, hcalls⟩ :=
            hnext.walk?_stages hsize hnextStage hnextMarked hlater
          refine ⟨final, hwalk.trans hfinal, ?_, ?_⟩
          · rw [hfinalHeads, hnextHeads, List.append_nil]
            rfl
          · rw [hcalls, hnextCalls, group?_unopened hsep, hlater]
            rfl
      | false =>
          obtain ⟨more, rfl, hmore⟩ := Separator.exists_of_cutFrom_cons hsep hcut
          cases hcomma : Separator.comma.separates scan c more with
          | true =>
              rw [Separator.cutFrom, if_pos hcomma] at hheads
              obtain ⟨rfl, rfl⟩ := List.cons.inj hheads
              obtain ⟨next, hwalk, hnext, hnextStage, hnextHeads, hnextCalls⟩ :=
                h.walk?_comma hsize hstage hcomma
              obtain ⟨second, later, hlater⟩ :=
                List.exists_cons_of_ne_nil (Separator.cutFrom_ne_nil .comma (scan.step c) more)
              obtain ⟨final, hfinal, hfinalHeads, hcalls⟩ := ih hnext hnextStage hmore hlater
              refine ⟨final, hwalk.trans hfinal, ?_, hnextCalls ▸ hcalls⟩
              rw [hfinalHeads, hnextHeads, hlater, List.append_nil, List.append_assoc]
              rfl
          | false =>
              obtain ⟨tail, rfl, htail⟩ := Separator.exists_of_cutFrom_cons hcomma hheads
              obtain ⟨final, hfinal, hfinalHeads, hcalls⟩ :=
                ih h.behind hstage hmore htail
              refine ⟨final, (h.walk?_behind hsize hsep fun _ => hcomma).trans hfinal, ?_, hcalls⟩
              rw [hfinalHeads, List.append_assoc, List.singleton_append]
              rfl

theorem reaches_start (s : Text) : Cursor.start.Reaches s [] [] s .start where
  text := rfl
  start := rfl
  offset := rfl
  alike := .refl .start
  bar := rfl
  ascii := by simp [Scan.start]
  bounded := ⟨Nat.le_refl 0, Nat.le_refl 0, Nat.le_refl 0⟩

end Cursor

variable {s first source group : Text} {stages : List Text}

theorem ofSource_eq_of_cut (hcut : Separator.cut .pipe s = first :: stages) : ofSource s =
    ⟨(Separator.cut .comma first).map Text.trim, stages.map Stage.ofSource⟩ := by
  simp only [ofSource, headsOf, hcut, List.headD_cons, List.tail_cons]

/-- The arguments of a stage are a part of the source, without at least a parenthesis. -/
theorem infix_of_lastGroup? (hcut : Separator.cut .pipe s = first :: stages)
    (hsource : source ∈ stages) (hgroup : Stage.lastGroup? .start source = some group) :
    group <:+: s ∧ group.length < s.length := by
  have hpart : source <:+: s :=
    Separator.infix_of_mem_cutFrom (hcut ▸ List.mem_cons_of_mem first hsource)
  obtain ⟨before, after, hwhole, -⟩ := Stage.exists_of_lastGroup?_eq_some hgroup
  have hgroupPart : group <:+: source := ⟨before ++ ['('], after, by simp [hwhole]⟩
  refine ⟨hgroupPart.trans hpart, ?_⟩
  have hle := hpart.length_le
  rw [hwhole, List.length_append, List.length_cons, List.length_append] at hle
  omega

theorem mapM_eq_some_map {α β : Type} {f : α → Option β} {g : α → β} {l : List α}
    (h : ∀ a ∈ l, f a = some (g a)) : l.mapM f = some (l.map g) := by
  induction l with
  | nil => rfl
  | cons a l ih =>
      have hrest := ih fun b hb => h b (List.mem_cons_of_mem a hb)
      rw [List.mapM_cons, h a (List.mem_cons_self ..), hrest]
      rfl

/-- Nothing fails where a source is cut by the places of its bytes, and what comes out is what is
read from its characters. -/
theorem split?_eq_some (s : Text) (hsize : s.bytes.length < 2147483648) :
    split? s = some (ofSource s) := by
  obtain ⟨first, stages, hcut, -⟩ := Separator.exists_cut_cons .pipe s
  obtain ⟨head, heads, hheads, -⟩ := Separator.exists_cut_cons .comma first
  obtain ⟨final, hwalk, hfinalHeads, hfinalCalls⟩ :=
    (Cursor.reaches_start s).walk?_heads hsize rfl hcut hheads
  have hcalls : final.calls = stages.map Call.ofSource := hfinalCalls
  rw [split?, hwalk, Option.bind_eq_bind, Option.bind_some, hcalls, List.mapM_map,
    mapM_eq_some_map (g := Stage.ofSource) fun source hsource => ?_, ofSource_eq_of_cut hcut,
    hheads, hfinalHeads]
  · rfl
  · simp only [Function.comp, Call.ofSource, Stage.ofSource]
    cases hgroup : Stage.lastGroup? .start source with
    | none => rfl
    | some group =>
        obtain ⟨hpart, hshorter⟩ := infix_of_lastGroup? hcut hsource hgroup
        have hgroupSize : group.bytes.length < 2147483648 :=
          Nat.lt_of_le_of_lt (Text.length_bytes_le_of_infix hpart) hsize
        have hread := split?_eq_some group hgroupSize
        simp only [Call.of, hshorter, dite_true, hread, Option.map_some]
        cases Text.isBlankText group <;> rfl
termination_by s.length

/-- A source is cut into pieces between single commas and bars.  The pieces before the first bar are
the heads, and each piece after it is a stage, of which the arguments are shorter than the source.
By the places of the bytes the same pieces are sliced, and no slice of them fails: each has its
places in order, in its text and between characters. -/
theorem split?_eq_pieces (s : Text) (hsize : s.bytes.length < 2147483648) :
    ∃ heads stages : List Text, heads ≠ [] ∧
      Separator.cut .pipe s = [','].intercalate heads :: stages ∧
      Separator.cut .comma ([','].intercalate heads) = heads ∧
      s = ['|'].intercalate ([','].intercalate heads :: stages) ∧
      split? s = some ⟨heads.map Text.trim, stages.map Stage.ofSource⟩ ∧
      ofSource s = ⟨heads.map Text.trim, stages.map Stage.ofSource⟩ ∧
      (∀ source ∈ stages, ∀ group, Stage.lastGroup? .start source = some group →
        group.length < s.length) ∧
      ∀ (t : Text) start stop, (t.slice? start stop).isSome = true →
        start ≤ stop ∧ stop ≤ t.bytes.length ∧ t.IsBoundary start ∧ t.IsBoundary stop := by
  obtain ⟨first, stages, hcut, hs⟩ := Separator.exists_cut_cons .pipe s
  have hfirst : [','].intercalate (Separator.cut .comma first) = first :=
    Separator.intercalate_cutFrom .comma .start first
  have hread := ofSource_eq_of_cut hcut
  refine ⟨Separator.cut .comma first, stages, Separator.cutFrom_ne_nil .comma .start first, ?_⟩
  rw [hfirst]
  refine ⟨hcut, rfl, hs, ?_, hread, ?_, fun t start stop => Text.isSome_slice?_iff.mp⟩
  · rw [split?_eq_some s hsize, hread]
  · exact fun source hsource group hgroup => (infix_of_lastGroup? hcut hsource hgroup).2

/-- The last group of a stage does not close, after one that does. -/
theorem split?_eq_pieces_unclosed : split? "é, 'b' | f(ü) (à".toList =
    some ⟨["é".toList, "'b'".toList], [⟨"f".toList, ["à".toList]⟩]⟩ := by
  obtain ⟨heads, stages, -, -, -, -, hsplit, hread, -⟩ :=
    split?_eq_pieces "é, 'b' | f(ü) (à".toList (by decide)
  rw [hsplit, ← hread]
  decide

end Pipeline

end HtmlTemplate
