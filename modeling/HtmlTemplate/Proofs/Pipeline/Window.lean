import HtmlTemplate.Proofs.Pipeline.Cursor
import HtmlTemplate.Proofs.Trim
/-!
The places of the arguments of a stage.  Parentheses may close before any has opened, open again
after they have closed, or never close.  Behind each character the cursor has the places of the last
ones that opened where none was open, and so at the end of the stage the group that it is read with.
-/

namespace HtmlTemplate

namespace Pipeline

namespace Call

/-- A call that is read from the text of a stage and from what stands in its parentheses. -/
def of (source : Text) : Option Text → Call
  | none => ⟨source.trim, none⟩
  | some group => ⟨Text.trim (source.trim.takeWhile (· ≠ '(')), some group⟩

def ofSource (source : Text) : Call := of source (Stage.lastGroup? .start source)

end Call

namespace Cursor

variable {cursor : Cursor} {s before piece rest : Text} {scan : Scan} {c : Char}

/-- How far a stage has come with its arguments. -/
inductive Window where
  | unopened
  | opened (group : Text)
  | closed (group : Text)

namespace Window

variable {window : Window}

def step (window : Window) (scan : Scan) (c : Char) : Window :=
  if c = '(' && scan.inCode && scan.paren = 0 then .opened []
  else
    match window with
    | .opened group =>
        if c = ')' && scan.inCode && scan.paren = 1 then .closed group else .opened (group ++ [c])
    | window => window

/-- The last group of a stage of which `rest` is still to come. -/
def group? (window : Window) (scan : Scan) (rest : Text) : Option Text :=
  (Stage.lastGroup? scan rest).or <|
    match window with
    | .unopened => none
    | .opened group => some (group ++ Stage.upToClosing scan rest)
    | .closed group => some group

theorem group?_cons (window : Window) (scan : Scan) (c : Char) (rest : Text) :
    window.group? scan (c :: rest) = (window.step scan c).group? (scan.step c) rest := by
  simp only [group?, step, Stage.lastGroup?, Stage.upToClosing]
  cases Stage.lastGroup? (scan.step c) rest with
  | some group => rfl
  | none =>
      simp only [Option.none_or]
      by_cases hopens : (c = '(' && scan.inCode && scan.paren = 0) = true
      · simp [hopens]
      · cases window with
        | unopened => simp [hopens]
        | closed group => simp [hopens]
        | opened group =>
            by_cases hcloses : (c = ')' && scan.inCode && scan.paren = 1) = true
            · simp [hopens, hcloses]
            · simp [hopens, hcloses]

/-- The cursor has the places of the arguments.  Before they have ended, the place where arguments
end is one that comes before them, if there is any. -/
inductive Marked (cursor : Cursor) (before : Text) : Text → Window → Prop
  | unopened {piece : Text} (hstart : cursor.argumentsStart = none)
      (hstop : cursor.argumentsStop = none) (hparen : cursor.scan.paren ≤ 0) :
      Marked cursor before piece .unopened
  | opened {lead group : Text} {start : Nat} (hstart : cursor.argumentsStart = some start)
      (hlead : (before ++ (lead ++ ['('])).bytes.length = start)
      (hstop : ∀ stop ∈ cursor.argumentsStop, stop < start) (hparen : 1 ≤ cursor.scan.paren) :
      Marked cursor before (lead ++ '(' :: group) (.opened group)
  | closed {lead group after : Text} {start : Nat} (hstart : cursor.argumentsStart = some start)
      (hlead : (before ++ (lead ++ ['('])).bytes.length = start)
      (hstop : cursor.argumentsStop = some (start + group.bytes.length))
      (hparen : cursor.scan.paren ≤ 0) :
      Marked cursor before (lead ++ '(' :: (group ++ after)) (.closed group)

theorem length_group {lead : Text} {start : Nat} (group : Text)
    (hlead : (before ++ (lead ++ ['('])).bytes.length = start) (after : Text) :
    (before ++ (lead ++ '(' :: (group ++ after))).bytes.length =
      start + group.bytes.length + after.bytes.length := by
  have hwhole : before ++ (lead ++ '(' :: (group ++ after)) =
      before ++ (lead ++ ['(']) ++ group ++ after := by simp
  rw [hwhole, Text.bytes_append, List.length_append, Text.bytes_append, List.length_append, hlead]

theorem Marked.stop_le (hmarked : Marked cursor before piece window) :
    ∀ stop ∈ cursor.argumentsStop, stop ≤ (before ++ piece).bytes.length := by
  intro stop hmem
  cases hmarked with
  | unopened _ hnone => simp [hnone] at hmem
  | @opened lead group start _ hlead hstop =>
      have hlt := hstop stop hmem
      have hlength := length_group group hlead []
      rw [List.append_nil] at hlength
      omega
  | @closed lead group after start _ hlead hstop =>
      obtain rfl := Option.some.inj (hstop.symm.trans hmem)
      rw [length_group group hlead after]
      omega

/-- Outside of its arguments a stage has no parenthesis open. -/
theorem paren_step_le (hopens : ¬ (c = '(' && scan.inCode && scan.paren = 0) = true)
    (hparen : scan.paren ≤ 0) : (scan.step c).paren ≤ 0 := by
  simp only [Bool.and_eq_true, decide_eq_true_eq, not_and] at hopens
  rw [Scan.paren_step]
  split
  · next hopening =>
      simp only [Bool.and_eq_true, decide_eq_true_eq] at hopening
      have hne := hopens ⟨hopening.2, hopening.1⟩
      omega
  · split <;> omega

/-- Within its arguments a stage has a parenthesis open, up to the one that closes them. -/
theorem le_paren_step (hcloses : ¬ (c = ')' && scan.inCode && scan.paren = 1) = true)
    (hparen : 1 ≤ scan.paren) : 1 ≤ (scan.step c).paren := by
  simp only [Bool.and_eq_true, decide_eq_true_eq, not_and] at hcloses
  rw [Scan.paren_step]
  split
  · omega
  · split
    · next hclosing =>
        simp only [Bool.and_eq_true, decide_eq_true_eq] at hclosing
        have hne := hcloses ⟨hclosing.2, hclosing.1⟩
        omega
    · exact hparen

/-- The places are those of the arguments behind the next character as well. -/
theorem Marked.step (hmarked : Marked cursor before piece window)
    (h : cursor.Reaches s before piece (c :: rest) scan)
    (hstage : cursor.stageStart.isSome = true) :
    Marked (cursor.behind c) before (piece ++ [c]) (window.step scan c) := by
  have hparen : (cursor.behind c).scan.paren = (scan.step c).paren := h.behind.alike.paren
  have hstart := h.argumentsStart_behind hstage c
  have hstop := h.argumentsStop_behind hstage c
  have hdepth := h.alike.paren
  have hoffset := h.offset
  by_cases hopens : (c = '(' && scan.inCode && scan.paren = 0) = true
  · -- a group that opens is the last one whatever was before it, also one that has ended
    have hwindow : window.step scan c = .opened [] := if_pos hopens
    have hle := hmarked.stop_le
    rw [if_pos hopens] at hstart
    simp only [Bool.and_eq_true, decide_eq_true_eq] at hopens
    obtain ⟨⟨rfl, hcode⟩, hzero⟩ := hopens
    rw [hwindow]
    refine .opened hstart ?_ ?_ ?_
    · rw [← List.append_assoc, Text.bytes_append, List.length_append, ← hoffset]
      rfl
    · intro stop hmem
      rw [hstop, if_neg (by simp)] at hmem
      have hbefore := hle stop hmem
      omega
    · simp [hparen, Scan.paren_step, hcode, hzero]
  · rw [if_neg hopens] at hstart
    cases hmarked with
    | unopened hnone hnone' hnonpos =>
        have hwindow : Window.unopened.step scan c = .unopened := if_neg hopens
        have hcloses : ¬ (c = ')' && scan.inCode && scan.paren = 1) = true := by
          simp only [Bool.and_eq_true, decide_eq_true_eq]
          omega
        rw [if_neg hcloses] at hstop
        rw [hwindow]
        refine .unopened (hstart.trans hnone) (hstop.trans hnone') ?_
        rw [hparen]
        exact paren_step_le hopens (hdepth ▸ hnonpos)
    | @opened lead group start hfirst hlead hbefore hpos =>
        rw [List.append_assoc, List.cons_append]
        by_cases hcloses : (c = ')' && scan.inCode && scan.paren = 1) = true
        · have hwindow : (Window.opened group).step scan c = .closed group := by
            simp [Window.step, hopens, hcloses]
          rw [if_pos hcloses] at hstop
          simp only [Bool.and_eq_true, decide_eq_true_eq] at hcloses
          obtain ⟨⟨rfl, hcode⟩, hone⟩ := hcloses
          have hlength := length_group group hlead []
          rw [List.append_nil, ← hoffset] at hlength
          rw [hwindow]
          refine .closed (hstart.trans hfirst) hlead (hstop.trans (congrArg some hlength)) ?_
          simp [hparen, Scan.paren_step, hcode, hone]
        · have hwindow : (Window.opened group).step scan c = .opened (group ++ [c]) := by
            simp [Window.step, hopens, hcloses]
          rw [if_neg hcloses] at hstop
          rw [hwindow]
          refine .opened (hstart.trans hfirst) hlead (hstop ▸ hbefore) ?_
          rw [hparen]
          exact le_paren_step hcloses (hdepth ▸ hpos)
    | @closed lead group after start hfirst hlead hlast hnonpos =>
        have hwindow : (Window.closed group).step scan c = .closed group := if_neg hopens
        have hcloses : ¬ (c = ')' && scan.inCode && scan.paren = 1) = true := by
          simp only [Bool.and_eq_true, decide_eq_true_eq]
          omega
        rw [if_neg hcloses] at hstop
        rw [hwindow, List.append_assoc, List.cons_append, List.append_assoc]
        refine .closed (hstart.trans hfirst) hlead (hstop.trans hlast) ?_
        rw [hparen]
        exact paren_step_le hopens (hdepth ▸ hnonpos)

end Window

variable {start stop first : Nat} {argumentsStop : Option Nat} {group : Text}

theorem call?_none (hsource : s.slice? start stop = some piece) :
    call? s start stop none argumentsStop = some (Call.of piece none) := by
  simp [call?, hsource, Call.of]

theorem call?_some (hsource : s.slice? start stop = some piece) (hmem : '(' ∈ piece)
    (hgroup : s.slice? first ((argumentsStop.filter (first ≤ ·)).getD stop) = some group) :
    call? s start stop (some first) argumentsStop = some (Call.of piece (some group)) := by
  obtain ⟨opening, hopening, hname⟩ :=
    Text.slice?_byteIndex? (Text.mem_trim_of_mem hmem (by decide))
  simp [call?, hsource, hopening, hgroup, hname, Call.of]

theorem Reaches.close?_head (h : cursor.Reaches s before piece rest scan)
    (hstage : cursor.stageStart = none) :
    cursor.close? s = some { cursor with heads := cursor.heads ++ [piece.trim] } := by
  have hslice := h.slice?
  rw [hstage] at hslice
  simp only [close?, hstage]
  rw [Option.getD_none] at hslice
  rw [hslice]
  rfl

theorem Reaches.close?_stage {window : Window} (h : cursor.Reaches s before piece rest scan)
    (hstage : cursor.stageStart.isSome = true)
    (hmarked : Window.Marked cursor before piece window) :
    cursor.close? s =
      some { cursor with calls := cursor.calls ++ [Call.of piece (window.group? scan [])] } := by
  obtain ⟨start, hstart⟩ := Option.isSome_iff_exists.mp hstage
  have hsource := h.slice?
  rw [hstart, Option.getD_some] at hsource
  have hcall : call? s start cursor.offset cursor.argumentsStart cursor.argumentsStop =
      some (Call.of piece (window.group? scan [])) := by
    have htext := h.text
    have hoffset := h.offset
    cases hmarked with
    | unopened hnone =>
        rw [hnone]
        exact call?_none hsource
    | @opened lead group first hfirst hlead hstop =>
        have hfilter : cursor.argumentsStop.filter (first ≤ ·) = none :=
          Option.filter_eq_none_iff.mpr fun stop hmem => by simpa using hstop stop hmem
        have hgroup : (Window.opened group).group? scan [] = some group := by
          simp [Window.group?, Stage.lastGroup?, Stage.upToClosing]
        rw [hfirst, hgroup]
        refine call?_some hsource (by simp) (Text.slice?_eq_some_iff.mpr ?_)
        rw [hfilter]
        refine ⟨before ++ (lead ++ ['(']), rest, by simpa using htext, hlead, ?_⟩
        simpa using hoffset.symm
    | @closed lead group after first hfirst hlead hstop =>
        have hfilter : cursor.argumentsStop.filter (first ≤ ·) =
            some (first + group.bytes.length) := by
          rw [hstop]
          exact Option.filter_some_pos (by simp)
        have hgroup : (Window.closed group).group? scan [] = some group := rfl
        rw [hfirst, hgroup]
        refine call?_some hsource (by simp) (Text.slice?_eq_some_iff.mpr ?_)
        rw [hfilter]
        refine ⟨before ++ (lead ++ ['(']), after ++ rest, by simpa using htext, hlead, ?_⟩
        rw [Text.bytes_append, List.length_append, hlead]
        rfl
  simp only [close?, hstart, hcall]
  rfl

end Cursor

end Pipeline

end HtmlTemplate
