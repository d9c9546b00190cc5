import HtmlTemplate.Proofs.Name
import HtmlTemplate.Proofs.Pieces
import HtmlTemplate.Template.Loop
/-!
Loop directives as they are written: one name, or two in parentheses, then a keyword between spaces,
and the source.  A directive is cut at the first `in` between spaces that stands anywhere in it, and
at `of` only where there is none.  So it is read as it is written if the keyword does not stand
between spaces among the names and, where it is `of`, neither does `in` in the source; else the
directive is refused.
-/

namespace HtmlTemplate.Loop

/-- The word between the names of a loop and its source. -/
inductive Keyword where
  | inWord
  | ofWord

namespace Keyword

def word : Keyword → Text
  | inWord => "in".toList
  | ofWord => "of".toList

/-- A keyword with a space on either side. -/
def mark (keyword : Keyword) : Text := ' ' :: (keyword.word ++ [' '])

theorem mark_ne_nil (keyword : Keyword) : keyword.mark ≠ [] := List.cons_ne_nil _ _

/-- Another place is found than the one between the names and the source. -/
def IsMisread (left source : Text) : Keyword → Prop
  | inWord => inWord.mark <:+: left
  | ofWord => inWord.mark <:+: left ++ (ofWord.mark ++ source) ∨ ofWord.mark <:+: left

end Keyword

/-- What may be written for the names of a loop. -/
inductive Spells : Text → Text → Option Text → Prop where
  | item {item : Text} : Text.isName item = true → Spells item item none
  | pair {item index first second : Text} : Text.isName item = true → Text.isName index = true →
      first.trim = item → second.trim = index →
      Spells ('(' :: (first ++ ',' :: (second ++ [')']))) item (some index)

variable {left item source : Text} {index : Option Text}

theorem sides?_eq (directive : Text) : sides? directive =
    (Text.breakOn Keyword.inWord.mark directive).or
      (Text.breakOn Keyword.ofWord.mark directive) := rfl

theorem not_mem_of_isName_trim {s : Text} {c : Char} (hs : Text.isName s.trim = true)
    (hblank : Text.isBlank c = false) (hname : Text.isNameChar c = false) : c ∉ s := by
  intro hc
  rw [Text.isNameChar_of_mem hs (Text.mem_trim_of_mem hc hblank)] at hname
  cases hname

/-! ### The names -/

theorem names?_eq_some {s : Text} (h : names? s = some (item, index)) :
    (index = none ∧ Text.isName item = true ∧ s.trim = item) ∨
    ∃ name first second : Text, index = some name ∧ Text.isName item = true ∧
      Text.isName name = true ∧ first.trim = item ∧ second.trim = name ∧
      s = first ++ ',' :: second := by
  obtain ⟨first, others, hsplit⟩ := List.exists_cons_of_ne_nil (Text.splitWhere_ne_nil (· = ',') s)
  rw [names?, hsplit, List.map_cons] at h
  rcases Text.eq_append_of_splitWhere hsplit with ⟨rfl, rfl⟩ | ⟨d, rest, hd, hrest, rfl⟩
  · rw [List.map_nil] at h
    obtain ⟨hname, heq⟩ := Option.ite_none_right_eq_some.mp h
    cases heq
    exact .inl ⟨rfl, hname, rfl⟩
  · obtain ⟨second, more, rfl⟩ :=
      List.exists_cons_of_ne_nil (hrest ▸ Text.splitWhere_ne_nil (· = ',') rest)
    rcases Text.eq_append_of_splitWhere hrest with ⟨rfl, rfl⟩ | ⟨d', rest', -, hrest', -⟩
    · rw [List.map_cons, List.map_nil] at h
      obtain ⟨hnames, heq⟩ := Option.ite_none_right_eq_some.mp h
      obtain ⟨hfirst, hsecond⟩ := Bool.and_eq_true_iff.mp hnames
      cases heq
      rw [of_decide_eq_true hd]
      exact .inr ⟨rest.trim, first, rest, rfl, hfirst, hsecond, rfl, rfl, rfl⟩
    · -- A third piece stands for a third name.
      obtain ⟨third, pieces, rfl⟩ :=
        List.exists_cons_of_ne_nil (hrest' ▸ Text.splitWhere_ne_nil (· = ',') rest')
      cases h

theorem not_mem_of_names? {s : Text} {c : Char} (h : names? s = some (item, index))
    (hblank : Text.isBlank c = false) (hname : Text.isNameChar c = false) (hcomma : c ≠ ',') :
    c ∉ s := by
  rcases names?_eq_some h with ⟨-, hitem, rfl⟩ | ⟨name, first, second, -, hitem, hsecond, rfl, rfl,
    rfl⟩
  · exact not_mem_of_isName_trim hitem hblank hname
  · simp only [List.mem_append, List.mem_cons, not_or]
    exact ⟨not_mem_of_isName_trim hitem hblank hname, hcomma,
      not_mem_of_isName_trim hsecond hblank hname⟩

theorem unwrapped_of_head?_ne {s : Text} (h : s.head? ≠ some '(') : unwrapped s = s := by
  unfold unwrapped
  split
  · exact absurd rfl h
  · rfl

theorem unwrapped_enclosed (s : Text) : unwrapped ('(' :: (s ++ [')'])) = s := by
  rw [unwrapped, if_pos List.getLast?_concat, List.dropLast_concat]

/-- Names after an opening parenthesis end in the only closing one. -/
theorem exists_of_names?_unwrapped {s : Text}
    (h : names? (unwrapped ('(' :: s)) = some (item, index)) :
    ∃ inner, s = inner ++ [')'] ∧ ')' ∉ inner := by
  rw [unwrapped] at h
  split at h
  · next hlast =>
      obtain ⟨inner, rfl⟩ := List.getLast?_eq_some_iff.mp hlast
      rw [List.dropLast_concat] at h
      exact ⟨inner, rfl, not_mem_of_names? h (by decide) (by decide) (by decide)⟩
  · have hparen := not_mem_of_names? h (c := '(') (by decide) (by decide) (by decide)
    exact absurd (List.mem_cons_self ..) hparen

theorem trim_pair (first second : Text) :
    Text.trim ('(' :: (first ++ ',' :: (second ++ [')']))) =
      '(' :: (first ++ ',' :: (second ++ [')'])) := by
  have hassoc : first ++ ',' :: (second ++ [')']) = first ++ ',' :: second ++ [')'] := by simp
  rw [hassoc, Text.trim_enclosed (by decide) (by decide)]

/-- Names are read as they are written. -/
theorem Spells.names?_eq (h : Spells left item index) :
    names? (unwrapped left.trim) = some (item, index) := by
  cases h with
  | item hitem =>
      have hhead : left.head? ≠ some '(' := by
        intro hhead
        obtain ⟨rest, rfl⟩ := List.head?_eq_some_iff.mp hhead
        cases hitem
      have hcomma : ∀ c ∈ left, decide (c = ',') = false := by
        intro c hc
        rw [decide_eq_false_iff_not]
        rintro rfl
        exact absurd (Text.isNameChar_of_mem hitem hc) (by decide)
      rw [Text.trim_of_isName hitem, unwrapped_of_head?_ne hhead, names?,
        Text.splitWhere_eq_singleton hcomma, List.map_cons, List.map_nil,
        Text.trim_of_isName hitem]
      exact if_pos hitem
  | @pair item index first second hitem hindex hfirst hsecond =>
      have hcomma {s : Text} (hs : Text.isName s.trim = true) :
          ∀ c ∈ s, decide (c = ',') = false := by
        intro c hc
        rw [decide_eq_false_iff_not]
        rintro rfl
        exact not_mem_of_isName_trim hs (by decide) (by decide) hc
      have hassoc : first ++ ',' :: (second ++ [')']) = first ++ ',' :: second ++ [')'] := by simp
      rw [trim_pair, hassoc, unwrapped_enclosed, names?, Text.splitWhere_append_cons (by rfl),
        Text.splitWhere_eq_singleton (hcomma (hfirst ▸ hitem)),
        Text.splitWhere_eq_singleton (hcomma (hsecond ▸ hindex)), List.singleton_append,
        List.map_cons, List.map_cons, List.map_nil, hfirst, hsecond]
      exact if_pos (Bool.and_eq_true_iff.mpr ⟨hitem, hindex⟩)

/-! ### Cuts that do not come after the names -/

theorem blank_not_mem_name {item : Text} (h : Text.isName item = true) : ' ' ∉ item := by
  intro hmem
  exact absurd (Text.not_isBlank_of_mem_name h hmem) (by decide)

/-- The only closing parenthesis of a pair ends it, so there are no names in less of it. -/
theorem names?_of_pair_prefix {inner first more : Text} (hinner : ')' ∉ inner) (hmore : more ≠ [])
    (hpair : inner ++ [')'] = first ++ more) :
    names? (unwrapped (Text.trim ('(' :: first))) = none := by
  have hlead : inner = first ++ more.dropLast := by
    rw [← List.dropLast_append_of_ne_nil hmore, ← hpair, List.dropLast_concat]
  have htrim : Text.trim ('(' :: first) = '(' :: Text.trimEnd first :=
    Text.trimEnd_append_cons (s := []) (by decide)
  refine Option.eq_none_iff_forall_not_mem.mpr fun names hnames => ?_
  rw [Option.mem_def, htrim] at hnames
  obtain ⟨inside, hfirst, -⟩ := exists_of_names?_unwrapped hnames
  have hmem : ')' ∈ Text.trimEnd first := hfirst ▸ List.mem_append_right _ (by simp)
  obtain ⟨blanks, -, hends⟩ := Text.exists_trimEnd_append first
  rw [hlead, hends] at hinner
  exact hinner (List.mem_append_left _ (List.mem_append_left _ hmem))

/-- There are no names before a space that stands among the names. -/
theorem Spells.names?_before {first more : Text} (h : Spells left item index)
    (hleft : left = first ++ ' ' :: more) : names? (unwrapped first.trim) = none := by
  cases h with
  | item hitem =>
      refine absurd ?_ (blank_not_mem_name hitem)
      rw [hleft]
      exact List.mem_append_right _ (List.mem_cons_self ..)
  | @pair item index before after hitem hindex hbefore hafter =>
      cases first with
      | nil => cases hleft
      | cons c first =>
          rw [List.cons_append] at hleft
          obtain ⟨rfl, hinner⟩ := List.cons_eq_cons.mp hleft
          have hparen : ')' ∉ before ++ ',' :: after := by
            simp only [List.mem_append, List.mem_cons, not_or]
            exact ⟨not_mem_of_isName_trim (hbefore ▸ hitem) (by decide) (by decide), by decide,
              not_mem_of_isName_trim (hafter ▸ hindex) (by decide) (by decide)⟩
          rw [← List.cons_append, ← List.append_assoc] at hinner
          exact names?_of_pair_prefix hparen (List.cons_ne_nil _ _) hinner

theorem trim_name_append (h : Text.isName item = true) (more : Text) :
    Text.trim (item ++ " o".toList ++ more) = item ++ " o".toList ++ Text.trimEnd more := by
  obtain ⟨c, rest, rfl⟩ := List.exists_cons_of_ne_nil (Text.ne_nil_of_isName h)
  have hc := Text.isBlank_of_isNameChar (Text.isNameChar_of_mem h (List.mem_cons_self ..))
  have hassoc (t : Text) : c :: rest ++ " o".toList ++ t = c :: rest ++ [' '] ++ 'o' :: t := by simp
  have hstart : Text.trimStart (c :: rest ++ " o".toList ++ more) =
      c :: rest ++ " o".toList ++ more := by
    simp [Text.trimStart, hc]
  rw [Text.trim, hstart, hassoc, hassoc, Text.trimEnd_append_cons (by decide)]

/-- What begins with a name, a space and more cannot be read as names. -/
theorem names?_of_name_append (h : Text.isName item = true) (more : Text) :
    names? (unwrapped (Text.trim (item ++ " o".toList ++ more))) = none := by
  have hspace (more : Text) : ' ' ∈ item ++ " o".toList ++ more := by simp
  have hopen : (item ++ " o".toList ++ Text.trimEnd more).head? ≠ some '(' := by
    obtain ⟨c, rest, rfl⟩ := List.exists_cons_of_ne_nil (Text.ne_nil_of_isName h)
    rintro ⟨⟩
    exact absurd (Text.isNameChar_of_mem h (List.mem_cons_self ..)) (by decide)
  refine Option.eq_none_iff_forall_not_mem.mpr fun names hnames => ?_
  rw [Option.mem_def, trim_name_append h, unwrapped_of_head?_ne hopen] at hnames
  -- The space after the item stands in what is read as a name.
  rcases names?_eq_some hnames with ⟨-, hname, heq⟩ | ⟨_, first, second, -, hname, -, heq, -, hcut⟩
  · rw [← trim_name_append h, Text.trim_trim, trim_name_append h] at heq
    exact blank_not_mem_name hname (heq ▸ hspace _)
  · have hcomma : ',' ∉ item ++ " o".toList := by
      rw [List.mem_append, not_or]
      refine ⟨fun hmem => ?_, by decide⟩
      exact absurd (Text.isNameChar_of_mem h hmem) (by decide)
    obtain ⟨more', rfl⟩ := Text.prefix_of_append_eq hcomma hcut
    rw [trim_name_append h] at heq
    exact blank_not_mem_name hname (heq ▸ hspace _)

/-- Nothing that goes on after a closing parenthesis is read as names in parentheses. -/
theorem names?_of_pair_append (inner more : Text) :
    names? (unwrapped (Text.trim ('(' :: (inner ++ [')']) ++ " o".toList ++ more))) = none := by
  have hassoc (t : Text) : '(' :: (inner ++ [')']) ++ " o".toList ++ t =
      '(' :: (inner ++ ") ".toList ++ 'o' :: t) := by simp
  have htrim : Text.trim ('(' :: (inner ++ ") ".toList ++ 'o' :: more)) =
      '(' :: (inner ++ ") ".toList ++ 'o' :: Text.trimEnd more) :=
    Text.trimEnd_append_cons (s := '(' :: (inner ++ ") ".toList)) (by decide)
  refine Option.eq_none_iff_forall_not_mem.mpr fun names hnames => ?_
  rw [Option.mem_def, hassoc, htrim] at hnames
  obtain ⟨inside, hinside, hparen⟩ := exists_of_names?_unwrapped hnames
  have hends : inside = inner ++ ") ".toList ++ ('o' :: Text.trimEnd more).dropLast := by
    rw [← List.dropLast_append_of_ne_nil (List.cons_ne_nil _ _), hinside, List.dropLast_concat]
  rw [hends] at hparen
  simp at hparen

/-- There are no names before a cut that comes after the beginning of the keyword `of`. -/
theorem Spells.names?_beyond (h : Spells left item index) (more : Text) :
    names? (unwrapped (Text.trim (left ++ " o".toList ++ more))) = none := by
  cases h with
  | item hitem => exact names?_of_name_append hitem more
  | @pair item index before after hitem hindex hbefore hafter =>
      have hassoc : before ++ ',' :: after ++ [')'] = before ++ ',' :: (after ++ [')']) := by simp
      rw [← hassoc]
      exact names?_of_pair_append (before ++ ',' :: after) more

/-! ### Where a directive is cut -/

variable {keyword : Keyword}

/-- The mark of a keyword after the names does not begin in the names. -/
theorem Spells.infix_of_infix (h : Spells left item index)
    (hmark : keyword.mark <:+: left ++ keyword.mark.dropLast) : keyword.mark <:+: left := by
  cases h with
  | item hitem =>
      have hcount := hmark.sublist.count_le ' '
      rw [List.count_append, List.count_eq_zero_of_not_mem (blank_not_mem_name hitem)] at hcount
      cases keyword <;> exact absurd hcount (by decide)
  | @pair item index first second hitem hindex hfirst hsecond =>
      have hparen : ')' ∉ keyword.mark := by cases keyword <;> decide
      have hassoc : '(' :: (first ++ ',' :: (second ++ [')'])) ++ keyword.mark.dropLast =
          '(' :: (first ++ ',' :: second) ++ ')' :: keyword.mark.dropLast := by simp
      rw [hassoc] at hmark
      rcases Text.infix_or_infix_of_not_mem hparen hmark with hnames | hrest
      · exact hnames.trans ⟨[], [')'], by simp⟩
      · have hlength := hrest.length_le
        cases keyword <;> exact absurd hlength (by decide)

theorem Spells.sides?_eq (h : Spells left item index) (hread : ¬ keyword.IsMisread left source) :
    sides? (left ++ (keyword.mark ++ source)) = some (left, source) := by
  have hcut (keyword : Keyword) (hleft : ¬ keyword.mark <:+: left) :
      Text.breakOn keyword.mark (left ++ (keyword.mark ++ source)) = some (left, source) :=
    Text.breakOn_append keyword.mark_ne_nil (fun hmark => hleft (h.infix_of_infix hmark)) source
  cases keyword with
  | inWord =>
      rw [Loop.sides?_eq, hcut .inWord hread]
      rfl
  | ofWord =>
      obtain ⟨hwhole, hleft⟩ := not_or.mp hread
      rw [Loop.sides?_eq, (Text.breakOn_eq_none_iff (Keyword.mark_ne_nil _)).mpr hwhole,
        hcut .ofWord hleft]
      rfl

/-- A cut at a keyword that stands among the names leaves no names before it. -/
theorem Spells.breakOn_of_infix (h : Spells left item index) (hmark : keyword.mark <:+: left)
    (rest : Text) : ∃ first tail, Text.breakOn keyword.mark (left ++ rest) = some (first, tail) ∧
      names? (unwrapped first.trim) = none := by
  obtain ⟨before, after, hleft⟩ := hmark
  have hwhole : left ++ rest = before ++ (keyword.mark ++ (after ++ rest)) := by simp [← hleft]
  obtain ⟨first, tail, hcut, -⟩ :=
    Text.exists_breakOn_append keyword.mark_ne_nil before (after ++ rest)
  obtain ⟨more, rfl⟩ := Text.prefix_of_breakOn keyword.mark_ne_nil hcut
  refine ⟨first, tail, by rw [hwhole, hcut], ?_⟩
  have hspace : ∃ others, more ++ keyword.mark ++ after = ' ' :: others := by
    have heq := Text.eq_append_of_breakOn hcut
    rw [List.append_assoc] at heq
    cases more with
    | nil => exact ⟨keyword.word ++ [' '] ++ after, rfl⟩
    | cons c more =>
        obtain ⟨rfl, -⟩ := List.cons_eq_cons.mp (List.append_cancel_left heq)
        exact ⟨more ++ keyword.mark ++ after, rfl⟩
  obtain ⟨others, hothers⟩ := hspace
  exact h.names?_before (by rw [← hothers, ← hleft]; simp)

/-- A cut at `in` where `of` is the keyword leaves no names before it. -/
theorem Spells.names?_of_breakOn {first tail : Text} (h : Spells left item index)
    (hcut : Text.breakOn Keyword.inWord.mark (left ++ (Keyword.ofWord.mark ++ source)) =
      some (first, tail)) : names? (unwrapped first.trim) = none := by
  rcases List.append_eq_append_iff.mp (Text.eq_append_of_breakOn hcut) with
    ⟨more, rfl, hmore⟩ | ⟨more, rfl, hmore⟩
  · -- The keyword `of` is not `in`, so something of it stands before the cut.
    cases more with
    | nil => cases hmore
    | cons c more =>
        obtain ⟨rfl, hrest⟩ := List.cons_eq_cons.mp hmore
        cases more with
        | nil => cases hrest
        | cons d more =>
            obtain ⟨rfl, -⟩ := List.cons_eq_cons.mp hrest
            have hbeyond := h.names?_beyond more
            rwa [List.append_assoc] at hbeyond
  · cases more with
    | nil => cases hmore
    | cons c more =>
        obtain ⟨rfl, -⟩ := List.cons_eq_cons.mp hmore
        exact h.names?_before rfl

theorem Spells.exists_sides? (h : Spells left item index) (hread : keyword.IsMisread left source) :
    ∃ first tail, sides? (left ++ (keyword.mark ++ source)) = some (first, tail) ∧
      names? (unwrapped first.trim) = none := by
  have hin {first tail directive : Text}
      (hcut : Text.breakOn Keyword.inWord.mark directive = some (first, tail)) :
      sides? directive = some (first, tail) := by
    rw [Loop.sides?_eq, hcut]
    rfl
  cases keyword with
  | inWord =>
      obtain ⟨first, tail, hcut, hnames⟩ := h.breakOn_of_infix hread (Keyword.inWord.mark ++ source)
      exact ⟨first, tail, hin hcut, hnames⟩
  | ofWord =>
      cases hcut : Text.breakOn Keyword.inWord.mark (left ++ (Keyword.ofWord.mark ++ source)) with
      | some cut => exact ⟨cut.1, cut.2, hin hcut, h.names?_of_breakOn hcut⟩
      | none =>
          have hwhole := (Text.breakOn_eq_none_iff (Keyword.mark_ne_nil _)).mp hcut
          obtain ⟨first, tail, hof, hnames⟩ :=
            h.breakOn_of_infix (hread.resolve_left hwhole) (Keyword.ofWord.mark ++ source)
          refine ⟨first, tail, ?_, hnames⟩
          rw [Loop.sides?_eq, hcut, hof]
          rfl

/-! ### Keywords as names -/

theorem eq_word_of_infix {s : Text} (hs : Text.isName s.trim = true)
    (hmark : keyword.mark <:+: s) : s.trim = keyword.word := by
  obtain ⟨before, after, rfl⟩ := hmark
  have hword : Text.isName keyword.word = true := by cases keyword <;> rfl
  have hwhole : before ++ keyword.mark ++ after =
      before ++ ' ' :: (keyword.word ++ ' ' :: after) := by simp [Keyword.mark]
  have hrest : Text.isBlankText (keyword.word ++ ' ' :: after) = false := by
    rw [Text.isBlankText_append, Text.isBlankText_of_isName hword, Bool.false_and]
  rw [hwhole] at hs ⊢
  have hbefore : Text.isBlankText before = true := by
    cases hblank : Text.isBlankText before with
    | true => rfl
    | false => exact absurd (Text.mem_trim_append_cons hblank hrest) (blank_not_mem_name hs)
  have hlead : Text.isBlankText (before ++ [' ']) = true := by
    rw [Text.isBlankText_append, hbefore]
    rfl
  have hassoc : before ++ ' ' :: (keyword.word ++ ' ' :: after) =
      before ++ [' '] ++ (keyword.word ++ ' ' :: after) := by simp
  rw [hassoc, Text.trim_append_of_blank_left hlead] at hs ⊢
  have hafter : Text.isBlankText (' ' :: after) = true := by
    cases hblank : Text.isBlankText after with
    | true =>
        rw [← List.singleton_append, Text.isBlankText_append, hblank]
        rfl
    | false =>
        refine absurd (Text.mem_trim_append_cons ?_ hblank) (blank_not_mem_name hs)
        exact Text.isBlankText_of_isName hword
  rw [Text.trim_append_of_blank hafter, Text.trim_of_isName hword]

/-- A keyword between spaces among the names is one of them. -/
theorem Spells.eq_word_of_infix (h : Spells left item index) (hmark : keyword.mark <:+: left) :
    item = keyword.word ∨ index = some keyword.word := by
  cases h with
  | item hitem =>
      refine absurd (hmark.subset (List.mem_cons_self ..)) (blank_not_mem_name hitem)
  | @pair item index first second hitem hindex hfirst hsecond =>
      have hnot : '(' ∉ keyword.mark ∧ ',' ∉ keyword.mark ∧ ')' ∉ keyword.mark := by
        cases keyword <;> decide
      rw [← List.nil_append ('(' :: _)] at hmark
      rcases Text.infix_or_infix_of_not_mem hnot.1 hmark with hnil | hinner
      · exact absurd (List.infix_nil.mp hnil) keyword.mark_ne_nil
      · rcases Text.infix_or_infix_of_not_mem hnot.2.1 hinner with hitem' | hrest
        · subst hfirst
          exact .inl (Loop.eq_word_of_infix hitem hitem')
        · rcases Text.infix_or_infix_of_not_mem hnot.2.2 hrest with hindex' | hnil
          · subst hsecond
            exact .inr (congrArg some (Loop.eq_word_of_infix hindex hindex'))
          · exact absurd (List.infix_nil.mp hnil) keyword.mark_ne_nil

/-! ### Directives -/

theorem ofDirective?_eq_some_iff {directive : Text} {loop : Loop} :
    ofDirective? directive = some loop ↔
      ∃ left right, sides? directive = some (left, right) ∧
        names? (unwrapped left.trim) = some (loop.item, loop.index) ∧
        right.trim = loop.source ∧ loop.source ≠ [] := by
  simp only [ofDirective?, Option.bind_eq_bind, Option.bind_eq_some_iff, Prod.exists]
  refine exists_congr fun left => exists_congr fun right => and_congr_right fun _ => ?_
  constructor
  · rintro ⟨item, index, hnames, hloop⟩
    obtain ⟨hne, heq⟩ := Option.ite_none_left_eq_some.mp hloop
    cases heq
    exact ⟨hnames, rfl, fun hnil => hne (List.isEmpty_iff.mpr hnil)⟩
  · rintro ⟨hnames, hsource, hne⟩
    refine ⟨loop.item, loop.index, hnames, ?_⟩
    rw [hsource]
    exact if_neg fun hnil => hne (List.isEmpty_iff.mp hnil)

theorem parse_eq_ok_iff {directive : Text} {loop : Loop} :
    parse directive = .ok loop ↔ ofDirective? directive = some loop := by
  rw [parse]
  split
  · next heq => rw [heq, Except.ok.injEq, Option.some.injEq]
  · next heq => simp [heq]

theorem parse_of_names?_eq_none {directive left right : Text}
    (hsides : sides? directive = some (left, right))
    (hnames : names? (unwrapped left.trim) = none) :
    parse directive = .error (.invalidLoop directive) := by
  rw [parse, ofDirective?, hsides, Option.bind_eq_bind, Option.bind_some]
  dsimp only
  rw [hnames]
  rfl

theorem isName_of_names? {s : Text} (h : names? s = some (item, index)) :
    Text.isName item = true ∧ ∀ name, index = some name → Text.isName name = true := by
  rcases names?_eq_some h with ⟨rfl, hitem, -⟩ | ⟨name, -, -, rfl, hitem, hname, -⟩
  · exact ⟨hitem, by simp⟩
  · refine ⟨hitem, ?_⟩
    rintro _ ⟨⟩
    exact hname

theorem exists_of_sides? {directive left right : Text}
    (h : sides? directive = some (left, right)) :
    ∃ keyword : Keyword, directive = left ++ (keyword.mark ++ right) := by
  rw [sides?_eq, Option.or_eq_some_iff] at h
  rcases h with h | ⟨-, h⟩
  · exact ⟨.inWord, Text.eq_append_of_breakOn h⟩
  · exact ⟨.ofWord, Text.eq_append_of_breakOn h⟩

/-- A directive is read as it is written if and only if its keyword stands between spaces neither
among the names nor, where it is `of`, the keyword `in` anywhere before or after it; else it is
refused.  With `in` only a name that is this word itself can be in the way.  What is read of any
directive is made of names and of a source that ends it. -/
theorem parse_eq_ok_iff_not_isMisread (hleft : Spells left item index) (hne : source ≠ [])
    (htrim : source.trim = source) (keyword : Keyword) :
    (parse (left ++ (keyword.mark ++ source)) = .ok ⟨item, index, source⟩ ↔
      ¬ keyword.IsMisread left source) ∧
    (keyword.IsMisread left source → parse (left ++ (keyword.mark ++ source)) =
      .error (.invalidLoop (left ++ (keyword.mark ++ source)))) ∧
    (item ≠ Keyword.inWord.word → index ≠ some Keyword.inWord.word →
      parse (left ++ (Keyword.inWord.mark ++ source)) = .ok ⟨item, index, source⟩) ∧
    ∀ directive loop, parse directive = .ok loop → Text.isName loop.item = true ∧
      (∀ name, loop.index = some name → Text.isName name = true) ∧ loop.source ≠ [] ∧
      loop.source.trim = loop.source ∧ loop.source <:+ directive.trim := by
  have hrefused (h : keyword.IsMisread left source) :
      parse (left ++ (keyword.mark ++ source)) =
        .error (.invalidLoop (left ++ (keyword.mark ++ source))) := by
    obtain ⟨first, tail, hsides, hnames⟩ := hleft.exists_sides? h
    exact parse_of_names?_eq_none hsides hnames
  have hread {keyword : Keyword} (h : ¬ keyword.IsMisread left source) :
      parse (left ++ (keyword.mark ++ source)) = .ok ⟨item, index, source⟩ :=
    parse_eq_ok_iff.mpr <| ofDirective?_eq_some_iff.mpr
      ⟨left, source, hleft.sides?_eq h, hleft.names?_eq, htrim, hne⟩
  refine ⟨⟨fun hok hmis => ?_, hread⟩, hrefused, fun hitem hindex => hread fun hmark => ?_, ?_⟩
  · rw [hrefused hmis] at hok
    cases hok
  · rcases hleft.eq_word_of_infix hmark with heq | heq
    · exact hitem heq
    · exact hindex heq
  · intro directive loop hok
    obtain ⟨left, right, hsides, hnames, hsource, hne⟩ :=
      ofDirective?_eq_some_iff.mp (parse_eq_ok_iff.mp hok)
    obtain ⟨hitem, hindex⟩ := isName_of_names? hnames
    refine ⟨hitem, hindex, hne, by rw [← hsource, Text.trim_trim], ?_⟩
    obtain ⟨keyword, rfl⟩ := exists_of_sides? hsides
    rw [← hsource, ← List.append_assoc]
    exact Text.trim_suffix_trim_append _ right

theorem spells_pair : Spells "( x,\ti )".toList "x".toList (some "i".toList) :=
  show Spells ('(' :: (" x".toList ++ ',' :: ("\ti ".toList ++ [')']))) _ _ from
    .pair rfl rfl rfl rfl

theorem isMisread_ofWord :
    Keyword.ofWord.IsMisread "( x,\ti )".toList "['a in b']".toList :=
  .inl ⟨"( x,\ti ) of ['a".toList, "b']".toList, rfl⟩

theorem parse_eq_ok_iff_not_isMisread_pair :
    parse "( x,\ti ) in ['a in b']".toList =
      .ok ⟨"x".toList, some "i".toList, "['a in b']".toList⟩ ∧
    parse "( x,\ti ) of ['a in b']".toList =
      .error (.invalidLoop "( x,\ti ) of ['a in b']".toList) :=
  ⟨(parse_eq_ok_iff_not_isMisread spells_pair (by decide) (by decide) .inWord).2.2.1 (by decide)
      (by decide),
    (parse_eq_ok_iff_not_isMisread spells_pair (by decide) (by decide) .ofWord).2.1
      isMisread_ofWord⟩

theorem not_forall_parse_eq_ok : ¬ ∀ (left item source : Text) (index : Option Text)
    (keyword : Keyword), Spells left item index → source ≠ [] → source.trim = source →
    parse (left ++ (keyword.mark ++ source)) = .ok ⟨item, index, source⟩ := by
  intro hall
  have hread := hall "x".toList "x".toList "['a in b']".toList none .ofWord (.item rfl) (by decide)
    (by decide)
  have hrefused : parse ("x".toList ++ (Keyword.ofWord.mark ++ "['a in b']".toList)) =
      .error (.invalidLoop "x of ['a in b']".toList) := rfl
  rw [hrefused] at hread
  cases hread

end HtmlTemplate.Loop
