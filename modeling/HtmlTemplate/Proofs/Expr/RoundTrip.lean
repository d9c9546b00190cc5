import HtmlTemplate.Proofs.Expr.Precedence
/-!
The text of a plain expression is read as that expression, and the texts of several with operators
between them as the comparison that the chain stands for.
-/

namespace HtmlTemplate.Expr

open Grammar Reader

/-- The text of an expression is read again: as an operand before anything that cannot go on with
it, and as a whole before anything that ends an expression.  The depth of the brackets is at most
the length of the text. -/
structure ReadsBack (e : Expr) : Prop where
  head : ∀ rest, skipGap (render e ++ rest) = render e ++ rest
  operand : ∀ depth rest, (asOperand e (render e)).length ≤ depth → Bounded rest →
    Reads (unary (expr depth)) (asOperand e (render e) ++ rest) (.ok e) rest
  whole : ∀ depth rest, (render e).length < depth → Ended rest →
    Reads (expr depth) (render e ++ rest) (.ok e) rest

theorem ReadsBack.rereads {e : Expr} {depth : Nat} (h : ReadsBack e)
    (hdepth : (render e).length < depth) : Rereads (expr depth) render e :=
  ⟨h.head, fun rest hend => h.whole depth rest hdepth hend⟩

theorem ReadsBack.skipGap_asOperand {e : Expr} (h : ReadsBack e) (rest : Text) :
    skipGap (asOperand e (render e) ++ rest) = asOperand e (render e) ++ rest := by
  rw [asOperand]
  split
  · exact skipGap_eq_self_of_head rfl
  · exact h.head rest

theorem asOperand_eq_self {e : Expr} (h : e.isCompare = false) (text : Text) :
    asOperand e text = text := by
  rw [asOperand, if_neg (by rw [h]; decide)]

theorem ReadsBack.of_unary {e : Expr} (hcompare : e.isCompare = false)
    (hhead : ∀ rest, skipGap (render e ++ rest) = render e ++ rest)
    (h : ∀ depth rest, (render e).length ≤ depth → Bounded rest →
      Reads (unary (expr depth)) (render e ++ rest) (.ok e) rest) : ReadsBack e where
  head := hhead
  operand := by
    rw [asOperand_eq_self hcompare]
    exact h
  whole := by
    intro depth rest hdepth hend
    cases depth with
    | zero => exact absurd hdepth (Nat.not_lt_zero _)
    | succ depth =>
        have hoperand : RereadsOperand (expr depth) render e :=
          ⟨hhead, fun rest => h depth rest (by omega)⟩
        have hlinks : ∀ link ∈ ([] : List Link), RereadsOperand (expr depth) render link.operand :=
          nofun
        have hread := reads_grouped hoperand hlinks hend
        rw [List.map_nil, grouped_nil] at hread
        exact hread

theorem ReadsBack.of_primary {e : Expr} {c : Char} {s : Text} (hcompare : e.isCompare = false)
    (htext : render e = c :: s) (hgap : isGap c = false) (hbang : c ≠ '!')
    (h : ∀ depth rest, (render e).length ≤ depth → Bounded rest →
      Reads (primary (expr depth)) (render e ++ rest) (.ok e) rest) : ReadsBack e := by
  apply ReadsBack.of_unary hcompare
  · intro rest
    rw [htext]
    exact skipGap_eq_self_of_head hgap
  · intro depth rest hdepth hrest
    have hread := h depth rest hdepth hrest
    rw [htext] at hread ⊢
    exact reads_unary hgap hbang hread

theorem ReadsBack.rereadsOperand {e : Expr} {depth : Nat} (h : ReadsBack e)
    (hdepth : (asOperand e (render e)).length ≤ depth) :
    RereadsOperand (expr depth) (fun e => asOperand e (render e)) e :=
  ⟨h.skipGap_asOperand, fun rest => h.operand depth rest hdepth⟩

/-- The one link of a comparison that is written with a space on each side of its operator. -/
def spacedLink (operator : Comparison) (right : Expr) : Link where
  before := ⟨[' '], rfl⟩
  operator := operator
  after := ⟨[' '], rfl⟩
  operand := right

theorem readsBack_compare {left right : Expr} (operator : Comparison) (hleft : ReadsBack left)
    (hright : ReadsBack right) : ReadsBack (.compare left operator right) := by
  have htext (rest : Text) : render (.compare left operator right) ++ rest =
      asOperand left (render left) ++ ([spacedLink operator right].flatMap
        (Link.text fun e => asOperand e (render e)) ++ rest) := by
    simp [render, spacedLink, Link.text]
  have hwhole (depth : Nat) (rest : Text)
      (hdepth : (render (.compare left operator right)).length < depth) (hend : Ended rest) :
      Reads (expr depth) (render (.compare left operator right) ++ rest)
        (.ok (.compare left operator right)) rest := by
    rw [render, List.length_append, List.length_cons, List.length_append, List.length_cons]
      at hdepth
    cases depth with
    | zero => exact absurd hdepth (Nat.not_lt_zero _)
    | succ depth =>
        have hfirst : RereadsOperand (expr depth) _ left := hleft.rereadsOperand (by omega)
        have hlinks : ∀ link ∈ [spacedLink operator right],
            RereadsOperand (expr depth) (fun e => asOperand e (render e)) link.operand := by
          simp only [List.mem_singleton, forall_eq]
          exact hright.rereadsOperand (by omega)
        have hread := reads_grouped hfirst hlinks hend
        have hgrouped : grouped left ([spacedLink operator right].map Link.next) =
            .compare left operator right := grouped_singleton left (operator, right)
        rw [hgrouped] at hread
        rw [htext]
        exact hread
  have hhead (rest : Text) : skipGap (render (.compare left operator right) ++ rest) =
      render (.compare left operator right) ++ rest := by
    rw [htext]
    exact hleft.skipGap_asOperand _
  refine ⟨hhead, ?_, hwhole⟩
  intro depth rest hdepth hrest
  have hbrackets : asOperand (.compare left operator right)
      (render (.compare left operator right)) =
        '(' :: (render (.compare left operator right) ++ [')']) := rfl
  rw [hbrackets] at hdepth ⊢
  simp only [List.length_cons, List.length_append] at hdepth
  have hinside := hwhole depth (')' :: rest) (by omega) (ended_cons rfl rest)
  rw [← hhead] at hinside
  rw [List.cons_append, List.append_assoc]
  exact reads_unary rfl (by decide) (reads_primary_brackets hinside)

theorem readsBack_not {operand : Expr} (h : ReadsBack operand) : ReadsBack (.not operand) := by
  apply ReadsBack.of_unary rfl
  · intro rest
    rw [render]
    exact skipGap_eq_self_of_head rfl
  · intro depth rest hdepth hrest
    rw [render, List.length_cons] at hdepth
    rw [render]
    exact reads_unary_bang (h.operand depth rest (by omega) hrest)

theorem readsBack_null : ReadsBack .null := by
  apply ReadsBack.of_primary (c := 'n') rfl rfl rfl (by decide)
  intro depth rest _ hrest
  exact (reads_null hrest.name).orElse_left

theorem readsBack_bool (b : Bool) : ReadsBack (.bool b) := by
  have hhead : ∃ c s, render (.bool b) = c :: s ∧ isGap c = false ∧ c ≠ '!' ∧ c ≠ 'n' := by
    cases b with
    | true => exact ⟨'t', _, rfl, rfl, by decide, by decide⟩
    | false => exact ⟨'f', _, rfl, rfl, by decide, by decide⟩
  obtain ⟨c, s, htext, hgap, hbang, hnull⟩ := hhead
  apply ReadsBack.of_primary rfl htext hgap hbang
  intro depth rest _ hrest
  have hfails : Fails Grammar.null (render (.bool b) ++ rest) := by
    rw [htext]
    exact fails_null hnull _
  exact (reads_boolean b hrest.name).orElse_left.orElse_right hfails

theorem readsBack_number {n : Number} (hn : n.IsLiteral) : ReadsBack (.number n) := by
  obtain ⟨c, s, hcons, hc⟩ := Number.exists_cons_of_render hn
  have htext : render (.number n) = c :: s := by rw [render, hcons]
  have hhead : isGap c = false ∧ c ≠ '!' := by
    rcases hc with rfl | hc
    · decide
    · have hname : Text.isNameChar c = true := by simp [Text.isNameChar, Char.isAlphanum, hc]
      refine ⟨(not_bound_of_isNameChar hname).1, ?_⟩
      rintro rfl
      exact absurd hc (by decide)
  apply ReadsBack.of_primary rfl htext hhead.1 hhead.2
  intro depth rest _ hrest
  exact reads_primary_number hn hrest.numeral

theorem readsBack_string (s : Text) : ReadsBack (.string s) := by
  apply ReadsBack.of_primary (c := '\'') rfl rfl rfl (by decide)
  intro depth rest _ _
  exact reads_primary_string s

theorem head_of_isWord {name : Text} (h : IsWord name) (s : Text) :
    ∃ c more, name ++ s = c :: more ∧ isGap c = false ∧ c ≠ '!' := by
  obtain ⟨c, more, rfl, hc⟩ := exists_cons_of_isName h.1
  have hchar := Text.isNameChar_of_isNameStart hc
  exact ⟨c, more ++ s, rfl, (not_bound_of_isNameChar hchar).1,
    (ne_of_isNameStart_eq_false rfl hc).symm⟩

theorem length_le_renderPath {path : List Step} {key : Expr} (h : Step.computed key ∈ path) :
    (render key).length ≤ (renderPath path).length := by
  induction path with
  | nil => cases h
  | cons step path ih =>
      rcases List.mem_cons.mp h with rfl | h
      · rw [renderPath]
        simp only [List.length_cons, List.length_append]
        omega
      · have hpath := ih h
        cases step <;>
          · rw [renderPath]
            simp only [List.length_cons, List.length_append]
            omega

theorem readsBack_access {name : Text} {path : List Step} (hname : IsWord name)
    (hmembers : ∀ member, Step.name member ∈ path → Text.isName member = true)
    (hkeys : ∀ key, Step.computed key ∈ path → ReadsBack key) : ReadsBack (.access name path) := by
  have htext : render (.access name path) = name ++ renderPath path := by rw [render]
  obtain ⟨c, more, hcons, hgap, hbang⟩ := head_of_isWord hname (renderPath path)
  apply ReadsBack.of_primary rfl (htext.trans hcons) hgap hbang
  intro depth rest hdepth hrest
  have hlength : 0 < name.length := by
    obtain ⟨d, others, rfl, -⟩ := exists_cons_of_isName hname.1
    exact Nat.succ_pos _
  rw [htext, List.length_append] at hdepth
  have hsteps : ∀ step ∈ path, RereadsStep (expr depth) step := by
    intro step hmem
    cases step with
    | name member => exact hmembers member hmem
    | computed key =>
        have hle := length_le_renderPath hmem
        exact (hkeys key hmem).rereads (by omega)
  obtain ⟨hcall, hread⟩ := reads_member hname hsteps hrest
  rw [htext, List.append_assoc]
  exact reads_primary_member hname (head_renderPath path hrest) hcall hread

theorem readsBack_call {name : Text} {arguments : List Expr} (hname : IsWord name)
    (h : ∀ e ∈ arguments, ReadsBack e) : ReadsBack (.call name arguments) := by
  have htext : render (.call name arguments) =
      name ++ '(' :: (joined render arguments ++ [')']) := by rw [render, renderItems_eq]
  obtain ⟨c, more, hcons, hgap, hbang⟩ :=
    head_of_isWord hname ('(' :: (joined render arguments ++ [')']))
  apply ReadsBack.of_primary rfl (htext.trans hcons) hgap hbang
  intro depth rest hdepth _
  rw [htext] at hdepth
  simp only [List.length_cons, List.length_append] at hdepth
  have harguments : ∀ e ∈ arguments, Rereads (expr depth) render e := by
    intro e hmem
    have hle := length_le_joined render hmem
    exact (h e hmem).rereads (by omega)
  have hclosing : Fails (expr depth) (')' :: rest) := fails_expr_of_closing rfl depth rest
  have hread := reads_call hname harguments hclosing
  rw [htext]
  simp only [List.cons_append, List.append_assoc]
  exact reads_primary_call hname hread

theorem readsBack_list {items : List Expr} (h : ∀ e ∈ items, ReadsBack e) :
    ReadsBack (.list items) := by
  have htext : render (.list items) = '[' :: (joined render items ++ [']']) := by
    rw [render, renderItems_eq]
  apply ReadsBack.of_primary rfl htext rfl (by decide)
  intro depth rest hdepth _
  rw [htext] at hdepth
  simp only [List.length_cons, List.length_append] at hdepth
  have hitems : ∀ e ∈ items, Rereads (expr depth) render e := by
    intro e hmem
    have hle := length_le_joined render hmem
    exact (h e hmem).rereads (by omega)
  have hclosing : Fails (expr depth) (']' :: rest) := fails_expr_of_closing rfl depth rest
  have hread := reads_array hitems hclosing
  rw [htext]
  simp only [List.cons_append, List.append_assoc]
  exact reads_primary_array hread

theorem readsBack_map {properties : List Property}
    (hvalues : ∀ key value, Property.static key value ∈ properties → ReadsBack value)
    (hkeys : ∀ key value, Property.computed key value ∈ properties → ReadsBack key)
    (hcomputed : ∀ key value, Property.computed key value ∈ properties → ReadsBack value) :
    ReadsBack (.map properties) := by
  have hhead : ∃ s, render (.map properties) = '\x7b' :: s := by
    cases properties with
    | nil => exact ⟨_, rfl⟩
    | cons property properties => exact ⟨_, rfl⟩
  obtain ⟨s, htext⟩ := hhead
  apply ReadsBack.of_primary rfl htext rfl (by decide)
  intro depth rest hdepth _
  have hproperties : ∀ property ∈ properties, RereadsProperty (expr depth) property := by
    intro property hmem
    have hle : (renderProperty property).length < depth := by
      -- an entry is shorter than the map by its braces
      have hproperty := length_le_joined renderProperty hmem
      cases properties with
      | nil => cases hmem
      | cons first others =>
          rw [render, renderProperties_eq] at hdepth
          · simp only [List.length_append] at hdepth
            have : "\x7b ".toList.length = 2 := rfl
            omega
          · simp
    cases property with
    | static key value =>
        rw [renderProperty] at hle
        simp only [List.length_append] at hle
        exact (hvalues key value hmem).rereads (by omega)
    | computed key value =>
        rw [renderProperty] at hle
        simp only [List.length_append, List.length_cons] at hle
        exact ⟨(hkeys key value hmem).rereads (by omega),
          (hcomputed key value hmem).rereads (by omega)⟩
  have hread : Reads (object (expr depth)) (render (.map properties) ++ rest)
      (.ok (.map properties)) rest := reads_object hproperties
  rw [htext] at hread ⊢
  exact reads_primary_object hread

theorem readsBack_of_plain {e : Expr} (h : Plain e) : ReadsBack e := by
  induction h with
  | null => exact readsBack_null
  | bool b => exact readsBack_bool b
  | number hn => exact readsBack_number hn
  | string s => exact readsBack_string s
  | access hname hmembers _ ih => exact readsBack_access hname hmembers ih
  | not _ ih => exact readsBack_not ih
  | compare operator _ _ ihleft ihright => exact readsBack_compare operator ihleft ihright
  | call hname _ ih => exact readsBack_call hname ih
  | list _ ih => exact readsBack_list ih
  | map _ _ _ ihvalues ihkeys ihcomputed => exact readsBack_map ihvalues ihkeys ihcomputed

theorem ofSource_of_reads {source : Text} {e : Expr}
    (h : Reads (expr (source.length + 1)) (skipGap source) (.ok e) []) :
    ofSource source = .ok e := by
  have hstart : Reads (word []) source () source := reads_word [] source
  have hend : Reads endOfInput (skipGap []) () [] := Reads.of_read rfl
  have hinside := (hstart.both (h.both hend)).map fun read => read.2.1
  have hread : Reads (expression (source.length + 1)) source (.ok e) [] := hinside.named
  obtain ⟨left, hsource, -⟩ := hread
  exact ofSource_of_read hsource

theorem ofSource_render {e : Expr} (h : Plain e) : ofSource (render e) = .ok e := by
  have hback := readsBack_of_plain h
  have hwhole := hback.whole _ [] (Nat.lt_succ_self _) ended_nil
  rw [← hback.head, List.append_nil] at hwhole
  exact ofSource_of_reads hwhole

/-- Reading an expression from its own text gives that expression again. -/
theorem ofSource_render_of_ofSource {source : Text} {e : Expr} (h : ofSource source = .ok e) :
    ofSource (render e) = .ok e :=
  ofSource_render (quoted_and_plain_of_ofSource h).2

theorem ofSource_render_of_ofSource_list :
    ∃ e, ofSource "[!(a<b.c['\\n\\'']), 0.10]".toList = .ok e ∧
      render e = "[!(a < b.c['\\n\\'']), 0.1]".toList ∧ ofSource (render e) = .ok e := by
  have h : (ofSource "[!(a<b.c['\\n\\'']), 0.10]".toList).toOption.map render =
      some "[!(a < b.c['\\n\\'']), 0.1]".toList := by decide +kernel
  obtain ⟨e, hread, hrender⟩ := Option.map_eq_some_iff.mp h
  have hsource := Outcome.eq_ok_of_toOption hread
  exact ⟨e, hsource, hrender, ofSource_render_of_ofSource hsource⟩

/-! ### Chains of comparisons -/

theorem rereadsOperand_of_ofSource {source : Text} {e : Expr} {depth : Nat}
    (h : ofSource source = .ok e) (hcompare : e.isCompare = false)
    (hdepth : (render e).length ≤ depth) : RereadsOperand (expr depth) render e := by
  have hback := readsBack_of_plain (quoted_and_plain_of_ofSource h).2
  refine ⟨hback.head, fun rest hrest => ?_⟩
  have hoperand := hback.operand depth rest
  rw [asOperand_eq_self hcompare] at hoperand
  exact hoperand hdepth hrest

/-- The texts of operands with operators between them, and any blanks around these, are read as the
comparison in which the equalities bind looser than the other operators and each level groups to the
left. -/
theorem ofSource_links (lead trail : Gap) {first : Expr} {links : List Link}
    (hoperands : ∀ e ∈ first :: links.map Link.operand,
      (∃ source, ofSource source = .ok e) ∧ e.isCompare = false) :
    ofSource (lead.text ++ (render first ++ (links.flatMap (Link.text render) ++ trail.text))) =
      .ok (grouped first (links.map Link.next)) := by
  apply ofSource_of_reads
  generalize hsource :
    lead.text ++ (render first ++ (links.flatMap (Link.text render) ++ trail.text)) = source
  have hlength : (render first).length + (links.flatMap (Link.text render)).length ≤
      source.length := by
    rw [← hsource]
    simp only [List.length_append]
    omega
  have hfirst : RereadsOperand (expr source.length) render first := by
    obtain ⟨⟨original, horiginal⟩, hcompare⟩ := hoperands first (by simp)
    exact rereadsOperand_of_ofSource horiginal hcompare (by omega)
  have hlinks : ∀ link ∈ links, RereadsOperand (expr source.length) render link.operand := by
    intro link hmem
    have hoperand : link.operand ∈ first :: links.map Link.operand :=
      List.mem_cons_of_mem first (List.mem_map_of_mem hmem)
    obtain ⟨⟨original, horiginal⟩, hcompare⟩ := hoperands link.operand hoperand
    have hle : (render link.operand).length ≤ (links.flatMap (Link.text render)).length :=
      length_le_links hmem
    exact rereadsOperand_of_ofSource horiginal hcompare (by omega)
  have hend : Ended trail.text := by
    rw [Ended, trail.skipGap_text]
    rfl
  have hread := reads_grouped hfirst hlinks hend
  rw [← hfirst.head, ← lead.skipGap_append, hsource, ← reads_skipGap_iff, trail.skipGap_text]
    at hread
  exact hread

theorem ofSource_links_mixed :
    ofSource "\ta<b==!c >=\n-1 !=='d'".toList =
      .ok (.compare
        (.compare (.compare (.access "a".toList []) .lt (.access "b".toList [])) .looseEq
          (.compare (.not (.access "c".toList [])) .ge (.number (.int (-1)))))
        .strictNe (.string "d".toList)) := by
  have hnumber : Number.IsLiteral (.int (-1)) := show Number.fitsWord (-1) = true by decide +kernel
  have hword (c : Char) (h : IsWord [c]) : Plain (.access [c] []) := .access h nofun nofun
  have hsource {e : Expr} (h : Plain e) : ∃ source, ofSource source = .ok e :=
    ⟨render e, ofSource_render h⟩
  have hoperands : ∀ e ∈ Expr.access "a".toList [] :: ([
        ⟨⟨[], rfl⟩, .lt, ⟨[], rfl⟩, .access "b".toList []⟩,
        ⟨⟨[], rfl⟩, .looseEq, ⟨[], rfl⟩, .not (.access "c".toList [])⟩,
        ⟨⟨[' '], rfl⟩, .ge, ⟨['\n'], rfl⟩, .number (.int (-1))⟩,
        ⟨⟨[' '], rfl⟩, .strictNe, ⟨[], rfl⟩, .string "d".toList⟩] : List Link).map Link.operand,
      (∃ source, ofSource source = .ok e) ∧ e.isCompare = false := by
    simp only [List.map_cons, List.map_nil, List.mem_cons, List.not_mem_nil, or_false,
      forall_eq_or_imp, forall_eq]
    exact ⟨⟨hsource (hword 'a' ⟨rfl, by decide⟩), rfl⟩,
      ⟨hsource (hword 'b' ⟨rfl, by decide⟩), rfl⟩,
      ⟨hsource (.not (hword 'c' ⟨rfl, by decide⟩)), rfl⟩,
      ⟨hsource (.number hnumber), rfl⟩, ⟨hsource (.string _), rfl⟩⟩
  have hread := ofSource_links ⟨['\t'], rfl⟩ ⟨[], rfl⟩ hoperands
  exact hread

end HtmlTemplate.Expr
