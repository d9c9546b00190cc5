import HtmlTemplate.Proofs.Outcome
import HtmlTemplate.Template.Engine
/-!
Which branch of a chain of conditions is kept.  A run over siblings is the scan of the renderer
together with the place that it reaches, so that runs compose.  A chain keeps its first truthy
branch, and conditions after that one have no influence on anything.
-/

namespace HtmlTemplate

namespace Branch

def Begins (branch : Option Branch) : Prop := ∃ condition, branch = some (.first condition)

/-- Whether a sibling is a branch that wins over those after it: its condition is truthy, or it has
none. -/
def IsTruthy (scope : Scope) : Option Branch → Prop
  | none => False
  | some (.first condition) | some (.other condition) =>
      ∃ value, scope.evaluate condition = .ok value ∧ value.isTruthy = true
  | some .last => True

theorem exists_evaluate_iff {scope : Scope} {condition : Text} {value : Value}
    (h : scope.evaluate condition = .ok value) :
    (∃ found, scope.evaluate condition = .ok found ∧ found.isTruthy = true) ↔
      value.isTruthy = true := by
  constructor
  · rintro ⟨found, hfound, htruthy⟩
    rw [h] at hfound
    cases hfound
    exact htruthy
  · intro htruthy
    exact ⟨value, h, htruthy⟩

end Branch

namespace Chain

/-! ### Runs -/

def run (scope : Scope) (chain : Chain) : List (Option Branch) →
    Except RenderError (List Bool × Chain)
  | [] => .ok ([], chain)
  | branch :: rest => do
      let (kept, next) ← decide scope chain branch
      let (others, final) ← run scope next rest
      .ok (kept :: others, final)

theorem resolveFrom_eq_map_run (scope : Scope) (chain : Chain) (branches : List (Option Branch)) :
    resolveFrom scope chain branches = (run scope chain branches).map Prod.fst := by
  induction branches generalizing chain with
  | nil => rfl
  | cons branch rest ih =>
      rw [resolveFrom, run]
      cases decide scope chain branch with
      | error error => rfl
      | ok answer =>
          simp only [bind, Except.bind, ih answer.2]
          cases run scope answer.2 rest <;> rfl

theorem run_append (scope : Scope) (chain : Chain) (first second : List (Option Branch)) :
    run scope chain (first ++ second) = (run scope chain first).bind fun done =>
      (run scope done.2 second).map fun more => (done.1 ++ more.1, more.2) := by
  induction first generalizing chain with
  | nil =>
      simp only [List.nil_append, run, Except.bind]
      cases run scope chain second <;> rfl
  | cons branch rest ih =>
      rw [List.cons_append, run, run]
      cases decide scope chain branch with
      | error error => rfl
      | ok answer =>
          simp only [bind, Except.bind, ih answer.2]
          cases run scope answer.2 rest with
          | error error => rfl
          | ok done =>
              simp only [Except.map]
              cases run scope done.2 second <;> rfl

theorem run_cons_eq_ok_iff {scope : Scope} {chain final : Chain} {branch : Option Branch}
    {rest : List (Option Branch)} {kept : List Bool} :
    run scope chain (branch :: rest) = .ok (kept, final) ↔
      ∃ answer next others, decide scope chain branch = .ok (answer, next) ∧
        run scope next rest = .ok (others, final) ∧ kept = answer :: others := by
  simp only [run, Outcome.bind_eq_ok_iff, Prod.exists, Except.ok.injEq, Prod.mk.injEq]
  constructor
  · rintro ⟨answer, next, hdecide, others, place, hrun, rfl, rfl⟩
    exact ⟨answer, next, others, hdecide, hrun, rfl⟩
  · rintro ⟨answer, next, others, hdecide, hrun, rfl⟩
    exact ⟨answer, next, hdecide, others, final, hrun, rfl, rfl⟩

theorem run_append_eq_ok_iff {scope : Scope} {chain final : Chain}
    {first second : List (Option Branch)} {kept : List Bool} :
    run scope chain (first ++ second) = .ok (kept, final) ↔
      ∃ done next more, run scope chain first = .ok (done, next) ∧
        run scope next second = .ok (more, final) ∧ kept = done ++ more := by
  rw [run_append]
  constructor
  · intro h
    cases hfirst : run scope chain first with
    | error error => simp [hfirst, Except.bind] at h
    | ok done =>
        cases hsecond : run scope done.2 second with
        | error error => simp [hfirst, hsecond, Except.bind, Except.map] at h
        | ok more =>
            simp only [hfirst, hsecond, Except.bind, Except.map, Except.ok.injEq,
              Prod.mk.injEq] at h
            obtain ⟨rfl, rfl⟩ := h
            exact ⟨done.1, done.2, more.1, rfl, hsecond, rfl⟩
  · rintro ⟨done, next, more, hfirst, hsecond, rfl⟩
    simp [hfirst, hsecond, Except.bind, Except.map]

theorem length_run {scope : Scope} {chain final : Chain} {branches : List (Option Branch)}
    {kept : List Bool} (h : run scope chain branches = .ok (kept, final)) :
    kept.length = branches.length := by
  induction branches generalizing chain kept with
  | nil =>
      simp only [run, Except.ok.injEq, Prod.mk.injEq] at h
      rw [← h.1]
      rfl
  | cons branch rest ih =>
      obtain ⟨answer, next, others, -, hrun, rfl⟩ := run_cons_eq_ok_iff.mp h
      rw [List.length_cons, ih hrun, List.length_cons]

/-- A sibling counts only through the decision on it at the place that the run reaches. -/
theorem run_congr_at {scope : Scope} {chain : Chain} {before after : List (Option Branch)}
    {branch other : Option Branch}
    (h : ∀ kept next, run scope chain before = .ok (kept, next) →
      decide scope next branch = decide scope next other) :
    run scope chain (before ++ branch :: after) = run scope chain (before ++ other :: after) := by
  rw [run_append, run_append]
  cases hbefore : run scope chain before with
  | error error => rfl
  | ok done =>
      have hsame := h done.1 done.2 hbefore
      simp only [Except.bind, run, hsame]

/-! ### Before any chain -/

theorem decide_before {scope : Scope} {branch : Option Branch} (h : ¬ Branch.Begins branch) :
    decide scope .before branch = .ok (true, .before) := by
  cases branch with
  | none => rfl
  | some branch =>
      cases branch with
      | first condition => exact absurd ⟨condition, rfl⟩ h
      | other condition => rfl
      | last => rfl

theorem run_before {scope : Scope} {branches : List (Option Branch)}
    (h : ∀ branch ∈ branches, ¬ Branch.Begins branch) :
    run scope .before branches = .ok (branches.map fun _ => true, .before) := by
  induction branches with
  | nil => rfl
  | cons branch rest ih =>
      have hrest := ih fun other hother => h other (List.mem_cons_of_mem _ hother)
      rw [run, decide_before (h branch (by simp))]
      simp only [bind, Except.bind, hrest]
      rfl

/-! ### Inside a chain -/

theorem decide_inside {scope : Scope} {chain next : Chain} {branch : Option Branch} {answer : Bool}
    (hchain : chain ≠ .before) (hbranch : ¬ Branch.Begins branch)
    (h : decide scope chain branch = .ok (answer, next)) :
    next ≠ .before ∧
      (answer = true ↔ branch = none ∨ chain = .unmatched ∧ Branch.IsTruthy scope branch) ∧
      (branch ≠ some .last →
        (next = .unmatched ↔ chain = .unmatched ∧ ¬ Branch.IsTruthy scope branch)) := by
  match branch, chain with
  | _, .before => exact absurd rfl hchain
  | some (.first condition), _ => exact absurd ⟨condition, rfl⟩ hbranch
  | none, .matched | none, .unmatched =>
      cases h
      simp [Branch.IsTruthy]
  | some .last, .matched | some .last, .unmatched =>
      cases h
      simp [Branch.IsTruthy]
  | some (.other condition), .matched =>
      cases h
      simp
  | some (.other condition), .unmatched =>
      obtain ⟨value, hvalue, hanswer⟩ := Outcome.bind_eq_ok_iff.mp h
      cases hanswer
      simp only [Branch.IsTruthy, Branch.exists_evaluate_iff hvalue, ofAnswer]
      cases value.isTruthy <;> simp

/-- The place of the first truthy branch among some siblings. -/
def IsChosen (scope : Scope) (members : List (Option Branch)) (place : Nat) : Prop :=
  (∃ branch, members[place]? = some branch ∧ Branch.IsTruthy scope branch) ∧
    ∀ before < place, ∀ branch, members[before]? = some branch → ¬ Branch.IsTruthy scope branch

theorem isChosen_zero_iff {scope : Scope} {branch : Option Branch}
    {rest : List (Option Branch)} :
    IsChosen scope (branch :: rest) 0 ↔ Branch.IsTruthy scope branch := by
  simp [IsChosen]

theorem isChosen_succ_iff {scope : Scope} {branch : Option Branch} {rest : List (Option Branch)}
    {place : Nat} :
    IsChosen scope (branch :: rest) (place + 1) ↔
      ¬ Branch.IsTruthy scope branch ∧ IsChosen scope rest place := by
  constructor
  · rintro ⟨⟨found, hfound, htruthy⟩, hbefore⟩
    refine ⟨hbefore 0 (by omega) branch rfl, ⟨found, hfound, htruthy⟩, ?_⟩
    intro before hlt earlier hearlier
    exact hbefore (before + 1) (by omega) earlier hearlier
  · rintro ⟨hbranch, ⟨found, hfound, htruthy⟩, hbefore⟩
    refine ⟨⟨found, hfound, htruthy⟩, ?_⟩
    intro before hlt earlier hearlier
    cases before with
    | zero =>
        cases hearlier
        exact hbranch
    | succ before => exact hbefore before (by omega) earlier hearlier

/-- Inside a chain a run keeps what is no branch, and of the branches the first truthy one unless
one was kept before. -/
theorem kept_inside {scope : Scope} {chain final : Chain} {members : List (Option Branch)}
    {kept : List Bool} (hchain : chain ≠ .before)
    (hinside : ∀ branch ∈ members, ¬ Branch.Begins branch)
    (hlast : members.Pairwise fun earlier later => earlier = some .last → later = none)
    (h : run scope chain members = .ok (kept, final)) {place : Nat} {branch : Option Branch}
    (hplace : members[place]? = some branch) :
    kept[place]? = some true ↔
      branch = none ∨ chain = .unmatched ∧ IsChosen scope members place := by
  induction members generalizing chain kept place with
  | nil => simp at hplace
  | cons head rest ih =>
      obtain ⟨answer, next, others, hdecide, hrun, rfl⟩ := run_cons_eq_ok_iff.mp h
      obtain ⟨hnext, hanswer, hplaceAfter⟩ :=
        decide_inside hchain (hinside head (by simp)) hdecide
      obtain ⟨hafter, hlastRest⟩ := List.pairwise_cons.mp hlast
      cases place with
      | zero =>
          obtain rfl : head = branch := by simpa using hplace
          rw [isChosen_zero_iff, ← hanswer]
          simp
      | succ place =>
          have hplace' : rest[place]? = some branch := by simpa using hplace
          have hih := ih hnext (fun other hother => hinside other (List.mem_cons_of_mem _ hother))
            hlastRest hrun hplace'
          rw [List.getElem?_cons_succ, hih, isChosen_succ_iff]
          -- a branch without a condition leaves the chain as it was, but no branch follows it
          by_cases hhead : head = some .last
          · have hnone : branch = none := hafter branch (List.mem_of_getElem? hplace') hhead
            simp [hnone]
          · rw [hplaceAfter hhead, and_assoc]

theorem kept_of_none {scope : Scope} {chain final : Chain} {branches : List (Option Branch)}
    {kept : List Bool} (h : run scope chain branches = .ok (kept, final)) {place : Nat}
    (hplace : branches[place]? = some none) : kept[place]? = some true := by
  induction branches generalizing chain kept place with
  | nil => simp at hplace
  | cons head rest ih =>
      obtain ⟨answer, next, others, hdecide, hrun, rfl⟩ := run_cons_eq_ok_iff.mp h
      cases place with
      | zero =>
          obtain rfl : head = none := by simpa using hplace
          cases hdecide
          rfl
      | succ place => exact ih hrun (by simpa using hplace)

/-- Once a truthy branch of a chain was kept, its other branches are not asked. -/
theorem matched_after {scope : Scope} {chain final : Chain} {members : List (Option Branch)}
    {kept : List Bool} (hchain : chain ≠ .before)
    (hinside : ∀ branch ∈ members, ¬ Branch.Begins branch)
    (hlast : some .last ∉ members)
    (htruthy : chain = .matched ∨ ∃ branch ∈ members, Branch.IsTruthy scope branch)
    (h : run scope chain members = .ok (kept, final)) : final = .matched := by
  induction members generalizing chain kept with
  | nil =>
      cases h
      simpa using htruthy
  | cons head rest ih =>
      obtain ⟨answer, next, others, hdecide, hrun, rfl⟩ := run_cons_eq_ok_iff.mp h
      obtain ⟨hnext, -, hplaceAfter⟩ := decide_inside hchain (hinside head (by simp)) hdecide
      have hhead : head ≠ some .last := fun heq => hlast (by simp [heq])
      refine ih hnext (fun other hother => hinside other (List.mem_cons_of_mem _ hother))
        (fun hmem => hlast (List.mem_cons_of_mem _ hmem)) ?_ hrun
      -- if no branch has been kept by now, a truthy one is still to come
      by_cases hunmatched : next = .unmatched
      · right
        obtain ⟨rfl, hnot⟩ := (hplaceAfter hhead).mp hunmatched
        obtain ⟨branch, hmem, hbranch⟩ : ∃ branch ∈ head :: rest, Branch.IsTruthy scope branch := by
          simpa using htruthy
        rcases List.mem_cons.mp hmem with rfl | hmem
        · exact absurd hbranch hnot
        · exact ⟨branch, hmem, hbranch⟩
      · left
        cases next with
        | before => exact absurd rfl hnext
        | matched => rfl
        | unmatched => exact absurd rfl hunmatched

theorem decide_first {scope : Scope} {chain next : Chain} {condition : Text} {answer : Bool}
    (h : decide scope chain (some (.first condition)) = .ok (answer, next)) :
    next = ofAnswer answer ∧
      (answer = true ↔ Branch.IsTruthy scope (some (.first condition))) := by
  obtain ⟨value, hvalue, hanswer⟩ := Outcome.bind_eq_ok_iff.mp h
  cases hanswer
  exact ⟨rfl, (Branch.exists_evaluate_iff hvalue).symm⟩

theorem ofAnswer_ne_before (answer : Bool) : ofAnswer answer ≠ .before := by
  cases answer <;> decide

/-! ### Chains among nodes -/

/-- The siblings of one chain: a branch that begins it, and those up to the next such branch.  No
branch follows one without a condition. -/
structure IsChain (leader : Node) (rest : List Node) : Prop where
  begins : Branch.Begins (Branch.ofNode? leader)
  inside : ∀ node ∈ rest, ¬ Branch.Begins (Branch.ofNode? node)
  closed : rest.Pairwise fun earlier later =>
    Branch.ofNode? earlier = some .last → Branch.ofNode? later = none

def IsAlternative (node : Node) : Prop := ∃ condition, Branch.ofNode? node = some (.other condition)

variable {scope : Scope}

theorem IsChain.not_begins_of_mem_map {leader : Node} {rest : List Node}
    (hchain : IsChain leader rest) :
    ∀ branch ∈ rest.map Branch.ofNode?, ¬ Branch.Begins branch := by
  intro branch hmem
  obtain ⟨node, hnode, rfl⟩ := List.mem_map.mp hmem
  exact hchain.inside node hnode

theorem kept_chain {chain final : Chain} {leader : Node} {rest : List Node} {kept : List Bool}
    (hchain : IsChain leader rest)
    (h : run scope chain ((leader :: rest).map Branch.ofNode?) = .ok (kept, final)) {place : Nat}
    {node : Node} (hplace : (leader :: rest)[place]? = some node)
    (hbranch : Branch.ofNode? node ≠ none) :
    kept[place]? = some true ↔ IsChosen scope ((leader :: rest).map Branch.ofNode?) place := by
  obtain ⟨condition, hleader⟩ := hchain.begins
  rw [List.map_cons] at h ⊢
  obtain ⟨answer, next, others, hdecide, hrun, rfl⟩ := run_cons_eq_ok_iff.mp h
  rw [hleader] at hdecide
  obtain ⟨rfl, hanswer⟩ := decide_first hdecide
  cases place with
  | zero =>
      rw [isChosen_zero_iff, hleader, ← hanswer]
      simp
  | succ place =>
      have hplace' : (rest.map Branch.ofNode?)[place]? = some (Branch.ofNode? node) := by
        rw [List.getElem?_map]
        exact congrArg _ (by simpa using hplace)
      have hkept := kept_inside (ofAnswer_ne_before answer) hchain.not_begins_of_mem_map
        (List.pairwise_map.mpr hchain.closed) hrun hplace'
      rw [List.getElem?_cons_succ, hkept, isChosen_succ_iff, hleader, ← hanswer]
      cases answer <;> simp [ofAnswer, hbranch]

theorem matched_of_truthy {leader node : Node} {rest : List Node} {chain next : Chain}
    {kept : List Bool} (hchain : IsChain leader (rest ++ [node])) (hnode : IsAlternative node)
    (htruthy : ∃ sibling ∈ leader :: rest, Branch.IsTruthy scope (Branch.ofNode? sibling))
    (h : run scope chain ((leader :: rest).map Branch.ofNode?) = .ok (kept, next)) :
    next = .matched := by
  obtain ⟨condition, hleader⟩ := hchain.begins
  obtain ⟨alternative, hnode⟩ := hnode
  rw [List.map_cons, hleader] at h
  obtain ⟨answer, after, others, hdecide, hrun, rfl⟩ := run_cons_eq_ok_iff.mp h
  obtain ⟨rfl, hanswer⟩ := decide_first hdecide
  have hinside : ∀ branch ∈ rest.map Branch.ofNode?, ¬ Branch.Begins branch := by
    intro branch hmem
    exact hchain.not_begins_of_mem_map branch (by simp [List.mem_map.mp hmem])
  have hlast : some .last ∉ rest.map Branch.ofNode? := by
    intro hmem
    obtain ⟨sibling, hsibling, heq⟩ := List.mem_map.mp hmem
    have hnone := (List.pairwise_append.mp hchain.closed).2.2 sibling hsibling node (by simp) heq
    rw [hnode] at hnone
    cases hnone
  refine matched_after (ofAnswer_ne_before answer) hinside hlast ?_ hrun
  obtain ⟨sibling, hmem, hsibling⟩ := htruthy
  rcases List.mem_cons.mp hmem with rfl | hmem
  · left
    rw [hleader] at hsibling
    rw [hanswer.mpr hsibling]
    rfl
  · right
    exact ⟨Branch.ofNode? sibling, List.mem_map_of_mem hmem, hsibling⟩

/-- What a resolution keeps: all that is no branch, all that stands before the first chain, and of
each chain the first truthy branch and no other. -/
structure Selects (scope : Scope) (nodes : List Node) (kept : List Bool) : Prop where
  length_eq : kept.length = nodes.length
  plain : ∀ (place : Nat) (node : Node), nodes[place]? = some node → Branch.ofNode? node = none →
    kept[place]? = some true
  early : ∀ before after, nodes = before ++ after →
    (∀ node ∈ before, ¬ Branch.Begins (Branch.ofNode? node)) →
    ∀ place < before.length, kept[place]? = some true
  chosen : ∀ before leader rest after, nodes = before ++ leader :: (rest ++ after) →
    IsChain leader rest → ∀ (place : Nat) (node : Node), (leader :: rest)[place]? = some node →
    Branch.ofNode? node ≠ none →
    (kept[before.length + place]? = some true ↔
      IsChosen scope ((leader :: rest).map Branch.ofNode?) place)

theorem resolveFrom_eq_ok_iff {chain : Chain} {branches : List (Option Branch)}
    {kept : List Bool} :
    resolveFrom scope chain branches = .ok kept ↔
      ∃ final, run scope chain branches = .ok (kept, final) := by
  rw [resolveFrom_eq_map_run]
  cases run scope chain branches with
  | error error => simp [Except.map]
  | ok done =>
      simp only [Except.map, Except.ok.injEq]
      constructor
      · rintro rfl
        exact ⟨done.2, rfl⟩
      · rintro ⟨final, rfl⟩
        rfl

theorem resolve_eq_ok_iff {nodes : List Node} {kept : List Bool} :
    resolve scope nodes = .ok kept ↔
      ∃ final, run scope .before (nodes.map Branch.ofNode?) = .ok (kept, final) :=
  resolveFrom_eq_ok_iff

/-- What a resolution keeps of some of the siblings is what a run over them keeps. -/
theorem exists_run_of_resolve {before members after : List Node} {kept : List Bool}
    (h : resolve scope (before ++ (members ++ after)) = .ok kept) :
    ∃ chain chosen final, run scope chain (members.map Branch.ofNode?) = .ok (chosen, final) ∧
      ∀ place < members.length, kept[before.length + place]? = chosen[place]? := by
  obtain ⟨final, hrun⟩ := resolve_eq_ok_iff.mp h
  rw [List.map_append, List.map_append] at hrun
  obtain ⟨done, chain, more, hdone, hmore, rfl⟩ := run_append_eq_ok_iff.mp hrun
  obtain ⟨chosen, last, others, hchosen, -, rfl⟩ := run_append_eq_ok_iff.mp hmore
  refine ⟨chain, chosen, last, hchosen, fun place hplace => ?_⟩
  have hlength : done.length = before.length := by simpa using length_run hdone
  have hlt : place < chosen.length := by
    rw [length_run hchosen, List.length_map]
    exact hplace
  rw [← hlength, List.getElem?_append_right (by omega), Nat.add_sub_cancel_left,
    List.getElem?_append_left hlt]

theorem selects_of_resolve {nodes : List Node} {kept : List Bool}
    (h : resolve scope nodes = .ok kept) : Selects scope nodes kept := by
  obtain ⟨final, hrun⟩ := resolve_eq_ok_iff.mp h
  refine ⟨?_, ?_, ?_, ?_⟩
  · simpa using length_run hrun
  · intro place node hplace hnode
    apply kept_of_none hrun
    rw [List.getElem?_map, hplace]
    exact congrArg some hnode
  · rintro before after rfl hbefore place hlt
    rw [List.map_append] at hrun
    obtain ⟨done, next, more, hdone, -, rfl⟩ := run_append_eq_ok_iff.mp hrun
    have hall : ∀ branch ∈ before.map Branch.ofNode?, ¬ Branch.Begins branch := by
      intro branch hmem
      obtain ⟨node, hnode, rfl⟩ := List.mem_map.mp hmem
      exact hbefore node hnode
    rw [run_before hall] at hdone
    cases hdone
    rw [List.getElem?_append_left (by simpa using hlt)]
    simp [hlt]
  · rintro before leader rest after rfl hchain place node hplace hbranch
    rw [← List.cons_append] at h
    obtain ⟨chain, chosen, last, hchosen, hkept⟩ := exists_run_of_resolve h
    rw [hkept place (List.getElem?_eq_some_iff.mp hplace).1]
    exact kept_chain hchain hchosen hplace hbranch

/-- A sibling counts only through its branch, and only where a decision on it depends on that. -/
theorem resolve_congr_at {before after : List Node} {node other : Node}
    (h : ∀ kept next, run scope .before (before.map Branch.ofNode?) = .ok (kept, next) →
      decide scope next (Branch.ofNode? node) = decide scope next (Branch.ofNode? other)) :
    resolve scope (before ++ node :: after) = resolve scope (before ++ other :: after) := by
  simp only [resolve, resolveFrom_eq_map_run, List.map_append, List.map_cons]
  rw [run_congr_at h]

end Chain

namespace Engine

theorem renderChosen_congr_at {instantiate : Instantiate} {scope : Scope} {kept : List Bool}
    {before after : List Node} {node other : Node} (h : kept[before.length]? = some false) :
    renderChosen instantiate scope kept (before ++ node :: after) =
      renderChosen instantiate scope kept (before ++ other :: after) := by
  induction before generalizing kept with
  | nil =>
      have hhead : kept.headD true = false := by
        cases kept <;> simp_all
      simp only [List.nil_append, renderChosen, hhead]
      rfl
  | cons first before ih =>
      have htail : kept.tail[before.length]? = some false := by
        cases kept <;> simp_all
      simp only [List.cons_append, renderChosen]
      rw [ih htail]

end Engine

namespace Chain

variable {scope : Scope}

theorem matched_before {outside rest : List Node} {leader node : Node} {kept : List Bool}
    {next : Chain} (hchain : IsChain leader (rest ++ [node])) (hnode : IsAlternative node)
    (htruthy : ∃ sibling ∈ leader :: rest, Branch.IsTruthy scope (Branch.ofNode? sibling))
    (h : run scope .before ((outside ++ leader :: rest).map Branch.ofNode?) = .ok (kept, next)) :
    next = .matched := by
  rw [List.map_append] at h
  obtain ⟨done, middle, more, -, hmore, rfl⟩ := run_append_eq_ok_iff.mp h
  exact matched_of_truthy hchain hnode htruthy hmore

theorem dropped_of_matched {before after : List Node} {node : Node} {kept : List Bool}
    (hmatched : ∀ kept next, run scope .before (before.map Branch.ofNode?) = .ok (kept, next) →
      next = .matched)
    (hnode : IsAlternative node) (h : resolve scope (before ++ node :: after) = .ok kept) :
    kept[before.length]? = some false := by
  obtain ⟨condition, hnode⟩ := hnode
  obtain ⟨final, hrun⟩ := resolve_eq_ok_iff.mp h
  rw [List.map_append, List.map_cons, hnode] at hrun
  obtain ⟨done, next, more, hdone, hmore, rfl⟩ := run_append_eq_ok_iff.mp hrun
  obtain rfl := hmatched done next hdone
  obtain ⟨answer, after, others, hanswer, -, rfl⟩ := run_cons_eq_ok_iff.mp hmore
  cases hanswer
  have hlength : done.length = before.length := by simpa using length_run hdone
  simp [← hlength]

/-- Whatever alternative stands after a truthy branch of its chain, siblings render alike. -/
theorem renderNodes_congr_of_matched (instantiate : Instantiate) {before after : List Node}
    {node other : Node}
    (hmatched : ∀ kept next, run scope .before (before.map Branch.ofNode?) = .ok (kept, next) →
      next = .matched)
    (hnode : IsAlternative node)
    (hsame : resolve scope (before ++ other :: after) = resolve scope (before ++ node :: after)) :
    Engine.renderNodes instantiate scope (before ++ other :: after) =
      Engine.renderNodes instantiate scope (before ++ node :: after) := by
  rw [Engine.renderNodes, Engine.renderNodes, hsame]
  cases hresolve : resolve scope (before ++ node :: after) with
  | error error => rfl
  | ok kept =>
      have hdropped := dropped_of_matched hmatched hnode hresolve
      have hchosen : Engine.renderChosen instantiate scope kept (before ++ other :: after) =
          Engine.renderChosen instantiate scope kept (before ++ node :: after) :=
        Engine.renderChosen_congr_at hdropped
      show Engine.renderChosen instantiate scope kept (before ++ other :: after) = _
      rw [hchosen]
      rfl

/-- The law of conditional chains.  What a resolution keeps is as `Selects` says.  The condition of
an alternative that follows a truthy branch of its chain, or that no chain precedes, has no
influence on the resolution, and in the first case none on what is rendered. -/
theorem resolve_selects_first (scope : Scope) (nodes : List Node) :
    (∀ kept, resolve scope nodes = .ok kept → Selects scope nodes kept) ∧
    (∀ outside leader rest node other after,
      nodes = outside ++ leader :: (rest ++ node :: after) → IsChain leader (rest ++ [node]) →
      (∃ sibling ∈ leader :: rest, Branch.IsTruthy scope (Branch.ofNode? sibling)) →
      IsAlternative node → IsAlternative other →
      resolve scope (outside ++ leader :: (rest ++ other :: after)) = resolve scope nodes ∧
      ∀ instantiate, Engine.renderNodes instantiate scope
          (outside ++ leader :: (rest ++ other :: after)) =
        Engine.renderNodes instantiate scope nodes) ∧
    (∀ before node other after, nodes = before ++ node :: after →
      (∀ sibling ∈ before, ¬ Branch.Begins (Branch.ofNode? sibling)) →
      IsAlternative node → IsAlternative other →
      resolve scope (before ++ other :: after) = resolve scope nodes) := by
  refine ⟨fun kept h => selects_of_resolve h, ?_, ?_⟩
  · rintro outside leader rest node other after rfl hchain htruthy hnode hother
    have hmatched : ∀ kept next,
        run scope .before ((outside ++ leader :: rest).map Branch.ofNode?) = .ok (kept, next) →
        next = .matched := by
      intro kept next hrun
      exact matched_before hchain hnode htruthy hrun
    have hsame : resolve scope ((outside ++ leader :: rest) ++ other :: after) =
        resolve scope ((outside ++ leader :: rest) ++ node :: after) := by
      apply resolve_congr_at
      intro kept next hrun
      obtain rfl := hmatched kept next hrun
      obtain ⟨condition, hnode⟩ := hnode
      obtain ⟨another, hother⟩ := hother
      rw [hnode, hother]
      rfl
    have hrender := fun instantiate =>
      renderNodes_congr_of_matched instantiate hmatched hnode hsame
    simp only [List.append_assoc, List.cons_append] at hsame hrender
    exact ⟨hsame, hrender⟩
  · rintro before node other after rfl hbefore ⟨condition, hnode⟩ ⟨another, hother⟩
    apply resolve_congr_at
    intro kept next hrun
    have hall : ∀ branch ∈ before.map Branch.ofNode?, ¬ Branch.Begins branch := by
      intro branch hmem
      obtain ⟨sibling, hsibling, rfl⟩ := List.mem_map.mp hmem
      exact hbefore sibling hsibling
    rw [run_before hall] at hrun
    cases hrun
    rw [hnode, hother]
    rfl

theorem resolve_selects_first_unparsable :
    let scope : Scope := .ofBindings [] .empty
    let branch (directive : Directive) (condition : String) : Node :=
      .element ['p'] (.ofList [(directive.name, condition.toList)]) []
    let nodes : List Node :=
      [branch .elseWhen "1 2", branch .whenTrue "false", .text [' '], branch .elseWhen "true",
        branch .elseWhen "1 2", branch .otherwise ""]
    resolve scope nodes = .ok [true, false, true, true, false, false] ∧
      Selects scope nodes [true, false, true, true, false, false] :=
  ⟨rfl, (resolve_selects_first _ _).1 _ rfl⟩

end Chain

end HtmlTemplate
