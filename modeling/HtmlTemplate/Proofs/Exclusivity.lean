import HtmlTemplate.Proofs.Conditional
/-!
How many branches of a chain are kept.  A truthy condition decides its chain, and no branch after it
is kept.  A branch without a condition is kept in a chain that is not decided, but decides nothing:
of two branches of one chain that are kept, the earlier has no condition.
-/

namespace HtmlTemplate

namespace Branch

/-- A truthy condition. -/
def Decides (scope : Scope) (branch : Option Branch) : Prop :=
  branch ≠ some .last ∧ IsTruthy scope branch

end Branch

namespace Chain

/-- No condition before a place of a chain is truthy. -/
def Undecided (scope : Scope) (members : List (Option Branch)) (place : Nat) : Prop :=
  ∀ earlier < place, ∀ branch, members[earlier]? = some branch → ¬ Branch.Decides scope branch

variable {scope : Scope}

theorem undecided_succ_iff {branch : Option Branch} {rest : List (Option Branch)} {place : Nat} :
    Undecided scope (branch :: rest) (place + 1) ↔
      ¬ Branch.Decides scope branch ∧ Undecided scope rest place := by
  constructor
  · intro h
    refine ⟨h 0 (by omega) branch rfl, fun earlier hlt other hother => ?_⟩
    exact h (earlier + 1) (by omega) other hother
  · rintro ⟨hbranch, hrest⟩ earlier hlt other hother
    cases earlier with
    | zero =>
        cases hother
        exact hbranch
    | succ earlier => exact hrest earlier (by omega) other hother

/-- Inside a chain a sibling leaves it open for further branches unless it decides it. -/
theorem next_eq_unmatched_iff {chain next : Chain} {branch : Option Branch} {answer : Bool}
    (hchain : chain ≠ .before) (hbranch : ¬ Branch.Begins branch)
    (h : decide scope chain branch = .ok (answer, next)) :
    next = .unmatched ↔ chain = .unmatched ∧ ¬ Branch.Decides scope branch := by
  obtain ⟨-, -, hnext⟩ := decide_inside hchain hbranch h
  by_cases hlast : branch = some .last
  · subst hlast
    obtain rfl : chain = next := by
      cases chain with
      | before => exact absurd rfl hchain
      | matched | unmatched =>
          cases h
          rfl
    simp [Branch.Decides]
  · rw [hnext hlast, Branch.Decides]
    simp [hlast]

theorem kept_iff_undecided {chain final : Chain} {members : List (Option Branch)}
    {kept : List Bool} (hchain : chain ≠ .before)
    (hinside : ∀ branch ∈ members, ¬ Branch.Begins branch)
    (h : run scope chain members = .ok (kept, final)) {place : Nat} {branch : Branch}
    (hplace : members[place]? = some (some branch)) :
    kept[place]? = some true ↔
      chain = .unmatched ∧ Undecided scope members place ∧ Branch.IsTruthy scope (some branch) := by
  induction members generalizing chain kept place with
  | nil => simp at hplace
  | cons head rest ih =>
      obtain ⟨answer, next, others, hdecide, hrun, rfl⟩ := run_cons_eq_ok_iff.mp h
      have hhead := hinside head (List.mem_cons_self ..)
      obtain ⟨hnext, hanswer, -⟩ := decide_inside hchain hhead hdecide
      cases place with
      | zero =>
          obtain rfl : head = some branch := by simpa using hplace
          have hfirst : Undecided scope (some branch :: rest) 0 := fun earlier hlt => by omega
          simp [hanswer, hfirst]
      | succ place =>
          have hopen := next_eq_unmatched_iff hchain hhead hdecide
          have hrest := ih hnext (fun other hother => hinside other (List.mem_cons_of_mem _ hother))
            hrun (by simpa using hplace)
          rw [List.getElem?_cons_succ, hrest, hopen, undecided_succ_iff, and_assoc, and_assoc]

/-! ### Chains among nodes -/

/-- Siblings of one chain, from a branch that begins it up to the next such branch at most, and what
stands before them. -/
structure IsStretch (nodes before members : List Node) : Prop where
  occurs : ∃ after, nodes = before ++ (members ++ after)
  begins : ∃ leader rest, members = leader :: rest ∧ Branch.Begins (Branch.ofNode? leader) ∧
    ∀ node ∈ rest, ¬ Branch.Begins (Branch.ofNode? node)

/-- A branch that is kept, by its place in its chain. -/
structure KeepsAt (kept : List Bool) (before members : List Node) (place : Nat)
    (branch : Branch) : Prop where
  found : (members.map Branch.ofNode?)[place]? = some (some branch)
  stays : kept[before.length + place]? = some true

/-- At most one branch of each chain is kept. -/
def Exclusive (nodes : List Node) (kept : List Bool) : Prop :=
  ∀ before members, IsStretch nodes before members → ∀ first second a b,
    KeepsAt kept before members first a → KeepsAt kept before members second b → first = second

variable {nodes before members : List Node} {kept : List Bool}

theorem kept_iff_of_isStretch (h : resolve scope nodes = .ok kept)
    (hstretch : IsStretch nodes before members) {place : Nat} {branch : Branch}
    (hplace : (members.map Branch.ofNode?)[place]? = some (some branch)) :
    kept[before.length + place]? = some true ↔
      Undecided scope (members.map Branch.ofNode?) place ∧
        Branch.IsTruthy scope (some branch) := by
  obtain ⟨⟨after, rfl⟩, leader, rest, rfl, ⟨condition, hleader⟩, hinside⟩ := hstretch
  obtain ⟨chain, chosen, final, hrun, hkept⟩ := exists_run_of_resolve h
  have hlt : place < (leader :: rest).length := by
    simpa using (List.getElem?_eq_some_iff.mp hplace).1
  rw [hkept place hlt]
  rw [List.map_cons, hleader] at hrun hplace ⊢
  obtain ⟨answer, next, others, hdecide, hrest, rfl⟩ := run_cons_eq_ok_iff.mp hrun
  obtain ⟨rfl, hanswer⟩ := decide_first hdecide
  cases place with
  | zero =>
      obtain rfl : branch = .first condition := by simpa using hplace.symm
      have hfirst : Undecided scope (some (.first condition) :: rest.map Branch.ofNode?) 0 :=
        fun earlier hlt => by omega
      simp [hanswer, hfirst]
  | succ place =>
      have hplace : (rest.map Branch.ofNode?)[place]? = some (some branch) := by simpa using hplace
      have hothers : ∀ branch ∈ rest.map Branch.ofNode?, ¬ Branch.Begins branch := by
        intro branch hbranch
        obtain ⟨node, hnode, rfl⟩ := List.mem_map.mp hbranch
        exact hinside node hnode
      have hopen : ofAnswer answer = .unmatched ↔
          ¬ Branch.Decides scope (some (.first condition)) := by
        rw [Branch.Decides, ← hanswer]
        cases answer <;> simp [ofAnswer]
      rw [List.getElem?_cons_succ,
        kept_iff_undecided (ofAnswer_ne_before answer) hothers hrest hplace, hopen,
        undecided_succ_iff, and_assoc]

/-- Of two branches of one chain that are kept the earlier has no condition. -/
theorem eq_last_of_keepsAt (h : resolve scope nodes = .ok kept)
    (hstretch : IsStretch nodes before members) {first second : Nat} {a b : Branch}
    (hlt : first < second) (hfirst : KeepsAt kept before members first a)
    (hsecond : KeepsAt kept before members second b) : a = .last := by
  obtain ⟨-, htruthy⟩ := (kept_iff_of_isStretch h hstretch hfirst.found).mp hfirst.stays
  obtain ⟨hundecided, -⟩ := (kept_iff_of_isStretch h hstretch hsecond.found).mp hsecond.stays
  refine Decidable.byContradiction fun hlast => ?_
  exact hundecided first hlt _ hfirst.found ⟨by simpa using hlast, htruthy⟩

/-- Which branches of a chain are kept.  A branch is kept exactly if it is truthy and no condition
before it in its chain is.  Of two that are kept the earlier has no condition, so that a chain keeps
more than one exactly where a truthy branch comes after one without a condition while no condition
before it is truthy. -/
theorem exclusive_iff_of_resolve (h : resolve scope nodes = .ok kept) :
    (∀ before members, IsStretch nodes before members → ∀ place branch,
      (members.map Branch.ofNode?)[place]? = some (some branch) →
      (kept[before.length + place]? = some true ↔
        Undecided scope (members.map Branch.ofNode?) place ∧
          Branch.IsTruthy scope (some branch))) ∧
    (∀ before members, IsStretch nodes before members → ∀ first second a b, first < second →
      KeepsAt kept before members first a → KeepsAt kept before members second b → a = .last) ∧
    (Exclusive nodes kept ↔ ∀ before members, IsStretch nodes before members →
      ∀ first second b, first < second →
      (members.map Branch.ofNode?)[first]? = some (some .last) →
      (members.map Branch.ofNode?)[second]? = some (some b) →
      Undecided scope (members.map Branch.ofNode?) second → ¬ Branch.IsTruthy scope (some b)) := by
  refine ⟨fun before members hstretch place branch => kept_iff_of_isStretch h hstretch,
    fun before members hstretch first second a b => eq_last_of_keepsAt h hstretch, ?_⟩
  constructor
  · intro hexclusive before members hstretch first second b hlt hfirst hsecond hundecided htruthy
    -- what is undecided at the second branch is so at the first, which is kept as well
    have hbefore : Undecided scope (members.map Branch.ofNode?) first :=
      fun earlier hearly => hundecided earlier (by omega)
    have hkeepsFirst : KeepsAt kept before members first .last :=
      ⟨hfirst, (kept_iff_of_isStretch h hstretch hfirst).mpr ⟨hbefore, trivial⟩⟩
    have hkeepsSecond : KeepsAt kept before members second b :=
      ⟨hsecond, (kept_iff_of_isStretch h hstretch hsecond).mpr ⟨hundecided, htruthy⟩⟩
    have heq := hexclusive before members hstretch first second _ b hkeepsFirst hkeepsSecond
    omega
  · intro hnone before members hstretch
    have hpair {first second : Nat} {a b : Branch} (hlt : first < second)
        (hfirst : KeepsAt kept before members first a)
        (hsecond : KeepsAt kept before members second b) : False := by
      obtain rfl := eq_last_of_keepsAt h hstretch hlt hfirst hsecond
      obtain ⟨hundecided, htruthy⟩ :=
        (kept_iff_of_isStretch h hstretch hsecond.found).mp hsecond.stays
      exact hnone before members hstretch first second b hlt hfirst.found hsecond.found hundecided
        htruthy
    intro first second a b hfirst hsecond
    rcases Nat.lt_trichotomy first second with hlt | heq | hgt
    · exact (hpair hlt hfirst hsecond).elim
    · exact heq
    · exact (hpair hgt hsecond hfirst).elim

theorem exclusive_iff_of_resolve_condition :
    let scope : Scope := .ofBindings [] .empty
    let branch (directive : Directive) (condition : String) : Node :=
      .element ['p'] (.ofList [(directive.name, condition.toList)]) []
    let members : List Node := [branch .whenTrue "false", branch .otherwise "", .text [' '],
      branch .elseWhen "true", branch .elseWhen "1 2"]
    let kept := [true, false, true, true, true, false]
    resolve scope (.text [' '] :: members) = .ok kept ∧
      KeepsAt kept [.text [' ']] members 1 .last ∧
      KeepsAt kept [.text [' ']] members 3 (.other "true".toList) ∧
      Undecided scope (members.map Branch.ofNode?) 3 := by
  intro scope branch members kept
  have hresolve : resolve scope (.text [' '] :: members) = .ok kept := rfl
  have hstretch : IsStretch (.text [' '] :: members) [.text [' ']] members := by
    refine ⟨⟨[], by simp⟩, _, _, rfl, ⟨_, rfl⟩, ?_⟩
    simp only [List.forall_mem_cons]
    refine ⟨?_, ?_, ?_, ?_, by simp⟩ <;> rintro ⟨condition, hcondition⟩ <;> cases hcondition
  have hkept := (exclusive_iff_of_resolve hresolve).1 _ _ hstretch 3 _ rfl
  exact ⟨hresolve, ⟨rfl, rfl⟩, ⟨rfl, rfl⟩, (hkept.mp rfl).1⟩

/-- Two branches without a condition are both kept in a chain that nothing decides. -/
theorem not_exclusive_of_alternatives :
    let scope : Scope := .ofBindings [] .empty
    let branch (directive : Directive) (condition : String) : Node :=
      .element ['p'] (.ofList [(directive.name, condition.toList)]) []
    let nodes := [branch .whenTrue "false", branch .otherwise "", branch .otherwise ""]
    resolve scope nodes = .ok [false, true, true] ∧ ¬ Exclusive nodes [false, true, true] := by
  intro scope branch nodes
  refine ⟨rfl, fun hexclusive => ?_⟩
  have hstretch : IsStretch nodes [] nodes := by
    refine ⟨⟨[], by simp⟩, _, _, rfl, ⟨_, rfl⟩, ?_⟩
    simp only [List.forall_mem_cons]
    refine ⟨?_, ?_, by simp⟩ <;> rintro ⟨condition, hcondition⟩ <;> cases hcondition
  have heq : 1 = 2 := hexclusive [] nodes hstretch 1 2 .last .last ⟨rfl, rfl⟩ ⟨rfl, rfl⟩
  omega

end Chain

end HtmlTemplate
