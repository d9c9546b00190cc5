import HtmlTemplate.Proofs.Conditional
import HtmlTemplate.Template.App
/-!
Siblings by parts.  The conditions of a list are all decided before any of its nodes is rendered,
and where a list stands in a chain is carried from sibling to sibling.  Between two parts neither is
seen, provided that the second begins a chain of its own where it has branches at all.
-/

namespace HtmlTemplate

namespace Chain

variable {scope : Scope}

/-- The first branch among some siblings, if there is one, begins a chain. -/
def IsDetached (nodes : List Node) : Prop :=
  ∀ branch ∈ (nodes.filterMap Branch.ofNode?).head?, Branch.Begins (some branch)

theorem IsDetached.tail {node : Node} {nodes : List Node} (h : IsDetached (node :: nodes))
    (hnode : Branch.ofNode? node = none) : IsDetached nodes := by
  intro branch hbranch
  apply h
  rw [List.filterMap_cons_none hnode]
  exact hbranch

/-- Where a list stands does not count for siblings that are detached from what precedes them. -/
theorem resolveFrom_of_isDetached {nodes : List Node} (h : IsDetached nodes) (chain other : Chain) :
    resolveFrom scope chain (nodes.map Branch.ofNode?) =
      resolveFrom scope other (nodes.map Branch.ofNode?) := by
  induction nodes with
  | nil => rfl
  | cons node nodes ih =>
      rw [List.map_cons, resolveFrom, resolveFrom]
      cases hnode : Branch.ofNode? node with
      | none =>
          have hrest := ih (h.tail hnode)
          show resolveFrom scope chain _ >>= _ = resolveFrom scope other _ >>= _
          rw [hrest]
      | some branch =>
          have hhead : branch ∈ ((node :: nodes).filterMap Branch.ofNode?).head? := by
            rw [List.filterMap_cons_some hnode]
            rfl
          obtain ⟨condition, heq⟩ := h branch hhead
          rw [heq]
          rfl

/-- What a resolution keeps of two parts it keeps of each alone, if the second is detached. -/
theorem resolve_append_eq_ok_iff {first second : List Node} (h : IsDetached second)
    {kept : List Bool} :
    resolve scope (first ++ second) = .ok kept ↔
      ∃ done more, resolve scope first = .ok done ∧ resolve scope second = .ok more ∧
        kept = done ++ more := by
  rw [resolve_eq_ok_iff, List.map_append]
  constructor
  · rintro ⟨final, hrun⟩
    obtain ⟨done, next, more, hdone, hmore, rfl⟩ := run_append_eq_ok_iff.mp hrun
    refine ⟨done, more, resolve_eq_ok_iff.mpr ⟨next, hdone⟩, ?_, rfl⟩
    rw [resolve, resolveFrom_of_isDetached h .before next]
    exact resolveFrom_eq_ok_iff.mpr ⟨final, hmore⟩
  · rintro ⟨done, more, hdone, hmore, rfl⟩
    obtain ⟨next, hdone⟩ := resolve_eq_ok_iff.mp hdone
    rw [resolve, resolveFrom_of_isDetached h .before next] at hmore
    obtain ⟨final, hmore⟩ := resolveFrom_eq_ok_iff.mp hmore
    exact ⟨final, run_append_eq_ok_iff.mpr ⟨done, next, more, hdone, hmore, rfl⟩⟩

theorem length_resolve {nodes : List Node} {kept : List Bool}
    (h : resolve scope nodes = .ok kept) : kept.length = nodes.length := by
  obtain ⟨final, hrun⟩ := resolve_eq_ok_iff.mp h
  rw [length_run hrun, List.length_map]

end Chain

namespace Engine

variable (instantiate : Instantiate) (scope : Scope)

/-- What is kept of two parts is rendered part after part. -/
theorem renderChosen_append {done : List Bool} {first : List Node}
    (h : done.length = first.length) (more : List Bool) (second : List Node) :
    renderChosen instantiate scope (done ++ more) (first ++ second) = (do
      let nodes ← renderChosen instantiate scope done first
      let others ← renderChosen instantiate scope more second
      pure (nodes ++ others)) := by
  induction first generalizing done with
  | nil =>
      obtain rfl := List.eq_nil_of_length_eq_zero h
      simp [renderChosen]
  | cons node first ih =>
      obtain ⟨keep, done, rfl⟩ := List.exists_cons_of_length_eq_add_one h
      have hrest := ih (Nat.succ.inj h)
      rw [List.cons_append, List.cons_append, renderChosen, renderChosen]
      rw [List.headD_cons, List.headD_cons, List.tail_cons, List.tail_cons, hrest]
      cases keep with
      | false => simp
      | true => simp only [if_true, bind_assoc, pure_bind, List.append_assoc]

/-- Two lists of siblings, of which the second is detached from the first, are rendered together if
and only if they are rendered one after the other, the second from what the first remembered; and
what they come to is what they come to one after the other. -/
theorem renderNodes_append (app : App) (remaining : Nat) (scope : Scope) {first second : List Node}
    (h : Chain.IsDetached second) (store after : Store) (nodes : List Node) :
    (renderNodes (app.instantiate remaining) scope (first ++ second)).run store =
        (.ok nodes, after) ↔
      ∃ before others middle,
        (renderNodes (app.instantiate remaining) scope first).run store = (.ok before, middle) ∧
        (renderNodes (app.instantiate remaining) scope second).run middle = (.ok others, after) ∧
        nodes = before ++ others := by
  simp only [renderNodes, RenderM.run_ofExcept_bind_eq_ok_iff]
  constructor
  · rintro ⟨kept, hkept, hrun⟩
    obtain ⟨done, more, hdone, hmore, rfl⟩ := (Chain.resolve_append_eq_ok_iff h).mp hkept
    rw [renderChosen_append _ _ (Chain.length_resolve hdone),
      Outcome.run_bind_eq_ok_iff] at hrun
    obtain ⟨before, middle, hbefore, hrest⟩ := hrun
    obtain ⟨others, last, hothers, hlast⟩ := Outcome.run_bind_eq_ok_iff.mp hrest
    cases hlast
    exact ⟨before, others, middle, ⟨done, hdone, hbefore⟩, ⟨more, hmore, hothers⟩, rfl⟩
  · rintro ⟨before, others, middle, ⟨done, hdone, hbefore⟩, ⟨more, hmore, hothers⟩, rfl⟩
    have hkept := (Chain.resolve_append_eq_ok_iff h).mpr ⟨done, more, hdone, hmore, rfl⟩
    refine ⟨done ++ more, hkept, ?_⟩
    rw [renderChosen_append _ _ (Chain.length_resolve hdone), Outcome.run_bind_eq_ok_iff]
    refine ⟨before, middle, hbefore, ?_⟩
    exact Outcome.run_bind_eq_ok_iff.mpr ⟨others, after, hothers, rfl⟩

theorem renderNodes_append_counted :
    let counter : Setup := fun runs _ => [("n".toList, .ofNat runs)]
    let app := (App.ofMethods .empty).register "x-a".toList (.markup "<i>{{ n }}</i>".toList)
      (some counter)
    let branch (tag : String) (directive : Directive) (condition : String) : Node :=
      .element tag.toList (.ofList [(directive.name, condition.toList)]) []
    let first := [branch "p" .whenTrue "false", .element "x-a".toList .empty []]
    let second := [.text [' '], branch "x-a" .whenTrue "true", branch "p" .otherwise ""]
    let render (nodes : List Node) (store : Store) :=
      (renderNodes (app.instantiate 1) (.ofBindings [] .empty) nodes).run store
    Chain.IsDetached second ∧
    ∃ before others middle after, render first .empty = (.ok before, middle) ∧
      render second middle = (.ok others, after) ∧
      render (first ++ second) .empty = (.ok (before ++ others), after) ∧
      Markup.serializeNodes (before ++ others) = "<i>1</i> <i>2</i>".toList := by
  intro counter app branch first second render
  have hdetached : Chain.IsDetached second := by
    have hhead : (second.filterMap Branch.ofNode?).head? = some (.first "true".toList) := by
      decide +kernel
    rintro found hfound
    rw [hhead] at hfound
    exact ⟨_, hfound.symm⟩
  have hmarkup : (render (first ++ second) .empty).1.toOption.map Markup.serializeNodes =
      some "<i>1</i> <i>2</i>".toList := by decide +kernel
  obtain ⟨nodes, after, hrun, hsource⟩ := Outcome.exists_run_of_toOption hmarkup
  obtain ⟨before, others, middle, hbefore, hothers, rfl⟩ :=
    (renderNodes_append app 1 (.ofBindings [] .empty) hdetached .empty after nodes).mp hrun
  exact ⟨hdetached, before, others, middle, after, hbefore, hothers, hrun, hsource⟩

end Engine

end HtmlTemplate
