import HtmlTemplate.Proofs.Expr.Cache
import Mathlib.Data.List.Dedup
/-!
Sharing through a cache.  Over any run of calls the expression of a key is made once and handed out
from then on, however the key is spelled and whatever fails in between.  So the parser is called
once for each call that fails and once for each key that parses.
-/

namespace HtmlTemplate

namespace Cache

variable {parser : Text → Except ParseError Expr} {cache : Cache} {key source : Text}
  {made : Instance}

/-! ### One call -/

theorem get?_parse_of_get? (h : Fields.get? key cache.instances = some made) (source : Text) :
    Fields.get? key (cache.parse parser source).2.instances = some made := by
  obtain ⟨hit, -, hout⟩ | ⟨error, -, -, hout⟩ | ⟨expr, hmiss, -, hout⟩ :=
    parse_cases parser cache source <;> rw [hout]
  · exact h
  · exact h
  · have hne : source.trim ≠ key := by
      rintro rfl
      exact hmiss (Fields.mem_names_iff.mpr ⟨made, h⟩)
    rw [Fields.get?_insert, if_neg hne, h]

theorem get?_parse_of_ok (h : (cache.parse parser source).1 = .ok made) :
    Fields.get? source.trim (cache.parse parser source).2.instances = some made := by
  obtain ⟨hit, hhit, hout⟩ | ⟨error, -, -, hout⟩ | ⟨expr, -, -, hout⟩ :=
    parse_cases parser cache source <;> rw [hout] at h ⊢ <;> cases h
  · exact hhit
  · rw [Fields.get?_insert, if_pos rfl]

theorem mem_names_parse (h : key ∈ Fields.names (cache.parse parser source).2.instances) :
    key ∈ Fields.names cache.instances ∨
      (cache.parse parser source).1.isOk = true ∧ source.trim = key := by
  obtain ⟨hit, -, hout⟩ | ⟨error, -, -, hout⟩ | ⟨expr, hmiss, -, hout⟩ :=
    parse_cases parser cache source <;> rw [hout] at h ⊢
  · exact .inl h
  · exact .inl h
  · rw [Fields.names_insert, if_neg hmiss, List.mem_append, List.mem_singleton] at h
    exact h.imp id fun hkey => ⟨rfl, hkey.symm⟩

/-- The parser is called for a failure and for an instance that is new. -/
theorem calls_parse (parser : Text → Except ParseError Expr) (cache : Cache) (source : Text) :
    (cache.parse parser source).2.calls + cache.size =
      cache.calls + (cache.parse parser source).2.size +
        if (cache.parse parser source).1.isOk then 0 else 1 := by
  obtain ⟨hit, -, hout⟩ | ⟨error, -, -, hout⟩ | ⟨expr, hmiss, -, hout⟩ :=
    parse_cases parser cache source <;> rw [hout]
  · rfl
  · exact Nat.add_right_comm ..
  · simp only [size, Fields.insert_of_not_mem hmiss, List.length_append, List.length_singleton,
      Except.isOk, Except.toBool, if_true]
    omega

theorem serial_of_parse (hmiss : source.trim ∉ Fields.names cache.instances)
    (h : (cache.parse parser source).1 = .ok made) : made.serial = cache.calls := by
  obtain ⟨hit, hhit, -⟩ | ⟨error, -, -, hout⟩ | ⟨expr, -, -, hout⟩ :=
    parse_cases parser cache source
  · exact absurd (Fields.mem_names_iff.mpr ⟨hit, hhit⟩) hmiss
  · rw [hout] at h
    cases h
  · rw [hout] at h
    cases h
    rfl

/-- Every key has one instance and every instance one key, and all of them were made in calls that
have been counted. -/
structure WellFormed (parser : Text → Except ParseError Expr) (cache : Cache) : Prop where
  remembers : cache.Remembers parser
  nodup : (Fields.names cache.instances).Nodup
  serial_lt : ∀ key made, Fields.get? key cache.instances = some made → made.serial < cache.calls
  key_eq : ∀ key other made, Fields.get? key cache.instances = some made →
    Fields.get? other cache.instances = some made → key = other

namespace WellFormed

/-- An instance that is made in the next call is not that of a key yet. -/
theorem ne_made (h : cache.WellFormed parser) (expr : Expr)
    (hmade : Fields.get? key cache.instances = some made) : made ≠ ⟨cache.calls, expr⟩ := by
  rintro rfl
  exact Nat.lt_irrefl _ (h.serial_lt key _ hmade)

theorem parse (h : cache.WellFormed parser) (source : Text) :
    (cache.parse parser source).2.WellFormed parser := by
  have hremembers := (h.remembers.parse source).2
  obtain ⟨hit, -, hout⟩ | ⟨error, -, -, hout⟩ | ⟨expr, -, -, hout⟩ :=
    parse_cases parser cache source <;> rw [hout] at hremembers ⊢
  · exact h
  · refine ⟨hremembers, h.nodup, fun key made hmade => ?_, h.key_eq⟩
    exact Nat.lt_succ_of_lt (h.serial_lt key made hmade)
  · refine ⟨hremembers, Fields.nodup_names_insert h.nodup, fun key made hmade => ?_,
      fun key other made hkey hother => ?_⟩
    · rw [Fields.get?_insert] at hmade
      split at hmade
      · cases hmade
        exact Nat.lt_succ_self _
      · exact Nat.lt_succ_of_lt (h.serial_lt key made hmade)
    · rw [Fields.get?_insert] at hkey hother
      split at hkey <;> split at hother
      · next hnew hnew' => exact hnew.symm.trans hnew'
      · cases hkey
        exact absurd rfl (h.ne_made expr hother)
      · cases hother
        exact absurd rfl (h.ne_made expr hkey)
      · exact h.key_eq key other made hkey hother

end WellFormed

/-! ### A run of calls -/

/-- Parses the sources one after another, and gives each of them with its answer. -/
def parseAll (parser : Text → Except ParseError Expr) (cache : Cache) :
    List Text → List (Text × Except ParseError Instance) × Cache
  | [] => ([], cache)
  | source :: rest =>
      let next := cache.parse parser source
      let others := parseAll parser next.2 rest
      ((source, next.1) :: others.1, others.2)

theorem parseAll_append (parser : Text → Except ParseError Expr) (cache : Cache)
    (sources others : List Text) :
    let first := cache.parseAll parser sources
    let second := first.2.parseAll parser others
    cache.parseAll parser (sources ++ others) = (first.1 ++ second.1, second.2) := by
  induction sources generalizing cache with
  | nil => rfl
  | cons source rest ih => simp only [List.cons_append, parseAll, ih]

theorem map_fst_parseAll (parser : Text → Except ParseError Expr) (cache : Cache)
    (sources : List Text) : (cache.parseAll parser sources).1.map Prod.fst = sources := by
  induction sources generalizing cache with
  | nil => rfl
  | cons source rest ih => rw [parseAll, List.map_cons, ih]

/-- The keys of the sources that parse, each of them once. -/
def loadable (parser : Text → Except ParseError Expr) (sources : List Text) : List Text :=
  ((sources.filter fun source => (parser source).isOk).map Text.trim).dedup

/-- A cache after the calls of a history.  It answered as its parser, it keeps the instances of the
calls that succeeded and no others, and it called the parser for these and for the failures. -/
structure Records (parser : Text → Except ParseError Expr)
    (history : List (Text × Except ParseError Instance)) (cache : Cache) : Prop
    extends WellFormed parser cache where
  answered : ∀ call ∈ history, call.2.map Instance.expr = parser call.1
  kept : ∀ call ∈ history, ∀ made, call.2 = .ok made →
    Fields.get? call.1.trim cache.instances = some made
  asked : ∀ key ∈ Fields.names cache.instances,
    ∃ call ∈ history, call.2.isOk = true ∧ call.1.trim = key
  counted : cache.calls = history.countP (fun call => !call.2.isOk) + cache.size

theorem records_empty (parser : Text → Except ParseError Expr) : Records parser [] empty where
  remembers := remembers_empty parser
  nodup := List.nodup_nil
  serial_lt := nofun
  key_eq := nofun
  answered := nofun
  kept := nofun
  asked := nofun
  counted := rfl

namespace Records

variable {history : List (Text × Except ParseError Instance)}

theorem parse (h : Records parser history cache)
    (hparser : ∀ s t : Text, s.trim = t.trim → parser s = parser t) (source : Text) :
    Records parser (history ++ [(source, (cache.parse parser source).1)])
      (cache.parse parser source).2 where
  toWellFormed := h.toWellFormed.parse source
  answered := by
    refine List.forall_mem_append.mpr ⟨h.answered, List.forall_mem_singleton.mpr ?_⟩
    exact (h.remembers.parse source).1.trans (hparser _ _ (Text.trim_trim source))
  kept := by
    refine List.forall_mem_append.mpr ⟨fun call hcall made hmade => ?_,
      List.forall_mem_singleton.mpr fun made => get?_parse_of_ok⟩
    exact get?_parse_of_get? (h.kept call hcall made hmade) source
  asked := by
    intro key hkey
    rcases mem_names_parse hkey with hold | hnew
    · obtain ⟨call, hcall, hok⟩ := h.asked key hold
      exact ⟨call, List.mem_append_left _ hcall, hok⟩
    · exact ⟨_, List.mem_append_right _ (List.mem_singleton_self _), hnew⟩
  counted := by
    have hcalls := calls_parse parser cache source
    have hcounted := h.counted
    rw [List.countP_append, List.countP_singleton]
    cases hok : (cache.parse parser source).1.isOk <;> simp [hok] at hcalls ⊢ <;> omega

theorem parseAll (h : Records parser history cache)
    (hparser : ∀ s t : Text, s.trim = t.trim → parser s = parser t) (sources : List Text) :
    Records parser (history ++ (cache.parseAll parser sources).1)
      (cache.parseAll parser sources).2 := by
  -- on the sources still to come, for every history before them
  induction sources generalizing history cache with
  | nil => rwa [Cache.parseAll, List.append_nil]
  | cons source rest ih =>
      have hrest := ih (h.parse hparser source)
      rwa [List.append_assoc] at hrest

theorem isOk_eq (h : Records parser history cache) {call : Text × Except ParseError Instance}
    (hcall : call ∈ history) : call.2.isOk = (parser call.1).isOk := by
  rw [← h.answered call hcall]
  cases call.2 <;> rfl

/-- The keys that are kept are those of the sources that parse. -/
theorem mem_names_iff (h : Records parser history cache) :
    key ∈ Fields.names cache.instances ↔ key ∈ loadable parser (history.map Prod.fst) := by
  simp only [loadable, List.mem_dedup, List.mem_map, List.mem_filter]
  constructor
  · intro hkey
    obtain ⟨call, hcall, hok, htrim⟩ := h.asked key hkey
    exact ⟨call.1, ⟨⟨call, hcall, rfl⟩, h.isOk_eq hcall ▸ hok⟩, htrim⟩
  · rintro ⟨_, ⟨⟨call, hcall, rfl⟩, hok⟩, rfl⟩
    rw [← h.isOk_eq hcall] at hok
    cases hanswer : call.2 with
    | error error => rw [hanswer] at hok; cases hok
    | ok made => exact Fields.mem_names_iff.mpr ⟨made, h.kept call hcall made hanswer⟩

theorem size_eq (h : Records parser history cache) :
    cache.size = (loadable parser (history.map Prod.fst)).length := by
  have hperm : (Fields.names cache.instances).Perm (loadable parser (history.map Prod.fst)) :=
    (List.perm_ext_iff_of_nodup h.nodup (List.nodup_dedup _)).mpr fun _ => h.mem_names_iff
  rw [← hperm.length_eq, Fields.names, List.length_map, size]

/-- Calls that succeeded got one instance if and only if they asked for one key. -/
theorem instance_eq_iff (h : Records parser history cache)
    {call other : Text × Except ParseError Instance} (hcall : call ∈ history)
    (hother : other ∈ history) {first second : Instance} (hfirst : call.2 = .ok first)
    (hsecond : other.2 = .ok second) : first = second ↔ call.1.trim = other.1.trim := by
  have hkept := h.kept call hcall first hfirst
  have hkept' := h.kept other hother second hsecond
  constructor
  · rintro rfl
    exact h.key_eq _ _ _ hkept hkept'
  · intro htrim
    rw [htrim, hkept'] at hkept
    exact (Option.some.inj hkept).symm

end Records

/-- A cache over a parser that heeds only the trimmed source answers as the parser does.  Calls that
succeed get one instance if and only if their trimmed sources are equal, and it is the one that the
parser made in the first of them.  The parser is called for each failure and once for each key that
parses, and these keys are what the cache holds. -/
theorem parseAll_loads_once (hparser : ∀ s t : Text, s.trim = t.trim → parser s = parser t)
    (sources : List Text) :
    let run := empty.parseAll parser sources
    run.1.map (fun call => (call.1, call.2.map Instance.expr)) =
        sources.map (fun source => (source, parser source)) ∧
      (∀ call ∈ run.1, ∀ other ∈ run.1, ∀ first second, call.2 = .ok first → other.2 = .ok second →
        (first = second ↔ call.1.trim = other.1.trim)) ∧
      (∀ before source after made, sources = before ++ source :: after →
        (∀ earlier ∈ before, earlier.trim ≠ source.trim) →
        run.1[before.length]? = some (source, .ok made) →
        made.serial = (empty.parseAll parser before).2.calls) ∧
      run.2.calls = run.1.countP (fun call => !call.2.isOk) + (loadable parser sources).length ∧
      run.2.size = (loadable parser sources).length ∧
      (run.2.isEmpty = true ↔ (loadable parser sources).length = 0) := by
  intro run
  have hrecords (sources : List Text) : Records parser (empty.parseAll parser sources).1
      (empty.parseAll parser sources).2 := (records_empty parser).parseAll hparser sources
  have hrun : Records parser run.1 run.2 := hrecords sources
  have hsources : run.1.map Prod.fst = sources := map_fst_parseAll parser empty sources
  have hsize : run.2.size = (loadable parser sources).length := by
    rw [hrun.size_eq, hsources]
  refine ⟨?_, fun call hcall other hother first second => hrun.instance_eq_iff hcall hother, ?_, ?_,
    hsize, ?_⟩
  · calc run.1.map (fun call => (call.1, call.2.map Instance.expr))
        = run.1.map (fun call => (call.1, parser call.1)) :=
          List.map_congr_left fun call hcall => by rw [hrun.answered call hcall]
      _ = (run.1.map Prod.fst).map fun source => (source, parser source) := by
          rw [List.map_map]; rfl
      _ = sources.map fun source => (source, parser source) := by rw [hsources]
  · rintro before source after made rfl hbefore hanswer
    have hlength : (empty.parseAll parser before).1.length = before.length := by
      rw [← List.length_map, map_fst_parseAll]
    -- only a call with the key could have put it into the cache
    have hmiss : source.trim ∉ Fields.names (empty.parseAll parser before).2.instances := by
      intro hkey
      obtain ⟨call, hcall, -, htrim⟩ := (hrecords before).asked _ hkey
      have hmem : call.1 ∈ before := by
        rw [← map_fst_parseAll parser empty before]
        exact List.mem_map_of_mem hcall
      exact hbefore call.1 hmem htrim
    have hsplit : run = _ := parseAll_append parser empty before (source :: after)
    rw [hsplit, ← hlength, List.getElem?_append_right (Nat.le_refl _), Nat.sub_self, parseAll,
      List.getElem?_cons_zero] at hanswer
    exact serial_of_parse hmiss (Prod.mk.inj (Option.some.inj hanswer)).2
  · rw [hrun.counted, hsize]
  · rw [isEmpty, hsize, decide_eq_true_iff]

/-- The key `a` is spelled in three ways and `1 2` fails twice: the parser is called for the two
failures, for `a` and for `b`. -/
theorem parseAll_loads_once_padded :
    let sources := [" a ", "a", "1 2", "b", "a ", "1 2"].map String.toList
    let run := empty.parseAll Expr.parse sources
    (∀ s t : Text, s.trim = t.trim → Expr.parse s = Expr.parse t) ∧
      run.2.calls = 4 ∧ run.2.size = 2 ∧ run.2.isEmpty = false := by
  intro sources run
  have hparser (s t : Text) (h : s.trim = t.trim) : Expr.parse s = Expr.parse t := by
    rw [← Expr.parse_trim s, h, Expr.parse_trim]
  obtain ⟨-, -, -, hcalls, hsize, hempty⟩ := parseAll_loads_once hparser sources
  have hfailures : run.1.countP (fun call => !call.2.isOk) = 2 := by decide +kernel
  have hkeys : (loadable Expr.parse sources).length = 2 := by decide +kernel
  refine ⟨hparser, by rw [hcalls, hfailures, hkeys], by rw [hsize, hkeys], ?_⟩
  rw [← Bool.not_eq_true, hempty, hkeys]
  decide

end Cache

end HtmlTemplate
