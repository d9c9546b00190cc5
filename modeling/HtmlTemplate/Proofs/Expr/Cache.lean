import HtmlTemplate.Expr.Cache
import HtmlTemplate.Proofs.Trim
/-!
What a cache remembers.  Every instance is the parse of its key, so that a cache answers as its
parser does, in whatever order and however often it is asked.
-/

namespace HtmlTemplate

theorem Expr.parse_trim (source : Text) : parse source.trim = parse source := by
  unfold parse
  rw [Text.trim_trim]

namespace Cache

variable {parser : Text → Except ParseError Expr} {cache : Cache}

/-- A key that is kept is handed out; any other is parsed, and is kept if it parses. -/
theorem parse_cases (parser : Text → Except ParseError Expr) (cache : Cache) (source : Text) :
    (∃ made, Fields.get? source.trim cache.instances = some made ∧
      cache.parse parser source = (.ok made, cache)) ∨
    (∃ error, source.trim ∉ Fields.names cache.instances ∧ parser source.trim = .error error ∧
      cache.parse parser source = (.error error, ⟨cache.instances, cache.calls + 1⟩)) ∨
    (∃ expr, source.trim ∉ Fields.names cache.instances ∧ parser source.trim = .ok expr ∧
      cache.parse parser source = (.ok ⟨cache.calls, expr⟩,
        ⟨Fields.insert source.trim ⟨cache.calls, expr⟩ cache.instances, cache.calls + 1⟩)) := by
  simp only [parse]
  cases hhit : Fields.get? source.trim cache.instances with
  | some made => exact .inl ⟨made, rfl, rfl⟩
  | none =>
      have hmiss := Fields.get?_eq_none_iff.mp hhit
      cases hparse : parser source.trim with
      | error error => exact .inr (.inl ⟨error, hmiss, rfl, rfl⟩)
      | ok expr => exact .inr (.inr ⟨expr, hmiss, rfl, rfl⟩)

/-- What is kept under a key is what the parser makes of it. -/
def Remembers (parser : Text → Except ParseError Expr) (cache : Cache) : Prop :=
  ∀ key made, Fields.get? key cache.instances = some made → parser key = .ok made.expr

theorem remembers_empty (parser : Text → Except ParseError Expr) : Remembers parser empty := nofun

/-- A cache answers as its parser does on the trimmed source, and goes on remembering what the
parser makes of its keys. -/
theorem Remembers.parse (h : cache.Remembers parser) (source : Text) :
    (cache.parse parser source).1.map Instance.expr = parser source.trim ∧
    (cache.parse parser source).2.Remembers parser := by
  obtain ⟨made, hhit, hout⟩ | ⟨error, -, hparse, hout⟩ | ⟨expr, -, hparse, hout⟩ :=
    parse_cases parser cache source <;> rw [hout]
  · exact ⟨(h _ made hhit).symm, h⟩
  · exact ⟨hparse.symm, h⟩
  · refine ⟨hparse.symm, fun other made hmade => ?_⟩
    rw [Fields.get?_insert] at hmade
    split at hmade
    · next hkey =>
        cases hmade
        rw [← hkey, hparse]
    · exact h other made hmade

end Cache

end HtmlTemplate
