import HtmlTemplate.Markup.Token
import HtmlTemplate.Proofs.Markup.Canonical
/-!
Reading a tag from what is written for it: its name, and its attributes with all that their values
hold.
-/

namespace HtmlTemplate.Markup

/-! ### Values -/

theorem namedReference?_eq_some (inAttribute : Bool) {name chars : Text} (s : Text)
    (hname : ∀ c ∈ name, c.isAlphanum = true) (h : charsOfName? name = some chars) :
    namedReference? inAttribute (name ++ ';' :: s) = some (chars, name.length + 1) := by
  obtain ⟨htake, hdrop⟩ :=
    Text.takeWhile_append_of_head (p := Char.isAlphanum) (t := ';' :: s) hname rfl
  rw [namedReference?, htake, hdrop]
  simp [h]

theorem decodeFrom_escapeAttributeChar (c : Char) (s : Text) :
    decodeFrom true 0 (escapeAttributeChar c ++ s) = c :: decodeFrom true 0 s := by
  have hamp : charsOfName? "amp".toList = some ['&'] := by decide
  have hquot : charsOfName? "quot".toList = some ['"'] := by decide
  have hnbsp : charsOfName? "nbsp".toList = some [nbsp] := by decide
  unfold escapeAttributeChar
  split
  · next hc =>
      have h : reference? true ('a' :: 'm' :: 'p' :: ';' :: s) = some (['&'], 4) :=
        namedReference?_eq_some true s (Text.forall_eq_of_all (by decide)) hamp
      simp [decodeFrom, h, hc]
  · split
    · next hc =>
        have h : reference? true ('q' :: 'u' :: 'o' :: 't' :: ';' :: s) = some (['"'], 5) :=
          namedReference?_eq_some true s (Text.forall_eq_of_all (by decide)) hquot
        simp [decodeFrom, h, hc]
    · split
      · next hc =>
          have h : reference? true ('n' :: 'b' :: 's' :: 'p' :: ';' :: s) = some ([nbsp], 5) :=
            namedReference?_eq_some true s (Text.forall_eq_of_all (by decide)) hnbsp
          simp [decodeFrom, h, hc]
      · next hplain _ _ => simp [decodeFrom, hplain]

/-- Whatever a value holds, it is read back from its written form. -/
theorem decodeAttribute_escapeAttribute (s : Text) : decodeAttribute (escapeAttribute s) = s := by
  rw [decodeAttribute, escapeAttribute]
  induction s with
  | nil => rfl
  | cons c s ih => rw [List.flatMap_cons, decodeFrom_escapeAttributeChar, ih]

/-- Escaping brings in no characters but those of references. -/
theorem mem_of_mem_escapeAttribute {s : Text} {c : Char} (h : c ∈ escapeAttribute s)
    (hc : c ∉ "&;ampquotnbsp".toList) : c ∈ s ∧ c ≠ '"' := by
  have hamp : "&amp;".toList ⊆ "&;ampquotnbsp".toList := by decide
  have hquot : "&quot;".toList ⊆ "&;ampquotnbsp".toList := by decide
  have hnbsp : "&nbsp;".toList ⊆ "&;ampquotnbsp".toList := by decide
  obtain ⟨d, hd, hmem⟩ := List.mem_flatMap.mp h
  unfold escapeAttributeChar at hmem
  repeat' split at hmem
  · exact absurd (hamp hmem) hc
  · exact absurd (hquot hmem) hc
  · exact absurd (hnbsp hmem) hc
  · next hquote _ =>
      rw [List.mem_singleton] at hmem
      subst hmem
      exact ⟨hd, hquote⟩

theorem quote_not_mem_escapeAttribute (s : Text) : '"' ∉ escapeAttribute s :=
  fun h => (mem_of_mem_escapeAttribute h (by decide)).2 rfl

theorem isClean_escapeAttribute {s : Text} (h : IsClean s) : IsClean (escapeAttribute s) :=
  ⟨fun hmem => h.1 (mem_of_mem_escapeAttribute hmem (by decide)).1,
    fun hmem => h.2 (mem_of_mem_escapeAttribute hmem (by decide)).1⟩

/-! ### Attributes -/

/-- What is written for a value after its name. -/
def assigned (value : Text) : Text :=
  if value.isEmpty then [] else "=\"".toList ++ escapeAttribute value ++ ['"']

theorem serializeAttribute_eq (name value : Text) :
    serializeAttribute name value = ' ' :: (name ++ assigned value) := by
  unfold serializeAttribute assigned
  split <;> simp

theorem breakOn_quote {value : Text} (h : '"' ∉ value) (s : Text) :
    Text.breakOn ['"'] (value ++ '"' :: s) = some (value, s) := by
  induction value with
  | nil => simp [Text.breakOn, Text.after?]
  | cons c value ih =>
      rw [List.mem_cons, not_or] at h
      simp [Text.breakOn, Text.after?, h.1, ih h.2]

theorem readValue_assigned {value : Text} (hvalue : value ≠ []) (s : Text) :
    readValue (assigned value ++ s) = some (escapeAttribute value, s) := by
  have hassigned : assigned value ++ s = '=' :: '"' :: (escapeAttribute value ++ '"' :: s) := by
    simp [assigned, hvalue]
  have hspace : ∀ t, ('=' :: t).dropWhile isTagSpace = '=' :: t := fun t => rfl
  have hquote : ∀ t, ('"' :: t).dropWhile isTagSpace = '"' :: t := fun t => rfl
  rw [hassigned, readValue, hspace]
  simp only [hquote]
  exact breakOn_quote (quote_not_mem_escapeAttribute value) s

theorem readValue_unassigned {s : Text} (h : (s.dropWhile isTagSpace).head? ≠ some '=') :
    readValue s = some ([], s.dropWhile isTagSpace) := by
  unfold readValue
  split
  · next heq => simp [heq] at h
  · rfl

/-- The rest of a tag holds these attributes, and the tag does not close itself. -/
def ReadsAttributes (s : Text) (entries : List (Text × Text)) (rest : Text) : Prop :=
  ∀ fuel, s.length < fuel → readAttributes fuel s = some (entries, false, rest)

namespace ReadsAttributes

variable {s rest name : Text} {entries : List (Text × Text)}

theorem bracket (rest : Text) : ReadsAttributes ('>' :: rest) [] rest := by
  intro fuel hfuel
  cases fuel with
  | zero => cases hfuel
  | succ fuel => simp [readAttributes, isTagSpace]

theorem of_dropWhile (h : ReadsAttributes (s.dropWhile isTagSpace) entries rest) :
    ReadsAttributes s entries rest := by
  induction s with
  | nil => exact h
  | cons c s ih =>
      cases hc : isTagSpace c with
      | true =>
          rw [List.dropWhile_cons_of_pos hc] at h
          intro fuel hfuel
          cases fuel with
          | zero => cases hfuel
          | succ fuel =>
              unfold readAttributes
              rw [if_pos hc]
              exact ih h fuel (Nat.lt_of_succ_lt_succ hfuel)
      | false => rwa [List.dropWhile_cons_of_neg (by simp [hc])] at h

theorem cons {value remaining : Text} (hne : name ≠ []) (hname : ∀ c ∈ name, isKept c = true)
    (hnext : s.head?.any (fun c => !endsAttributeName c) = false)
    (hvalue : readValue s = some (value, remaining)) (hlength : remaining.length ≤ s.length)
    (h : ReadsAttributes remaining entries rest) :
    ReadsAttributes (name ++ s) ((name, decodeAttribute (cleaned value)) :: entries) rest := by
  intro fuel hfuel
  cases fuel with
  | zero => cases hfuel
  | succ fuel =>
      obtain ⟨c, more, rfl⟩ := List.exists_cons_of_ne_nil hne
      have hmore : ∀ d ∈ more, (!endsAttributeName d) = true := by
        intro d hd
        have hkept := hname d (List.mem_cons_of_mem c hd)
        simp_all [isKept, endsAttributeName]
      obtain ⟨htake, hdrop⟩ := Text.takeWhile_append_of_head hmore hnext
      have hc := hname c (List.mem_cons_self ..)
      simp only [isKept, endsTagName, Bool.and_eq_true, Bool.not_eq_true', Bool.or_eq_false_iff,
        decide_eq_true_eq, decide_eq_false_iff_not] at hc
      obtain ⟨⟨⟨⟨⟨⟨hspace, hslash⟩, hbracket⟩, -⟩, -⟩, -⟩, -⟩ := hc
      have hothers := h fuel (by simp at hfuel; omega)
      unfold readAttributes
      simp only [List.cons_append, hspace, hbracket, hslash, htake, hdrop, hvalue, hothers,
        if_false, Bool.false_eq_true, Option.bind_eq_bind, Option.bind_some]
      rw [cleaned_eq_self (isClean_of_isKept hname), lower_eq_self hname]

end ReadsAttributes

theorem isKept_of_mem_name {name value : Text} {c : Char} (h : IsAttribute name value)
    (hc : c ∈ name) : isKept c = true :=
  isKept_of_isAttributeChar (h.name c hc)

theorem dropWhile_isTagSpace {name s : Text} (hne : name ≠ []) (h : ∀ c ∈ name, isKept c = true) :
    (name ++ s).dropWhile isTagSpace = name ++ s := by
  obtain ⟨c, more, rfl⟩ := List.exists_cons_of_ne_nil hne
  have hc := h c (List.mem_cons_self ..)
  simp only [isKept, endsTagName, Bool.and_eq_true, Bool.not_eq_true', Bool.or_eq_false_iff] at hc
  exact List.dropWhile_cons_of_neg (by simp [hc])

/-- What is written for attributes, up to the end of their tag. -/
def attributesText (entries : List (Text × Text)) (rest : Text) : Text :=
  entries.flatMap (fun entry => serializeAttribute entry.1 entry.2) ++ '>' :: rest

theorem attributesText_cons (name value : Text) (entries : List (Text × Text)) (rest : Text) :
    attributesText ((name, value) :: entries) rest =
      ' ' :: (name ++ (assigned value ++ attributesText entries rest)) := by
  simp [attributesText, serializeAttribute_eq]

theorem head_attributesText (entries : List (Text × Text)) (rest : Text) :
    (attributesText entries rest).head?.any (fun c => !endsTagName c) = false := by
  cases entries with
  | nil => rfl
  | cons entry entries =>
      rw [attributesText_cons]
      rfl

theorem head_assigned (value : Text) (entries : List (Text × Text)) (rest : Text) :
    (assigned value ++ attributesText entries rest).head?.any (fun c => !endsAttributeName c) =
      false := by
  by_cases hvalue : value = []
  · subst hvalue
    cases entries with
    | nil => rfl
    | cons entry entries =>
        rw [attributesText_cons]
        rfl
  · simp [assigned, hvalue, endsAttributeName]

/-- Attributes are read back from what is written for them. -/
theorem readsAttributes_attributesText {entries : List (Text × Text)}
    (h : ∀ entry ∈ entries, IsAttribute entry.1 entry.2) (rest : Text) :
    ReadsAttributes ((attributesText entries rest).dropWhile isTagSpace) entries rest ∧
      ((attributesText entries rest).dropWhile isTagSpace).head? ≠ some '=' := by
  induction entries with
  | nil => exact ⟨.bracket rest, by simp [attributesText, isTagSpace]⟩
  | cons entry entries ih =>
      obtain ⟨name, value⟩ := entry
      obtain ⟨hothers, hassign⟩ := ih fun other hmem => h other (List.mem_cons_of_mem _ hmem)
      have hentry : IsAttribute name value := h _ (List.mem_cons_self ..)
      have hname : ∀ c ∈ name, isKept c = true := fun c hc => isKept_of_mem_name hentry hc
      have hspace : ∀ t, (' ' :: t).dropWhile isTagSpace = t.dropWhile isTagSpace := fun t => rfl
      rw [attributesText_cons, hspace, dropWhile_isTagSpace hentry.name_ne_nil hname]
      constructor
      · by_cases hvalue : value = []
        · subst hvalue
          exact ReadsAttributes.cons hentry.name_ne_nil hname (head_assigned [] entries rest)
            (readValue_unassigned hassign) (List.dropWhile_sublist _).length_le hothers
        · have hnext := head_assigned value entries rest
          have hread := ReadsAttributes.cons hentry.name_ne_nil hname hnext
            (readValue_assigned hvalue _) (by simp) hothers.of_dropWhile
          rw [cleaned_eq_self (isClean_escapeAttribute hentry.value),
            decodeAttribute_escapeAttribute] at hread
          exact hread
      · obtain ⟨c, more, rfl⟩ := List.exists_cons_of_ne_nil hentry.name_ne_nil
        have hc := hname c (List.mem_cons_self ..)
        simp only [isKept, Bool.and_eq_true, decide_eq_true_eq] at hc
        simpa using hc.1.1.1.2

/-! ### Tags -/

/-- The name of a tag and its attributes are read back from what is written for them. -/
theorem readTag_attributesText {tag : Text} {attributes : Attributes} (htag : isTagName tag = true)
    (h : ∀ entry ∈ attributes.entries, IsAttribute entry.1 entry.2) (rest : Text) :
    readTag (tag ++ attributesText attributes.entries rest) =
      some (tag, attributes, false, rest) := by
  have hname : ∀ c ∈ tag, isKept c = true := fun c hc => isKept_of_mem_tag htag hc
  have hends : ∀ c ∈ tag, (!endsTagName c) = true := by
    intro c hc
    have hkept := hname c hc
    simp only [isKept, Bool.and_eq_true] at hkept
    exact hkept.1.1.1.1
  obtain ⟨htake, hdrop⟩ :=
    Text.takeWhile_append_of_head hends (head_attributesText attributes.entries rest)
  have hread := (readsAttributes_attributesText h rest).1.of_dropWhile _ (Nat.lt_succ_self _)
  rw [readTag, htake, hdrop]
  simp only [hread, Option.bind_eq_bind, Option.bind_some]
  rw [cleaned_eq_self (isClean_of_isKept hname), lower_eq_self hname, Attributes.ofFirsts_entries]

end HtmlTemplate.Markup
