import HtmlTemplate.Markup.Reference
/-!
The names of references.  Every name is longer than the text that it stands for.
-/

namespace HtmlTemplate.Markup

/-- A name with the codes of fewer characters than it has itself. -/
def isShorter (entry : Text × Codes) : Bool := entry.2.2.length + 1 < entry.1.length

def entriesOf (line : Text) : List (Text × Codes) := (Text.splitWhere (· = ';') line).map entryOf

theorem cons_eq_map {line : Text} {table : List String} {lines : List Text}
    (h : table = lines.map String.ofList) :
    String.ofList line :: table = (line :: lines).map String.ofList := by
  rw [h, List.map_cons]

/-- The lines are looked at as lists of characters.  To take these out of a text again would be a
computation of its own. -/
theorem exists_lines :
    ∃ lines : List Text, nameTable = lines.map String.ofList ∧
      lines.all fun line => (entriesOf line).all isShorter := by
  dsimp only [nameTable]
  apply Exists.intro
  apply And.intro
  · repeat apply cons_eq_map
    exact List.map_nil.symm
  · decide +kernel

theorem isShorter_of_mem_allNames {entry : Text × Codes} (h : entry ∈ allNames) :
    isShorter entry = true := by
  obtain ⟨lines, hlines, hall⟩ := exists_lines
  change entry ∈ nameTable.flatMap fun line => entriesOf line.toList at h
  simp only [hlines, List.flatMap_map, String.toList_ofList] at h
  obtain ⟨line, hline, hentry⟩ := List.mem_flatMap.mp h
  exact List.all_eq_true.mp (List.all_eq_true.mp hall line hline) entry hentry

theorem mem_of_lookup {α β : Type} [BEq α] [LawfulBEq α] {entries : List (α × β)} {key : α}
    {value : β} (h : entries.lookup key = some value) : (key, value) ∈ entries := by
  obtain ⟨before, after, rfl, -⟩ := List.lookup_eq_some_iff.mp h
  simp

theorem length_lt_of_charsOfName? {name chars : Text} (h : charsOfName? name = some chars) :
    chars.length < name.length := by
  obtain ⟨codes, hcodes, rfl⟩ := Option.map_eq_some_iff.mp h
  have hshorter : isShorter (name, codes) = true := by
    rcases Option.or_eq_some_iff.mp hcodes with hcommon | ⟨-, hname⟩
    · have hall : commonNames.all isShorter = true := by decide
      exact List.all_eq_true.mp hall _ (mem_of_lookup hcommon)
    · exact isShorter_of_mem_allNames (mem_of_lookup hname)
  simpa [isShorter] using hshorter

end HtmlTemplate.Markup
