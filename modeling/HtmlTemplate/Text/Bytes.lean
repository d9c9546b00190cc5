import HtmlTemplate.Text.Basic
/-!
Texts by their bytes in UTF-8.  Not all bytes spell a text, and those that do spell one only.  A
place in a text is given by the number of the bytes before it, and a slice is what stands between
two places.  There is no slice where the first place comes after the second, where one is beyond the
end of the text, and where one is within a character.
-/

namespace HtmlTemplate.Text

variable {s : Text} {held : List UInt8}

/-- The bytes of a text. -/
def utf8 (s : Text) : List UInt8 := s.flatMap String.utf8EncodeChar

/-- The text that some bytes spell, if they spell one. -/
def ofUtf8? (held : List UInt8) : Option Text :=
  (String.fromUTF8? held.toByteArray).map String.toList

theorem utf8_append (s t : Text) : utf8 (s ++ t) = utf8 s ++ utf8 t := List.flatMap_append

theorem utf8_eq_nil_iff : utf8 s = [] ↔ s = [] := by
  cases s with
  | nil => simp [utf8]
  | cons c s => simp [utf8, String.utf8EncodeChar_ne_nil]

theorem ofUtf8?_utf8 (s : Text) : ofUtf8? (utf8 s) = some s := by
  have hvalid : (utf8 s).toByteArray.IsValidUTF8 := ⟨s, rfl⟩
  have hstring : String.fromUTF8 _ hvalid = String.ofList s := String.toByteArray_inj.mp rfl
  rw [ofUtf8?, String.fromUTF8?, dif_pos hvalid, hstring, Option.map_some, String.toList_ofList]

theorem ofUtf8?_eq_some_iff : ofUtf8? held = some s ↔ utf8 s = held := by
  constructor
  · intro h
    obtain ⟨string, hstring, rfl⟩ := Option.map_eq_some_iff.mp h
    rw [String.fromUTF8?] at hstring
    split at hstring
    · next hvalid =>
        cases hstring
        exact List.toByteArray_inj.mp String.utf8Encode_toList
    · cases hstring
  · rintro rfl
    exact ofUtf8?_utf8 s

theorem utf8_inj {s t : Text} : utf8 s = utf8 t ↔ s = t := by
  refine ⟨fun h => ?_, congrArg utf8⟩
  have hspelled := ofUtf8?_utf8 s
  rw [h, ofUtf8?_utf8] at hspelled
  exact (Option.some.inj hspelled).symm

/-- The bytes of a text, each as the character that has its number. -/
def bytes (s : Text) : Text := (utf8 s).map Char.ofUInt8

/-! ### Places and slices -/

/-- Cuts a text after its first bytes. -/
def splitAtByte? : Text → Nat → Option (Text × Text)
  | s, 0 => some ([], s)
  | [], _ + 1 => none
  | c :: s, n + 1 =>
      if c.utf8Size ≤ n + 1 then
        (splitAtByte? s (n + 1 - c.utf8Size)).map fun cut => (c :: cut.1, cut.2)
      else none

/-- What stands between two places of a text. -/
def slice? (s : Text) (start stop : Nat) : Option Text :=
  (splitAtByte? s stop).bind fun upTo => (splitAtByte? upTo.1 start).map fun cut => cut.2

/-- The place of the first occurrence of a character. -/
def byteIndex? (c : Char) (s : Text) : Option Nat :=
  if c ∈ s then some (bytes (s.takeWhile (· ≠ c))).length else none

end HtmlTemplate.Text
