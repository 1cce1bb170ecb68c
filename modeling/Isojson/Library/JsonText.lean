import Isojson.Library.Utf8

/-!
# JSON string text

The text of a string under a writer that escapes what RFC 8259 makes it escape and nothing
else: the two-character escapes where they exist, `\u00XX` for the other control characters,
UTF-8 for the rest.
-/

namespace Json

/-- A lower-case hexadecimal digit. -/
def hexDigit (n : ℕ) : UInt8 := if n < 10 then UInt8.ofNat (48 + n) else UInt8.ofNat (87 + n)

/-- The letter of the two-character escape of `c`, if it has one. -/
def shortEscape (c : ℕ) : Option UInt8 :=
  if c = 0x22 then some 34
  else if c = 0x5C then some 92
  else if c = 0x08 then some 98
  else if c = 0x09 then some 116
  else if c = 0x0A then some 110
  else if c = 0x0C then some 102
  else if c = 0x0D then some 114
  else none

/-- The text of one code point inside a string. -/
def charText (c : ℕ) : Bytes :=
  match shortEscape c with
  | some e => [92, e]
  | none =>
      if c < 0x20 then [92, 117, 48, 48, hexDigit (c / 16), hexDigit (c % 16)]
      else Utf8.encode c

/-- The text of a string. -/
def quoted (s : List ℕ) : Bytes := [34] ++ s.flatMap charText ++ [34]

lemma charText_of_ge {c : ℕ} (h : 0x80 ≤ c) : charText c = Utf8.encode c := by
  have hs : shortEscape c = none := by
    unfold shortEscape
    split_ifs <;> first | omega | rfl
  simp only [charText, hs]
  rw [if_neg (by omega)]

end Json
