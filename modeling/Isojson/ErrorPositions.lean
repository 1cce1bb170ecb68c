import Isojson.Restored

/-!
# Where an error is

A parser says at which byte it stopped, and a `JSONDecodeError` says at which character: `charPos` counts
the bytes before it that are no continuation bytes.  In a text that is UTF-8, the characters that this
counts are those that begin before the byte, so that a byte where a character begins is turned into that
character, and one inside a character into the next (`loads_error_position`).
-/

namespace Isojson.Decode

open Utf8

variable {parse : Bytes → Except (ErrorType × ℕ) Tree}

/-- A text is refused, with a message, at a byte. -/
inductive Refused (parse : Bytes → Except (ErrorType × ℕ) Tree) (bytes : Bytes) : String → ℕ → Prop
  | blank (h : bytes.all isBlank = true) :
      Refused parse bytes "Input is a zero-length, empty document" 0
  | parser (h : bytes.all isBlank = false) {e : ErrorType} {i : ℕ} (hparse : parse bytes = .error (e, i)) :
      Refused parse bytes (describe e) i

lemma answerOf_refused {bytes : Bytes} {msg : String} {i : ℕ} (h : Refused parse bytes msg i)
    (doc : Option StrObj) :
    answerOf parse bytes doc = .error (.decode msg (document bytes doc) (charPos bytes i)) := by
  unfold answerOf
  cases h with
  | blank h => rw [if_pos h]
  | parser h hparse => rw [h, if_neg Bool.false_ne_true, hparse]

/-- The position of an error is the number of the characters that begin before the byte. -/
lemma charPos_encodeAll {s : List ℕ} (hs : ∀ c ∈ s, IsScalar c) (i : ℕ) :
    charPos (encodeAll s) i ≤ s.length ∧
      ∀ k < s.length, k < charPos (encodeAll s) i ↔ (encodeAll (s.take k)).length < i := by
  have hlt : ∀ c ∈ s, c < 0x110000 := fun c hc => (hs c hc).1
  constructor
  · rw [← countP_isLead_encodeAll hlt]
    exact (List.take_sublist i _).countP_le
  · intro k hk
    exact lt_countP_isLead_take_iff hlt hk

/-- **Errors point into the text.**  Give `loads` a text that it refuses at the byte `i`, in whatever
object, after whatever calls.  It raises `JSONDecodeError` with the text and the message, and with one
position for all these objects: the characters of the text before it are those that begin before the byte
`i`. -/
theorem loads_error_position {B : Type} {p : Parser B} (hp : p.Reads parse) {s : List ℕ}
    (hs : ∀ c ∈ s, IsScalar c) {msg : String} {i : ℕ} (hrefused : Refused parse (encodeAll s) msg i) :
    ∃ pos ≤ s.length, (∀ k < s.length, k < pos ↔ (encodeAll (s.take k)).length < i) ∧
      ∀ arg, Carries (encodeAll s) arg → ∀ (during : List Act) (t : Thread B), t.Sound →
        ∃ doc, doc.Shows (encodeAll s) ∧
          Answers (.error (.decode msg doc pos)) (loads p (runAll p during) arg) t := by
  obtain ⟨hle, hpos⟩ := charPos_encodeAll hs i
  refine ⟨charPos (encodeAll s) i, hle, hpos, fun arg harg during t ht => ?_⟩
  obtain ⟨doc, hdoc, hanswer⟩ := answer_carries parse harg
  have hloads := loads_answers hp (behaves_runAll hp during) arg ht
  rw [hanswer, answerOf_refused hrefused] at hloads
  exact ⟨document (encodeAll s) doc, hdoc, hloads⟩

/-- `{"é": [1, 2,, 3]}` -/
def commaDoc : List ℕ := [123, 34, 0xE9, 34, 58, 32, 91, 49, 44, 32, 50, 44, 44, 32, 51, 93, 125]

/-- A parser that stops at the third comma of this text, which is its byte 13. -/
def commaParser : Parser Unit where
  fillTape input _ _ := (.error (.unexpectedCharacter, 13), input, (), [])

/-- The third comma is the character 12. -/
theorem loads_error_position_comma :
    ∃ doc, doc.Shows (encodeAll commaDoc) ∧
      Answers (.error (.decode "unexpected character" doc 12))
        (loads commaParser (runAll commaParser []) (.bytes (encodeAll commaDoc))) freshThread := by
  have hreads : commaParser.Reads fun _ => .error (.unexpectedCharacter, 13) :=
    ⟨fun _ _ => rfl, fun _ _ _ h => absurd h (by simp)⟩
  obtain ⟨pos, hle, hpos, hloads⟩ := loads_error_position hreads (s := commaDoc) (by decide)
    (.parser rfl rfl)
  have hbefore := (hpos 11 (by decide)).mpr (by decide)
  have hat := mt (hpos 12 (by decide)).mp (by decide)
  obtain rfl : pos = 12 := by omega
  exact hloads _ .bytes [] freshThread fresh_freshThread.sound

end Isojson.Decode
