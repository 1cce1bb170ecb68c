import Isojson.Buffer
import Isojson.DecodeBuild

/-!
# `decode.rs`: `loads`

`loads` copies its input into the thread's scratch, lets simd-json fill a tape from it, and builds
the value.  The parser is a parameter; what `loads` relies on is `Parser.Reads`.

The scratch, the key cache and the pending exception outlive a call.  While `JSONDecodeError` is
constructed Python code runs, and it may call `loads` on the same thread: `Act` is what it does
then, or what was done before a call.
-/

namespace Isojson.Decode

/-! ## The parser -/

/-- simd-json's `ErrorType`; any that `describe` does not name is told by its debug text. -/
inductive ErrorType
  | eof
  | trailingData
  | unterminatedString
  | invalidEscape
  | invalidUnicodeEscape
  | invalidUnicodeCodepoint
  | invalidUtf8
  | invalidNumber
  | invalidExponent
  | depthLimitExceeded
  | expectedArrayComma
  | expectedMapComma
  | expectedObjectColon
  | expectedObjectKey
  | keyMustBeAString
  | badKeyType
  | expectedMapEnd
  | expectedArrayContent
  | expectedObjectContent
  | expectedNull
  | expectedTrue
  | expectedFalse
  | unexpectedCharacter
  | noStructure
  | syntaxError
  | inputTooLarge
  | other (debug : String)

def describe : ErrorType → String
  | .eof => "unexpected end of data"
  | .trailingData => "unexpected content after document"
  | .unterminatedString => "unterminated string"
  | .invalidEscape => "invalid escape sequence in string"
  | .invalidUnicodeEscape => "invalid \\u escape in string"
  | .invalidUnicodeCodepoint => "invalid unicode code point (lone surrogate?) in string"
  | .invalidUtf8 => "input is not valid UTF-8"
  | .invalidNumber => "invalid number"
  | .invalidExponent => "invalid number exponent"
  | .depthLimitExceeded => "depth limit exceeded"
  | .expectedArrayComma => "expected ',' or ']' in array"
  | .expectedMapComma => "expected ',' or '\x7d' in object"
  | .expectedObjectColon => "expected ':' after object key"
  | .expectedObjectKey | .keyMustBeAString | .badKeyType => "object key must be a string"
  | .expectedMapEnd => "expected '\x7d' at end of object"
  | .expectedArrayContent | .expectedObjectContent => "unexpected character, expected a JSON value"
  | .expectedNull | .expectedTrue | .expectedFalse => "unexpected character, expected a JSON value"
  | .unexpectedCharacter | .noStructure | .syntaxError => "unexpected character"
  | .inputTooLarge => "input is too large (simd-json limit: 4 GiB)"
  | .other debug => "invalid JSON (" ++ debug ++ ")"

/-- `fill_tape` over a copy of the input, the work buffers and a tape: its result, and what it
leaves in the three. -/
structure Parser (B : Type) where
  fillTape : Bytes → B → List Node → Except (ErrorType × ℕ) Unit × Bytes × B × List Node

/-- With an empty tape, `fill_tape` depends on the input alone, and fills in the tape of the
document. -/
structure Parser.Reads {B : Type} (p : Parser B) (parse : Bytes → Except (ErrorType × ℕ) Tree) :
    Prop where
  result : ∀ input b, (p.fillTape input b []).1 = (parse input).map fun _ => ()
  tape : ∀ input b t, parse input = .ok t → (p.fillTape input b []).2.2.2 = t.tape

/-! ## The state of a thread -/

/-- `SCRATCH`, with the flag of its `RefCell`. -/
structure Scratch (B : Type) where
  buf : Bytes
  buffers : B
  tape : List Node
  borrowed : Bool

/-- The `doc` of an error. -/
inductive Document
  | str (s : StrObj)
  /-- The input, decoded with replacement characters. -/
  | replaced (input : Bytes)

inductive Raised
  /-- An error of CPython's own, or one that Python code raised. -/
  | failure
  /-- `JSONDecodeError(msg, doc, pos)` -/
  | decode (msg : String) (doc : Document) (pos : ℕ)

structure Thread (B : Type) where
  scratch : Scratch B
  world : World
  exc : Option Raised

abbrev Loads (B : Type) := Run (Thread B) PendingPyErr

variable {B α : Type}

/-- Whether a request that was made between two worlds failed. -/
def failedSince (w w' : World) : Bool :=
  (List.range' w.asked (w'.asked - w.asked)).any fun k => !w.alloc k

/-- The thread after code that left the world `w`; a request that failed has set an exception. -/
def Thread.after (s : Thread B) (w : World) : Thread B :=
  { s with world := w, exc := if failedSince s.world w then some .failure else s.exc }

/-- Code over the world, whose error is null. -/
def lift (m : Build α) : Loads B (Option α) := fun s =>
  match m s.world with
  | .ok a w => .ok (some a) (s.after w)
  | .error _ w => .ok none (s.after w)
  | .fault w => .fault (s.after w)
  | .starved w => .starved (s.after w)

def setExc (exc : Option Raised) : Loads B Unit := Run.modify fun s => { s with exc := exc }

/-! ## The code -/

/-- The position of a byte, in characters. -/
def charPos (input : Bytes) (bytePos : ℕ) : ℕ := (input.take bytePos).countP Utf8.isLead

/-- The `doc` that an error about an input carries. -/
def document (input : Bytes) : Option StrObj → Document
  | some s => .str s
  | none => .replaced input

/-- The call of the exception type, in which Python code runs, and `PyErr_SetObject`. -/
def callDecodeError (during : Loads B Unit) (msg : String) (doc : Document) (pos : ℕ) :
    Loads B Unit := do
  during
  match ← lift request with
  | some _ => setExc (some (.decode msg doc pos))
  | none => pure ()

/-- `raise_decode_error`; `doc` is the `str` that the input was read from, if it was one. -/
def raiseDecodeError (during : Loads B Unit) (msg : String) (input : Bytes) (doc : Option StrObj)
    (bytePos : ℕ) : Loads B Unit := do
  let ownedDoc ← if doc.isSome then pure (some ()) else lift request
  match ownedDoc with
  | none => pure ()
  | some _ => do
      let pyMsg ← lift request
      let pyPos ← lift request
      if pyMsg.isSome && pyPos.isSome then
        callDecodeError during msg (document input doc) (charPos input bytePos)
      else pure ()

section Code

variable (p : Parser B)

/-- The closure of `SCRATCH.with`. -/
def parse (input : Bytes) : Loads B (Except (ErrorType × ℕ) (Option PyValue)) := do
  let s ← Run.get
  if s.scratch.borrowed then Run.fault -- `borrow_mut` panics
  else do
    let r := p.fillTape input s.scratch.buffers []
    -- the record of the nodes read is one of this call
    Run.modify fun s => { s with
      scratch := ⟨r.2.1, r.2.2.1, [], true⟩, world := { s.world with reads := [] } }
    let parsed ← match r.1 with
      | .ok _ => do
          let v ← lift (build r.2.2.2)
          pure (.ok v)
      | .error e => pure (.error e)
    Run.modify fun s => { s with scratch := { s.scratch with borrowed := false } }
    pure parsed

def isBlank (b : UInt8) : Bool := b == 32 || b == 9 || b == 10 || b == 13

def run (during : Loads B Unit) (input : Bytes) (doc : Option StrObj) : Loads B PyValue := do
  if input.all isBlank then do
    raiseDecodeError during "Input is a zero-length, empty document" input doc 0
    Run.throw ⟨⟩
  else
    match ← parse p input with
    | .ok (some v) => pure v
    | .ok none => Run.throw ⟨⟩
    | .error (e, i) => do
        raiseDecodeError during (describe e) input doc i
        Run.throw ⟨⟩

/-- The argument of `loads`, by the type that it is an instance of. -/
inductive Arg
  | bytes (b : Bytes)
  | str (s : StrObj)
  | byteArray (b : Bytes)
  /-- A memoryview; `none` when it can't be read as contiguous bytes. -/
  | memoryView (b : Option Bytes)
  | other

/-- `PyUnicode_AsUTF8AndSize`; UTF-8 that the object does not hold has to be made. -/
def asUtf8 (s : StrObj) : Loads B (Option Bytes) := do
  if s.chars.any fun c => decide (Utf8.IsSurrogate c) then do
    setExc (some .failure)
    pure none
  else if s.header.state &&& ASCII ≠ 0 ∨ s.header.utf8.isSome then
    pure (some (Utf8.encodeAll s.chars))
  else do
    let r ← lift request
    pure (r.map fun _ => Utf8.encodeAll s.chars)

def loads (during : Loads B Unit) : Arg → Loads B PyValue
  | .bytes b => run p during b none
  | .str s => do
      match ← asUtf8 s with
      | some b => run p during b (some s)
      | none => do
          setExc none
          raiseDecodeError during "str is not valid UTF-8: surrogates not allowed" [] (some s) 0
          Run.throw ⟨⟩
  | .byteArray b => run p during b none
  | .memoryView (some b) => run p during b none
  | .memoryView none => do
      setExc (some .failure)
      Run.throw ⟨⟩
  | .other => do
      raiseDecodeError during "Input must be bytes, bytearray, memoryview, or str" [] none 0
      Run.throw ⟨⟩

end Code

/-! ## Earlier calls, and calls on the way -/

/-- `KeyCache::clear` -/
def KeyCache.clear (slots : KeyCache) : KeyCache := fun ix => ((slots ix).1, none)

/-- The keys that the cache holds, to be given back. -/
def KeyCache.held (slots : KeyCache) : List ObjId :=
  (List.finRange CACHE_SLOTS).filterMap fun ix => (slots ix).2.map PyStr.id

def clearKeys (w : World) : World :=
  match w.keys with
  | some slots => release slots.held { w with keys := some slots.clear }
  | none => w

/-- What is done on the thread: a call of `loads`, with what is done while its error is
constructed, or clearing the key cache. -/
inductive Act
  | loads (arg : Arg) (during : List Act)
  | clear

/-- A call whose exception, if there is one, is taken by the Python code that made the call. -/
def attempt (m : Loads B α) : Loads B Unit := fun s =>
  match m s with
  | .ok _ s => .ok () s
  | .error _ s => .ok () { s with exc := none }
  | .fault s => .fault s
  | .starved s => .starved s

mutual

def Act.run (p : Parser B) : Act → Loads B Unit
  | .loads arg during => attempt (Decode.loads p (runAll p during) arg)
  | .clear => Run.modify fun s => { s with world := clearKeys s.world }

def runAll (p : Parser B) : List Act → Loads B Unit
  | [] => pure ()
  | act :: acts => do
      act.run p
      runAll p acts

end

end Isojson.Decode
