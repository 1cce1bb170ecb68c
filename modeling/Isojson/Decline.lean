import Isojson.Datetime
import Isojson.Library.Utf8

/-!
# `decline.rs`: which numpy objects isojson won't write

`classify` decides from an array's interface alone.  A `Decline` carries the raw evidence it was
decided on, `declineMessage` is the text of the error and `declineNote` the text that
`add_note` attaches to it.
-/

namespace Isojson

/-- `NPY_ARRAY_C_CONTIGUOUS` -/
def C_CONTIGUOUS : UInt32 := 0x1
/-- `NPY_ARRAY_NOTSWAPPED` -/
def NOTSWAPPED : UInt32 := 0x200

inductive ArrayDecline
  | notContiguous
  | notNative
  | zeroDim
  | unsupportedDtype
  deriving DecidableEq

/-- The element types isojson writes, in the order a scalar's type is looked up. -/
inductive ElementType
  | f64 | f32 | f16 | i64 | i32 | i16 | i8 | u64 | u32 | u16 | u8 | bool | dt64
  deriving DecidableEq, Repr

/-- `ElementType::ALL` -/
def ElementType.all : List ElementType :=
  [.f64, .f32, .f16, .i64, .i32, .i16, .i8, .u64, .u32, .u16, .u8, .bool, .dt64]

lemma ElementType.mem_all (e : ElementType) : e ∈ ElementType.all := by
  cases e <;> decide

/-- Why isojson won't write a numpy object. -/
inductive Decline
  | notContiguous (flags : UInt32) (shape : List ℤ)
  | notNative (dtype : Bytes)
  | zeroDim (dtype : Bytes)
  | unsupportedDtype (dtype : Bytes)
  | genericUnit (v : ℤ)
  | unparseableDtype (dtype : Bytes)
  | unrepresentable (v : ℤ) (unit : Dt64Unit)
  deriving DecidableEq

/-- The element type of a kind, an ASCII letter, and an item size. -/
def elementOf (kind : UInt8) (itemsize : ℤ) : Option ElementType :=
  if kind = 98 ∧ itemsize = 1 then some .bool
  else if kind = 102 ∧ itemsize = 2 then some .f16
  else if kind = 102 ∧ itemsize = 4 then some .f32
  else if kind = 102 ∧ itemsize = 8 then some .f64
  else if kind = 105 ∧ itemsize = 1 then some .i8
  else if kind = 105 ∧ itemsize = 2 then some .i16
  else if kind = 105 ∧ itemsize = 4 then some .i32
  else if kind = 105 ∧ itemsize = 8 then some .i64
  else if kind = 117 ∧ itemsize = 1 then some .u8
  else if kind = 117 ∧ itemsize = 2 then some .u16
  else if kind = 117 ∧ itemsize = 4 then some .u32
  else if kind = 117 ∧ itemsize = 8 then some .u64
  else if kind = 77 ∧ itemsize = 8 then some .dt64
  else none

/-- The element type of an array, or the first failing check; the flags are the bits of a
`c_int`. -/
def classify (flags : UInt32) (nd : ℤ) (kind : UInt8) (itemsize : ℤ) :
    Except ArrayDecline ElementType :=
  if flags &&& C_CONTIGUOUS = 0 then .error .notContiguous
  else if flags &&& NOTSWAPPED = 0 then .error .notNative
  else if nd ≤ 0 then .error .zeroDim
  else
    match elementOf kind itemsize with
    | some elem => .ok elem
    | none => .error .unsupportedDtype

/-- Every accepted array has at least one dimension. -/
lemma nd_pos_of_classify {flags : UInt32} {nd : ℤ} {kind : UInt8} {itemsize : ℤ}
    {elem : ElementType} (h : classify flags nd kind itemsize = .ok elem) : 0 < nd := by
  by_contra hnd
  rw [classify, if_pos (not_lt.mp hnd)] at h
  split_ifs at h

/-! ## Texts -/

/-- `unit_word` -/
def unitWord : TimeUnit → String
  | .year => "years"
  | .month => "months"
  | .week => "weeks"
  | .day => "days"
  | .hour => "hours"
  | .minute => "minutes"
  | .second => "seconds"
  | .milli => "milliseconds"
  | .micro => "microseconds"
  | .nano => "nanoseconds"
  | .pico => "picoseconds"
  | .femto => "femtoseconds"
  | .atto => "attoseconds"
  | .generic => "generic"

/-- The text of code points. -/
def stringOf (cs : List ℕ) : String := String.ofList (cs.map Char.ofNat)

/-- `String::from_utf8_lossy`, for the UTF-8 text that CPython handed out. -/
def fromUtf8 (b : Bytes) : String := stringOf (Utf8.chars b)

def declineMessage : Decline → String
  | .notContiguous _ _ => "numpy array is not C contiguous; use ndarray.tolist() in default"
  | .notNative _ => "numpy array is not native-endianness"
  | .zeroDim _ => "unsupported datatype in numpy array"
  | .unsupportedDtype _ => "unsupported datatype in numpy array"
  | .genericUnit _ => "unsupported numpy.datetime64 unit: generic"
  | .unparseableDtype dtype => "unsupported numpy.datetime64 dtype: " ++ fromUtf8 dtype
  | .unrepresentable v unit =>
      "unrepresentable numpy.datetime64: " ++ toString v ++ " " ++ unitWord unit.base ++
        if unit.mult ≠ 1 then " × " ++ toString unit.mult else ""

/-- A shape as Python shows the tuple. -/
def shapeText : List ℤ → String
  | [n] => "(" ++ toString n ++ ",)"
  | shape => "(" ++ ", ".intercalate (shape.map toString) ++ ")"

def dtypeText (dtype : Bytes) : String := "dtype.str='" ++ fromUtf8 dtype ++ "'"

/-- The evidence of a note; the message of an unparseable dtype already quotes it. -/
def declineEvidence : Decline → Option String
  | .notContiguous flags shape =>
      some ("flags=0x" ++ String.ofList (Nat.toDigits 16 flags.toNat) ++ ", shape=" ++
        shapeText shape)
  | .notNative dtype => some (dtypeText dtype)
  | .unsupportedDtype dtype => some (dtypeText dtype)
  | .zeroDim dtype => some ("0-d array, " ++ dtypeText dtype)
  | .genericUnit v =>
      some ("value=" ++ toString v ++
        "; a generic-unit datetime64 has no unit, so its value has no meaning")
  | .unparseableDtype _ => none
  | .unrepresentable _ _ => some "outside 0000-01-01T00:00:00 … 9999-12-31T23:59:59.999999"

def declineNote (r : Decline) : String :=
  "isojson can't write this numpy object natively: " ++ declineMessage r ++
    match declineEvidence r with
    | some e => " (" ++ e ++ ")"
    | none => ""

end Isojson
