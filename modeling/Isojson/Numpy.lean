import Isojson.EncodeState
import Isojson.IntRow

/-!
# `numpy.rs`: writing arrays and scalars

An array is read through its interface and the memory behind it; a leaf is the little-endian
bytes of one element.  `walk` runs over the output alone (`Walk`), with the addresses of the
leaves it reads on record, and raises the decline of the first element that can't be written.
-/

namespace Isojson

open Words

variable {a : Allocator}

/-! ## Elements -/

/-- The signed number of `w` bytes, from the unsigned one. -/
def signed (w n : ℕ) : ℤ := Int.bmod n (256 ^ w)

/-- `size_of` the type an element is read as. -/
def ElementType.size : ElementType → ℕ
  | .f64 | .i64 | .u64 | .dt64 => 8
  | .f32 | .i32 | .u32 => 4
  | .f16 | .i16 | .u16 => 2
  | .i8 | .u8 | .bool => 1

/-- The value of an integer element. -/
def ElementType.intValue : ElementType → ℕ → Option ℤ
  | .i64, n => some (signed 8 n)
  | .i32, n => some (signed 4 n)
  | .i16, n => some (signed 2 n)
  | .i8, n => some (signed 1 n)
  | .u64, n | .u32, n | .u16, n | .u8, n => some n
  | _, _ => none

/-- What the leaves of one walk depend on. -/
structure Leaves where
  fmt : Formats
  opts : UInt32
  elem : ElementType
  /-- The unit of datetime64 elements; it is read only if there is a leaf. -/
  unit : Option Dt64Unit

/-- `write_dt64` -/
def writeDt64 (opts : UInt32) (out : Buffer a) (v : ℤ) (unit : Dt64Unit) :
    Option (Except Decline (Buffer a)) :=
  match dt64ToParts v unit with
  | none => none
  | some (.ok none) => some (.ok (out.extend (Bytes.ascii "null")))
  | some (.ok (some p)) =>
      (writeDatetime out p (if hasOpt opts optNaiveUtc then some 0 else none) opts).map .ok
  | some (.error .genericUnit) => some (.error (.genericUnit v))
  | some (.error .unrepresentable) => some (.error (.unrepresentable v unit))

/-- `write_bool` -/
def writeBool (out : Buffer a) (n : ℕ) : Buffer a :=
  if n ≠ 0 then out.extend (Bytes.ascii "true") else out.extend (Bytes.ascii "false")

/-- The closure of `leaf!`: it writes the element with the unsigned value `n`. -/
def Leaves.write (l : Leaves) (out : Buffer a) (n : ℕ) : Option (Except Decline (Buffer a)) :=
  match l.elem with
  | .bool => some (.ok (writeBool out n))
  | .f16 => some (.ok (out.writeF32 l.fmt (f16ToF32 (UInt16.ofNat n))))
  | .f32 => some (.ok (out.writeF32 l.fmt (UInt32.ofNat n)))
  | .f64 => some (.ok (out.writeF64 l.fmt (UInt64.ofNat n)))
  | .dt64 =>
      match l.unit with
      | some unit => writeDt64 l.opts out (signed 8 n) unit
      | none => some (.ok out)
  | elem => (elem.intValue n).map fun z => .ok (out.writeInt l.fmt z)

/-! ## The walk -/

/-- The state of a walk: the output, and the addresses of the elements read. -/
structure WalkSt (a : Allocator) where
  out : Buffer a
  reads : List ℤ

abbrev Walk (a : Allocator) := Run (WalkSt a) Decline

/-- `rd`: the unsigned little-endian number of `size` bytes at `p`. -/
def readNumber (memory : ℤ → UInt8) (p : ℤ) (size : ℕ) : ℕ :=
  wordOf ((List.range size).map fun i : ℕ => memory (p + i))

def put (f : Buffer a → Buffer a) : Walk a Unit := Run.modify fun s => { s with out := f s.out }

def recordRead (p : ℤ) : Walk a Unit := Run.modify fun s => { s with reads := s.reads ++ [p] }

/-- `leaf(enc, p)` -/
def Leaves.leaf (l : Leaves) (memory : ℤ → UInt8) (p : ℤ) : Walk a Unit := do
  recordRead p
  let s ← Run.get
  match l.write s.out (readNumber memory p l.elem.size) with
  | none => Run.fault
  | some (.error reason) => Run.throw reason
  | some (.ok out) => put fun _ => out

def ROW_CHUNK : ℕ := 1024

/-- `int_row(elem)` -/
def ElementType.isInt : ElementType → Bool
  | .i64 | .i32 | .i16 | .i8 | .u64 | .u32 | .u16 | .u8 => true
  | _ => false

/-- `max_text` -/
def ElementType.maxText : ElementType → ℕ
  | .bool => 5
  | .i8 | .u8 => 4
  | .i16 | .u16 => 6
  | .i32 | .u32 => 11
  | .i64 | .u64 => 20
  | .f16 | .f32 => 16
  | .f64 => 24
  | .dt64 => 34

/-- The addresses of `n` items from `p` on, `stride` apart. -/
def rowAddresses (p : ℤ) (n : ℕ) (stride : ℤ) : List ℤ :=
  (List.range n).map fun i : ℕ => p + (i : ℤ) * stride

/-- The text of the integer element at `p`. -/
def Leaves.intText (l : Leaves) (memory : ℤ → UInt8) (p : ℤ) : Bytes :=
  match l.elem.intValue (readNumber memory p l.elem.size) with
  | some z => l.fmt.itoa z
  | none => []

lemma Leaves.length_intText (l : Leaves) (memory : ℤ → UInt8) (p : ℤ) :
    (l.intText memory p).length ≤ 20 := by
  unfold Leaves.intText
  split
  · exact l.fmt.length_itoa _
  · exact Nat.zero_le _

/-- The texts of an integer row. -/
def Leaves.rowTexts (l : Leaves) (memory : ℤ → UInt8) (p : ℤ) (n : ℕ) (stride : ℤ) : List Bytes :=
  (rowAddresses p n stride).map (l.intText memory)

/-- A compact integer row, through the raw pointer. -/
def Leaves.intRow (l : Leaves) (memory : ℤ → UInt8) (p : ℤ) (n : ℕ) (stride : ℤ) : Walk a Unit := do
  Run.modify fun s => { s with reads := s.reads ++ rowAddresses p n stride }
  put (·.writeIntRow (l.rowTexts memory p n stride) (List.forall_mem_map.mpr fun _ _ =>
    l.length_intText memory _))

section Walk

variable (l : Leaves) (memory : ℤ → UInt8)

/-- One dimension's loop, with `k` items to go from item `i` on; `item` writes one. -/
def rowLoop (indent last : Bool) (level : ℕ) (item : ℤ → Walk a Unit) (p stride : ℤ) :
    ℕ → ℕ → Walk a Unit
  | _, 0 => pure ()
  | i, k + 1 => do
      if last && !indent && i % ROW_CHUNK == 0 then
        put (·.reserve (min (k + 1) ROW_CHUNK * (l.elem.maxText + 1) + 1))
      else pure ()
      if 0 < i then put (·.push 44) else pure ()
      if indent then put (Env.newlineIndent · (level + 1)) else pure ()
      item (p + (i : ℤ) * stride)
      rowLoop indent last level item p stride (i + 1) k

/-- `walk` from a dimension on; `level` is the encoder's depth plus the dimension, and `dims`
the lengths and strides of this dimension and the ones below it. -/
def walk (indent : Bool) (level : ℕ) : List (ℕ × ℤ) → ℤ → Walk a Unit
  | [], _ => Run.fault
  | (0, _) :: _, _ => put (·.extend [91, 93])
  | (n + 1, stride) :: rest, p =>
      if rest.isEmpty && !indent && l.elem.isInt then l.intRow memory p (n + 1) stride
      else do
        put (·.push 91)
        rowLoop l indent rest.isEmpty level
          (if rest.isEmpty then l.leaf memory else walk indent (level + 1) rest) p stride 0 (n + 1)
        if indent then put (Env.newlineIndent · level) else pure ()
        put (·.push 93)

end Walk

/-! ## Arrays and scalars -/

variable {Obj H : Type}

namespace Env

variable (e : Env Obj H)

/-- `array_struct`: the capsule, owned, and the interface in it. -/
def arrayStruct (obj : Obj) : Encode Obj H a (Obj × PyArrayInterface) := do
  match ← e.call e.guard (.getAttr obj "__array_struct__") with
  | none => Run.throw ⟨⟩
  | some capsule =>
      let p ← e.look capsule
      match p.body with
      | .capsule (some iface) =>
          if iface.two = 2 then pure (capsule, iface)
          else do
            decref capsule
            e.raiseTypeErrorFromCurrent "numpy array is malformed"
            Run.throw ⟨⟩
      | _ => do
          -- `PyCapsule_GetPointer` answers null
          setExc (some (.system "ValueError"))
          decref capsule
          e.raiseTypeErrorFromCurrent "numpy array is malformed"
          Run.throw ⟨⟩

/-- `PyUnicode_AsUTF8AndSize` of a `str`, whose UTF-8 text may have to be made. -/
def utf8Of (s : Obj) : Encode Obj H a Bytes := do
  match (← e.look s).body with
  | .str t =>
      if t.chars.any fun c => decide (Utf8.IsSurrogate c) then do
        setExc (some (.system "UnicodeEncodeError"))
        Run.throw ⟨⟩
      else
        match ← e.ask (.utf8 s) with
        | some _ => pure (Utf8.encodeAll t.chars)
        | none => Run.throw ⟨⟩
  | _ => do
      setExc (some (.system "TypeError"))
      Run.throw ⟨⟩

/-- `dtype_str`: the bytes of `obj.dtype.str`. -/
def dtypeStr (obj : Obj) : Encode Obj H a Bytes := do
  match ← e.call e.guard (.getAttr obj "dtype") with
  | none => Run.throw ⟨⟩
  | some dtype =>
      let s ← e.call e.guard (.getAttr dtype "str")
      decref dtype
      match s with
      | none => Run.throw ⟨⟩
      | some s => Run.onExit (e.utf8Of s) (·.dropped s)

/-- `dt64_unit` -/
def dt64Unit (obj : Obj) : Encode Obj H a (Except Decline Dt64Unit) := do
  let dtype ← e.dtypeStr obj
  match parseDt64 dtype with
  | some unit => pure (.ok unit)
  | none => pure (.error (.unparseableDtype dtype))

/-- The decline of an array that `classify` refused. -/
def arrayDecline (obj : Obj) (iface : PyArrayInterface) : ArrayDecline → Encode Obj H a Decline
  | .notContiguous => pure (.notContiguous iface.flags (iface.shape.map Int.ofNat))
  | .notNative => do pure (.notNative (← e.dtypeStr obj))
  | .zeroDim => do pure (.zeroDim (← e.dtypeStr obj))
  | .unsupportedDtype => do pure (.unsupportedDtype (← e.dtypeStr obj))

/-- The unit of an array's elements: it is not read for an array without elements. -/
def arrayUnit (obj : Obj) (elem : ElementType) (shape : List ℕ) :
    Encode Obj H a (Except Decline (Option Dt64Unit)) := do
  if elem = .dt64 ∧ 0 ∉ shape then do pure ((← e.dt64Unit obj).map some) else pure (.ok none)

/-- The walk over a whole array, which cuts the output back when an element is declined. -/
def walkArray (iface : PyArrayInterface) (elem : ElementType) (unit : Option Dt64Unit) :
    Encode Obj H a (Option Decline) := fun s =>
  match walk ⟨e.fmt, e.opts, elem, unit⟩ (e.rt.memory s.world.heap) e.indent s.depth
      (iface.shape.zip iface.strides) iface.data ⟨s.out, []⟩ with
  | .ok () w => .ok none (s.written w.out)
  | .error reason w =>
      match w.out.truncate? s.out.content.length with
      | some out => .ok (some reason) (s.written out)
      | none => .fault s
  | .fault _ => .fault s
  | .starved _ => .starved s

/-- `serialize_array` once the interface is held: what it declined, if anything. -/
def serializeHeld (obj capsule : Obj) (iface : PyArrayInterface) : Encode Obj H a (Option Decline) := do
  match classify iface.flags iface.nd iface.typekind iface.itemsize with
  | .error check => do pure (some (← e.arrayDecline obj iface check))
  | .ok elem =>
      match ← e.arrayUnit obj elem iface.shape with
      | .error reason => pure (some reason)
      | .ok unit =>
          event (.read (.obj capsule))
          e.walkArray iface elem unit

/-- `serialize_array`; the capsule is released on every way out. -/
def serializeArray (obj : Obj) : Encode Obj H a (Option Decline) := do
  let (capsule, iface) ← e.arrayStruct obj
  Run.onExit (e.serializeHeld obj capsule iface) (·.dropped capsule)

/-- `serialize_scalar` -/
def serializeScalar (obj : Obj) (elem : ElementType) : Encode Obj H a (Option Decline) := do
  let unit ← if elem = .dt64 then do pure ((← e.dt64Unit obj).map some) else pure (.ok none)
  match unit with
  | .error reason => pure (some reason)
  | .ok unit =>
      let p ← e.look obj
      match p.body with
      | .scalar data =>
          let s ← Run.get
          match Leaves.write ⟨e.fmt, e.opts, elem, unit⟩ s.out (wordOf (data.take elem.size)) with
          | none => Run.fault
          | some (.error reason) => pure (some reason)
          | some (.ok out) => do
              emit fun _ => out
              pure none
      | _ => Run.fault

end Env

end Isojson
