import Isojson.Buffer
import Isojson.Decline
import Isojson.Dt64
import Isojson.Library.Decimal
import Isojson.Library.Run

/-!
# The interpreter around `dumps`

CPython as the encoder sees it.  Objects are references of a type `Obj`, and what a reference
shows depends on the heap, a value of a type `H` of which nothing is assumed.  `Runtime.view`
reads an object, and `Runtime.reply` answers a request to CPython with a result and a new world;
a request may run Python code, so the new world may differ from the old one in any way.

A tuple's items are not part of the heap, since no code can change them.  Finalizers of released
objects are not modelled: a release does not change the world.
-/

namespace Isojson

/-! ## Objects -/

/-- numpy's `PyArrayInterface`; the flags are the bits of a `c_int`, and `data` is an address. -/
structure PyArrayInterface where
  two : ℤ
  nd : ℤ
  typekind : UInt8
  itemsize : ℤ
  flags : UInt32
  shape : List ℕ
  strides : List ℤ
  data : ℤ
  length_shape : shape.length = nd.toNat
  length_strides : strides.length = nd.toNat

structure PyDate where
  y : ℕ
  mo : ℕ
  d : ℕ
  valid : Calendar.ValidDate y mo d
  y_le : y ≤ 9999

structure PyTime where
  h : ℕ
  mi : ℕ
  s : ℕ
  us : ℕ
  h_lt : h < 24
  mi_lt : mi < 60
  s_lt : s < 60
  us_lt : us < 1000000

/-- A `timedelta`, normalized as CPython keeps it. -/
structure TimeDelta where
  days : ℤ
  seconds : ℕ
  microseconds : ℕ
  seconds_lt : seconds < 86400
  microseconds_lt : microseconds < 1000000

def TimeDelta.micros (d : TimeDelta) : ℤ := (d.days * 86400 + d.seconds) * 1000000 + d.microseconds

/-- Strictly between `-timedelta(1)` and `timedelta(1)`. -/
def TimeDelta.UnderADay (d : TimeDelta) : Prop := -86400000000 < d.micros ∧ d.micros < 86400000000

instance (d : TimeDelta) : Decidable d.UnderADay := inferInstanceAs (Decidable (_ ∧ _))

/-- The part of an object that its layout decides. -/
inductive Body (Obj : Type)
  | none
  | bool (b : Bool)
  | int (z : ℤ)
  | float (bits : UInt64)
  | str (s : StrObj)
  | list (items : List Obj)
  /-- The entries in order; a slot is empty when its entry was deleted. -/
  | dict (slots : List (Option (Obj × Obj)))
  | tuple
  | datetime (date : PyDate) (time : PyTime) (tzinfo : Obj)
  | date (date : PyDate)
  | time (time : PyTime) (tzinfo : Obj)
  | delta (d : TimeDelta)
  /-- A capsule without a name; `none` when it holds no pointer. -/
  | capsule (iface : Option PyArrayInterface)
  /-- A numpy scalar, by the bytes behind its object header. -/
  | scalar (data : Bytes)
  | other

/-- An object: `cls` is its class, or `none` for the builtin type that its layout belongs to, and
`name` is `Py_TYPE(obj)->tp_name`. -/
structure PyObj (Obj : Type) where
  cls : Option Obj
  name : String
  body : Body Obj

/-! ## Types that the module state keeps -/

/-- The datetime group; `timedelta` is told by its layout. -/
structure DtTypes (Obj : Type) where
  datetime : Obj
  date : Obj
  time : Obj

structure NumpyTypes (Obj : Type) where
  ndarray : Obj
  scalars : List (ElementType × Obj)

/-- The cache of one interpreter.  Each group is kept with its owner, and is absent together with
it. -/
structure TypeCache (Obj : Type) where
  dt : Option (Obj × DtTypes Obj)
  np : Option (Obj × NumpyTypes Obj)

structure World (Obj H : Type) where
  heap : H
  types : TypeCache Obj

/-! ## Exceptions -/

/-- A Python exception is set in the thread state. -/
structure PendingPyErr

/-- A raised exception. -/
inductive Exc (Obj : Type)
  /-- One that Python code raised. -/
  | object (o : Obj)
  /-- A `TypeError` made here, around the text object of its message. -/
  | typeError (text : Obj) (msg : String)
  /-- One that CPython raises by itself, by its name. -/
  | system (name : String)
  | caused (exc cause : Exc Obj)
  | noted (exc : Exc Obj) (note : String)

/-- What a reference is to: an object, or an exception made in this call. -/
inductive Ref (Obj : Type)
  | obj (o : Obj)
  | error (text : Obj)
  | system (name : String)

def Exc.root {Obj : Type} : Exc Obj → Ref Obj
  | .object o => .obj o
  | .typeError text _ => .error text
  | .system name => .system name
  | .caused exc _ => exc.root
  | .noted exc _ => exc.root

/-! ## Requests -/

inductive Call (Obj : Type)
  /-- `default(x)` -/
  | default (x : Obj)
  /-- `tzinfo.utcoffset(arg)` -/
  | utcoffset (tzinfo arg : Obj)
  /-- `obj.utcoffset()` of a `datetime` or `time`, which is CPython's own method. -/
  | ownUtcoffset (obj : Obj)
  | getAttr (o : Obj) (name : String)
  /-- `str(exc)` -/
  | str (exc : Exc Obj)
  | addNote (exc : Exc Obj) (note : String)
  /-- `PyUnicode_FromStringAndSize` -/
  | newText (text : String)
  /-- `PyNumber_ToBase` -/
  | toBase (obj : Obj) (base : ℕ)
  /-- `PyUnicode_AsUTF8AndSize`, which may have to make the UTF-8 text. -/
  | utf8 (obj : Obj)

inductive Reply (Obj : Type)
  | ok (o : Obj)
  | raised (exc : Obj)

/-- The result of `PyDict_GetItemRef`. -/
inductive Lookup (Obj : Type)
  | found (o : Obj)
  | missing
  | failed (exc : Obj)

/-- CPython, with everything the encoder asks it. -/
structure Runtime (Obj H : Type) where
  view : H → Obj → PyObj Obj
  tupleItems : Obj → List Obj
  pyNone : Obj
  memory : H → ℤ → UInt8
  /-- `PyCallable_Check` -/
  callable : H → Obj → Bool
  reply : Call Obj → World Obj H → Reply Obj × World Obj H
  /-- `PyNumber_ToBase` leaves the digits of an `int` of this value to Python code, `_pylong`.  It does
  so from 1001 digits of 30 bits on, unless the digits are too many for
  `sys.set_int_max_str_digits`. -/
  pylong : H → ℤ → Bool
  /-- `PyImport_GetModuleDict()` -/
  modules : Obj
  getItem : H → Obj → String → Lookup Obj
  /-- The dict of a module; `none` for an object that is no module. -/
  moduleDict : H → Obj → Option Obj
  /-- The types in a `datetime_CAPI` capsule; `none` for any other object. -/
  datetimeApi : H → Obj → Option (DtTypes Obj)
  /-- CPython's own `utcoffset()` validates the result of the tzinfo's. -/
  ownUtcoffset_valid : ∀ obj w r w', reply (.ownUtcoffset obj) w = (.ok r, w') →
    (view w'.heap r).body = .none ∨ ∃ d, (view w'.heap r).body = .delta d ∧ d.UnderADay
  /-- `str()` of an exception is a `str`. -/
  str_valid : ∀ exc w r w', reply (.str exc) w = (.ok r, w') → ∃ t, (view w'.heap r).body = .str t
  /-- `PyNumber_ToBase` to the base 10 makes the decimal text of the `int`. -/
  toBase_decimal : ∀ obj w z r w', (view w.heap obj).body = .int z →
    reply (.toBase obj 10) w = (.ok r, w') →
      ∃ t, (view w'.heap r).body = .str t ∧ t.chars = (Decimal.intText z).map UInt8.toNat

/-- An interpreter in which nothing ever changes, without modules. -/
structure Snapshot (Obj : Type) where
  view : Obj → PyObj Obj
  tupleItems : Obj → List Obj
  pyNone : Obj
  memory : ℤ → UInt8
  answer : Call Obj → Reply Obj

/-- The answers of a snapshot; what CPython does by itself raises. -/
def Snapshot.reply {Obj : Type} (t : Snapshot Obj) : Call Obj → Reply Obj
  | .ownUtcoffset _ => .raised t.pyNone
  | .str _ => .raised t.pyNone
  | .toBase _ _ => .raised t.pyNone
  | c => t.answer c

def Snapshot.runtime {Obj : Type} (t : Snapshot Obj) : Runtime Obj Unit where
  view _ := t.view
  tupleItems := t.tupleItems
  pyNone := t.pyNone
  memory _ := t.memory
  callable _ _ := true
  reply c w := (t.reply c, w)
  pylong _ _ := false
  modules := t.pyNone
  getItem _ _ _ := .missing
  moduleDict _ _ := none
  datetimeApi _ _ := none
  ownUtcoffset_valid _ _ _ _ h := absurd (congrArg Prod.fst h) (by simp [reply])
  str_valid _ _ _ _ h := absurd (congrArg Prod.fst h) (by simp [reply])
  toBase_decimal _ _ _ _ _ _ h := absurd (congrArg Prod.fst h) (by simp [reply])

end Isojson
