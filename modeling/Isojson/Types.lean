import Isojson.Python

/-!
# `types.rs`: the types that isojson recognizes

The datetime and numpy groups are looked up in `sys.modules`, never imported, and cached in the
module state.  A lookup runs no Python code, so these are functions of the heap and the cache.
The references that the cache itself owns are the module state's, not the encoder's, and are
left out.
-/

namespace Isojson

variable {Obj H : Type} [DecidableEq Obj]

/-- The names read from numpy's module dict, in the order of `NumpyTypes::slots`. -/
def numpyName : ElementType → String
  | .f64 => "float64"
  | .f32 => "float32"
  | .f16 => "float16"
  | .i64 => "int64"
  | .i32 => "int32"
  | .i16 => "int16"
  | .i8 => "int8"
  | .u64 => "uint64"
  | .u32 => "uint32"
  | .u16 => "uint16"
  | .u8 => "uint8"
  | .bool => "bool_"
  | .dt64 => "datetime64"

namespace NumpyTypes

def contains (np : NumpyTypes Obj) (ty : Option Obj) : Bool :=
  ty = some np.ndarray || np.scalars.any fun p => ty = some p.2

/-- The element type whose numpy scalar type is `ty`. -/
def scalar (np : NumpyTypes Obj) (ty : Option Obj) : Option ElementType :=
  (np.scalars.find? fun p => ty = some p.2).map Prod.fst

end NumpyTypes

namespace Runtime

variable (rt : Runtime Obj H) (h : H)

/-- The named attributes of a module dict; `none` if one is missing, an error if a lookup fails. -/
def readNames (d : Obj) : List String → Except Obj (Option (List Obj))
  | [] => .ok (some [])
  | name :: names =>
      match rt.getItem h d name with
      | .failed exc => .error exc
      | .missing => .ok none
      | .found o => (readNames d names).map (Option.map (o :: ·))

/-- `read_numpy` -/
def readNumpy (d : Obj) : Except Obj (Option (NumpyTypes Obj)) :=
  (rt.readNames h d ("ndarray" :: ElementType.all.map numpyName)).map fun
    | some (ndarray :: scalars) => some ⟨ndarray, ElementType.all.zip scalars⟩
    | _ => none

/-- The object that is kept where the datetime C-API should be, if there is one. -/
def findCapsule : Except Obj (Option Obj) :=
  match rt.getItem h rt.modules "_datetime" with
  | .failed exc => .error exc
  | .missing => .ok none
  | .found module =>
      match rt.moduleDict h module with
      | none => .ok none
      | some d =>
          match rt.getItem h d "datetime_CAPI" with
          | .failed exc => .error exc
          | .missing => .ok none
          | .found cap => .ok (some cap)

/-- `load_datetime` -/
def loadDatetime (c : TypeCache Obj) : Except Obj (Option (DtTypes Obj)) × TypeCache Obj :=
  match rt.findCapsule h with
  | .error exc => (.error exc, c)
  | .ok none => (.ok none, c)
  | .ok (some cap) =>
      match rt.datetimeApi h cap with
      | none => (.ok none, c)
      | some dt => (.ok (some dt), { c with dt := some (cap, dt) })

end Runtime

namespace TypeCache

/-- The datetime group, loaded on first use. -/
def datetime (rt : Runtime Obj H) (h : H) (c : TypeCache Obj) :
    Except Obj (Option (DtTypes Obj)) × TypeCache Obj :=
  match c.dt with
  | some (_, dt) => (.ok (some dt), c)
  | none => rt.loadDatetime h c

/-- The group is loaded from something else than the datetime C-API, which raises an error that
is cleared. -/
def wrongCapsule (rt : Runtime Obj H) (h : H) (c : TypeCache Obj) : Bool :=
  match c.dt, rt.findCapsule h with
  | none, .ok (some cap) => (rt.datetimeApi h cap).isNone
  | _, _ => false

/-- The cached numpy group if `ty` is one of its types. -/
def numpyHit (c : TypeCache Obj) (ty : Option Obj) : Option (NumpyTypes Obj) :=
  match c.np with
  | some (_, np) => if np.contains ty then some np else none
  | none => none

/-- The group read from the module `module`, after the old one was dropped. -/
def reloadNumpy (rt : Runtime Obj H) (h : H) (c : TypeCache Obj) (ty : Option Obj) (module : Obj) :
    Except Obj (Option (NumpyTypes Obj)) × TypeCache Obj :=
  let c := { c with np := none }
  match rt.moduleDict h module with
  | none => (.ok none, c)
  | some d =>
      match rt.readNumpy h d with
      | .error exc => (.error exc, c)
      | .ok none => (.ok none, c)
      | .ok (some np) =>
          (.ok (if np.contains ty then some np else none), { c with np := some (module, np) })

/-- The numpy group if `ty` is one of its types.  On a miss the group is read again, if
`sys.modules["numpy"]` is not the module it was read from. -/
def numpy (rt : Runtime Obj H) (h : H) (c : TypeCache Obj) (ty : Option Obj) :
    Except Obj (Option (NumpyTypes Obj)) × TypeCache Obj :=
  match c.numpyHit ty with
  | some np => (.ok (some np), c)
  | none =>
      match rt.getItem h rt.modules "numpy" with
      | .failed exc => (.error exc, c)
      | .missing => (.ok none, c)
      | .found module =>
          if c.np.map Prod.fst = some module then (.ok none, c)
          else c.reloadNumpy rt h ty module

end TypeCache

end Isojson
