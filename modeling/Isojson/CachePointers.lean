import Isojson.Types

/-!
# `types.rs`: the pointers of the type cache

`TypeCache` as it lies in the module state: one pointer for each slot, null before anything is
loaded.  The code is translated statement by statement, since a release can run a finalizer, and a
finalizer can call `dumps` again while the cache is half cleared.

`CacheSt.log` records the references that are taken and dropped, and every write of a slot.
-/

namespace Isojson

/-! ## Slots -/

inductive NumpySlot
  | ndarray
  | scalar (e : ElementType)
  deriving DecidableEq

inductive DtSlot
  | datetime | date | time | delta
  deriving DecidableEq

inductive NameSlot
  | datetimeMod | numpy | datetimeCapi | utcoffset | arrayStruct | dtype | str
  deriving DecidableEq

/-- The fields of `TypeCache`. -/
inductive Slot
  | dtCapsule
  | dt (d : DtSlot)
  | npModule
  | np (t : NumpySlot)
  | name (n : NameSlot)
  deriving DecidableEq

/-- The slots of the numpy group, but for its owner. -/
def Slot.isType : Slot → Bool
  | .np _ => true
  | _ => false

/-- The cache; null is `none`. -/
abbrev Pointers (Obj : Type) := Slot → Option Obj

/-- `NumpyTypes::slots` -/
def NumpySlot.all : List NumpySlot := .ndarray :: ElementType.all.map .scalar

def NumpySlot.name : NumpySlot → String
  | .ndarray => "ndarray"
  | .scalar e => numpyName e

def DtSlot.all : List DtSlot := [.datetime, .date, .time, .delta]

/-- `InternedNames::slots` -/
def NameSlot.all : List NameSlot :=
  [.datetimeMod, .numpy, .datetimeCapi, .utcoffset, .arrayStruct, .dtype, .str]

def NameSlot.text : NameSlot → String
  | .datetimeMod => "_datetime"
  | .numpy => "numpy"
  | .datetimeCapi => "datetime_CAPI"
  | .utcoffset => "utcoffset"
  | .arrayStruct => "__array_struct__"
  | .dtype => "dtype"
  | .str => "str"

/-- Every slot, in the order of `traverse`. -/
def Slot.all : List Slot :=
  NumpySlot.all.map .np ++ [.npModule, .dtCapsule] ++ DtSlot.all.map .dt ++ NameSlot.all.map .name

lemma NumpySlot.mem_all (t : NumpySlot) : t ∈ NumpySlot.all := by
  cases t with
  | ndarray => exact List.mem_cons_self
  | scalar e => exact List.mem_cons_of_mem _ (List.mem_map_of_mem e.mem_all)

lemma NumpySlot.nodup_all : NumpySlot.all.Nodup := by decide

lemma Slot.mem_all (slot : Slot) : slot ∈ Slot.all := by
  cases slot with
  | np t => simp [Slot.all, t.mem_all]
  | dt d => cases d <;> decide
  | name n => cases n <;> decide
  | dtCapsule => decide
  | npModule => decide

lemma Slot.nodup_all : Slot.all.Nodup := by decide

/-! ## The state -/

inductive CacheEvent (Obj H : Type)
  /-- A lookup in the dict `d` found `o`, and took a reference to it. -/
  | found (h : H) (d : Obj) (name : String) (o : Obj)
  | took (o : Obj)
  | dropped (o : Obj)
  /-- A write of a slot of the cache `before`. -/
  | wrote (before : Pointers Obj) (slot : Slot) (p : Option Obj)

structure CacheSt (Obj H : Type) where
  heap : H
  cache : Pointers Obj
  log : List (CacheEvent Obj H)

/-- A zeroed module state. -/
def CacheSt.zeroed {Obj H : Type} (h : H) : CacheSt Obj H := ⟨h, fun _ => none, []⟩

/-- A step of a finalizer that concerns the cache: it changes the interpreter, for instance
`sys.modules`, or calls `dumps`, and that looks a group up. -/
inductive Action (Obj H : Type)
  | rebind (h : H)
  | datetime
  | numpy (ty : Obj)

/-- The interpreter around the cache. -/
structure Interp (Obj H : Type) extends Runtime Obj H where
  /-- `PyUnicode_InternFromString` -/
  intern : H → String → Option Obj
  /-- `DeltaType` of a datetime C-API. -/
  deltaType : H → Obj → Obj
  /-- What a release of `o` runs. -/
  finalizer : Obj → CacheSt Obj H → List (Action Obj H)

abbrev Caching (Obj H : Type) := Run (CacheSt Obj H) PendingPyErr

variable {Obj H : Type} [DecidableEq Obj]

def note (ev : CacheEvent Obj H) : Caching Obj H Unit :=
  Run.modify fun s => { s with log := s.log ++ [ev] }

omit [DecidableEq Obj] in
/-- The state once a reference is dropped to an object without a finalizer. -/
def CacheSt.dropped (s : CacheSt Obj H) (o : Obj) : CacheSt Obj H :=
  { s with log := s.log ++ [.dropped o] }

def write (slot : Slot) (p : Option Obj) : Caching Obj H Unit :=
  Run.modify fun s =>
    { s with cache := Function.update s.cache slot p, log := s.log ++ [.wrote s.cache slot p] }

namespace Interp

variable (i : Interp Obj H)

/-! ## Lookups -/

/-- `get_item` -/
def lookup (d : Obj) (name : String) : Caching Obj H (Option Obj) := do
  let s ← Run.get
  match i.getItem s.heap d name with
  | .found o => do
      note (.found s.heap d name o)
      pure (some o)
  | .missing => pure none
  | .failed _ => Run.throw ⟨⟩

/-- `get_named` -/
def getNamed (d : Obj) (name : String) : Caching Obj H (Option Obj) := do
  let s ← Run.get
  match i.intern s.heap name with
  | none => Run.throw ⟨⟩
  | some key => do
      note (.took key)
      (i.lookup d name).onExit (·.dropped key)

/-- The types in a `datetime_CAPI` capsule. -/
def api (h : H) (cap : Obj) : Option (DtSlot → Obj) :=
  (i.datetimeApi h cap).map fun types => fun
    | .datetime => types.datetime
    | .date => types.date
    | .time => types.time
    | .delta => i.deltaType h cap

/-! ## Releases

`nested` is what a step of a finalizer does. -/

variable (nested : Action Obj H → Caching Obj H Unit)

def runEach : List (Action Obj H) → Caching Obj H Unit
  | [] => pure ()
  | action :: actions => do
      nested action
      runEach actions

/-- `Py_DECREF` -/
def decref (o : Obj) : Caching Obj H Unit := do
  note (.dropped o)
  let s ← Run.get
  runEach nested (i.finalizer o s)

def release (slot : Slot) : Caching Obj H Unit := do
  let s ← Run.get
  write slot none
  match s.cache slot with
  | none => pure ()
  | some p => i.decref nested p

def releaseEach : List Slot → Caching Obj H Unit
  | [] => pure ()
  | slot :: slots => do
      i.release nested slot
      releaseEach slots

/-- `release_all` of the cached group -/
def releaseAll : Caching Obj H Unit := i.releaseEach nested (NumpySlot.all.map .np)

def clearNumpy : Caching Obj H Unit := do
  i.release nested .npModule
  i.releaseAll nested

/-- `release_all` of a group that is not in the cache -/
def dropEach (np : NumpySlot → Option Obj) : List NumpySlot → Caching Obj H Unit
  | [] => pure ()
  | t :: ts => do
      match np t with
      | none => dropEach np ts
      | some o => do
          i.decref nested o
          dropEach np ts

/-! ## Groups -/

/-- The rest of `read_numpy`, once the group `np` is read. -/
def readEach (d : Obj) : List NumpySlot → (NumpySlot → Option Obj) →
    Caching Obj H (Option (NumpySlot → Option Obj))
  | [], np => pure (some np)
  | t :: ts, np => do
      match ← (i.getNamed d t.name).attempt with
      | .ok (some o) => readEach d ts (Function.update np t (some o))
      | .ok none => do
          i.dropEach nested np NumpySlot.all
          pure none
      | .error err => do
          i.dropEach nested np NumpySlot.all
          Run.throw err

def readNumpy (d : Obj) : Caching Obj H (Option (NumpySlot → Option Obj)) :=
  i.readEach nested d NumpySlot.all fun _ => none

def writeEach (np : NumpySlot → Option Obj) : List NumpySlot → Caching Obj H Unit
  | [] => pure ()
  | t :: ts => do
      write (.np t) (np t)
      writeEach np ts

def contains (np : NumpySlot → Option Obj) (ty : Obj) : Bool :=
  NumpySlot.all.any fun t => np t = some ty

def numpyHit (c : Pointers Obj) (ty : Obj) : Option (NumpySlot → Option Obj) :=
  if (c .npModule).isSome ∧ contains (fun t => c (.np t)) ty then some fun t => c (.np t) else none

/-- The end of `numpy`: the group is read from the dict of `module`, if it is a module. -/
def loadNumpy (ty module : Obj) : Caching Obj H (Option (NumpySlot → Option Obj)) := do
  let s ← Run.get
  match i.moduleDict s.heap module with
  | none => do
      i.decref nested module
      pure none
  | some d =>
      match ← (i.readNumpy nested d).attempt with
      | .ok (some np) => do
          writeEach np NumpySlot.all
          write .npModule (some module)
          pure (if contains np ty then some np else none)
      | .ok none => do
          i.decref nested module
          pure none
      | .error err => do
          i.decref nested module
          Run.throw err

def numpy (ty : Obj) : Caching Obj H (Option (NumpySlot → Option Obj)) := do
  let s ← Run.get
  match numpyHit s.cache ty with
  | some np => pure (some np)
  | none =>
      if s.cache (.name .numpy) = none then pure none
      else
        match ← i.lookup i.modules NameSlot.numpy.text with
        | none => pure none
        | some module => do
            let s ← Run.get
            if s.cache .npModule = some module then do
              i.decref nested module
              pure none
            else do
              i.clearNumpy nested
              i.loadNumpy nested ty module

def takeEach (types : DtSlot → Obj) : List DtSlot → Caching Obj H Unit
  | [] => pure ()
  | d :: ds => do
      note (.took (types d))
      takeEach types ds

def writeDt (types : DtSlot → Obj) : List DtSlot → Caching Obj H Unit
  | [] => pure ()
  | d :: ds => do
      write (.dt d) (some (types d))
      writeDt types ds

/-- What is kept where the datetime C-API should be in `module`. -/
def capsuleOf (module : Obj) : Caching Obj H (Option Obj) := do
  let s ← Run.get
  match i.moduleDict s.heap module with
  | some d => i.lookup d NameSlot.datetimeCapi.text
  | none => pure none

/-- The end of `load_datetime` -/
def loadCapsule (cap : Obj) : Caching Obj H (Option (DtSlot → Option Obj)) := do
  let s ← Run.get
  match i.api s.heap cap with
  | none => do
      i.decref nested cap
      pure none
  | some types => do
      takeEach types DtSlot.all
      writeDt types DtSlot.all
      write .dtCapsule (some cap)
      pure (some fun d => some (types d))

def loadDatetime : Caching Obj H (Option (DtSlot → Option Obj)) := do
  let s ← Run.get
  if s.cache (.name .datetimeMod) = none then pure none
  else
    match ← i.lookup i.modules NameSlot.datetimeMod.text with
    | none => pure none
    | some module => do
        let cap ← (i.capsuleOf module).attempt
        i.decref nested module
        match cap with
        | .error err => Run.throw err
        | .ok none => pure none
        | .ok (some cap) => i.loadCapsule nested cap

def datetime : Caching Obj H (Option (DtSlot → Option Obj)) := do
  let s ← Run.get
  if (s.cache .dtCapsule).isSome then pure (some fun d => s.cache (.dt d))
  else i.loadDatetime nested

/-! ## The module state -/

def initEach : List NameSlot → Caching Obj H Bool
  | [] => pure true
  | n :: ns => do
      let s ← Run.get
      match i.intern s.heap n.text with
      | none => pure false
      | some key => do
          note (.took key)
          write (.name n) (some key)
          initEach ns

def init : Caching Obj H Bool := i.initEach NameSlot.all

def clear : Caching Obj H Unit := do
  i.releaseEach nested (.dtCapsule :: DtSlot.all.map .dt)
  i.clearNumpy nested
  i.releaseEach nested (NameSlot.all.map .name)

end Interp

/-- The rest of `traverse`; a visit that does not return 0 ends it. -/
def visitEach (c : Pointers Obj) (visit : Obj → ℤ) : List Slot → List Obj × ℤ
  | [] => ([], 0)
  | slot :: slots =>
      match c slot with
      | none => visitEach c visit slots
      | some o =>
          if visit o = 0 then
            let (visited, r) := visitEach c visit slots
            (o :: visited, r)
          else ([o], visit o)

/-- `traverse`, with the objects that it visits. -/
def traverse (c : Pointers Obj) (visit : Obj → ℤ) : List Obj × ℤ := visitEach c visit Slot.all

namespace Interp

variable (i : Interp Obj H)

/-! ## Runs -/

/-- A step of a finalizer; an error that a nested call raises is the finalizer's. -/
def perform : ℕ → Action Obj H → Caching Obj H Unit
  | 0, _ => Run.starve
  | _ + 1, .rebind h => Run.modify fun s => { s with heap := h }
  | fuel + 1, .datetime => do
      let _ ← (i.datetime (perform fuel)).attempt
      pure ()
  | fuel + 1, .numpy ty => do
      let _ ← (i.numpy (perform fuel) ty).attempt
      pure ()

end Interp

/-- An operation of the interpreter on the cache. -/
inductive CacheOp (Obj H : Type)
  | action (action : Action Obj H)
  | traverse (visit : Obj → ℤ)
  | clear

namespace Interp

variable (i : Interp Obj H) (fuel : ℕ)

def operate : CacheOp Obj H → Caching Obj H Unit
  | .action action => i.perform (fuel + 1) action
  | .traverse _ => pure ()
  | .clear => i.clear (i.perform fuel)

def operateAll : List (CacheOp Obj H) → Caching Obj H Unit
  | [] => pure ()
  | op :: ops => do
      i.operate fuel op
      operateAll ops

/-- A module state from its start: `init`, which may fail, and the operations after it. -/
def history (ops : List (CacheOp Obj H)) : Caching Obj H Unit := do
  let _ ← i.init
  i.operateAll fuel ops

end Interp

end Isojson
