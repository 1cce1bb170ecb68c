import Isojson.Numpy

/-!
# `encode.rs`: the encoder and `dumps`

`serialize` calls itself through containers and through `default`, so each writer takes the
recursion as its argument `self`, and `serialize` ties the knot with a fuel.  The loops over a
list and over a dict read the container anew at every step, since Python code may have changed
it, so they need a fuel too.
-/

namespace Isojson

/-- Chained `default` calls allowed before giving up. -/
def MAX_DEFAULT_DEPTH : ℕ := 255
def ALL_OPTS : ℤ := 4095

/-- `UNSUPPORTED_OPTS` -/
def unsupportedOpts : List (UInt32 × String) := [(optNonStrKeys, "OPT_NON_STR_KEYS")]

def SURROGATES : String := "str is not valid UTF-8: surrogates not allowed"

/-- Why an object did not get a `default` result. -/
inductive DefaultError
  | tooDeep
  | raised

variable {Obj H : Type} {a : Allocator}

/-- An entry of a dict. -/
abbrev Entry (Obj : Type) := Obj × Obj

/-- The first entry of the slots, and how many slots it takes to get past it. -/
def firstEntry : List (Option (Entry Obj)) → Option (ℕ × Entry Obj)
  | [] => none
  | some kv :: _ => some (1, kv)
  | none :: slots => (firstEntry slots).map fun (n, kv) => (n + 1, kv)

/-- `PyDict_Next` at a position: the next position, key and value. -/
def nextEntry (slots : List (Option (Entry Obj))) (pos : ℕ) : Option (ℕ × Entry Obj) :=
  (firstEntry (slots.drop pos)).map fun (n, kv) => (pos + n, kv)

namespace Env

variable (e : Env Obj H)

/-! ## Leaves -/

/-- `write_str` -/
def str (obj : Obj) : Encode Obj H a Unit := do
  match (← e.look obj).body with
  | .str t =>
      let s ← Run.get
      let r := s.out.writeStr e.arch e.strfast t
      emit fun _ => r.2
      if r.1 then pure () else e.fail SURROGATES
  | _ => Run.fault

def u64Max : ℤ := 18446744073709551615

/-- `PyLong_AsUnsignedLongLong` of an `int` above the range of `i64`. -/
def asUnsignedLongLong (z : ℤ) : Encode Obj H a ℤ := do
  if z ≤ u64Max then pure z
  else do
    setExc (some (.system "OverflowError"))
    pure u64Max

/-- Writes the text of a `str`. -/
def utf8Text (text : Obj) : Encode Obj H a Unit := do
  let b ← e.utf8Of text
  emit (·.extend b)

def intOutside64Bits (obj : Obj) (z : ℤ) : Encode Obj H a Unit := do
  if hasOpt e.opts optStrictInteger then e.fail "Integer exceeds 53-bit range"
  else
    match ← e.toBase e.guard obj z 10 with
    | none => Run.throw ⟨⟩
    | some text => Run.onExit (e.utf8Text text) (·.dropped text)

def int (obj : Obj) : Encode Obj H a Unit := do
  match (← e.look obj).body with
  | .int z =>
      if i64Min ≤ z ∧ z ≤ i64Max then do
        let s ← Run.get
        if z = -1 ∧ s.exc.isSome then Run.throw ⟨⟩
        else if hasOpt e.opts optStrictInteger ∧
            ¬ (-9007199254740991 ≤ z ∧ z ≤ 9007199254740991) then
          e.fail "Integer exceeds 53-bit range"
        else emit (·.writeInt e.fmt z)
      else if i64Max < z ∧ ¬ hasOpt e.opts optStrictInteger then do
        let u ← asUnsignedLongLong z
        let s ← Run.get
        if u ≠ u64Max ∨ s.exc.isNone then emit (·.writeInt e.fmt u)
        else do
          clearExc
          e.intOutside64Bits obj z
      else e.intOutside64Bits obj z
  | _ => Run.fault

/-- `utcoffset_raised` -/
def utcoffsetRaised {α : Type} (what : String) : Encode Obj H a α := do
  match ← Host.fetchExc with
  | none => Run.fault
  | some cause =>
      let text ← e.describeException e.guard cause
      e.raiseTypeErrorCausedBy (what ++ ".utcoffset() raised " ++ text) (some cause)
      Run.throw ⟨⟩

/-- The bounds on a timedelta that is accepted as it is. -/
def acceptsDelta (d : TimeDelta) : Bool :=
  d.days == 0 || (d.days == -1 && (d.seconds != 0 || d.microseconds != 0))

/-- Asks `obj.utcoffset()` itself, once the tzinfo's own answer was invalid. -/
def ownUtcoffset (obj : Obj) (what : String) : Encode Obj H a (Option ℤ) := do
  event (.read (.obj obj))
  match ← e.call e.guard (.ownUtcoffset obj) with
  | none => e.utcoffsetRaised what
  | some r => e.deltaUs r

/-- `utcoffset_of` -/
def utcoffsetOf (obj tzinfo arg : Obj) (what : String) : Encode Obj H a (Option ℤ) := do
  match (← e.look tzinfo).body with
  | .none => pure none
  | _ =>
      match ← e.call e.guard (.utcoffset tzinfo arg) with
      | none => e.utcoffsetRaised what
      | some r =>
          match (← e.look r).body with
          | .none => e.deltaUs r
          | .delta d =>
              if acceptsDelta d then e.deltaUs r
              else do
                decref r
                e.ownUtcoffset obj what
          | _ => do
              decref r
              e.ownUtcoffset obj what

/-- Writes `dt.isoformat()` of the option-adjusted `datetime`. -/
def datetime (obj : Obj) : Encode Obj H a Unit := do
  match (← e.look obj).body with
  | .datetime d t tzinfo =>
      event (.borrow obj tzinfo)
      let offset ← e.utcoffsetOf obj tzinfo obj "datetime"
      let offset := match offset with
        | some o => some o
        | none => if hasOpt e.opts optNaiveUtc then some 0 else none
      event (.read (.obj obj))
      let s ← Run.get
      let out ← Run.unchecked
        (writeDatetime s.out ⟨d.y, d.mo, d.d, t.h, t.mi, t.s, t.us⟩ offset e.opts)
      emit fun _ => out
  | _ => Run.fault

/-- The text of a date between its quotes; `none` is a panic. -/
def writeDate (out : Buffer a) (d : PyDate) : Option (Buffer a) := do
  let out ← writeYmd (out.push 34) d.y d.mo d.d
  some (out.push 34)

/-- Writes `d.isoformat()`. -/
def date (obj : Obj) : Encode Obj H a Unit := do
  match (← e.look obj).body with
  | .date d =>
      let s ← Run.get
      let out ← Run.unchecked (writeDate s.out d)
      emit fun _ => out
  | _ => Run.fault

/-- The text of a time between its quotes; `none` is a panic. -/
def writeTime (out : Buffer a) (t : PyTime) (offset : Option ℤ) (opts : UInt32) :
    Option (Buffer a) := do
  let out ← writeHms (out.push 34) t.h t.mi t.s t.us opts
  let out ← writeOffsetIfSome out offset opts
  some (out.push 34)

/-- Writes `t.isoformat()`; `NAIVE_UTC` and `UTC_Z` don't apply. -/
def time (obj : Obj) : Encode Obj H a Unit := do
  let opts := e.opts &&& ~~~(optNaiveUtc ||| optUtcZ)
  match (← e.look obj).body with
  | .time t tzinfo =>
      event (.borrow obj tzinfo)
      let offset ← e.utcoffsetOf obj tzinfo e.rt.pyNone "time"
      event (.read (.obj obj))
      let s ← Run.get
      let out ← Run.unchecked (writeTime s.out t offset opts)
      emit fun _ => out
  | _ => Run.fault

/-! ## Containers -/

section Containers

variable (self : Obj → Encode Obj H a Unit)

/-- Serializes a borrowed item; a reference is held across it if Python code can run. -/
def guarded (item : Obj) : Encode Obj H a Unit := do
  if e.guard then
    if (← e.look item).runsNoPython then self item
    else do
      incref item
      Run.onExit (self item) (·.dropped item)
  else self item

/-- The items of a list as it is now. -/
def listItems (obj : Obj) : Encode Obj H a (List Obj) := do
  match (← e.look obj).body with
  | .list items => pure items
  | _ => Run.fault

/-- The loop of `list`; the size is read at every step. -/
def listLoop (obj : Obj) : ℕ → ℕ → Encode Obj H a Unit
  | 0, _ => Run.starve
  | fuel + 1, i => do
      let items ← e.listItems obj
      match items[i]? with
      | none => pure ()
      | some item => do
          if 0 < i then emit (·.push 44) else pure ()
          e.breakLine
          event (.borrow obj item)
          e.guarded self item
          listLoop obj fuel (i + 1)

def list (fuel : ℕ) (obj : Obj) : Encode Obj H a Unit := do
  let items ← e.listItems obj
  if items.length = 0 then do
    e.enter
    leave
    emit (·.extend [91, 93])
  else do
    e.enter
    emit (·.push 91)
    e.listLoop self obj fuel 0
    leave
    e.breakLine
    emit (·.push 93)

/-- The loop of `tuple`: an item lives as long as the tuple. -/
def tupleLoop (obj : Obj) : ℕ → List Obj → Encode Obj H a Unit
  | _, [] => pure ()
  | i, item :: items => do
      if 0 < i then emit (·.push 44) else pure ()
      e.breakLine
      event (.read (.obj obj))
      event (.borrow obj item)
      self item
      tupleLoop obj (i + 1) items

def tuple (obj : Obj) : Encode Obj H a Unit := do
  event (.read (.obj obj))
  let items := e.rt.tupleItems obj
  e.enter
  if items.length = 0 then do
    leave
    emit (·.extend [91, 93])
  else do
    emit (·.push 91)
    e.tupleLoop self obj 0 items
    leave
    e.breakLine
    emit (·.push 93)

/-- The slots of a dict as it is now. -/
def dictSlots (obj : Obj) : Encode Obj H a (List (Option (Entry Obj))) := do
  match (← e.look obj).body with
  | .dict slots => pure slots
  | _ => Run.fault

/-- A key as `key_text` reads it: its text where that is UTF-8, and its code points. -/
structure KeyText where
  utf8 : Option Bytes
  chars : List ℕ

/-- `key_text` -/
def keyText (key : Obj) : Encode Obj H a KeyText := do
  match (← e.look key).body with
  | .str s =>
      let text := s.header.text e.strfast
      if text.hasSurrogate then e.fail SURROGATES
      else
        match text with
        | .utf8 b => pure ⟨some b, s.chars⟩
        | _ => pure ⟨none, s.chars⟩
  | _ => e.fail "Dict key must be str"

def writeKey (key : Obj) (first : Bool) : Encode Obj H a Unit := do
  if first then pure () else emit (·.push 44)
  e.breakLine
  e.str key
  if e.indent then emit (·.extend [58, 32]) else emit (·.push 58)

/-- Serializes the value of a dict entry; key and value are held if Python code can run. -/
def entryValue (key value : Obj) : Encode Obj H a Unit := do
  if e.guard then
    if (← e.look value).runsNoPython then self value
    else do
      incref key
      Run.onExit (e.guarded self value) (·.dropped key)
  else self value

/-- The loop of `dict_in_order`. -/
def dictLoop (obj : Obj) : ℕ → ℕ → Bool → Encode Obj H a Unit
  | 0, _, _ => Run.starve
  | fuel + 1, pos, first => do
      let slots ← e.dictSlots obj
      match nextEntry slots pos with
      | none => pure ()
      | some (pos, key, value) => do
          event (.borrow obj key)
          event (.borrow obj value)
          match (← e.look key).body with
          | .str _ => do
              e.writeKey key first
              e.entryValue self key value
              dictLoop obj fuel pos false
          | _ => e.fail "Dict key must be str"

/-- The first loop of `dict_sorted` over the entries, which no code changes meanwhile. -/
def holdEntries (obj : Obj) : List (Entry Obj) → Encode Obj H a Unit
  | [] => pure ()
  | (key, value) :: entries => do
      event (.borrow obj key)
      event (.borrow obj value)
      incref key
      incref value
      holdEntries obj entries

/-- The closure `release` of `dict_sorted`. -/
def release (s : St Obj H a) : List (Entry Obj) → St Obj H a
  | [] => s
  | (key, value) :: entries => release ((s.dropped value).dropped key) entries

/-- The keys of the entries, each checked before anything is written. -/
def keyedEntries : List (Entry Obj) → Encode Obj H a (List (KeyText × Entry Obj))
  | [] => pure []
  | kv :: entries => do
      let key ← e.keyText kv.1
      let keyed ← keyedEntries entries
      pure ((key, kv) :: keyed)

/-- The order that `sort_by` sorts in: UTF-8 keys compare as bytes, others by code point. -/
def keyLe (x y : KeyText × Entry Obj) : Bool :=
  match x.1.utf8, y.1.utf8 with
  | some b, some c => decide (b.map UInt8.toNat ≤ c.map UInt8.toNat)
  | _, _ => decide (x.1.chars ≤ y.1.chars)

/-- The last loop of `dict_sorted`. -/
def sortedLoop : Bool → List (Entry Obj) → Encode Obj H a Unit
  | _, [] => pure ()
  | first, (key, value) :: entries => do
      e.writeKey key first
      self value
      sortedLoop false entries

/-- `dict_sorted` once the entries are held. -/
def writeSorted (entries : List (Entry Obj)) : Encode Obj H a Unit := do
  let keyed ← e.keyedEntries entries
  e.sortedLoop self true ((keyed.mergeSort keyLe).map Prod.snd)

def dictSorted (obj : Obj) : Encode Obj H a Unit := do
  let slots ← e.dictSlots obj
  let entries := slots.reduceOption
  holdEntries obj entries
  Run.onExit (e.writeSorted self entries) (release · entries)

def dict (fuel : ℕ) (obj : Obj) : Encode Obj H a Unit := do
  event (.read (.obj obj))
  e.enter
  let slots ← e.dictSlots obj
  if slots.reduceOption.length = 0 then do
    leave
    emit (·.extend [123, 125])
  else do
    emit (·.push 123)
    if hasOpt e.opts optSortKeys then e.dictSorted self obj else e.dictLoop self obj fuel 0 true
    leave
    e.breakLine
    emit (·.push 125)

/-! ## `default` -/

/-- The error of an object that nothing takes. -/
def notSerializable (p : PyObj Obj) : String := "Type is not JSON serializable: " ++ p.name

def invokeDefault (obj : Obj) : Encode Obj H a (Except DefaultError Obj) := do
  let s ← Run.get
  if MAX_DEFAULT_DEPTH ≤ s.defaultDepth then do
    e.raiseTypeError "default serializer exceeds recursion limit"
    pure (.error .tooDeep)
  else do
    event (.read (.obj obj))
    match ← e.call e.guard (.default obj) with
    | some r => pure (.ok r)
    | none => do
        let p ← e.look obj
        e.raiseTypeErrorFromCurrent (notSerializable p)
        pure (.error .raised)

/-- The state after `default`'s result was serialized. -/
def afterDefault (r : Obj) (s : St Obj H a) : St Obj H a :=
  { s with defaultDepth := s.defaultDepth - 1 }.dropped r

def serializeDefaultResult (r : Obj) : Encode Obj H a Unit := do
  Run.modify fun s => { s with defaultDepth := s.defaultDepth + 1 }
  Run.onExit (self r) (afterDefault r)

def callDefault (obj : Obj) : Encode Obj H a Unit := do
  match e.default with
  | none => do
      let p ← e.look obj
      e.fail (notSerializable p)
  | some _ =>
      match ← e.invokeDefault obj with
      | .ok r => serializeDefaultResult self r
      | .error _ => Run.throw ⟨⟩

def callDefaultDeclined (obj : Obj) (reason : Decline) : Encode Obj H a Unit := do
  match e.default with
  | none => do
      e.raiseTypeError (declineMessage reason)
      e.addNote e.guard (declineNote reason)
      Run.throw ⟨⟩
  | some _ =>
      match ← e.invokeDefault obj with
      | .ok r => serializeDefaultResult self r
      | .error .raised => do
          e.addNote e.guard (declineNote reason)
          Run.throw ⟨⟩
      | .error .tooDeep => Run.throw ⟨⟩

/-! ## Dispatch -/

/-- The writer of an exact `datetime`, `date` or `time`; none under `PASSTHROUGH_DATETIME`. -/
def datetimeLike [DecidableEq Obj] (obj : Obj) (p : PyObj Obj) (dt : DtTypes Obj) :
    Option (Encode Obj H a Unit) :=
  if hasOpt e.opts optPassthroughDatetime then none
  else if p.cls = some dt.datetime then some (e.datetime obj)
  else if p.cls = some dt.date then some (e.date obj)
  else if p.cls = some dt.time then some (e.time obj)
  else none

/-- The writer of a subclass of `str`, `int`, `dict` or `list`. -/
def subclassLike (fuel : ℕ) (obj : Obj) (p : PyObj Obj) : Option (Encode Obj H a Unit) :=
  if hasOpt e.opts optPassthroughSubclass then none
  else
    match p.body with
    | .str _ => some (e.str obj)
    | .int _ => some (e.int obj)
    | .dict _ => some (e.dict self fuel obj)
    | .list _ => some (e.list self fuel obj)
    | _ => none

/-- A lookup in the type cache, whose error is raised. -/
def cached {α : Type} (f : H → TypeCache Obj → Except Obj α × TypeCache Obj) : Encode Obj H a α := do
  let s ← Run.get
  let r := f s.world.heap s.world.types
  Run.modify fun s => { s with world := { s.world with types := r.2 } }
  match r.1 with
  | .ok x => pure x
  | .error exc => do
      setExc (some (.object exc))
      Run.throw ⟨⟩

/-- The datetime group, loaded on first use. -/
def datetimeGroup [DecidableEq Obj] (rt : Runtime Obj H) :
    Encode Obj H a (Option (DtTypes Obj)) := do
  let s ← Run.get
  if s.world.types.wrongCapsule rt s.world.heap then do
    setExc (some (.system "ValueError"))
    clearExc
  else pure ()
  cached fun h c => c.datetime rt h

/-- The numpy group if `ty` is one of its types; a miss checks `sys.modules` once per call. -/
def recognizeNumpy [DecidableEq Obj] (ty : Option Obj) : Encode Obj H a (Option (NumpyTypes Obj)) := do
  let s ← Run.get
  match s.world.types.numpyHit ty with
  | some np => pure (some np)
  | none =>
      if s.npRechecked then pure none
      else do
        Run.modify fun s => { s with npRechecked := true }
        cached fun h c => c.numpy e.rt h ty

/-- What the numpy writer of a recognized type declined; `none` for an unrecognized one. -/
def numpyWriter [DecidableEq Obj] (obj : Obj) (ty : Option Obj) (np : NumpyTypes Obj) :
    Option (Encode Obj H a (Option Decline)) :=
  if ty = some np.ndarray then some (e.serializeArray obj)
  else (np.scalar ty).map fun elem => e.serializeScalar obj elem

/-- The end of `serialize_other`: numpy types, and then `default`. -/
def numpyOrDefault [DecidableEq Obj] (obj : Obj) (p : PyObj Obj) : Encode Obj H a Unit := do
  if hasOpt e.opts optSerializeNumpy then
    match (← e.recognizeNumpy p.cls).bind (e.numpyWriter obj p.cls) with
    | none => e.callDefault self obj
    | some write =>
        match ← write with
        | none => pure ()
        | some reason => e.callDefaultDeclined self obj reason
  else e.callDefault self obj

/-- The part of `serialize_other` behind the subclasses: the datetime types may have been
imported since the call started. -/
def lateDatetime [DecidableEq Obj] (obj : Obj) (p : PyObj Obj) : Encode Obj H a Unit := do
  let s ← Run.get
  if s.dt.isNone && e.guard && !hasOpt e.opts optPassthroughDatetime then do
    let dt ← datetimeGroup e.rt
    Run.modify fun s => { s with dt := dt }
    match dt.bind (e.datetimeLike obj p) with
    | some write => write
    | none => e.numpyOrDefault self obj p
  else e.numpyOrDefault self obj p

def serializeOther [DecidableEq Obj] (fuel : ℕ) (obj : Obj) (p : PyObj Obj) : Encode Obj H a Unit := do
  let s ← Run.get
  match s.dt.bind (e.datetimeLike obj p) with
  | some write => write
  | none =>
      match e.subclassLike self fuel obj p with
      | some write => write
      | none => e.lateDatetime self obj p

/-- The body of `serialize`. -/
def serializeBody [DecidableEq Obj] (fuel : ℕ) (obj : Obj) : Encode Obj H a Unit := do
  let p ← e.look obj
  match p.cls, p.body with
  | none, .str _ => e.str obj
  | none, .int _ => e.int obj
  | none, .float bits => emit (·.writeF64 e.fmt bits)
  | none, .bool true => emit (·.extend (Bytes.ascii "true"))
  | none, .bool false => emit (·.extend (Bytes.ascii "false"))
  | none, .none => emit (·.extend (Bytes.ascii "null"))
  | none, .dict _ => e.dict self fuel obj
  | none, .list _ => e.list self fuel obj
  | none, .tuple => e.tuple self obj
  | _, _ => e.serializeOther self fuel obj p

end Containers

def serialize [DecidableEq Obj] : ℕ → Obj → Encode Obj H a Unit
  | 0, _ => Run.starve
  | fuel + 1, obj => e.serializeBody (serialize fuel) fuel obj

end Env

/-! ## `dumps` -/

namespace Host

variable (h : Host Obj H)

/-- The keyword arguments, on top of the positional ones. -/
def keywordArgs (nargs : ℕ) : List (String × Obj) → Option Obj × Option Obj →
    Encode Obj H a (Option Obj × Option Obj)
  | [], args => pure args
  | (name, val) :: kw, (default, option) =>
      if name = "default" ∧ nargs < 2 then keywordArgs nargs kw (some val, option)
      else if name = "option" ∧ nargs < 3 then keywordArgs nargs kw (default, some val)
      else h.fail "dumps() got an unexpected or duplicate keyword argument"

/-- `None` counts as no argument. -/
def dropNone : Option Obj → Encode Obj H a (Option Obj)
  | none => pure none
  | some o => do
      match (← h.look o).body with
      | .none => pure none
      | _ => pure (some o)

def checkDefault (default : Option Obj) : Encode Obj H a Unit := do
  match default with
  | none => pure ()
  | some f =>
      let s ← Run.get
      if h.rt.callable s.world.heap f then pure () else h.fail "default must be a callable"

/-- The value of an object that passes `PyLong_Check`. -/
def optionValue (p : PyObj Obj) : Option ℤ :=
  match p.body with
  | .int z => some z
  | .bool b => some (if b then 1 else 0)
  | _ => none

/-- `PyLong_AsLongLong` -/
def asLongLong (z : ℤ) : Encode Obj H a ℤ := do
  if i64Min ≤ z ∧ z ≤ i64Max then pure z
  else do
    setExc (some (.system "OverflowError"))
    pure (-1)

def rejectUnsupported (opts : UInt32) : List (UInt32 × String) → Encode Obj H a Unit
  | [] => pure ()
  | (bit, name) :: rest =>
      if hasOpt opts bit then h.fail ("isojson does not support " ++ name)
      else rejectUnsupported opts rest

def parseOpts (option : Option Obj) : Encode Obj H a UInt32 := do
  match option with
  | none => pure 0
  | some o =>
      match optionValue (← h.look o) with
      | none => h.fail "Invalid opts"
      | some z =>
          let v ← asLongLong z
          if 0 ≤ v ∧ v ≤ ALL_OPTS then do
            let opts := UInt32.ofNat v.toNat
            h.rejectUnsupported opts unsupportedOpts
            pure opts
          else do
            clearExc
            h.fail "Invalid opts"

/-- The encoder's start, with the datetime group resolved first. -/
def start [DecidableEq Obj] (hint : ℕ) (default : Option Obj) (opts : UInt32) :
    Encode Obj H a (Env Obj H) := do
  let dt ← Env.datetimeGroup h.rt
  match Buffer.new a hint with
  | none => do
      setExc (some (.system "MemoryError"))
      Run.throw ⟨⟩
  | some out => do
      Run.modify fun s =>
        { s with out := out, depth := 0, defaultDepth := 0, dt := dt, npRechecked := false }
      pure { toHost := h, default := default, opts := opts,
             guard := default.isSome || hasOpt opts optSerializeNumpy || dt.isSome,
             maxDepth := MAX_DEPTH }

/-- `out.finish()` -/
def finish : Encode Obj H a Bytes := do
  let s ← Run.get
  let f ← Run.unchecked s.out.raw.finish
  match f.result with
  | some o => pure o.mem
  | none => do
      setExc (some (.system "MemoryError"))
      Run.throw ⟨⟩

/-- `dumps` once its arguments are read. -/
def dumpsObject [DecidableEq Obj] (hint fuel : ℕ) (obj : Obj) (default : Option Obj) (opts : UInt32) :
    Encode Obj H a Bytes := do
  let e ← h.start hint default opts
  e.serialize fuel obj
  if hasOpt opts optAppendNewline then emit (·.push 10) else pure ()
  finish

/-- `dumps` over its positional and keyword arguments; `hint` is the thread's size hint. -/
def dumps [DecidableEq Obj] (hint fuel : ℕ) (args : List Obj) (kw : List (String × Obj)) :
    Encode Obj H a Bytes := do
  match args with
  | [] => h.fail "dumps() missing required argument 'obj' (pos 1)"
  | obj :: rest =>
      if 3 < args.length then
        h.fail ("dumps() takes at most 3 positional arguments (" ++ toString args.length ++
          " given)")
      else do
        let (default, option) ← h.keywordArgs args.length kw (rest[0]?, rest[1]?)
        let default ← h.dropNone default
        h.checkDefault default
        let option ← h.dropNone option
        let opts ← h.parseOpts option
        h.dumpsObject hint fuel obj default opts

end Host

end Isojson
