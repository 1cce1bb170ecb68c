import Isojson.Types

/-!
# `encode.rs`: the encoder's state, requests and errors

The state of one `dumps` call, and the monad its functions run in: a `bool` or a `PyResult` of
the source is a run that returns or raises `PendingPyErr`, with the Python exception in the
state.  A look into an object of the wrong layout is a fault.

`St.log` records what the call does with references: what it takes, drops and borrows, which
objects it reads, and when Python code can run.
-/

namespace Isojson

/-- What `dumps` finds in its process: the interpreter, the target architecture, the outcome of
the self-check of `strfast`, and the third-party formatters. -/
structure Host (Obj H : Type) where
  rt : Runtime Obj H
  arch : Arch
  strfast : Bool
  fmt : Formats

def Snapshot.host {Obj : Type} (t : Snapshot Obj) : Host Obj Unit where
  rt := t.runtime
  arch := .portable
  strfast := true
  fmt := Formats.plain

/-- Nested containers at or beyond this depth fail. -/
def MAX_DEPTH : ℕ := 254

/-- The fields of `Encoder` that a call never changes.  `maxDepth` is `MAX_DEPTH` in `dumps`. -/
structure Env (Obj H : Type) extends Host Obj H where
  default : Option Obj
  opts : UInt32
  guard : Bool
  maxDepth : ℕ

/-- A step that concerns references. -/
inductive Event (Obj : Type)
  /-- A reference comes to be owned by the call, or stops to be, by a release or a hand-over. -/
  | take (r : Ref Obj)
  | drop (r : Ref Obj)
  /-- `item` is borrowed from `container`. -/
  | borrow (container item : Obj)
  | read (r : Ref Obj)
  /-- Python code can run in a call; `guard` is the encoder's flag. -/
  | python (guard : Bool) (c : Call Obj)

/-- The rest of `Encoder`, the interpreter and the thread state. -/
structure St (Obj H : Type) (a : Allocator) where
  out : Buffer a
  depth : ℕ
  defaultDepth : ℕ
  dt : Option (DtTypes Obj)
  npRechecked : Bool
  world : World Obj H
  exc : Option (Exc Obj)
  log : List (Event Obj)

/-- The state over a snapshot before `dumps` has written anything. -/
def Snapshot.state {Obj : Type} (_ : Snapshot Obj) (types : TypeCache Obj) :
    St Obj Unit Allocator.plain where
  out := Buffer.plain
  depth := 0
  defaultDepth := 0
  dt := none
  npRechecked := false
  world := ⟨(), types⟩
  exc := none
  log := []

abbrev Encode (Obj H : Type) (a : Allocator) := Run (St Obj H a) PendingPyErr

variable {Obj H : Type} {a : Allocator}

/-! ## References and requests -/

def event (ev : Event Obj) : Encode Obj H a Unit :=
  Run.modify fun s => { s with log := s.log ++ [ev] }

def incref (o : Obj) : Encode Obj H a Unit := do
  event (.read (.obj o))
  event (.take (.obj o))

def decref (o : Obj) : Encode Obj H a Unit := event (.drop (.obj o))

/-- The state once a reference is dropped, for a release on every way out. -/
def St.dropped (s : St Obj H a) (o : Obj) : St Obj H a := { s with log := s.log ++ [.drop (.obj o)] }

def setExc (exc : Option (Exc Obj)) : Encode Obj H a Unit := Run.modify fun s => { s with exc := exc }

/-- `PyErr_Clear` -/
def clearExc : Encode Obj H a Unit := setExc none

/-- The state once the output became `out`.  Where the buffer had to spill on the way, its
`MemoryError` was cleared, and with it any exception. -/
def St.written (s : St Obj H a) (out : Buffer a) : St Obj H a :=
  { s with out := out, exc := if s.out.raw.obj.isSome && out.raw.obj.isNone then none else s.exc }

/-- Writing raises nothing. -/
lemma St.exc_written {s : St Obj H a} (h : s.exc = none) (out : Buffer a) :
    (s.written out).exc = none := by
  unfold written
  rw [h]
  exact ite_self none

def emit (f : Buffer a → Buffer a) : Encode Obj H a Unit := Run.modify fun s => s.written (f s.out)

namespace Host

variable (e : Host Obj H)

/-- A read of an object. -/
def look (o : Obj) : Encode Obj H a (PyObj Obj) := do
  event (.read (.obj o))
  let s ← Run.get
  pure (e.rt.view s.world.heap o)

/-- A request to CPython; null is `none`, with the exception set. -/
def ask (c : Call Obj) : Encode Obj H a (Option Obj) := fun s =>
  match e.rt.reply c s.world with
  | (.ok o, w) => .ok (some o) { s with world := w }
  | (.raised exc, w) => .ok none { s with world := w, exc := some (.object exc) }

/-- A request for a new reference.  Where Python code can run in it, `call` or `toBase` makes it. -/
def request (c : Call Obj) : Encode Obj H a (Option Obj) := do
  match ← e.ask c with
  | some o =>
      event (.take (.obj o))
      pure (some o)
  | none => pure none

/-! ## Errors -/

/-- `raise_type_error`; if the message can't be allocated, the `MemoryError` stands. -/
def raiseTypeError (msg : String) : Encode Obj H a Unit := do
  match ← e.request (.newText msg) with
  | none => pure ()
  | some text =>
      setExc (some (.typeError text msg))
      decref text

/-- Raises `TypeError(msg)` and returns `false`. -/
def fail {α : Type} (msg : String) : Encode Obj H a α := do
  e.raiseTypeError msg
  Run.throw ⟨⟩

/-- `PyErr_GetRaisedException` -/
def fetchExc : Encode Obj H a (Option (Exc Obj)) := do
  let s ← Run.get
  match s.exc with
  | none => pure none
  | some exc =>
      clearExc
      event (.take exc.root)
      pure (some exc)

/-- `PyErr_SetRaisedException`, which steals the reference. -/
def restoreExc (exc : Exc Obj) : Encode Obj H a Unit := do
  setExc (some exc)
  event (.drop exc.root)

def raiseTypeErrorCausedBy (msg : String) (cause : Option (Exc Obj)) : Encode Obj H a Unit := do
  e.raiseTypeError msg
  match cause with
  | none => pure ()
  | some cause =>
      match ← fetchExc with
      | none => Run.fault
      | some exc =>
          event (.read exc.root)
          event (.drop cause.root) -- `PyException_SetCause` steals `cause`
          restoreExc (.caused exc cause)

def raiseTypeErrorFromCurrent (msg : String) : Encode Obj H a Unit := do
  e.raiseTypeErrorCausedBy msg (← fetchExc)

/-- `type_name` of an exception. -/
def excName : Exc Obj → Encode Obj H a String
  | .object o => do
      let p ← e.look o
      pure p.name
  | .typeError text _ => do
      event (.read (.error text))
      pure "TypeError"
  | .system name => do
      event (.read (.system name))
      pure name
  | .caused exc _ => excName exc
  | .noted exc _ => excName exc

/-- A request in which Python code can run. -/
def call (guard : Bool) (c : Call Obj) : Encode Obj H a (Option Obj) := do
  event (.python guard c)
  e.request c

/-- The record of Python code in `PyNumber_ToBase` of an `int` with the value `z`, if there is any. -/
def recordPylong (guard : Bool) (obj : Obj) (z : ℤ) (base : ℕ) : Encode Obj H a Unit := do
  let s ← Run.get
  if e.rt.pylong s.world.heap z then event (.python guard (.toBase obj base)) else pure ()

/-- `PyNumber_ToBase` -/
def toBase (guard : Bool) (obj : Obj) (z : ℤ) (base : ℕ) : Encode Obj H a (Option Obj) := do
  e.recordPylong guard obj z base
  e.request (.toBase obj base)

/-- `as_utf8`: the text of a `str`, `none` with the error cleared if it has no UTF-8 form. -/
def asUtf8 (o : Obj) : Encode Obj H a (Option Bytes) := do
  match (← e.look o).body with
  | .str s =>
      match s.header.text e.strfast with
      | .utf8 b => pure (some b)
      | _ =>
          if s.chars.any fun c => decide (Utf8.IsSurrogate c) then do
            clearExc
            pure none
          else
            match ← e.ask (.utf8 o) with
            | some _ => pure (some (Utf8.encodeAll s.chars))
            | none => do
                clearExc
                pure none
  | _ => Run.fault

/-- `describe_exception`: `<Exc>: <str(exc)>`, or just `<Exc>`. -/
def describeException (guard : Bool) (exc : Exc Obj) : Encode Obj H a String := do
  let name ← e.excName exc
  match ← e.call guard (.str exc) with
  | none =>
      clearExc
      pure name
  | some s =>
      let text ← e.asUtf8 s
      decref s
      match text with
      | some (b :: t) => pure (name ++ ": " ++ fromUtf8 (b :: t))
      | _ =>
          clearExc
          pure name

def decrefIfSome : Option Obj → Encode Obj H a Unit
  | some o => decref o
  | none => pure ()

/-- The call `exc.add_note(text)`, made only if its name and its text could be made. -/
def callAddNote (guard : Bool) (exc : Exc Obj) (note : String) (name text : Option Obj) :
    Encode Obj H a (Option Obj) :=
  match name, text with
  | some _, some _ => e.call guard (.addNote exc note)
  | _, _ => pure none

/-- `add_note`; if it fails, its error is cleared and the original exception stands. -/
def addNote (guard : Bool) (note : String) : Encode Obj H a Unit := do
  match ← fetchExc with
  | none => pure ()
  | some exc =>
      let name ← e.request (.newText "add_note")
      let text ← e.request (.newText note)
      let r ← e.callAddNote guard exc note name text
      match r with
      | none => clearExc
      | some r => decref r
      decrefIfSome name
      decrefIfSome text
      event (.read exc.root)
      restoreExc (if r.isSome then .noted exc note else exc)

/-- `delta_us`: a timedelta's total microseconds, or `none` for `None`; it consumes the
reference. -/
def deltaUs (r : Obj) : Encode Obj H a (Option ℤ) := do
  match (← e.look r).body with
  | .none => do
      decref r
      pure none
  | .delta d => do
      decref r
      pure (some d.micros)
  | _ => Run.fault

end Host

/-- `runs_no_python`: an exact `str`, `int`, `float`, `bool` or `None`. -/
def PyObj.runsNoPython (p : PyObj Obj) : Bool :=
  match p.cls, p.body with
  | none, .float _ => true
  | none, .str _ => true
  | none, .int _ => true
  | none, .bool _ => true
  | none, .none => true
  | _, _ => false

/-! ## Date and time texts

`none` is a panic of a formatter, or a text too long for `small_copy`. -/

def writeYmd (out : Buffer a) (y mo d : ℕ) : Option (Buffer a) := do
  let (b, n) ← fmtYmd (List.replicate 10 0) y mo d
  out.smallCopy? (b.take n)

/-- `fmt_hms` into the output, as its callers do it. -/
def writeHms (out : Buffer a) (h mi s us : ℕ) (opts : UInt32) : Option (Buffer a) := do
  let (b, n) ← fmtHms (List.replicate 15 0) h mi s us opts
  out.smallCopy? (b.take n)

def writeOffset (out : Buffer a) (totalUs : ℤ) (opts : UInt32) : Option (Buffer a) := do
  let (b, n) ← fmtOffset (List.replicate 16 0) totalUs opts
  out.smallCopy? (b.take n)

/-- `if let Some(o) = offset { write_offset(..) }` -/
def writeOffsetIfSome (out : Buffer a) (offset : Option ℤ) (opts : UInt32) : Option (Buffer a) :=
  match offset with
  | some o => writeOffset out o opts
  | none => some out

/-- `write_datetime` -/
def writeDatetime (out : Buffer a) (p : DateTimeParts) (offset : Option ℤ) (opts : UInt32) :
    Option (Buffer a) := do
  let out ← writeYmd (out.push 34) p.y p.mo p.d
  let out ← writeHms (out.push 84) p.h p.mi p.s p.us opts
  let out ← writeOffsetIfSome out offset opts
  some (out.push 34)

/-! ## Layout -/

namespace Env

variable (e : Env Obj H)

def indent : Bool := hasOpt e.opts optIndent2

/-- `for _ in 0..level { out.extend_from_slice(b"  ") }` -/
def indentBy (b : Buffer a) : ℕ → Buffer a
  | 0 => b
  | level + 1 => indentBy (b.extend [32, 32]) level

/-- `newline_indent` -/
def newlineIndent (b : Buffer a) (level : ℕ) : Buffer a := indentBy (b.push 10) level

/-- `if self.indent() { self.newline_indent(self.depth) }` -/
def breakLine : Encode Obj H a Unit := do
  let s ← Run.get
  if e.indent then emit (newlineIndent · s.depth) else pure ()

/-- `enter` -/
def enter : Encode Obj H a Unit := do
  let s ← Run.get
  if e.maxDepth ≤ s.depth then e.fail "Recursion limit reached"
  else Run.modify fun s => { s with depth := s.depth + 1 }

/-- `self.depth -= 1` -/
def leave : Encode Obj H a Unit := Run.modify fun s => { s with depth := s.depth - 1 }

end Env

end Isojson
