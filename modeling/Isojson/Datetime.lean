import Isojson.Library.Calendar
import Isojson.Library.IsoTime
import Isojson.Options

/-!
# `datetime.rs`: date and time text, and calendar math

The formatters fill caller-owned arrays of a fixed size and return a length.  An array is a
byte list of that length, and a store past its end, which panics in the source, is `none`
here, so "the text fits" is the statement that a formatter returns.

`dt64ToParts` computes in `i128`.  Its checked operations answer `none` to the caller as in the
source; the unchecked ones go through `plain`, whose `none` means that the operation wrapped.
The outer `Option` of the result therefore says that nothing wrapped on the way.
-/

namespace Isojson

open Decimal

/-! ## Formatters -/

/-- `buf[i] = b`; `none` is a panic. -/
def setAt (buf : Bytes) (i : ℕ) (b : UInt8) : Option Bytes :=
  if i < buf.length then some (buf.set i b) else none

def two (buf : Bytes) (at_ v : ℕ) : Option Bytes := do
  let buf ← setAt buf at_ (48 + UInt8.ofNat (v / 10 % 10))
  setAt buf (at_ + 1) (48 + UInt8.ofNat (v % 10))

/-- `for i in (0..n).rev()` over `buf[at_ + i]`, the least significant digit first. -/
def sixLoop (at_ : ℕ) : ℕ → Bytes → ℕ → Option Bytes
  | 0, buf, _ => some buf
  | i + 1, buf, v => do
      let buf ← setAt buf (at_ + i) (48 + UInt8.ofNat (v % 10))
      sixLoop at_ i buf (v / 10)

def six (buf : Bytes) (at_ v : ℕ) : Option Bytes := sixLoop at_ 6 buf v

/-- `YYYY-MM-DD` -/
def fmtYmd (buf : Bytes) (y mo d : ℕ) : Option (Bytes × ℕ) := do
  let buf ← two buf 0 (y / 100)
  let buf ← two buf 2 (y % 100)
  let buf ← setAt buf 4 45
  let buf ← two buf 5 mo
  let buf ← setAt buf 7 45
  let buf ← two buf 8 d
  some (buf, 10)

/-- `HH:MM:SS[.ffffff]` -/
def fmtHms (buf : Bytes) (h mi s us : ℕ) (opts : UInt32) : Option (Bytes × ℕ) := do
  let buf ← two buf 0 h
  let buf ← setAt buf 2 58
  let buf ← two buf 3 mi
  let buf ← setAt buf 5 58
  let buf ← two buf 6 s
  if us = 0 ∨ hasOpt opts optOmitMicroseconds then some (buf, 8)
  else
    let buf ← setAt buf 8 46
    let buf ← six buf 9 us
    some (buf, 15)

/-- `±HH:MM[:SS[.ffffff]]`, or `+00:00` / `Z` for zero. -/
def fmtOffset (buf : Bytes) (totalUs : ℤ) (opts : UInt32) : Option (Bytes × ℕ) :=
  if totalUs = 0 then
    if hasOpt opts optUtcZ then do
      let buf ← setAt buf 0 90
      some (buf, 1)
    else if 6 ≤ buf.length then some (Bytes.ascii "+00:00" ++ buf.drop 6, 6)
    else none
  else do
    let buf ← setAt buf 0 (if totalUs < 0 then 45 else 43)
    let m := totalUs.natAbs
    let hh := m / 3600000000
    let r := m % 3600000000
    let mm := r / 60000000
    let r := r % 60000000
    let ss := r / 1000000
    let us := r % 1000000
    let buf ← two buf 1 hh
    let buf ← setAt buf 3 58
    let buf ← two buf 4 mm
    if ss = 0 ∧ us = 0 then some (buf, 6)
    else
      let buf ← setAt buf 6 58
      let buf ← two buf 7 ss
      if us = 0 then some (buf, 9)
      else
        let buf ← setAt buf 9 46
        let buf ← six buf 10 us
        some (buf, 16)

/-! ## `civil_from_days` -/

/-- `x as u8` -/
def asU8 (x : ℤ) : ℕ := (x % 256).toNat

/-- `x as u16` -/
def asU16 (x : ℤ) : ℕ := (x % 65536).toNat

/-- `x as i32` -/
def asI32 (x : ℤ) : ℤ := Int.bmod x 4294967296

def minDays : ℤ := -719528
def maxDays : ℤ := 2932896
def usPerDay : ℤ := 86400000000

/-- The date `days` after 1970-01-01.  `/` of the source truncates (`Int.tdiv`), and its
`div_euclid` is Lean's `/`. -/
def civilFromDays (days : ℤ) : ℤ × ℕ × ℕ :=
  let z := days + 719468
  let era := z / 146097
  let doe := z - era * 146097
  let yoe := (doe - doe.tdiv 1460 + doe.tdiv 36524 - doe.tdiv 146096).tdiv 365
  let doy := doe - (365 * yoe + yoe.tdiv 4 - yoe.tdiv 100)
  let mp := (5 * doy + 2).tdiv 153
  let d := doy - (153 * mp + 2).tdiv 5 + 1
  let mo := if mp < 10 then mp + 3 else mp - 9
  let y := yoe + era * 400 + (if mo ≤ 2 then 1 else 0)
  (asI32 y, asU8 mo, asU8 d)

/-! ## `datetime64` -/

inductive TimeUnit
  | year | month | week | day | hour | minute | second
  | milli | micro | nano | pico | femto | atto | generic
  deriving DecidableEq, Repr

structure Dt64Unit where
  base : TimeUnit
  mult : ℤ
  deriving DecidableEq, Repr

structure DateTimeParts where
  y : ℕ
  mo : ℕ
  d : ℕ
  h : ℕ
  mi : ℕ
  s : ℕ
  us : ℕ
  deriving DecidableEq, Repr

inductive Dt64Error
  | unrepresentable
  | genericUnit
  deriving DecidableEq, Repr

def i64Min : ℤ := -9223372036854775808
def i64Max : ℤ := 9223372036854775807

def InI128 (x : ℤ) : Prop :=
  -170141183460469231731687303715884105728 ≤ x ∧ x ≤ 170141183460469231731687303715884105727

instance : DecidablePred InI128 := fun x => by unfold InI128; infer_instance

/-- `i128::checked_mul` -/
def checkedMul (a b : ℤ) : Option ℤ := if InI128 (a * b) then some (a * b) else none

/-- The result of an unchecked `i128` operation; `none` means that it wrapped. -/
def plain (x : ℤ) : Option ℤ := if InI128 x then some x else none

/-- The closure `date_only` of `dt64_to_parts`. -/
def dateOnly (y mo : ℤ) : Except Dt64Error (Option DateTimeParts) :=
  if 0 ≤ y ∧ y ≤ 9999 then .ok (some ⟨asU16 y, asU8 mo, 1, 0, 0, 0, 0⟩)
  else .error .unrepresentable

/-- The tail of `dt64_to_parts`: the parts of `us` microseconds since 1970-01-01. -/
def partsOfMicros (us : ℤ) : Option (Except Dt64Error (Option DateTimeParts)) := do
  let days ← plain (us / usPerDay)
  if ¬ (minDays ≤ days ∧ days ≤ maxDays) then some (.error .unrepresentable)
  else
    let (y, mo, d) := civilFromDays days
    let rem ← plain (us % usPerDay)
    let rem := rem.toNat
    some (.ok (some ⟨asU16 y, mo, d, asU8 (rem / 3600000000 : ℕ), asU8 (rem / 60000000 % 60 : ℕ),
      asU8 (rem / 1000000 % 60 : ℕ), rem % 1000000⟩))

/-- The closure `times` of `dt64_to_parts`, followed by its tail. -/
def timesThenParts (n k : ℤ) : Option (Except Dt64Error (Option DateTimeParts)) :=
  match checkedMul n k with
  | none => some (.error .unrepresentable)
  | some us => partsOfMicros us

def dt64ToParts (v : ℤ) (u : Dt64Unit) : Option (Except Dt64Error (Option DateTimeParts)) :=
  if v = i64Min then some (.ok none)
  else
    match checkedMul v u.mult with
    | none => some (.error .unrepresentable)
    | some n =>
      match u.base with
      | .generic => some (.error .genericUnit)
      | .year => do
          let y ← plain (1970 + n)
          some (dateOnly y 1)
      | .month => do
          let q ← plain (n / 12)
          let y ← plain (1970 + q)
          let r ← plain (n % 12)
          let mo ← plain (r + 1)
          some (dateOnly y mo)
      | .week => timesThenParts n (7 * usPerDay)
      | .day => timesThenParts n usPerDay
      | .hour => timesThenParts n 3600000000
      | .minute => timesThenParts n 60000000
      | .second => timesThenParts n 1000000
      | .milli => timesThenParts n 1000
      | .micro => partsOfMicros n
      | .nano => do partsOfMicros (← plain (n / 1000))
      | .pico => do partsOfMicros (← plain (n / 1000000))
      | .femto => do partsOfMicros (← plain (n / 1000000000))
      | .atto => do partsOfMicros (← plain (n / 1000000000000))

/-! ## `parse_dt64` -/

/-- The unit a code names. -/
def unitOfCode (code : Bytes) : Option TimeUnit :=
  if code = Bytes.ascii "Y" then some .year
  else if code = Bytes.ascii "M" then some .month
  else if code = Bytes.ascii "W" then some .week
  else if code = Bytes.ascii "D" then some .day
  else if code = Bytes.ascii "h" then some .hour
  else if code = Bytes.ascii "m" then some .minute
  else if code = Bytes.ascii "s" then some .second
  else if code = Bytes.ascii "ms" then some .milli
  else if code = Bytes.ascii "us" then some .micro
  else if code = Bytes.ascii "ns" then some .nano
  else if code = Bytes.ascii "ps" then some .pico
  else if code = Bytes.ascii "fs" then some .femto
  else if code = Bytes.ascii "as" then some .atto
  else none

/-- The accumulation `m.checked_mul(10)?.checked_add(c - b'0')?` over the digits, in `i64`. -/
def accumulate : ℤ → Bytes → Option ℤ
  | m, [] => some m
  | m, c :: num =>
      if m * 10 ≤ i64Max then
        if m * 10 + digitVal c ≤ i64Max then accumulate (m * 10 + digitVal c) num else none
      else none

/-- `strip_prefix(b"[")?.strip_suffix(b"]")?` -/
def stripBrackets : Bytes → Option Bytes
  | 91 :: t => if t.getLast? = some 93 then some t.dropLast else none
  | _ => none

/-- The multiplier: 1 when there are no digits, and never 0. -/
def parseMult (num : Bytes) : Option ℤ :=
  if num = [] then some 1
  else
    match accumulate 0 num with
    | none => none
    | some m => if m = 0 then none else some m

def parseDt64 (s : Bytes) : Option Dt64Unit :=
  match s with
  | c :: 77 :: 56 :: rest =>
      if c = 60 ∨ c = 62 ∨ c = 61 ∨ c = 124 then
        if rest = [] then some ⟨.generic, 1⟩
        else do
          let inner ← stripBrackets rest
          let num := inner.takeWhile fun b => decide (IsDigit b)
          let code := inner.dropWhile fun b => decide (IsDigit b)
          let mult ← parseMult num
          let base ← unitOfCode code
          some ⟨base, mult⟩
      else none
  | _ => none

end Isojson
