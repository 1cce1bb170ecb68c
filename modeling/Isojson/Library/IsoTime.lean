import Isojson.Library.Decimal

/-!
# The isoformat grammar

The text Python's `isoformat()` gives a date, a time of day and a UTC offset,

`YYYY-MM-DDTHH:MM:SS[.ffffff][offset]`, with the offset `±HH:MM[:SS[.ffffff]]` or `Z`,

as formatters on plain numbers, and a reader of the grammar.  The reader is written from the
grammar alone: it takes digits and separators from the left and refuses anything left over.
`readDateTime_text` and `readTimeOffset_text` are the round trips, and the sign of an offset
survives them because the reader negates a magnitude rather than reading a signed number.
-/

namespace IsoTime

open Decimal

/-! ## Formatters -/

/-- `.ffffff`, or nothing for a whole second. -/
def fractionText (us : ℕ) : Bytes := if us = 0 then [] else 46 :: fixed 6 us

def dateText (y m d : ℕ) : Bytes := fixed 4 y ++ 45 :: (fixed 2 m ++ 45 :: fixed 2 d)

def timeText (h mi s us : ℕ) : Bytes :=
  fixed 2 h ++ 58 :: (fixed 2 mi ++ 58 :: (fixed 2 s ++ fractionText us))

/-- The seconds of an offset, left out when they and the microseconds are zero. -/
def offsetTail (s us : ℕ) : Bytes :=
  if s = 0 ∧ us = 0 then [] else 58 :: (fixed 2 s ++ fractionText us)

/-- A UTC offset in microseconds: its sign, then its magnitude. -/
def offsetText (us : ℤ) : Bytes :=
  (if us < 0 then 45 else 43) :: (fixed 2 (us.natAbs / 3600000000) ++
    58 :: (fixed 2 (us.natAbs / 60000000 % 60) ++
      offsetTail (us.natAbs / 1000000 % 60) (us.natAbs % 1000000)))

/-- An optional offset, with a zero one as `Z` when `zulu` is set. -/
def zoneText (zulu : Bool) : Option ℤ → Bytes
  | none => []
  | some us => if us = 0 ∧ zulu then [90] else offsetText us

/-! ## Reader -/

/-- Exactly `k` digits. -/
def readDigits : ℕ → ℕ → Bytes → Option (ℕ × Bytes)
  | 0, acc, t => some (acc, t)
  | _ + 1, _, [] => none
  | k + 1, acc, b :: t => if IsDigit b then readDigits k (acc * 10 + digitVal b) t else none

/-- One given byte. -/
def readByte (c : UInt8) : Bytes → Option Bytes
  | [] => none
  | b :: t => if b = c then some t else none

/-- An optional `.ffffff`. -/
def readFraction (t : Bytes) : Option (ℕ × Bytes) :=
  match readByte 46 t with
  | some t => readDigits 6 0 t
  | none => some (0, t)

def readDate (t : Bytes) : Option ((ℕ × ℕ × ℕ) × Bytes) := do
  let (y, t) ← readDigits 4 0 t
  let t ← readByte 45 t
  let (m, t) ← readDigits 2 0 t
  let t ← readByte 45 t
  let (d, t) ← readDigits 2 0 t
  some ((y, m, d), t)

def readTime (t : Bytes) : Option ((ℕ × ℕ × ℕ × ℕ) × Bytes) := do
  let (h, t) ← readDigits 2 0 t
  let t ← readByte 58 t
  let (mi, t) ← readDigits 2 0 t
  let t ← readByte 58 t
  let (s, t) ← readDigits 2 0 t
  let (us, t) ← readFraction t
  some ((h, mi, s, us), t)

/-- The magnitude of an offset: `HH:MM[:SS[.ffffff]]`. -/
def readMagnitude (t : Bytes) : Option (ℕ × Bytes) := do
  let (h, t) ← readDigits 2 0 t
  let t ← readByte 58 t
  let (mi, t) ← readDigits 2 0 t
  match readByte 58 t with
  | none => some ((h * 60 + mi) * 60000000, t)
  | some t =>
      let (s, t) ← readDigits 2 0 t
      let (us, t) ← readFraction t
      some (((h * 60 + mi) * 60 + s) * 1000000 + us, t)

/-- The rest of a text: no offset, `Z`, or a signed magnitude with nothing after it. -/
def readZone : Bytes → Option (Option ℤ)
  | [] => some none
  | b :: t =>
      if b = 90 ∧ t = [] then some (some 0)
      else if b = 43 ∨ b = 45 then
        match readMagnitude t with
        | some (m, []) => some (some (if b = 45 then -(m : ℤ) else m))
        | _ => none
      else none

def readDateTime (t : Bytes) : Option ((ℕ × ℕ × ℕ) × (ℕ × ℕ × ℕ × ℕ) × Option ℤ) := do
  let (date, t) ← readDate t
  let t ← readByte 84 t
  let (time, t) ← readTime t
  let zone ← readZone t
  some (date, time, zone)

def readTimeOffset (t : Bytes) : Option ((ℕ × ℕ × ℕ × ℕ) × Option ℤ) := do
  let (time, t) ← readTime t
  let zone ← readZone t
  some (time, zone)

/-! ## Round trips -/

lemma readDigits_append (ds rest : Bytes) (acc : ℕ) (h : ∀ b ∈ ds, IsDigit b) :
    readDigits ds.length acc (ds ++ rest) =
      some (ds.foldl (fun acc b => acc * 10 + digitVal b) acc, rest) := by
  induction ds generalizing acc with
  | nil => rfl
  | cons b ds ih =>
      rw [List.length_cons, List.cons_append, readDigits, if_pos (h b (List.mem_cons_self ..)),
        ih _ fun x hx => h x (List.mem_cons_of_mem _ hx)]
      rfl

@[simp] lemma readDigits_fixed (k n : ℕ) (rest : Bytes) (h : n < 10 ^ k) :
    readDigits k 0 (fixed k n ++ rest) = some (n, rest) := by
  have hr := readDigits_append (fixed k n) rest 0 (isDigit_fixed k n)
  rw [length_fixed] at hr
  rw [hr]
  exact congrArg (fun v => some (v, rest)) (value_fixed k n h)

@[simp] lemma readByte_cons_self (c : UInt8) (t : Bytes) : readByte c (c :: t) = some t := by
  simp [readByte]

lemma readByte_of_head_ne {c : UInt8} {t : Bytes} (h : t.head? ≠ some c) :
    readByte c t = none := by
  cases t with
  | nil => rfl
  | cons b t =>
      rw [readByte, if_neg]
      rintro rfl
      exact h rfl

/-- A fraction reads back, when what follows it does not start with a dot. -/
lemma readFraction_text {us : ℕ} (hus : us < 1000000) {rest : Bytes}
    (hrest : rest.head? ≠ some 46) :
    readFraction (fractionText us ++ rest) = some (us, rest) := by
  rw [fractionText]
  split
  · next h0 =>
    rw [h0, List.nil_append, readFraction, readByte_of_head_ne hrest]
  · rw [List.cons_append, readFraction, readByte_cons_self]
    exact readDigits_fixed 6 us rest hus

lemma readDate_text {y m d : ℕ} (hy : y < 10000) (hm : m < 100) (hd : d < 100) (rest : Bytes) :
    readDate (dateText y m d ++ rest) = some ((y, m, d), rest) := by
  simp [readDate, dateText, List.append_assoc, hy, hm, hd]

lemma readTime_text {h mi s us : ℕ} (hh : h < 100) (hmi : mi < 100) (hs : s < 100)
    (hus : us < 1000000) {rest : Bytes} (hrest : rest.head? ≠ some 46) :
    readTime (timeText h mi s us ++ rest) = some ((h, mi, s, us), rest) := by
  simp [readTime, timeText, List.append_assoc, hh, hmi, hs, readFraction_text hus hrest]

/-- The magnitude of an offset under a hundred hours reads back. -/
lemma readMagnitude_text {m : ℕ} (hm : m < 360000000000) :
    readMagnitude (fixed 2 (m / 3600000000) ++ 58 :: (fixed 2 (m / 60000000 % 60) ++
      offsetTail (m / 1000000 % 60) (m % 1000000))) = some (m, []) := by
  have hh : m / 3600000000 < 10 ^ 2 := by omega
  have hmi : m / 60000000 % 60 < 10 ^ 2 := by omega
  have hs : m / 1000000 % 60 < 10 ^ 2 := by omega
  rw [readMagnitude, readDigits_fixed _ _ _ hh]
  simp only [Option.bind_eq_bind, Option.bind_some, readByte_cons_self,
    readDigits_fixed _ _ _ hmi]
  by_cases h0 : m / 1000000 % 60 = 0 ∧ m % 1000000 = 0
  · rw [offsetTail, if_pos h0]
    simp only [readByte, Option.some.injEq, Prod.mk.injEq, and_true]
    omega
  · have hf := @readFraction_text (m % 1000000) (by omega) [] (by simp)
    rw [List.append_nil] at hf
    rw [offsetTail, if_neg h0]
    simp only [readByte_cons_self, readDigits_fixed _ _ _ hs, Option.bind_some, hf,
      Option.some.injEq, Prod.mk.injEq, and_true]
    omega

/-- **Zone round trip.** An optional offset under a hundred hours reads back with its sign,
whether or not a zero one is written `Z`. -/
lemma readZone_text (zulu : Bool) (o : Option ℤ) (ho : ∀ us ∈ o, us.natAbs < 360000000000) :
    readZone (zoneText zulu o) = some o := by
  cases o with
  | none => rfl
  | some us =>
      rw [zoneText]
      split
      · next h => rw [h.1]; rfl
      · have hm := readMagnitude_text (ho us rfl)
        rw [offsetText]
        rcases lt_or_ge us 0 with hneg | hpos
        · rw [if_pos hneg, readZone, if_neg (by simp), if_pos (by decide), hm]
          simp only [if_true, Option.some.injEq]
          omega
        · rw [if_neg (by omega), readZone, if_neg (by simp), if_pos (by decide), hm]
          simp only [show ¬ ((43 : UInt8) = 45) by decide, if_false, Option.some.injEq]
          omega

/-- A zone never starts with a dot, so the fraction before it ends where it should. -/
lemma head_zoneText_ne (zulu : Bool) (o : Option ℤ) : (zoneText zulu o).head? ≠ some 46 := by
  cases o with
  | none => simp [zoneText]
  | some us =>
      rw [zoneText]
      split
      · simp
      · rw [offsetText]
        split <;> simp

/-- **Date and time round trip.** -/
theorem readDateTime_text {y m d h mi s us : ℕ} (hy : y < 10000) (hm : m < 100) (hd : d < 100)
    (hh : h < 100) (hmi : mi < 100) (hs : s < 100) (hus : us < 1000000) (zulu : Bool)
    (o : Option ℤ) (ho : ∀ us ∈ o, us.natAbs < 360000000000) :
    readDateTime (dateText y m d ++ 84 :: (timeText h mi s us ++ zoneText zulu o)) =
      some ((y, m, d), (h, mi, s, us), o) := by
  simp [readDateTime, readDate_text hy hm hd,
    readTime_text hh hmi hs hus (head_zoneText_ne zulu o), readZone_text zulu o ho]

/-- **Time round trip.** -/
theorem readTimeOffset_text {h mi s us : ℕ} (hh : h < 100) (hmi : mi < 100) (hs : s < 100)
    (hus : us < 1000000) (zulu : Bool) (o : Option ℤ)
    (ho : ∀ us ∈ o, us.natAbs < 360000000000) :
    readTimeOffset (timeText h mi s us ++ zoneText zulu o) = some ((h, mi, s, us), o) := by
  simp [readTimeOffset, readTime_text hh hmi hs hus (head_zoneText_ne zulu o),
    readZone_text zulu o ho]

end IsoTime
