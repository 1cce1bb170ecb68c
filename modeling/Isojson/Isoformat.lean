import Isojson.Encode
import Isojson.Library.JsonGrammar

/-!
# Date and time texts

What the formatters of `datetime.rs` write, as texts of the isoformat grammar.  Each of them
fills its array inside the bounds, so none of the texts can panic, and the quoted result is a
JSON string.
-/

namespace Isojson

open Decimal IsoTime

/-! ## The formatters -/

lemma add_ofNat_eq_digit (d : ℕ) : (48 : UInt8) + UInt8.ofNat (d % 10) = digit d := by
  rw [digit, ← UInt8.toNat_inj, UInt8.toNat_add, UInt8.toNat_ofNat', UInt8.toNat_ofNat']
  have : (48 : UInt8).toNat = 48 := rfl
  omega

lemma two_eq {buf : Bytes} {at_ : ℕ} (h : at_ + 1 < buf.length) (v : ℕ) :
    two buf at_ v = some ((buf.set at_ (digit (v / 10))).set (at_ + 1) (digit v)) := by
  simp only [two, setAt, add_ofNat_eq_digit, List.length_set, h, if_pos (Nat.lt_of_succ_lt h),
    if_true, Option.bind_eq_bind, Option.bind_some]

lemma setAt_eq {buf : Bytes} {i : ℕ} (h : i < buf.length) (b : UInt8) :
    setAt buf i b = some (buf.set i b) := if_pos h

lemma digit_congr {m n : ℕ} (h : m % 10 = n % 10) : digit m = digit n := by
  rw [← digit_mod, h, digit_mod]

/-- `fmt_ymd` -/
lemma fmtYmd_eq (y mo d : ℕ) :
    fmtYmd (List.replicate 10 0) y mo d = some (dateText y mo d, 10) := by
  simp only [fmtYmd, two_eq, setAt_eq, List.replicate, dateText, fixed, List.length_cons,
    List.length_nil, Option.bind_eq_bind, Option.bind_some, Nat.reduceAdd, Nat.reduceLT,
    List.set_cons_succ, List.set_cons_zero, List.nil_append, List.cons_append,
    Nat.div_div_eq_div_mul, Nat.reduceMul]
  rw [digit_congr (show y % 100 / 10 % 10 = y / 10 % 10 by omega),
    digit_congr (show y % 100 % 10 = y % 10 by omega)]

/-- `six` writes six digits. -/
lemma sixLoop_eq (at_ n : ℕ) (buf : Bytes) (v : ℕ) (h : at_ + n ≤ buf.length) :
    sixLoop at_ n buf v = some (Bytes.store buf at_ (fixed n v)) := by
  induction n generalizing buf v with
  | zero => simp [sixLoop, fixed]
  | succ n ih =>
      rw [sixLoop, setAt_eq (by omega)]
      simp only [Option.bind_eq_bind, Option.bind_some, add_ofNat_eq_digit]
      rw [ih _ _ (by rw [List.length_set]; omega), Option.some.injEq]
      refine List.ext_getElem? fun j => ?_
      rw [Bytes.getElem?_store (by rw [length_fixed, List.length_set]; omega),
        Bytes.getElem?_store (by rw [length_fixed]; omega), length_fixed, length_fixed, fixed,
        List.getElem?_set]
      by_cases hj : at_ ≤ j ∧ j < at_ + n
      · rw [if_pos hj, if_pos (by omega), List.getElem?_append_left (by rw [length_fixed]; omega)]
      · rw [if_neg hj]
        by_cases he : at_ + n = j
        · subst he
          rw [if_pos rfl, if_pos (by omega), if_pos (by omega), List.getElem?_append_right
            (by rw [length_fixed]; omega), length_fixed, Nat.add_sub_cancel_left, Nat.sub_self]
          rfl
        · rw [if_neg he, if_neg (by omega)]

/-- `fmt_hms` -/
lemma fmtHms_eq (h mi s us : ℕ) (opts : UInt32) :
    ∃ b n, fmtHms (List.replicate 15 0) h mi s us opts = some (b, n) ∧ b.length = 15 ∧
      b.take n = timeText h mi s (if hasOpt opts optOmitMicroseconds then 0 else us) := by
  simp only [fmtHms, two_eq, setAt_eq, List.replicate, List.length_cons, List.length_nil,
    Option.bind_eq_bind, Option.bind_some, Nat.reduceAdd, Nat.reduceLT, List.set_cons_succ,
    List.set_cons_zero]
  by_cases ho : us = 0 ∨ hasOpt opts optOmitMicroseconds = true
  · rw [if_pos ho]
    refine ⟨_, _, rfl, rfl, ?_⟩
    have h0 : (if hasOpt opts optOmitMicroseconds = true then 0 else us) = 0 := by
      rcases ho with ho | ho <;> simp [ho]
    rw [h0]
    simp [timeText, fractionText, fixed]
  · obtain ⟨hus, ho⟩ := not_or.mp ho
    rw [if_neg (not_or.mpr ⟨hus, ho⟩), if_neg ho, six, sixLoop_eq _ _ _ _ (by simp)]
    refine ⟨_, _, rfl, ?_, ?_⟩
    · rw [Bytes.length_store (by simp)]
      simp
    · simp [timeText, fractionText, hus, fixed, Bytes.store]

/-- `fmt_offset`, below a hundred hours. -/
lemma fmtOffset_eq {us : ℤ} (h : us.natAbs < 360000000000) (opts : UInt32) :
    ∃ b n, fmtOffset (List.replicate 16 0) us opts = some (b, n) ∧ b.length = 16 ∧
      b.take n = zoneText (hasOpt opts optUtcZ) (some us) := by
  by_cases h0 : us = 0
  · subst h0
    by_cases hz : hasOpt opts optUtcZ = true
    · exact ⟨_, 1, by rw [fmtOffset, if_pos rfl, if_pos hz]; rfl, rfl, by rw [zoneText, if_pos ⟨rfl, hz⟩]; rfl⟩
    · exact ⟨_, 6, by rw [fmtOffset, if_pos rfl, if_neg hz]; rfl, rfl, by
        rw [zoneText, if_neg fun h => hz h.2]; decide⟩
  · have hmm : us.natAbs % 3600000000 / 60000000 = us.natAbs / 60000000 % 60 := by omega
    have hss : us.natAbs % 3600000000 % 60000000 / 1000000 = us.natAbs / 1000000 % 60 := by omega
    have hus : us.natAbs % 3600000000 % 60000000 % 1000000 = us.natAbs % 1000000 := by omega
    rw [zoneText, if_neg (not_and.mpr fun h => absurd h h0), offsetText]
    simp only [fmtOffset, if_neg h0, hmm, hss, hus]
    generalize us.natAbs / 3600000000 = hh
    generalize us.natAbs / 60000000 % 60 = mm
    generalize us.natAbs / 1000000 % 60 = ss
    generalize us.natAbs % 1000000 = frac
    simp only [two_eq, setAt_eq, List.replicate, List.length_cons, List.length_nil,
      Option.bind_eq_bind, Option.bind_some, Nat.reduceAdd, Nat.reduceLT, List.set_cons_succ,
      List.set_cons_zero, Nat.ofNat_pos]
    by_cases hwhole : ss = 0 ∧ frac = 0
    · rw [if_pos hwhole]
      refine ⟨_, _, rfl, rfl, ?_⟩
      simp [fixed, offsetTail, hwhole]
    · rw [if_neg hwhole]
      by_cases hfrac : frac = 0
      · rw [if_pos hfrac]
        have hss : ss ≠ 0 := fun h => hwhole ⟨h, hfrac⟩
        refine ⟨_, _, rfl, rfl, ?_⟩
        simp [fixed, offsetTail, hss, hfrac, fractionText]
      · rw [if_neg hfrac, six, sixLoop_eq _ _ _ _ (by simp)]
        refine ⟨_, _, rfl, ?_, ?_⟩
        · rw [Bytes.length_store (by simp)]
          simp
        · simp [fixed, offsetTail, hfrac, fractionText, Bytes.store]

/-! ## Quoted texts -/

namespace Buffer

variable {a : Allocator}

lemma smallCopy?_spec (b : Buffer a) {s : Bytes} (hs : s.length ≤ 32) :
    ∃ b', b.smallCopy? s = some b' ∧ b'.content = b.content ++ s :=
  ⟨_, dif_pos hs, content_smallCopy b hs⟩

end Buffer

variable {a : Allocator}

/-- The offsets that a text has room for. -/
def OffsetFits (offset : Option ℤ) : Prop := ∀ us ∈ offset, us.natAbs < 360000000000

/-- The microseconds that are written. -/
def shownMicros (opts : UInt32) (us : ℕ) : ℕ := if hasOpt opts optOmitMicroseconds then 0 else us

lemma writeYmd_spec (b : Buffer a) (y mo d : ℕ) :
    ∃ b', writeYmd b y mo d = some b' ∧ b'.content = b.content ++ dateText y mo d := by
  have hlen : (dateText y mo d).length = 10 := by simp [dateText]
  obtain ⟨b', hb, hc⟩ := b.smallCopy?_spec (s := dateText y mo d) (by omega)
  refine ⟨b', ?_, hc⟩
  simp only [writeYmd, fmtYmd_eq, Option.bind_eq_bind, Option.bind_some,
    List.take_of_length_le hlen.le, hb]

lemma writeHms_spec (b : Buffer a) (h mi s us : ℕ) (opts : UInt32) :
    ∃ b', writeHms b h mi s us opts = some b' ∧
      b'.content = b.content ++ timeText h mi s (shownMicros opts us) := by
  obtain ⟨buf, n, hf, hlen, ht⟩ := fmtHms_eq h mi s us opts
  obtain ⟨b', hb, hc⟩ := b.smallCopy?_spec (s := buf.take n)
    ((List.length_take_le' n buf).trans (by omega))
  refine ⟨b', ?_, hc.trans (by rw [ht, shownMicros])⟩
  simp only [writeHms, hf, Option.bind_eq_bind, Option.bind_some, hb]

lemma writeOffsetIfSome_spec (b : Buffer a) {offset : Option ℤ} (h : OffsetFits offset)
    (opts : UInt32) :
    ∃ b', writeOffsetIfSome b offset opts = some b' ∧
      b'.content = b.content ++ zoneText (hasOpt opts optUtcZ) offset := by
  cases offset with
  | none => exact ⟨b, rfl, (List.append_nil _).symm⟩
  | some o =>
      obtain ⟨buf, n, hf, hlen, ht⟩ := fmtOffset_eq (h o rfl) opts
      obtain ⟨b', hb, hc⟩ := b.smallCopy?_spec (s := buf.take n)
        ((List.length_take_le' n buf).trans (by omega))
      refine ⟨b', ?_, hc.trans (by rw [ht])⟩
      simp only [writeOffsetIfSome, writeOffset, hf, Option.bind_eq_bind, Option.bind_some, hb]

/-- A text between quotes. -/
def inQuotes (t : Bytes) : Bytes := [34] ++ t ++ [34]

/-- The text of a `datetime` or `datetime64`. -/
def datetimeText (p : DateTimeParts) (offset : Option ℤ) (opts : UInt32) : Bytes :=
  dateText p.y p.mo p.d ++ 84 :: (timeText p.h p.mi p.s (shownMicros opts p.us) ++
    zoneText (hasOpt opts optUtcZ) offset)

lemma writeDatetime_spec (b : Buffer a) (p : DateTimeParts) {offset : Option ℤ}
    (h : OffsetFits offset) (opts : UInt32) :
    ∃ b', writeDatetime b p offset opts = some b' ∧
      b'.content = b.content ++ inQuotes (datetimeText p offset opts) := by
  obtain ⟨b1, h1, hc1⟩ := writeYmd_spec (b.push 34) p.y p.mo p.d
  obtain ⟨b2, h2, hc2⟩ := writeHms_spec (b1.push 84) p.h p.mi p.s p.us opts
  obtain ⟨b3, h3, hc3⟩ := writeOffsetIfSome_spec b2 h opts
  refine ⟨b3.push 34, ?_, ?_⟩
  · simp only [writeDatetime, h1, h2, h3, Option.bind_eq_bind, Option.bind_some]
  · rw [Buffer.content_push, hc3, hc2, Buffer.content_push, hc1, Buffer.content_push]
    simp [inQuotes, datetimeText]

lemma writeDate_spec (b : Buffer a) (d : PyDate) :
    ∃ b', Env.writeDate b d = some b' ∧
      b'.content = b.content ++ inQuotes (dateText d.y d.mo d.d) := by
  obtain ⟨b1, h1, hc1⟩ := writeYmd_spec (b.push 34) d.y d.mo d.d
  refine ⟨b1.push 34, ?_, ?_⟩
  · simp only [Env.writeDate, h1, Option.bind_eq_bind, Option.bind_some]
  · rw [Buffer.content_push, hc1, Buffer.content_push]
    simp [inQuotes]

/-- The text of a `time`. -/
def timeOffsetText (t : PyTime) (offset : Option ℤ) (opts : UInt32) : Bytes :=
  timeText t.h t.mi t.s (shownMicros opts t.us) ++ zoneText (hasOpt opts optUtcZ) offset

lemma writeTime_spec (b : Buffer a) (t : PyTime) {offset : Option ℤ} (h : OffsetFits offset)
    (opts : UInt32) :
    ∃ b', Env.writeTime b t offset opts = some b' ∧
      b'.content = b.content ++ inQuotes (timeOffsetText t offset opts) := by
  obtain ⟨b1, h1, hc1⟩ := writeHms_spec (b.push 34) t.h t.mi t.s t.us opts
  obtain ⟨b2, h2, hc2⟩ := writeOffsetIfSome_spec b1 h opts
  refine ⟨b2.push 34, ?_, ?_⟩
  · simp only [Env.writeTime, h1, h2, Option.bind_eq_bind, Option.bind_some]
  · rw [Buffer.content_push, hc2, hc1, Buffer.content_push]
    simp [inQuotes, timeOffsetText]

/-! ## They are JSON strings -/

/-- The bytes of the isoformat grammar. -/
def IsIsoByte (b : UInt8) : Prop := IsDigit b ∨ b ∈ ([43, 45, 46, 58, 84, 90] : Bytes)

lemma isIsoByte_fixed (k n : ℕ) : ∀ b ∈ fixed k n, IsIsoByte b := fun b hb =>
  Or.inl (isDigit_fixed k n b hb)

lemma isIsoByte_dateText (y mo d : ℕ) : ∀ b ∈ dateText y mo d, IsIsoByte b := by
  simp only [dateText, List.forall_mem_append, List.forall_mem_cons]
  exact ⟨isIsoByte_fixed _ _, Or.inr (by decide), isIsoByte_fixed _ _, Or.inr (by decide),
    isIsoByte_fixed _ _⟩

lemma isIsoByte_fractionText (us : ℕ) : ∀ b ∈ fractionText us, IsIsoByte b := by
  unfold fractionText
  split
  · simp
  · exact List.forall_mem_cons.mpr ⟨Or.inr (by decide), isIsoByte_fixed _ _⟩

lemma isIsoByte_timeText (h mi s us : ℕ) : ∀ b ∈ timeText h mi s us, IsIsoByte b := by
  simp only [timeText, List.forall_mem_append, List.forall_mem_cons]
  exact ⟨isIsoByte_fixed _ _, Or.inr (by decide), isIsoByte_fixed _ _, Or.inr (by decide),
    isIsoByte_fixed _ _, isIsoByte_fractionText us⟩

lemma isIsoByte_offsetTail (s us : ℕ) : ∀ b ∈ offsetTail s us, IsIsoByte b := by
  unfold offsetTail
  split
  · simp
  · exact List.forall_mem_cons.mpr ⟨Or.inr (by decide),
      List.forall_mem_append.mpr ⟨isIsoByte_fixed _ _, isIsoByte_fractionText us⟩⟩

lemma isIsoByte_zoneText (zulu : Bool) (offset : Option ℤ) :
    ∀ b ∈ zoneText zulu offset, IsIsoByte b := by
  unfold zoneText
  split
  · simp
  · split
    · exact List.forall_mem_singleton.mpr (Or.inr (by decide))
    · simp only [offsetText, List.forall_mem_append, List.forall_mem_cons]
      refine ⟨Or.inr ?_, isIsoByte_fixed _ _, Or.inr (by decide), isIsoByte_fixed _ _,
        isIsoByte_offsetTail _ _⟩
      split <;> decide

/-- A text of the isoformat grammar between quotes is the JSON string of its characters. -/
lemma isString_inQuotes {t : Bytes} (h : ∀ b ∈ t, IsIsoByte b) :
    Json.IsString (inQuotes t) (t.map UInt8.toNat) := by
  refine Json.isString_plain fun b hb => ?_
  rcases h b hb with ⟨hlo, hhi⟩ | hmem
  · exact ⟨by omega, by omega, fun h => by subst h; exact absurd hlo (by decide),
      fun h => by subst h; exact absurd hhi (by decide)⟩
  · simp only [List.mem_cons, List.not_mem_nil, or_false] at hmem
    rcases hmem with rfl | rfl | rfl | rfl | rfl | rfl <;>
      exact ⟨Nat.le_of_ble_eq_true rfl, Nat.le_of_ble_eq_true rfl, by decide, by decide⟩

lemma isIsoByte_datetimeText (p : DateTimeParts) (offset : Option ℤ) (opts : UInt32) :
    ∀ b ∈ datetimeText p offset opts, IsIsoByte b := by
  simp only [datetimeText, List.forall_mem_append, List.forall_mem_cons]
  exact ⟨isIsoByte_dateText _ _ _, Or.inr (by decide), isIsoByte_timeText _ _ _ _,
    isIsoByte_zoneText _ _⟩

lemma isString_datetime (p : DateTimeParts) (offset : Option ℤ) (opts : UInt32) :
    ∃ s, Json.IsString (inQuotes (datetimeText p offset opts)) s :=
  ⟨_, isString_inQuotes (isIsoByte_datetimeText p offset opts)⟩

lemma isString_date (d : PyDate) : ∃ s, Json.IsString (inQuotes (dateText d.y d.mo d.d)) s :=
  ⟨_, isString_inQuotes (isIsoByte_dateText _ _ _)⟩

lemma isString_timeText (t : PyTime) (us : ℕ) (zulu : Bool) (offset : Option ℤ) :
    ∃ s, Json.IsString (inQuotes (timeText t.h t.mi t.s us ++ zoneText zulu offset)) s :=
  ⟨_, isString_inQuotes (List.forall_mem_append.mpr
    ⟨isIsoByte_timeText _ _ _ _, isIsoByte_zoneText _ _⟩)⟩

end Isojson
