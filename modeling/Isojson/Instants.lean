import Isojson.Dt64
import Isojson.Elements
import Isojson.NestedList

/-!
# Instants survive

A datetime64 element stands for an instant, counted in its unit from 1970-01-01.  Whatever the unit, the
text that `dumps` writes for it, read by the grammar of isoformat alone, is the same instant, down to the
microsecond or, with `OPT_OMIT_MICROSECONDS`, to the second (`loads_dumps_datetimes`).
-/

namespace Isojson

open Json Calendar

/-! ## The instant of an element -/

/-- A value of a unit with a fixed length is an instant of the years 0 to 9999, rounded down. -/
def IsFixedInstant (u : Dt64Unit) (v us : ℤ) : Prop :=
  ∃ ratio, u.base.ratio = some ratio ∧ us = instant v u.mult ratio ∧ firstInstant ≤ us ∧ us ≤ lastInstant

/-- A value of a calendar unit is the midnight before a month of these years. -/
def IsMonthInstant (u : Dt64Unit) (v us : ℤ) : Prop :=
  ∃ months y m, u.base.months = some months ∧ y ≤ 9999 ∧ 1 ≤ m ∧ m ≤ 12 ∧
    monthIndex v u.mult months = (y * 12 + (m - 1) : ℕ) ∧ us = daysSinceEpoch y m 1 * 86400000000

/-- What a `datetime64` of the unit `u` with the value `v` stands for, in microseconds since 1970-01-01:
nothing, or an instant. -/
def Dt64Shows (u : Dt64Unit) (v : ℤ) : Option ℤ → Prop
  | none => v = i64Min
  | some us => v ≠ i64Min ∧ (IsFixedInstant u v us ∨ IsMonthInstant u v us)

/-- The instant that fields stand for. -/
def fieldsMicros (date : ℕ × ℕ × ℕ) (time : ℕ × ℕ × ℕ × ℕ) : ℤ :=
  daysSinceEpoch date.1 date.2.1 date.2.2 * 86400000000 +
    microsOfDay time.1 time.2.1 time.2.2.1 time.2.2.2

/-- The instant that the options let through. -/
def shownInstant (opts : UInt32) (us : ℤ) : ℤ :=
  if hasOpt opts optOmitMicroseconds then us / 1000000 * 1000000 else us

/-- The offset that is written for a naive time. -/
def naiveOffset (opts : UInt32) : Option ℤ := if hasOpt opts optNaiveUtc then some 0 else none

/-- The string is an ISO text of the instant. -/
def IsInstant (opts : UInt32) (s : List ℕ) (us : ℤ) : Prop :=
  ∃ date time, IsoTime.readDateTime (s.map UInt8.ofNat) = some (date, time, naiveOffset opts) ∧
    fieldsMicros date time = us

/-- The value is `None` for nothing, and for an instant it is a text of it. -/
def ShowsInstant (opts : UInt32) : Option ℤ → Value → Prop
  | none, v => v = .none
  | some us, v => ∃ s, v = .str s ∧ IsInstant opts s (shownInstant opts us)

lemma dt64ToParts_nat {u : Dt64Unit} {v : ℤ} (hnat : v = i64Min) : dt64ToParts v u = some (.ok none) :=
  if_pos hnat

/-- The parts of an element that stands for an instant. -/
lemma Dt64Shows.parts {u : Dt64Unit} {v us : ℤ} (h : Dt64Shows u v (some us)) (hargs : Dt64Args v u.mult) :
    ∃ p, dt64ToParts v u = some (.ok (some p)) ∧ p.Valid ∧ p.micros = us := by
  obtain ⟨hnat, hinstant⟩ : v ≠ i64Min ∧ (IsFixedInstant u v us ∨ IsMonthInstant u v us) := h
  rcases hinstant with hfixed | hmonth
  · obtain ⟨ratio, hratio, hus, hrange⟩ := hfixed
    rw [hus] at hrange ⊢
    exact (dt64ToParts_instant hargs hnat hratio).1 hrange
  · obtain ⟨months, y, m, hmonths, hy, hm, hm', hindex, hus⟩ := hmonth
    have hyear : monthIndex v u.mult months / 12 = y := by omega
    have hmod : monthIndex v u.mult months % 12 = (m - 1 : ℕ) := by omega
    have hin : 0 ≤ monthIndex v u.mult months / 12 ∧ monthIndex v u.mult months / 12 ≤ 9999 := by omega
    have hparts := dt64ToParts_month hargs hnat hmonths
    rw [if_pos hin] at hparts
    refine ⟨_, hparts, firstOfMonth_valid hin, ?_⟩
    have hnext : m - 1 + 1 = m := by omega
    simp only [DateTimeParts.micros, firstOfMonth, hyear, hmod, Int.toNat_natCast, hnext, hus]
    simp [microsOfDay]

/-! ## The text of an instant -/

lemma datetimeText_reads {p : DateTimeParts} (hp : p.Valid) (opts : UInt32) :
    IsInstant opts ((datetimeText p (naiveOffset opts) opts).map UInt8.toNat)
      (shownInstant opts p.micros) := by
  obtain ⟨hy, ⟨-, hm, -, hd⟩, htime⟩ := hp
  obtain ⟨hh, hmi, hs, hus⟩ := htime
  have hday := hd.trans (daysInMonth_le p.y p.mo)
  have hoffset : ∀ us ∈ naiveOffset opts, us.natAbs < 360000000000 := offsetFits_naive opts
  have hmicros : shownMicros opts p.us < 1000000 := by
    unfold shownMicros
    split <;> omega
  have hread := IsoTime.readDateTime_text (show p.y < 10000 by omega) (show p.mo < 100 by omega)
    (show p.d < 100 by omega) (show p.h < 100 by omega) (show p.mi < 100 by omega)
    (show p.s < 100 by omega) hmicros (hasOpt opts optUtcZ) (naiveOffset opts) hoffset
  refine ⟨(p.y, p.mo, p.d), (p.h, p.mi, p.s, shownMicros opts p.us), ?_, ?_⟩
  · have hbytes : ∀ t : Bytes, (t.map UInt8.toNat).map UInt8.ofNat = t := by
      intro t
      rw [List.map_map]
      exact (List.map_congr_left fun b _ => UInt8.ofNat_toNat).trans (List.map_id t)
    rw [hbytes]
    exact hread
  · unfold fieldsMicros shownInstant shownMicros DateTimeParts.micros microsOfDay
    dsimp only
    split <;> omega

/-- What an element comes back as. -/
def dt64Value (opts : UInt32) (v : ℤ) (unit : Dt64Unit) : Value :=
  match dt64ToParts v unit with
  | some (.ok (some p)) => .str ((datetimeText p (naiveOffset opts) opts).map UInt8.toNat)
  | _ => .none

section Elements

variable {u : Dt64Unit} {v : ℤ} {us : Option ℤ}

lemma Dt64Shows.value (h : Dt64Shows u v us) (hargs : Dt64Args v u.mult) (opts : UInt32) :
    ShowsInstant opts us (dt64Value opts v u) := by
  cases us with
  | none =>
      unfold dt64Value
      rw [dt64ToParts_nat h]
      rfl
  | some us =>
      obtain ⟨p, hp, hvalid, hmicros⟩ := h.parts hargs
      unfold dt64Value
      rw [hp]
      refine ⟨_, rfl, ?_⟩
      rw [← hmicros]
      exact datetimeText_reads hvalid opts

/-- The text of an element is read as its value. -/
lemma Dt64Shows.readsAs (h : Dt64Shows u v us) (hargs : Dt64Args v u.mult) (opts : UInt32)
    (float : Bytes → Option UInt64) :
    ∃ t, dt64Text opts v u = .ok t ∧ ReadsAs float t (dt64Value opts v u) := by
  cases us with
  | none =>
      unfold dt64Text dt64Value
      rw [dt64ToParts_nat h]
      exact ⟨_, rfl, readsAs_null⟩
  | some us =>
      obtain ⟨p, hp, -, -⟩ := h.parts hargs
      unfold dt64Text dt64Value
      rw [hp]
      have hstring := isString_inQuotes (isIsoByte_datetimeText p (naiveOffset opts) opts)
      refine ⟨_, rfl, .string _, .string ⟨_, hstring.isScalar⟩, .string hstring, ?_, rfl⟩
      rw [Decode.treeOf, Decode.textOf_eq hstring.isScalar]
      rfl

end Elements

/-! ## Arrays of instants -/

namespace Host

variable {Obj H : Type} [DecidableEq Obj] {a : Allocator} {h : Host Obj H} {s : St Obj H a}
  {args : List Obj} {kw : List (String × Obj)} {A : Arguments Obj} {iface : PyArrayInterface}
  {unit : Dt64Unit}

/-- The call asks for an array of `datetime64` of the unit. -/
structure CallsForDatetimes (h : Host Obj H) (w : World Obj H) (args : List Obj)
    (kw : List (String × Obj)) (A : Arguments Obj) (iface : PyArrayInterface) (unit : Dt64Unit) : Prop
    extends h.CallsForArray w args kw A iface .dt64 where
  dtype : ∃ t, (h.env A none).dtypeAnswer w.heap A.obj = some t ∧ parseDt64 t = some unit

/-- The value of the element at an address. -/
def dt64At (h : Host Obj H) (w : H) (p : ℤ) : ℤ := signed 8 (readNumber (h.rt.memory w) p 8)

omit [DecidableEq Obj] in
lemma dt64Args_at (hunit : UnitInRange (some unit)) (w : H) (p : ℤ) :
    Dt64Args (h.dt64At w p) unit.mult := by
  obtain ⟨hlo, hhi⟩ := signed_eight_bounds (readNumber (h.rt.memory w) p 8)
  obtain ⟨hpos, hle⟩ := hunit unit rfl
  exact ⟨hlo, hhi, hpos, hle⟩

/-- **Instants survive.**  Take a call for an accepted array of `datetime64` of any unit, of which every
element is NaT or an instant of the years 0 to 9999.  `loads` reads what `dumps` returns as a nested list:
its item at an index is `None` for NaT, and else a string that the grammar of isoformat reads as the
instant of the element.  The text is below 4 GiB. -/
theorem loads_dumps_datetimes {B : Type} {float : Bytes → Option UInt64} {maxDepth : ℕ} (hstill : h.Still a)
    (hs : h.Ready s) (hcall : h.CallsForDatetimes s.world args kw A iface unit)
    {instants : List ℕ → Option ℤ} (hinstants : ∀ index, List.Forall₂ (· < ·) index iface.shape →
      Dt64Shows unit (h.dt64At s.world.heap (elementAddress iface.data iface.strides index))
        (instants index)) (hint : ℕ) {p : Decode.Parser B}
    {parse : Bytes → Except (Decode.ErrorType × ℕ) Decode.Tree} (hp : p.Reads parse)
    (hjson : Decode.ReadsJson parse float maxDepth) (hdepth : iface.shape.length ≤ maxDepth) :
    ∃ N bytes t v, (∀ fuel, N ≤ fuel → h.dumps hint fuel args kw s = .ok bytes t) ∧
      (bytes.length < 2 ^ 32 → ∀ arg, Decode.Carries bytes arg →
        ∀ (during : List Decode.Act) (t : Decode.Thread B), t.Sound →
        Decode.Answers (.ok v) (Decode.loads p (Decode.runAll p during) arg) t) ∧
      ∀ index, List.Forall₂ (· < ·) index iface.shape →
        ∃ x, v.item index = some x ∧ ShowsInstant A.opts (instants index) x := by
  have hlen : iface.shape.length = iface.strides.length :=
    iface.length_shape.trans iface.length_strides.symm
  obtain ⟨dtype, hdtype, hparse⟩ := hcall.dtype
  have hunit : UnitInRange (some unit) := unitInRange_of_parseDt64 hparse
  -- the unit is read only if there are elements
  obtain ⟨unit', hread, hsome⟩ : ∃ unit', (∀ k, (h.env A none).unitShape s.world.heap A.obj
      (decide (ElementType.dt64 = .dt64 ∧ 0 ∉ iface.shape)) k = k unit') ∧
      (0 ∉ iface.shape → unit' = some unit) := by
    by_cases hzero : 0 ∈ iface.shape
    · refine ⟨none, fun k => ?_, fun h => absurd hzero h⟩
      have hneeded : decide (ElementType.dt64 = .dt64 ∧ 0 ∉ iface.shape) = false := by simp [hzero]
      rw [hneeded, Env.unitShape, if_neg Bool.false_ne_true]
    · refine ⟨some unit, fun k => ?_, fun _ => rfl⟩
      have hneeded : decide (ElementType.dt64 = .dt64 ∧ 0 ∉ iface.shape) = true := by simp [hzero]
      rw [hneeded, Env.unitShape, if_pos rfl, hdtype]
      dsimp only
      rw [hparse]
  have hleaf : ∀ q ∈ elementAddresses (iface.shape.zip iface.strides) iface.data,
      ∃ t, Leaves.textAt ⟨h.fmt, A.opts, .dt64, unit'⟩ (h.rt.memory s.world.heap) q = .ok t ∧
        ReadsAs float t (dt64Value A.opts (h.dt64At s.world.heap q) unit) := by
    intro q hq
    rw [elementAddresses_eq_map hlen] at hq
    obtain ⟨index, hindex, rfl⟩ := List.mem_map.mp hq
    have hnonempty : 0 ∉ iface.shape := by
      intro hzero
      rw [indices_of_zero hzero] at hindex
      exact absurd hindex List.not_mem_nil
    rw [hsome hnonempty]
    exact (hinstants index (mem_indices.mp hindex)).readsAs (dt64Args_at hunit _ _) A.opts float
  obtain ⟨doc, n, tree, hdoc, hn, hdims, htree, hvalue⟩ := docAt_array hleaf
  obtain ⟨N, t, -, hrun⟩ := dumps_called hstill hs hint args kw
  have hnested : n.depth ≤ maxDepth := (hdims.trans_eq (length_dims iface)).trans hdepth
  refine ⟨N, dumpedText A.opts doc, t, tree.value, fun fuel hfuel => ?_, ?_, ?_⟩
  · rw [hrun fuel hfuel, meaning_array_unit hcall.toCallsForArray hread hdoc]
    rfl
  · intro hsize arg harg during t ht
    exact Decode.loads_isText hp hjson (isText_dumped hn) hsize hnested htree harg during ht
  · intro index hindex
    rw [hvalue, item_nestedValue _ hlen hindex]
    exact ⟨_, rfl, (hinstants index hindex).value (dt64Args_at hunit _ _) A.opts⟩

/-- An array of a NaT and of the second day of 1970. -/
def natThenDay : Snapshot ℕ where
  view
    | 1 => ⟨none, "PyCapsule", .capsule (some twoDatetimes)⟩
    | 4 => ⟨none, "int", .int 16⟩
    | 7 => ⟨none, "str", .str daysDtype⟩
    | _ => ⟨some 2, "numpy.ndarray", .other⟩
  tupleItems _ := []
  pyNone := 3
  memory p := if p = 7 then 0x80 else if p = 8 then 1 else 0
  answer
    | .getAttr 0 "__array_struct__" => .ok 1
    | _ => .ok 7

lemma natThenDay_cls (o : ℕ) : (natThenDay.view o).cls = none ∨ (natThenDay.view o).cls = some 2 := by
  unfold natThenDay
  dsimp only
  split
  · exact .inl rfl
  · exact .inl rfl
  · exact .inl rfl
  · exact .inr rfl

/-- The second item is a text of the second day. -/
theorem loads_dumps_datetimes_day : ∃ N bytes t v,
    (∀ fuel, N ≤ fuel → (numpyHost natThenDay Formats.fractions).dumps 0 fuel [0] [("option", 4)]
      (numpyState natThenDay) = .ok bytes t) ∧
    Decode.Answers (.ok v)
      (Decode.loads Decode.readerParser (Decode.runAll Decode.readerParser []) (.bytes bytes))
      Decode.freshThread ∧
    v.item [0] = some .none ∧ ∃ s, v.item [1] = some (.str s) ∧ IsInstant 16 s 86400000000 := by
  have hcall : (numpyHost natThenDay Formats.fractions).CallsForDatetimes (numpyState natThenDay).world [0]
      [("option", 4)] ⟨0, none, 16⟩ twoDatetimes ⟨.day, 1⟩ :=
    ⟨⟨rfl, rfl, ⟨⟨(), none, .ok (some numpyGroup)⟩, numpyGroup, rfl, rfl, rfl,
      fun _ h => absurd h (Option.not_mem_none _)⟩, rfl, ⟨1, rfl, rfl⟩, rfl, rfl⟩, _, rfl, by decide⟩
  have hnat : (numpyHost natThenDay Formats.fractions).dt64At () 0 = i64Min := by decide +kernel
  have hone : (numpyHost natThenDay Formats.fractions).dt64At () 8 = 1 := by decide +kernel
  have hday : Dt64Shows ⟨.day, 1⟩ 1 (some 86400000000) :=
    ⟨by decide, .inl ⟨(86400000000, 1), rfl, by decide, by rw [firstInstant_eq]; decide,
      by rw [lastInstant_eq]; decide⟩⟩
  have hinstants : ∀ index, List.Forall₂ (· < ·) index twoDatetimes.shape → Dt64Shows ⟨.day, 1⟩
      ((numpyHost natThenDay Formats.fractions).dt64At () (elementAddress 0 [8] index))
      (if index = [0] then none else some 86400000000) := by
    intro index hindex
    obtain ⟨i, rest, hi, hrest, rfl⟩ := List.forall₂_cons_right_iff.mp hindex
    obtain rfl := List.forall₂_nil_right_iff.mp hrest
    obtain rfl | rfl : i = 0 ∨ i = 1 := by omega
    · exact hnat
    · have haddress : elementAddress 0 [8] [1] = 8 := rfl
      rw [haddress, hone]
      exact hday
  have hstill := numpyHost_still Formats.fractions natThenDay_cls
  have hready := numpyHost_ready Formats.fractions natThenDay_cls
  obtain ⟨N, bytes, t, v, hrun, hloads, hitem⟩ := loads_dumps_datetimes hstill hready hcall hinstants 0
    Decode.readerParser_reads (Decode.readTree_readsJson 1) le_rfl
  have hlength : ((numpyHost natThenDay Formats.fractions).meaning (numpyState natThenDay).world [0]
      [("option", 4)]).result.map List.length = some 28 := by decide +kernel
  have hsize : bytes.length = 28 := length_of_dumps hstill hready hlength (hrun N le_rfl)
  refine ⟨N, bytes, t, v, hrun, hloads (by rw [hsize]; norm_num) _ .bytes [] _
    Decode.fresh_freshThread.sound, ?_, ?_⟩
  · obtain ⟨x, hx, rfl⟩ := hitem [0] (.cons (by decide) .nil)
    exact hx
  · obtain ⟨x, hx, s, rfl, hs⟩ := hitem [1] (.cons (by decide) .nil)
    exact ⟨s, hx, hs⟩

end Host

end Isojson
