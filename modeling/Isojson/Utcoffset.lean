import Isojson.Isoformat
import Isojson.Requests

/-!
# UTC offsets

The offset of a `datetime` or `time` as `utcoffset_of` finds it.  `offsetAnswer` says what it
should be, from the replies of the tzinfo and of the object's own `utcoffset()`; the code agrees,
so every offset that is written is under a day, and the text reads back
(`datetime_time_isoformat`).
-/

namespace Isojson

open IsoTime Run

variable {Obj H : Type} {a : Allocator}

/-! ## The answer -/

namespace Runtime

variable (rt : Runtime Obj H)

/-- The offset an object stands for. -/
def offsetOf (h : H) (r : Obj) : Option ℤ :=
  match (rt.view h r).body with
  | .delta d => some d.micros
  | _ => none

/-- What `obj.utcoffset()` answers, with the world behind it; `none` if it raises. -/
def ownAnswer (obj : Obj) (w : World Obj H) : Option (Option ℤ × World Obj H) :=
  match rt.reply (.ownUtcoffset obj) w with
  | (.raised _, _) => none
  | (.ok r, w) => some (rt.offsetOf w.heap r, w)

/-- The offset of `obj`: none without a tzinfo, `tzinfo.utcoffset(arg)` if that is `None` or a
timedelta under a day, and what `obj.utcoffset()` decides otherwise. -/
def offsetAnswer (obj tzinfo arg : Obj) (w : World Obj H) : Option (Option ℤ × World Obj H) :=
  match (rt.view w.heap tzinfo).body with
  | .none => some (none, w)
  | _ =>
      match rt.reply (.utcoffset tzinfo arg) w with
      | (.raised _, _) => none
      | (.ok r, w) =>
          match (rt.view w.heap r).body with
          | .none => some (none, w)
          | .delta d => if d.UnderADay then some (some d.micros, w) else rt.ownAnswer obj w
          | _ => rt.ownAnswer obj w

/-- The part of the answer that goes by what `tzinfo.utcoffset(arg)` returned. -/
def offsetReplied (obj r : Obj) (w : World Obj H) : Option (Option ℤ × World Obj H) :=
  match (rt.view w.heap r).body with
  | .none => some (none, w)
  | .delta d => if d.UnderADay then some (some d.micros, w) else rt.ownAnswer obj w
  | _ => rt.ownAnswer obj w

variable {obj tzinfo arg r : Obj} {w : World Obj H}

lemma offsetAnswer_naive (h : (rt.view w.heap tzinfo).body = .none) :
    rt.offsetAnswer obj tzinfo arg w = some (none, w) := by
  rw [offsetAnswer, h]

lemma offsetAnswer_aware (h : (rt.view w.heap tzinfo).body = .none → False) :
    rt.offsetAnswer obj tzinfo arg w = match rt.reply (.utcoffset tzinfo arg) w with
      | (.raised _, _) => none
      | (.ok r, w) => rt.offsetReplied obj r w := by
  unfold offsetAnswer
  split
  · next h' => exact (h h').elim
  · rfl

lemma offsetReplied_none (h : (rt.view w.heap r).body = .none) :
    rt.offsetReplied obj r w = some (none, w) := by
  rw [offsetReplied, h]

lemma offsetReplied_delta {d : TimeDelta} (h : (rt.view w.heap r).body = .delta d) :
    rt.offsetReplied obj r w = if d.UnderADay then some (some d.micros, w) else rt.ownAnswer obj w := by
  rw [offsetReplied, h]

lemma offsetReplied_other (hnone : (rt.view w.heap r).body = .none → False)
    (hdelta : ∀ d, (rt.view w.heap r).body = .delta d → False) :
    rt.offsetReplied obj r w = rt.ownAnswer obj w := by
  unfold offsetReplied
  split
  · next h => exact (hnone h).elim
  · next d h => exact (hdelta d h).elim
  · rfl

end Runtime

/-- **A timedelta is accepted** as it is if and only if it is strictly between -24 h and 24 h. -/
lemma acceptsDelta_iff (d : TimeDelta) : Env.acceptsDelta d = true ↔ d.UnderADay := by
  have hs := d.seconds_lt
  have hus := d.microseconds_lt
  unfold Env.acceptsDelta TimeDelta.UnderADay TimeDelta.micros
  simp only [Bool.or_eq_true, Bool.and_eq_true, beq_iff_eq, bne_iff_ne]
  constructor
  · rintro (h | ⟨h, h' | h'⟩) <;> constructor <;> omega
  · intro h
    by_cases h0 : d.days = 0
    · exact Or.inl h0
    · refine Or.inr ⟨by omega, ?_⟩
      by_cases hz : d.seconds = 0
      · exact Or.inr (by omega)
      · exact Or.inl hz

/-! ## What the code finds -/

namespace Env

variable (e : Env Obj H) {C : St Obj H a → Prop}

lemma utcoffsetRaised_spec {α : Type} {Q : α → St Obj H a → Prop} (what : String) {s : St Obj H a}
    (h : s.exc.isSome) :
    wp C (e.utcoffsetRaised what) Q (fun _ s' => s'.exc.isSome) s := by
  unfold utcoffsetRaised
  rw [wp_bind]
  refine (Host.fetchExc_spec s).mono ?_ (fun _ _ h => h) fun _ h => h
  rintro _ s1 ⟨rfl, -, -⟩
  obtain ⟨cause, hcause⟩ := Option.isSome_iff_exists.mp h
  rw [hcause]
  simp only [wp_bind]
  refine (e.describeException_spec e.guard cause s1).mono (fun text s2 _ => ?_) (fun _ _ h => h)
    fun _ h => h
  exact e.raiseTypeErrorCausedBy_spec _ _ s2

/-- What a timedelta or `None` that was answered stands for. -/
lemma deltaUs_spec {E : PendingPyErr → St Obj H a → Prop} {r : Obj} {s : St Obj H a}
    (h : (e.rt.view s.world.heap r).body = .none ∨
      ∃ d, (e.rt.view s.world.heap r).body = .delta d) :
    wp C (e.deltaUs r) (fun o s' => o = e.rt.offsetOf s.world.heap r ∧ s'.world = s.world ∧
      s'.exc = s.exc) E s := by
  unfold Host.deltaUs Runtime.offsetOf
  rw [wp_bind, Host.wp_look]
  rcases h with h | ⟨d, h⟩
  · rw [h]
    exact ⟨rfl, rfl, rfl⟩
  · rw [h]
    exact ⟨rfl, rfl, rfl⟩

lemma ownUtcoffset_spec (obj : Obj) (what : String) (s : St Obj H a) :
    wp C (e.ownUtcoffset obj what)
      (fun o s' => e.rt.ownAnswer obj s.world = some (o, s'.world) ∧ s'.exc = s.exc)
      (fun _ s' => e.rt.ownAnswer obj s.world = none ∧ s'.exc.isSome) s := by
  unfold ownUtcoffset Runtime.ownAnswer
  rw [wp_bind, wp_event, wp_bind]
  refine e.wp_call (fun r w hr => ?_) fun exc w hr => ?_
  · simp only at hr ⊢
    rw [hr]
    refine (e.deltaUs_spec ?_).mono ?_ (fun _ _ h => h) fun _ h => h
    · exact (e.rt.ownUtcoffset_valid _ _ _ _ hr).imp id fun ⟨d, hd, _⟩ => ⟨d, hd⟩
    · rintro o s' ⟨rfl, hw, hexc⟩
      exact ⟨by rw [hw], hexc⟩
  · simp only at hr ⊢
    rw [hr]
    exact (e.utcoffsetRaised_spec what rfl).mono (fun _ _ h => h) (fun _ _ h => ⟨rfl, h⟩)
      fun _ h => h

/-- **`utcoffset_of`** finds the offset, or raises where the answer is an exception. -/
lemma utcoffsetOf_spec (obj tzinfo arg : Obj) (what : String) (s : St Obj H a) :
    wp C (e.utcoffsetOf obj tzinfo arg what)
      (fun o s' => e.rt.offsetAnswer obj tzinfo arg s.world = some (o, s'.world) ∧ s'.exc = s.exc)
      (fun _ s' => e.rt.offsetAnswer obj tzinfo arg s.world = none ∧ s'.exc.isSome) s := by
  unfold utcoffsetOf
  rw [wp_bind, Host.wp_look]
  split
  · next h =>
    rw [e.rt.offsetAnswer_naive h]
    exact ⟨rfl, rfl⟩
  · next hsome =>
    rw [e.rt.offsetAnswer_aware hsome, wp_bind]
    refine e.wp_call (fun r w hr => ?_) fun exc w hr => ?_
    · simp only at hr ⊢
      rw [hr]
      simp only [wp_bind, Host.wp_look]
      split
      · next h =>
        rw [e.rt.offsetReplied_none h]
        refine (e.deltaUs_spec (Or.inl h)).mono ?_ (fun _ _ h => h) fun _ h => h
        rintro o s' ⟨rfl, hw, hexc⟩
        exact ⟨by simp only [Runtime.offsetOf, h, hw], hexc⟩
      · next d h =>
        rw [e.rt.offsetReplied_delta h]
        simp only [acceptsDelta_iff]
        split
        · refine (e.deltaUs_spec (Or.inr ⟨d, h⟩)).mono ?_ (fun _ _ h => h) fun _ h => h
          rintro o s' ⟨rfl, hw, hexc⟩
          exact ⟨by simp only [Runtime.offsetOf, h, hw], hexc⟩
        · exact e.ownUtcoffset_spec obj what _
      · next hnone hdelta =>
        rw [e.rt.offsetReplied_other hnone hdelta]
        exact e.ownUtcoffset_spec obj what _
    · simp only at hr ⊢
      rw [hr]
      exact (e.utcoffsetRaised_spec what rfl).mono (fun _ _ h => h) (fun _ _ h => ⟨rfl, h⟩)
        fun _ h => h

end Env

/-! ## The texts -/

/-- An answer is under a day. -/
lemma Runtime.offsetAnswer_lt (rt : Runtime Obj H) {obj tzinfo arg : Obj} {w w' : World Obj H}
    {us : ℤ} (h : rt.offsetAnswer obj tzinfo arg w = some (some us, w')) :
    us.natAbs < 86400000000 := by
  have hown : ∀ {w w'}, rt.ownAnswer obj w = some (some us, w') → us.natAbs < 86400000000 := by
    intro w w' h
    unfold ownAnswer at h
    split at h
    · exact absurd h (by simp)
    · next r w1 hr =>
      simp only [Option.some.injEq, Prod.mk.injEq] at h
      rcases rt.ownUtcoffset_valid obj w r w1 hr with hv | ⟨d, hv, hlo, hhi⟩
      · simp only [offsetOf, hv, reduceCtorEq, false_and] at h
      · simp only [offsetOf, hv, Option.some.injEq] at h
        omega
  unfold offsetAnswer at h
  split at h
  · simp at h
  · split at h
    · exact absurd h (by simp)
    · split at h
      · simp at h
      · next d _ =>
        split at h
        · next hd =>
          obtain ⟨hlo, hhi⟩ := hd
          simp only [Option.some.injEq, Prod.mk.injEq] at h
          omega
        · exact hown h
      · exact hown h

/-- The offset of a `datetime` as the options adjust it. -/
def adjustedOffset (opts : UInt32) : Option ℤ → Option ℤ
  | some o => some o
  | none => if hasOpt opts optNaiveUtc then some 0 else none

/-- An offset is one under a day, in microseconds. -/
def OffsetUnderADay (offset : Option ℤ) : Prop := ∀ us ∈ offset, us.natAbs < 86400000000

lemma OffsetUnderADay.fits {offset : Option ℤ} (h : OffsetUnderADay offset) : OffsetFits offset :=
  fun us hus => (h us hus).trans (by decide)

lemma OffsetUnderADay.adjusted {offset : Option ℤ} (h : OffsetUnderADay offset) (opts : UInt32) :
    OffsetUnderADay (adjustedOffset opts offset) := by
  cases offset with
  | some o => exact h
  | none =>
      intro us hus
      rw [adjustedOffset] at hus
      by_cases hn : hasOpt opts optNaiveUtc = true
      · rw [if_pos hn] at hus
        obtain rfl := Option.some.inj hus
        decide
      · rw [if_neg hn] at hus
        exact absurd hus (Option.not_mem_none us)

namespace Env

variable (e : Env Obj H)

/-- **`datetime`** appends the text of the option-adjusted object. -/
lemma datetime_spec {obj tzinfo : Obj} {d : PyDate} {t : PyTime} {s : St Obj H a}
    (h : (e.rt.view s.world.heap obj).body = .datetime d t tzinfo) :
    wp (fun _ => False) (e.datetime obj)
      (fun _ s' => ∃ answer, e.rt.offsetAnswer obj tzinfo obj s.world = some (answer, s'.world) ∧
        (s.exc = none → s'.exc = none) ∧ s'.out.content = s.out.content ++ inQuotes (datetimeText
          ⟨d.y, d.mo, d.d, t.h, t.mi, t.s, t.us⟩ (adjustedOffset e.opts answer) e.opts))
      (fun _ s' => e.rt.offsetAnswer obj tzinfo obj s.world = none ∧ s'.exc.isSome) s := by
  unfold datetime
  rw [wp_bind, Host.wp_look, h]
  simp only [wp_bind, wp_event]
  refine (((e.utcoffsetOf_spec obj tzinfo obj "datetime" _).frame
    (e.asks_utcoffsetOf obj tzinfo obj "datetime").preserves).mono ?_ ?_ fun _ h => h)
  · rintro answer s1 ⟨⟨hanswer, hexc⟩, hframe⟩
    have hday : OffsetUnderADay answer := by
      rintro us rfl
      exact e.rt.offsetAnswer_lt hanswer
    have hout : s1.out = s.out := congrArg Prod.fst hframe
    obtain ⟨out, hw, hc⟩ := writeDatetime_spec s1.out ⟨d.y, d.mo, d.d, t.h, t.mi, t.s, t.us⟩
      (hday.adjusted e.opts).fits e.opts
    rw [wp_get]
    refine (wp_unchecked hw).mpr ?_
    exact ⟨answer, hanswer, fun h => St.exc_written (hexc.trans h) _, by rw [← hout]; exact hc⟩
  · rintro _ s1 ⟨hnone, -⟩
    exact hnone

lemma date_spec {obj : Obj} {d : PyDate} {s : St Obj H a}
    (h : (e.rt.view s.world.heap obj).body = .date d) :
    wp (fun _ => False) (e.date obj)
      (fun _ s' => s'.world = s.world ∧ (s.exc = none → s'.exc = none) ∧
        s'.out.content = s.out.content ++ inQuotes (dateText d.y d.mo d.d))
      (fun _ _ => False) s := by
  unfold date
  rw [wp_bind, Host.wp_look, h]
  obtain ⟨out, hw, hc⟩ := writeDate_spec s.out d
  simp only [wp_bind, wp_get]
  rw [wp_unchecked hw]
  exact ⟨rfl, fun h => St.exc_written (s := { s with log := _ }) h _, hc⟩

/-- `NAIVE_UTC` and `UTC_Z` are masked out for a `time`. -/
lemma hasOpt_timeOpts (opts : UInt32) :
    hasOpt (opts &&& ~~~(optNaiveUtc ||| optUtcZ)) optUtcZ = false ∧
      hasOpt (opts &&& ~~~(optNaiveUtc ||| optUtcZ)) optOmitMicroseconds =
        hasOpt opts optOmitMicroseconds :=
  ⟨hasOpt_and_of_drop (by decide), hasOpt_and_of_keep (by decide)⟩

/-- **`time`** appends its text, with its own offset. -/
lemma time_spec {obj tzinfo : Obj} {t : PyTime} {s : St Obj H a}
    (h : (e.rt.view s.world.heap obj).body = .time t tzinfo) :
    wp (fun _ => False) (e.time obj)
      (fun _ s' => ∃ answer,
        e.rt.offsetAnswer obj tzinfo e.rt.pyNone s.world = some (answer, s'.world) ∧
        (s.exc = none → s'.exc = none) ∧ s'.out.content = s.out.content ++ inQuotes
          (timeText t.h t.mi t.s (shownMicros e.opts t.us) ++ zoneText false answer))
      (fun _ s' => e.rt.offsetAnswer obj tzinfo e.rt.pyNone s.world = none ∧ s'.exc.isSome) s := by
  unfold time
  dsimp only
  rw [wp_bind, Host.wp_look, h]
  simp only [wp_bind, wp_event]
  refine (((e.utcoffsetOf_spec obj tzinfo e.rt.pyNone "time" _).frame
    (e.asks_utcoffsetOf obj tzinfo e.rt.pyNone "time").preserves).mono ?_ ?_ fun _ h => h)
  · rintro answer s1 ⟨⟨hanswer, hexc⟩, hframe⟩
    have hday : OffsetUnderADay answer := by
      rintro us rfl
      exact e.rt.offsetAnswer_lt hanswer
    have hout : s1.out = s.out := congrArg Prod.fst hframe
    obtain ⟨out, hw, hc⟩ := writeTime_spec s1.out t hday.fits (e.opts &&& ~~~(optNaiveUtc ||| optUtcZ))
    rw [wp_get]
    refine (wp_unchecked hw).mpr
      ⟨answer, hanswer, fun h => St.exc_written (hexc.trans h) _, ?_⟩
    obtain ⟨hz, ho⟩ := hasOpt_timeOpts e.opts
    rw [← hout]
    refine hc.trans ?_
    rw [timeOffsetText, shownMicros, hz, ho, shownMicros]
  · rintro _ s1 ⟨hnone, -⟩
    exact hnone

end Env

lemma daysInMonth_le (y m : ℕ) : Calendar.daysInMonth y m ≤ 31 := by
  unfold Calendar.daysInMonth
  split <;> (try split) <;> omega

/-- **Dates and times are written as their `isoformat()`.**  Whatever the tzinfo answers, the
writers of `datetime` and `time` never panic: they raise where the answer is an exception, and
append the quoted text of the option-adjusted object otherwise.  The offset in it is under a day,
and a reader of the grammar gets the fields and the offset back from the text. -/
theorem datetime_time_isoformat (e : Env Obj H) (obj : Obj) (s : St Obj H a) :
    (∀ d t tzinfo, (e.rt.view s.world.heap obj).body = .datetime d t tzinfo →
      wp (fun _ => False) (e.datetime obj)
        (fun _ s' => ∃ answer text,
          e.rt.offsetAnswer obj tzinfo obj s.world = some (answer, s'.world) ∧
          OffsetUnderADay (adjustedOffset e.opts answer) ∧
          text = dateText d.y d.mo d.d ++ 84 :: (timeText t.h t.mi t.s (shownMicros e.opts t.us) ++
            zoneText (hasOpt e.opts optUtcZ) (adjustedOffset e.opts answer)) ∧
          s'.out.content = s.out.content ++ inQuotes text ∧
          readDateTime text = some ((d.y, d.mo, d.d), (t.h, t.mi, t.s, shownMicros e.opts t.us),
            adjustedOffset e.opts answer))
        (fun _ _ => e.rt.offsetAnswer obj tzinfo obj s.world = none) s) ∧
    (∀ t tzinfo, (e.rt.view s.world.heap obj).body = .time t tzinfo →
      wp (fun _ => False) (e.time obj)
        (fun _ s' => ∃ answer text,
          e.rt.offsetAnswer obj tzinfo e.rt.pyNone s.world = some (answer, s'.world) ∧
          OffsetUnderADay answer ∧
          text = timeText t.h t.mi t.s (shownMicros e.opts t.us) ++ zoneText false answer ∧
          s'.out.content = s.out.content ++ inQuotes text ∧
          readTimeOffset text = some ((t.h, t.mi, t.s, shownMicros e.opts t.us), answer))
        (fun _ _ => e.rt.offsetAnswer obj tzinfo e.rt.pyNone s.world = none) s) ∧
    ∀ delta : TimeDelta, Env.acceptsDelta delta = true ↔ delta.UnderADay := by
  have hus : ∀ t : PyTime, shownMicros e.opts t.us < 1000000 := by
    intro t
    have := t.us_lt
    unfold shownMicros
    split <;> omega
  refine ⟨fun d t tzinfo h => ?_, fun t tzinfo h => ?_, acceptsDelta_iff⟩
  · refine (e.datetime_spec h).mono ?_ (fun _ _ h => h.1) fun _ h => h
    rintro _ s' ⟨answer, hanswer, -, hc⟩
    have hday : OffsetUnderADay (adjustedOffset e.opts answer) := by
      apply OffsetUnderADay.adjusted
      rintro us rfl
      exact e.rt.offsetAnswer_lt hanswer
    refine ⟨answer, _, hanswer, hday, rfl, hc, ?_⟩
    have hy := d.y_le
    obtain ⟨hmo1, hmo2, hd1, hd2⟩ := d.valid
    have hdays := daysInMonth_le d.y d.mo
    have hh := t.h_lt
    have hmi := t.mi_lt
    have hs := t.s_lt
    exact readDateTime_text (by omega) (by omega) (by omega) (by omega) (by omega) (by omega) (hus t)
      _ _ hday.fits
  · refine (e.time_spec h).mono ?_ (fun _ _ h => h.1) fun _ h => h
    rintro _ s' ⟨answer, hanswer, -, hc⟩
    have hday : OffsetUnderADay answer := by
      rintro us rfl
      exact e.rt.offsetAnswer_lt hanswer
    refine ⟨answer, _, hanswer, hday, rfl, hc, ?_⟩
    have hh := t.h_lt
    have hmi := t.mi_lt
    have hs := t.s_lt
    exact readTimeOffset_text (by omega) (by omega) (by omega) (hus t) false answer hday.fits

/-- A `datetime` whose tzinfo answers half a second before UTC, and its tzinfo and answer. -/
def halfSecondWest : Snapshot ℕ where
  view
    | 0 => ⟨none, "datetime.datetime", .datetime ⟨1970, 1, 31, by decide, by decide⟩
        ⟨23, 59, 0, 250000, by decide, by decide, by decide, by decide⟩ 1⟩
    | 2 => ⟨none, "datetime.timedelta", .delta ⟨-1, 86399, 500000, by decide, by decide⟩⟩
    | _ => ⟨none, "tzinfo", .other⟩
  tupleItems _ := []
  pyNone := 3
  memory _ := 0
  answer _ := .ok 2

/-- It is written with its negative offset. -/
theorem datetime_time_isoformat_west :
    ∃ s', Env.datetime ⟨halfSecondWest.host, none, 0, true, MAX_DEPTH⟩ 0
        (halfSecondWest.state ⟨none, none⟩) = .ok () s' ∧
      s'.out.content = Bytes.ascii "\"1970-01-31T23:59:00.250000-00:00:00.500000\"" := by
  have h := (datetime_time_isoformat ⟨halfSecondWest.host, none, 0, true, MAX_DEPTH⟩ 0
    (halfSecondWest.state ⟨none, none⟩)).1 _ _ _ rfl
  have hanswer : halfSecondWest.runtime.offsetAnswer 0 1 0 ⟨(), ⟨none, none⟩⟩ =
      some (some (-500000), ⟨(), ⟨none, none⟩⟩) := by
    rfl
  rcases h.cases with ⟨_, s', hrun, answer, text, ha, -, htext, hc, -⟩ | ⟨_, s', -, hnone⟩
  · obtain rfl : answer = some (-500000) := by
      have := ha.symm.trans hanswer
      simp only [Option.some.injEq, Prod.mk.injEq] at this
      exact this.1
    refine ⟨s', hrun, hc.trans ?_⟩
    subst htext
    decide
  · exact absurd (hnone.symm.trans hanswer) (by simp)

end Isojson
