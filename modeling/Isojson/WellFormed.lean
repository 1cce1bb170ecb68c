import Isojson.Arrays
import Isojson.Integers
import Isojson.Utcoffset

/-!
# What `dumps` returns is JSON

Whatever Python code does to the containers while they are written, a `serialize` that returns
has appended the layout of one document (`Wrote`), at the depth it started at.  The document
need not be any state of the object: it is put together from what the loops found, step by step.
-/

namespace Isojson

open Json Run

variable {Obj H : Type} {a : Allocator}

/-! ## Scalar texts -/

/-- The third-party formatters write JSON numbers. -/
structure Formats.WriteNumbers (fmt : Formats) : Prop where
  itoa : ∀ z, i64Min ≤ z → z ≤ Env.u64Max → IsNumber (fmt.itoa z)
  zmij64 : ∀ v, isFinite64 v = true → IsNumber (fmt.zmij64 v)
  zmij32 : ∀ v, isFinite32 v = true → IsNumber (fmt.zmij32 v)

/-- A text that is a scalar. -/
def IsScalarText (t : Bytes) : Prop := ∃ n, Scalar t n

lemma isScalarText_null : IsScalarText (Bytes.ascii "null") := ⟨_, .null⟩

lemma isScalarText_bool (b : Bool) :
    IsScalarText (if b then Bytes.ascii "true" else Bytes.ascii "false") := by
  cases b
  · exact ⟨_, .false⟩
  · exact ⟨_, .true⟩

namespace Formats.WriteNumbers

variable {fmt : Formats} (h : fmt.WriteNumbers)

include h

lemma f64Text (v : UInt64) : IsScalarText (Buffer.f64Text fmt v) := by
  unfold Buffer.f64Text
  split
  · next hv => exact ⟨_, .number (h.zmij64 v hv)⟩
  · exact isScalarText_null

lemma f32Text (v : UInt32) : IsScalarText (Buffer.f32Text fmt v) := by
  unfold Buffer.f32Text
  split
  · next hv => exact ⟨_, .number (h.zmij32 v hv)⟩
  · exact isScalarText_null

lemma itoaText {z : ℤ} (hlo : i64Min ≤ z) (hhi : z ≤ Env.u64Max) : IsScalarText (fmt.itoa z) :=
  ⟨_, .number (h.itoa z hlo hhi)⟩

end Formats.WriteNumbers

lemma isNumber_zero : IsNumber (Bytes.ascii "0.0") := by
  have hzero : IsDigits [48] := ⟨by simp, by simp [Decimal.IsDigit]⟩
  exact ⟨[], [48], [46, 48], [], .inl rfl, .inl rfl, .inr ⟨[48], hzero, rfl⟩, .inl rfl, rfl⟩

lemma Formats.writeNumbers_plain : Formats.plain.WriteNumbers where
  itoa z hlo hhi := by
    rw [Formats.plain_itoa ⟨hlo, hhi⟩]
    exact isNumber_intText z
  zmij64 _ _ := isNumber_zero
  zmij32 _ _ := isNumber_zero

lemma isScalarText_dt64 {opts : UInt32} {v : ℤ} {unit : Dt64Unit} {t : Bytes}
    (h : dt64Text opts v unit = .ok t) : IsScalarText t := by
  unfold dt64Text at h
  split at h
  · obtain rfl := Except.ok.inj h
    obtain ⟨s, hs⟩ := isString_datetime _ _ _
    exact ⟨_, .string hs⟩
  · exact absurd h (by simp)
  · exact absurd h (by simp)
  · obtain rfl := Except.ok.inj h
    exact isScalarText_null

/-- The value of an integer element fits into 64 bits. -/
lemma ElementType.intValue_bounds {elem : ElementType} {n : ℕ} {z : ℤ}
    (hn : n < 256 ^ elem.size) (h : elem.intValue n = some z) :
    i64Min ≤ z ∧ z ≤ Env.u64Max := by
  have hsigned : ∀ w, w = 1 ∨ w = 2 ∨ w = 4 ∨ w = 8 →
      i64Min ≤ signed w n ∧ signed w n ≤ Env.u64Max := by
    rintro w (rfl | rfl | rfl | rfl) <;> unfold signed i64Min Env.u64Max <;>
      constructor <;> simp only [Int.bmod_def] <;> norm_num <;> split_ifs <;> omega
  cases elem <;> simp only [intValue, Option.some.injEq, reduceCtorEq] at h <;> subst h
  · exact hsigned 8 (by simp)
  · exact hsigned 4 (by simp)
  · exact hsigned 2 (by simp)
  · exact hsigned 1 (by simp)
  all_goals
    simp only [size, i64Min, Env.u64Max] at hn ⊢
    norm_num at hn
    omega

/-- Every element of an array or scalar is a scalar text, where its unit is known. -/
lemma Leaves.isScalarText {l : Leaves} (h : l.fmt.WriteNumbers)
    (hunit : l.elem = .dt64 → l.unit.isSome) {n : ℕ} (hn : n < 256 ^ l.elem.size) {t : Bytes}
    (ht : l.text n = .ok t) : IsScalarText t := by
  have hint : ∀ z, l.elem.intValue n = some z → IsScalarText (l.fmt.itoa z) := by
    intro z hz
    obtain ⟨hlo, hhi⟩ := ElementType.intValue_bounds hn hz
    exact h.itoaText hlo hhi
  obtain ⟨fmt, opts, elem, unit⟩ := l
  cases elem with
  | bool =>
      obtain rfl := Except.ok.inj ht
      simpa using isScalarText_bool (decide (n ≠ 0))
  | f16 =>
      obtain rfl := Except.ok.inj ht
      exact h.f32Text _
  | f32 =>
      obtain rfl := Except.ok.inj ht
      exact h.f32Text _
  | f64 =>
      obtain rfl := Except.ok.inj ht
      exact h.f64Text _
  | dt64 =>
      obtain ⟨unit, rfl⟩ := Option.isSome_iff_exists.mp (hunit rfl)
      simp only [text] at ht
      exact isScalarText_dt64 ht
  | i64 | i32 | i16 | i8 | u64 | u32 | u16 | u8 =>
      simp only [text, ElementType.intValue, Except.ok.injEq] at ht
      subst ht
      apply hint
      simp only [ElementType.intValue]

/-! ## Arrays -/

/-- An item of a row that is all there. -/
lemma mapM_ok_forall {α β ε : Type} {f : α → Except ε β} {l : List α} {ys : List β}
    (h : l.mapM f = .ok ys) : ∀ y ∈ ys, ∃ x ∈ l, f x = .ok y := by
  induction l generalizing ys with
  | nil =>
      obtain rfl := Except.ok.inj h
      simp
  | cons x l ih =>
      obtain ⟨z, zs, hx, hl, rfl⟩ := mapM_cons_ok h
      intro y hy
      rcases List.mem_cons.mp hy with rfl | hy
      · exact ⟨x, List.mem_cons_self .., hx⟩
      · obtain ⟨x', hx', hfx⟩ := ih hl y hy
        exact ⟨x', List.mem_cons_of_mem _ hx', hfx⟩

/-- Documents that each stand for something. -/
lemma itemsStand_of_forall {ds : List Doc} (h : ∀ d ∈ ds, ∃ n, d.Stands n) :
    ∃ ns, ItemsStand ds ns := by
  induction ds with
  | nil => exact ⟨[], .nil⟩
  | cons d ds ih =>
      obtain ⟨hd, hds⟩ := List.forall_mem_cons.mp h
      obtain ⟨n, hn⟩ := hd
      obtain ⟨ns, hns⟩ := ih hds
      exact ⟨n :: ns, .cons hn hns⟩

/-- The document of an array whose leaves are scalar texts, or that has no leaf. -/
lemma arrayDoc_stands {text : ℤ → Except Decline Bytes} {dims : List (ℕ × ℤ)}
    (h : (∀ p t, text p = .ok t → IsScalarText t) ∨ 0 ∈ dims.map Prod.fst) {p : ℤ} {doc : Doc}
    (hdoc : arrayDoc text dims p = .ok doc) : ∃ n, doc.Stands n := by
  induction dims generalizing p doc with
  | nil =>
      rcases h with h | h
      · rw [arrayDoc] at hdoc
        cases ht : text p with
        | error e =>
            rw [ht] at hdoc
            exact absurd hdoc (by simp [Except.map])
        | ok t =>
            rw [ht] at hdoc
            obtain rfl := Except.ok.inj hdoc
            obtain ⟨n, hn⟩ := h p t ht
            exact ⟨n, .leaf hn⟩
      · exact absurd h List.not_mem_nil
  | cons dim dims ih =>
      obtain ⟨len, stride⟩ := dim
      rw [arrayDoc] at hdoc
      cases hitems : (rowAddresses p len stride).mapM (arrayDoc text dims) with
      | error e =>
          rw [hitems] at hdoc
          exact absurd hdoc (by simp [Except.map])
      | ok docs =>
          rw [hitems] at hdoc
          obtain rfl := Except.ok.inj hdoc
          have hall : ∀ d ∈ docs, ∃ n, d.Stands n := by
            by_cases hlen : len = 0
            · subst hlen
              obtain rfl := Except.ok.inj hitems
              simp
            · have h' : (∀ p t, text p = .ok t → IsScalarText t) ∨ 0 ∈ dims.map Prod.fst := by
                refine h.imp id fun h => ?_
                rw [List.map_cons, List.mem_cons] at h
                exact h.resolve_left fun h => hlen h.symm
              intro d hd
              obtain ⟨q, -, hq⟩ := mapM_ok_forall hitems d hd
              exact ih h' hq
          obtain ⟨ns, hns⟩ := itemsStand_of_forall hall
          exact ⟨_, .arr hns⟩

/-! ## What a run appends -/

/-- The run appended the layout of a document at the depth it started at. -/
def Wrote (e : Env Obj H) (s s' : St Obj H a) : Prop :=
  s'.depth = s.depth ∧ ∃ (doc : Doc) (n : Node), doc.Stands n ∧
    s'.out.content = s.out.content ++ doc.render e.indent s.depth

/-- If the run returns, it has appended a document. -/
def Writes (e : Env Obj H) (m : Encode Obj H a Unit) : Prop :=
  ∀ s, wp (fun _ => True) m (fun _ s' => Wrote e s s') (fun _ _ => True) s

/-- If the run returns, it has appended a document or declined and left the output as it was. -/
def WritesOrDeclines (e : Env Obj H) (m : Encode Obj H a (Option Decline)) : Prop :=
  ∀ s, wp (fun _ => True) m (fun r s' => match r with
    | none => Wrote e s s'
    | some _ => s'.depth = s.depth ∧ s'.out.content = s.out.content) (fun _ _ => True) s

section Writes

variable {e : Env Obj H}

/-- The part of the frame that the texts depend on. -/
lemma St.frame_eq {s s' : St Obj H a} (h : s'.frame = s.frame) :
    s'.out = s.out ∧ s'.depth = s.depth :=
  ⟨congrArg Prod.fst h, congrArg (fun f => f.2.1) h⟩

lemma Wrote.of_frame {s s1 s' : St Obj H a} (h : s1.frame = s.frame) (hw : Wrote e s1 s') :
    Wrote e s s' := by
  obtain ⟨hout, hdepth⟩ := St.frame_eq h
  unfold Wrote at hw ⊢
  rwa [hout, hdepth] at hw

/-- A scalar text appended at the end. -/
lemma Wrote.scalar {s s' : St Obj H a} {t : Bytes} (ht : IsScalarText t) (hd : s'.depth = s.depth)
    (hc : s'.out.content = s.out.content ++ t) : Wrote e s s' := by
  obtain ⟨n, hn⟩ := ht
  exact ⟨hd, .leaf t, n, .leaf hn, hc⟩

/-- A run may begin with steps that leave the frame alone. -/
lemma Writes.after {α : Type} {m : Encode Obj H a α} {k : α → Encode Obj H a Unit}
    (hm : Preserves St.frame m) (hk : ∀ x, Writes e (k x)) : Writes e (m >>= k) := by
  intro s
  rw [wp_bind]
  refine (hm s).mono (fun x s1 h => ?_) (fun _ _ _ => trivial) fun _ _ => trivial
  exact (hk x s1).mono (fun _ _ hw => hw.of_frame h) (fun _ _ _ => trivial) fun _ _ => trivial

/-- A run may end with a release. -/
lemma Writes.onExit {m : Encode Obj H a Unit} (hm : Writes e m) {f : St Obj H a → St Obj H a}
    (hf : ∀ s, (f s).out = s.out ∧ (f s).depth = s.depth) : Writes e (onExit m f) := by
  intro s
  rw [wp_onExit]
  refine (hm s).mono (fun _ s' hw => ?_) (fun _ _ _ => trivial) fun _ _ => trivial
  obtain ⟨hout, hdepth⟩ := hf s'
  unfold Wrote at hw ⊢
  rwa [hout, hdepth]

lemma Writes.throw (x : PendingPyErr) : Writes e (Run.throw x : Encode Obj H a Unit) :=
  fun _ => trivial

lemma Writes.fault : Writes e (Run.fault : Encode Obj H a Unit) := fun _ => trivial

lemma Writes.fail (msg : String) : Writes e (e.fail msg : Encode Obj H a Unit) :=
  .after (e.asks_raiseTypeError msg).preserves fun _ => .throw _

/-- A run that appends one scalar text. -/
lemma Writes.emit {f : Buffer a → Buffer a} {t : Bytes} (ht : IsScalarText t)
    (hf : ∀ b, (f b).content = b.content ++ t) : Writes e (emit f : Encode Obj H a Unit) :=
  fun s => Wrote.scalar ht rfl (hf s.out)

end Writes

/-! ## Leaves -/

namespace Env

variable (e : Env Obj H)

/-- A `str` is written as a string text. -/
lemma str_wrote (obj : Obj) (s : St Obj H a) :
    wp (fun _ => True) (e.str obj) (fun _ s' => s'.depth = s.depth ∧ ∃ t chars,
      IsString t chars ∧ s'.out.content = s.out.content ++ t) (fun _ _ => True) s := by
  unfold str
  rw [wp_bind, Host.wp_look]
  split
  · next t _ =>
    simp only [wp_bind, wp_get, wp_emit]
    split
    · next hok =>
      have henc := (s.out.writeStr_ok_iff e.arch e.strfast t).mp hok
      have hscalar : ∀ c ∈ t.chars, Utf8.IsScalar c :=
        fun c hc => ⟨t.holds.code_points c hc, henc c hc⟩
      exact ⟨rfl, _, t.chars, isString_quoted hscalar, s.out.content_writeStr henc⟩
    · exact (e.fail_spec _ _).mono (fun _ _ h => h) (fun _ _ _ => trivial) fun _ h => h
  · trivial

lemma writes_str (obj : Obj) : Writes e (e.str obj : Encode Obj H a Unit) := by
  intro s
  refine (e.str_wrote obj s).mono ?_ (fun _ _ h => h) fun _ h => h
  rintro _ s' ⟨hd, t, chars, ht, hc⟩
  exact Wrote.scalar ⟨_, .string ht⟩ hd hc

lemma intOutside64Bits_wrote {obj : Obj} {z : ℤ} {s : St Obj H a}
    (hobj : (e.rt.view s.world.heap obj).body = .int z) :
    wp (fun _ => True) (e.intOutside64Bits obj z) (fun _ s' => Wrote e s s') (fun _ _ => True) s := by
  by_cases hstrict : hasOpt e.opts optStrictInteger = true
  · unfold intOutside64Bits
    rw [if_pos hstrict]
    exact Writes.fail _ s
  · rw [Bool.not_eq_true] at hstrict
    obtain ⟨log, hrun⟩ := intOutside64Bits_eq hobj hstrict
    unfold wp
    rw [hrun]
    rcases e.rt.reply (.toBase obj 10) s.world with ⟨text | exc, w⟩
    · dsimp only
      rcases e.rt.reply (.utf8 text) w with ⟨o | exc, w'⟩
      · exact Wrote.scalar ⟨_, .number (isNumber_intText z)⟩ rfl (Buffer.content_extend ..)
      · trivial
    · trivial

lemma writes_int (hfmt : e.fmt.WriteNumbers) (obj : Obj) :
    Writes e (e.int obj : Encode Obj H a Unit) := by
  have hput : ∀ z, i64Min ≤ z → z ≤ u64Max →
      Writes e (emit (·.writeInt e.fmt z) : Encode Obj H a Unit) :=
    fun z hlo hhi => .emit (hfmt.itoaText hlo hhi) fun b => b.content_writeInt e.fmt z
  intro s
  unfold int
  rw [wp_bind, Host.wp_look]
  cases hbody : (e.rt.view s.world.heap obj).body with
  | int z =>
      have hbig : ∀ exc, wp (fun _ => True) (e.intOutside64Bits obj z) (fun _ s' => Wrote e s s')
          (fun _ _ => True) { s with exc := exc, log := s.log ++ [.read (.obj obj)] } :=
        fun exc => e.intOutside64Bits_wrote hbody
      dsimp only
      split
      · next hz =>
        rw [wp_bind, wp_get]
        split
        · trivial
        · split
          · exact Writes.fail _ _
          · exact hput z hz.1 (hz.2.trans (by decide)) _
      · split
        · next hz =>
          unfold asUnsignedLongLong
          split
          · next hle =>
            simp only [wp_bind, wp_pure, wp_get]
            split
            · exact hput z (le_trans (by decide) hz.1.le) hle _
            · exact hbig none
          · simp only [wp_bind, wp_pure, wp_get, wp_setExc]
            rw [if_neg (by simp)]
            exact hbig none
        · exact hbig s.exc
  | _ => trivial

lemma preserves_depth_datetime (obj : Obj) :
    Preserves St.depth (e.datetime obj : Encode Obj H a Unit) := by
  refine (preserves_depth (e.preserves_look obj)).bind fun p => ?_
  split
  · refine (preserves_depth (asks_event _ : Asks e.rt _).preserves).bind fun _ =>
      (preserves_depth (e.asks_utcoffsetOf _ _ _ _).preserves).bind fun _ =>
      (preserves_depth (asks_event _ : Asks e.rt _).preserves).bind fun _ => Preserves.get.bind fun _ =>
      (Preserves.unchecked _).bind fun _ => .modify fun _ => rfl
  · exact .fault

lemma preserves_depth_date (obj : Obj) :
    Preserves St.depth (e.date obj : Encode Obj H a Unit) := by
  refine (preserves_depth (e.preserves_look obj)).bind fun p => ?_
  split
  · exact Preserves.get.bind fun _ => (Preserves.unchecked _).bind fun _ => .modify fun _ => rfl
  · exact .fault

lemma preserves_depth_time (obj : Obj) :
    Preserves St.depth (e.time obj : Encode Obj H a Unit) := by
  refine (preserves_depth (e.preserves_look obj)).bind fun p => ?_
  split
  · refine (preserves_depth (asks_event _ : Asks e.rt _).preserves).bind fun _ =>
      (preserves_depth (e.asks_utcoffsetOf _ _ _ _).preserves).bind fun _ =>
      (preserves_depth (asks_event _ : Asks e.rt _).preserves).bind fun _ => Preserves.get.bind fun _ =>
      (Preserves.unchecked _).bind fun _ => .modify fun _ => rfl
  · exact .fault

lemma writes_datetime (obj : Obj) : Writes e (e.datetime obj : Encode Obj H a Unit) := by
  intro s
  cases hp : (e.rt.view s.world.heap obj).body with
  | datetime d t tzinfo =>
      refine ((e.datetime_spec hp).and (e.preserves_depth_datetime obj s)).mono ?_
        (fun _ _ _ => trivial) fun _ _ => trivial
      rintro _ s' ⟨⟨answer, -, -, hc⟩, hd⟩
      obtain ⟨chars, hstring⟩ := isString_datetime _ _ _
      exact Wrote.scalar ⟨_, .string hstring⟩ hd hc
  | _ =>
      unfold datetime
      rw [wp_bind, Host.wp_look, hp]
      trivial

lemma writes_date (obj : Obj) : Writes e (e.date obj : Encode Obj H a Unit) := by
  intro s
  cases hp : (e.rt.view s.world.heap obj).body with
  | date d =>
      refine ((e.date_spec hp).and (e.preserves_depth_date obj s)).mono ?_
        (fun _ _ _ => trivial) fun _ _ => trivial
      rintro _ s' ⟨⟨-, -, hc⟩, hd⟩
      obtain ⟨chars, hstring⟩ := isString_date d
      exact Wrote.scalar ⟨_, .string hstring⟩ hd hc
  | _ =>
      unfold date
      rw [wp_bind, Host.wp_look, hp]
      trivial

lemma writes_time (obj : Obj) : Writes e (e.time obj : Encode Obj H a Unit) := by
  intro s
  cases hp : (e.rt.view s.world.heap obj).body with
  | time t tzinfo =>
      refine ((e.time_spec hp).and (e.preserves_depth_time obj s)).mono ?_
        (fun _ _ _ => trivial) fun _ _ => trivial
      rintro _ s' ⟨⟨answer, -, -, hc⟩, hd⟩
      obtain ⟨chars, hstring⟩ := isString_timeText t (shownMicros e.opts t.us) false answer
      exact Wrote.scalar ⟨_, .string hstring⟩ hd hc
  | _ =>
      unfold time
      dsimp only
      rw [wp_bind, Host.wp_look, hp]
      trivial

/-! ## numpy -/

/-- The document of an array whose unit is known stands for something. -/
lemma documentOf_stands (hfmt : e.fmt.WriteNumbers) {iface : PyArrayInterface} {elem : ElementType}
    {unit : Option Dt64Unit} (hunit : UnitKnown elem unit iface.shape) {h : H} {doc : Doc}
    (hdoc : e.documentOf iface elem unit h = .ok doc) : ∃ n, doc.Stands n := by
  refine arrayDoc_stands ?_ hdoc
  by_cases hzero : 0 ∈ iface.shape
  · right
    rw [List.map_fst_zip (by rw [iface.length_shape, iface.length_strides])]
    exact hzero
  · left
    intro p t ht
    refine Leaves.isScalarText (l := e.leaves elem unit) hfmt
      (fun hdt => (hunit.2 hdt).resolve_right hzero) ?_ ht
    have hlt := Words.wordOf_lt ((List.range elem.size).map fun i : ℕ => e.rt.memory h (p + i))
    rwa [List.length_map, List.length_range] at hlt

lemma writes_serializeHeld (hfmt : e.fmt.WriteNumbers) (obj capsule : Obj)
    (iface : PyArrayInterface) :
    WritesOrDeclines e (e.serializeHeld obj capsule iface : Encode Obj H a _) := by
  intro s
  unfold serializeHeld
  split
  · next check _ =>
    rw [wp_bind]
    refine ((e.asks_arrayDecline obj iface check).preserves s).mono (fun reason s' h => ?_)
      (fun _ _ _ => trivial) fun _ _ => trivial
    obtain ⟨hout, hdepth⟩ := St.frame_eq h
    exact ⟨hdepth, by rw [hout]⟩
  · next elem hclass =>
    rw [wp_bind]
    refine ((e.arrayUnit_known obj elem iface.shape s).frame
      (e.asks_arrayUnit obj elem iface.shape).preserves).mono ?_ (fun _ _ _ => trivial) fun _ h => h
    rintro r s1 ⟨hunit, hframe⟩
    obtain ⟨hout, hdepth⟩ := St.frame_eq hframe
    cases r with
    | error reason => exact ⟨hdepth, by rw [hout]⟩
    | ok unit =>
        simp only [wp_bind, wp_event]
        have hunit := hunit unit rfl
        obtain ⟨s2, hs2⟩ : ∃ s2 : St Obj H a,
            s2 = { s1 with log := s1.log ++ [.read (.obj capsule)] } := ⟨_, rfl⟩
        have hout2 : s2.out = s.out := by rw [hs2]; exact hout
        have hdepth2 : s2.depth = s.depth := by rw [hs2]; exact hdepth
        rw [← hs2]
        unfold wp
        rcases e.walkArray_spec iface elem (nd_pos_of_classify hclass) hunit.1 s2 with
          ⟨doc, out, hdoc, hrun, hc⟩ | ⟨reason, out, hdoc, hrun, hc⟩
        · rw [hrun]
          obtain ⟨n, hn⟩ := e.documentOf_stands hfmt hunit hdoc
          exact ⟨hdepth2, doc, n, hn, by rw [← hout2, ← hdepth2]; exact hc⟩
        · rw [hrun]
          exact ⟨hdepth2, by rw [← hout2]; exact hc⟩

lemma writes_serializeArray (hfmt : e.fmt.WriteNumbers) (obj : Obj) :
    WritesOrDeclines e (e.serializeArray obj : Encode Obj H a _) := by
  intro s
  unfold serializeArray
  rw [wp_bind]
  refine ((e.asks_arrayStruct obj).preserves s).mono (fun p s1 h => ?_) (fun _ _ _ => trivial)
    fun _ _ => trivial
  obtain ⟨hout, hdepth⟩ := St.frame_eq h
  rw [wp_onExit]
  refine (e.writes_serializeHeld hfmt obj p.1 p.2 s1).mono (fun r s2 hr => ?_) (fun _ _ _ => trivial)
    fun _ h => h
  cases r with
  | none => exact Wrote.of_frame h hr
  | some reason => exact ⟨hr.1.trans hdepth, hr.2.trans (by rw [hout])⟩

/-- The text of a scalar is written, or it is declined. -/
lemma scalar_write (hfmt : e.fmt.WriteNumbers) {elem : ElementType} {unit : Option Dt64Unit}
    (hunit : UnitKnown elem unit []) (data : Bytes) (out : Buffer a) :
    (∃ t out', Leaves.write ⟨e.fmt, e.opts, elem, unit⟩ out (Words.wordOf (data.take elem.size)) =
        some (.ok out') ∧ IsScalarText t ∧ out'.content = out.content ++ t) ∨
    ∃ reason, Leaves.write ⟨e.fmt, e.opts, elem, unit⟩ out (Words.wordOf (data.take elem.size)) =
        some (.error reason) := by
  have hlt : Words.wordOf (data.take elem.size) < 256 ^ elem.size :=
    (Words.wordOf_lt _).trans_le
      (Nat.pow_le_pow_right (by decide) (List.length_take_le ..))
  rcases Leaves.write_spec ⟨e.fmt, e.opts, elem, unit⟩ hunit.1 out
    (Words.wordOf (data.take elem.size)) with ⟨t, out', ht, hw, hc⟩ | ⟨reason, -, hw⟩
  · refine Or.inl ⟨t, out', hw, Leaves.isScalarText hfmt (fun hdt => ?_) hlt ht, hc⟩
    exact (hunit.2 hdt).resolve_right List.not_mem_nil
  · exact Or.inr ⟨reason, hw⟩

lemma writes_serializeScalar (hfmt : e.fmt.WriteNumbers) (obj : Obj) (elem : ElementType) :
    WritesOrDeclines e (e.serializeScalar obj elem : Encode Obj H a _) := by
  intro s
  have hrest : ∀ (unit : Option Dt64Unit) (s1 : St Obj H a), UnitKnown elem unit [] →
      s1.frame = s.frame → wp (fun _ => True) (e.scalarElement obj elem unit)
        (fun r s' => match r with
          | none => Wrote e s s'
          | some _ => s'.depth = s.depth ∧ s'.out.content = s.out.content) (fun _ _ => True) s1 := by
    intro unit s1 hunit hframe
    obtain ⟨hout, hdepth⟩ := St.frame_eq hframe
    unfold scalarElement
    rw [wp_bind, Host.wp_look]
    split
    · next data _ =>
      rw [wp_bind, wp_get]
      rcases e.scalar_write hfmt hunit data s1.out with ⟨t, out', hw, ht, hc⟩ | ⟨reason, hw⟩
      · rw [leaves]
        simp only [hw]
        exact Wrote.scalar ht hdepth (by rw [← hout]; exact hc)
      · rw [leaves]
        simp only [hw]
        exact ⟨hdepth, by rw [hout]⟩
    · trivial
  rw [serializeScalar_eq]
  split
  · rw [wp_bind]
    refine ((e.dt64Unit_inRange obj s).frame (e.asks_dt64Unit obj).preserves).mono ?_
      (fun _ _ _ => trivial) fun _ h => h
    rintro r s1 ⟨hr, hframe⟩
    obtain ⟨hout, hdepth⟩ := St.frame_eq hframe
    cases r with
    | error reason => exact ⟨hdepth, by rw [hout]⟩
    | ok unit => exact hrest (some unit) s1 ⟨hr unit rfl, fun _ => Or.inl rfl⟩ hframe
  · next hdt =>
    refine hrest none s ⟨fun u hu => absurd hu (Option.not_mem_none u), fun h => absurd h hdt⟩ rfl

/-! ## Layout -/

section Layout

variable {C : St Obj H a → Prop} {E : PendingPyErr → St Obj H a → Prop}
  {Q : Unit → St Obj H a → Prop} {s : St Obj H a}

/-- The line break in front of an item. -/
lemma wp_breakLine (h : ∀ s', Appended (sep e.indent s.depth) s s' → Q () s') :
    wp C e.breakLine Q E s := by
  unfold breakLine
  rw [wp_bind, wp_get]
  by_cases hi : e.indent = true
  · rw [if_pos hi, wp_emit]
    refine h _ (.written (f := (newlineIndent · s.depth)) (fun b => ?_) s)
    rw [content_newlineIndent, hi]
  · rw [if_neg hi]
    refine h s ?_
    rw [Bool.not_eq_true] at hi
    rw [hi]
    exact .nil s

/-- The comma and the line break in front of item `i`, and what follows. -/
lemma wp_separator {i : ℕ} {m : Encode Obj H a Unit}
    (h : ∀ s', Appended ((if i = 0 then [] else [44]) ++ sep e.indent s.depth) s s' →
      wp C m Q E s') :
    wp C (if 0 < i then emit (·.push 44) >>= fun _ => e.breakLine >>= fun _ => m
      else e.breakLine >>= fun _ => m) Q E s := by
  split
  · next hi =>
    rw [wp_bind, wp_emit, wp_bind]
    refine e.wp_breakLine fun s' hs' => h s' ?_
    rw [if_neg (Nat.ne_of_gt hi)]
    exact (Appended.written (fun b => b.content_push 44) s).trans hs'
  · next hi =>
    rw [wp_bind]
    refine e.wp_breakLine fun s' hs' => h s' ?_
    rw [if_pos (Nat.eq_zero_of_not_pos hi)]
    exact hs'

/-- The end of a container. -/
lemma wp_close {c : UInt8}
    (h : ∀ s', Appended (sep e.indent (s.depth - 1) ++ [c]) { s with depth := s.depth - 1 } s' →
      Q () s') :
    wp C (leave >>= fun _ => e.breakLine >>= fun _ => emit (·.push c)) Q E s := by
  rw [wp_bind, wp_leave, wp_bind]
  refine e.wp_breakLine fun s' hs' => ?_
  rw [wp_emit]
  exact h _ (hs'.trans (.written (fun b => b.content_push c) s'))

/-- Entering a container, where it is not refused. -/
lemma wp_enter (hE : ∀ s', E ⟨⟩ s')
    (h : s.depth < e.maxDepth → Q () { s with depth := s.depth + 1 }) : wp C e.enter Q E s := by
  unfold enter
  rw [wp_bind, wp_get]
  split
  · exact (e.fail_spec _ _).mono (fun _ _ h => h) (fun _ s' _ => hE s') fun _ h => h
  · next hlt => exact h (Nat.lt_of_not_le hlt)

/-- What stands between a key and its value, as one write. -/
lemma exists_colon : ∃ f : Buffer a → Buffer a,
    (if e.indent then emit (·.extend [58, 32]) else emit (·.push 58) : Encode Obj H a Unit) = emit f ∧
      ∀ b, (f b).content = b.content ++ colon e.indent := by
  cases e.indent
  · exact ⟨_, rfl, fun b => b.content_push 58⟩
  · exact ⟨_, rfl, fun b => Buffer.content_extend ..⟩

end Layout

/-! ## Containers -/

section Containers

variable {self : Obj → Encode Obj H a Unit} (hself : ∀ o, Writes e (self o))

include hself

lemma writes_guarded (item : Obj) : Writes e (e.guarded self item : Encode Obj H a Unit) := by
  unfold guarded
  split
  · refine .after (e.preserves_look item) fun p => ?_
    split
    · exact hself item
    · exact .after (asks_incref item : Asks e.rt _).preserves fun _ => (hself item).onExit fun _ => ⟨rfl, rfl⟩
  · exact hself item

lemma writes_entryValue (key value : Obj) :
    Writes e (e.entryValue self key value : Encode Obj H a Unit) := by
  unfold entryValue
  split
  · refine .after (e.preserves_look value) fun p => ?_
    split
    · exact hself value
    · exact .after (asks_incref key : Asks e.rt _).preserves fun _ =>
        (e.writes_guarded hself value).onExit fun _ => ⟨rfl, rfl⟩
  · exact hself value

/-- What the items written by a loop look like, from the item behind `first` on. -/
def WroteItems (e : Env Obj H) (first : Prop) [Decidable first] (s s' : St Obj H a)
    (docs : List Doc) : Prop :=
  s'.depth = s.depth ∧ (∃ ns, ItemsStand docs ns) ∧
    s'.out.content = s.out.content ++ itemsText e.indent s.depth first docs

omit hself in
/-- One item, and the items behind it. -/
lemma WroteItems.cons (first : Prop) [Decidable first] (s : St Obj H a) {s1 s2 s3 : St Obj H a}
    {docs : List Doc} (hw : Wrote e s1 s2) {i : ℕ} (hrest : WroteItems e (i + 1 = 0) s2 s3 docs)
    (hd : s1.depth = s.depth) (hc : s1.out.content = s.out.content ++
      ((if first then [] else [44]) ++ sep e.indent s.depth)) :
    ∃ doc, WroteItems e first s s3 (doc :: docs) := by
  obtain ⟨hd2, doc, n, hn, hc2⟩ := hw
  obtain ⟨hd3, ⟨ns, hns⟩, hc3⟩ := hrest
  refine ⟨doc, hd3.trans (hd2.trans hd), ⟨_, .cons hn hns⟩, ?_⟩
  rw [hc3, hc2, hc, hd2, hd, itemsText]
  by_cases hfirst : first <;> simp [hfirst]

/-- The loop of `list`, whatever happens to the list meanwhile. -/
lemma listLoop_wrote (obj : Obj) (fuel i : ℕ) (s : St Obj H a) :
    wp (fun _ => True) (e.listLoop self obj fuel i) (fun _ s' => ∃ docs,
      WroteItems e (i = 0) s s' docs ∧ ∀ items,
        (e.rt.view s.world.heap obj).body = .list items → i < items.length → docs ≠ [])
      (fun _ _ => True) s := by
  induction fuel generalizing i s with
  | zero => trivial
  | succ fuel ih =>
      rw [listLoop]
      unfold listItems
      simp only [wp_bind, Host.wp_look]
      split
      · next items hitems =>
        rw [wp_pure]
        split
        · next hnone =>
          refine ⟨[], ⟨rfl, ⟨_, .nil⟩, by simp [itemsText]⟩, fun items' h' hlt => ?_⟩
          obtain rfl := Body.list.inj (hitems.symm.trans h')
          exact absurd hnone (by simp [hlt])
        · next item hitem =>
          refine e.wp_separator fun s1 hs1 => ?_
          rw [wp_bind, wp_event, wp_bind]
          refine (e.writes_guarded hself item _).mono (fun _ s2 hw => ?_) (fun _ _ h => h) fun _ h => h
          refine (ih (i + 1) s2).mono ?_ (fun _ _ h => h) fun _ h => h
          rintro _ s3 ⟨docs, hdocs, -⟩
          obtain ⟨doc, hcons⟩ := WroteItems.cons e (i = 0) s hw hdocs hs1.depth hs1.content
          exact ⟨doc :: docs, hcons, fun _ _ _ => List.cons_ne_nil _ _⟩
      · trivial

omit hself in
/-- Items between brackets, at least one. -/
lemma wrote_array {s s1 s2 s3 : St Obj H a} {docs : List Doc} (hne : docs ≠ [])
    (hd : s1.depth = s.depth + 1) (hc : s1.out.content = s.out.content ++ [91])
    (hdocs : WroteItems e (0 = 0) s1 s2 docs) (hd3 : s3.depth = s2.depth - 1)
    (hc3 : s3.out.content = s2.out.content ++ (sep e.indent (s2.depth - 1) ++ [93])) :
    Wrote e s s3 := by
  obtain ⟨hd2, ⟨ns, hns⟩, hc2⟩ := hdocs
  have hlevel : s2.depth - 1 = s.depth := by rw [hd2, hd, Nat.add_sub_cancel]
  refine ⟨hd3.trans hlevel, .arr docs, _, .arr hns, ?_⟩
  obtain ⟨d, ds, rfl⟩ := List.exists_cons_of_ne_nil hne
  rw [hc3, hc2, hc, hd, hlevel, Doc.render]
  simp [List.append_assoc]

lemma writes_list (fuel : ℕ) (obj : Obj) : Writes e (e.list self fuel obj : Encode Obj H a Unit) := by
  intro s
  unfold list listItems
  rw [wp_bind, wp_bind, Host.wp_look]
  split
  · next items hitems =>
    rw [wp_pure]
    split
    · rw [wp_bind]
      refine e.wp_enter (fun _ => trivial) fun _ => ?_
      exact ⟨rfl, .arr [], _, .arr .nil, Buffer.content_extend ..⟩
    · next hlen =>
      rw [wp_bind]
      refine e.wp_enter (fun _ => trivial) fun _ => ?_
      rw [wp_bind, wp_emit, wp_bind]
      refine (e.listLoop_wrote hself obj fuel 0 _).mono ?_ (fun _ _ h => h) fun _ h => h
      rintro _ s2 ⟨docs, hdocs, hne⟩
      refine e.wp_close fun s3 hs3 => ?_
      exact e.wrote_array (hne items hitems (Nat.pos_of_ne_zero hlen)) rfl (Buffer.content_push ..)
        hdocs hs3.depth hs3.content
  · trivial

/-- The loop of `tuple`. -/
lemma tupleLoop_wrote (obj : Obj) (items : List Obj) (i : ℕ) (s : St Obj H a) :
    wp (fun _ => True) (e.tupleLoop self obj i items) (fun _ s' => ∃ docs,
      WroteItems e (i = 0) s s' docs ∧ (items ≠ [] → docs ≠ [])) (fun _ _ => True) s := by
  induction items generalizing i s with
  | nil => exact ⟨[], ⟨rfl, ⟨_, .nil⟩, by simp [itemsText]⟩, fun h => absurd rfl h⟩
  | cons item items ih =>
      rw [tupleLoop]
      refine e.wp_separator fun s1 hs1 => ?_
      rw [wp_bind, wp_event, wp_bind, wp_event, wp_bind]
      refine (hself item _).mono (fun _ s2 hw => ?_) (fun _ _ h => h) fun _ h => h
      refine (ih (i + 1) s2).mono ?_ (fun _ _ h => h) fun _ h => h
      rintro _ s3 ⟨docs, hdocs, -⟩
      obtain ⟨doc, hcons⟩ := WroteItems.cons e (i = 0) s hw hdocs hs1.depth hs1.content
      exact ⟨doc :: docs, hcons, fun _ => List.cons_ne_nil _ _⟩

lemma writes_tuple (obj : Obj) : Writes e (e.tuple self obj : Encode Obj H a Unit) := by
  intro s
  unfold tuple
  rw [wp_bind, wp_event]
  dsimp only
  rw [wp_bind]
  refine e.wp_enter (fun _ => trivial) fun _ => ?_
  split
  · exact ⟨rfl, .arr [], _, .arr .nil, Buffer.content_extend ..⟩
  · next hlen =>
    rw [wp_bind, wp_emit, wp_bind]
    refine (e.tupleLoop_wrote hself obj (e.rt.tupleItems obj) 0 _).mono ?_ (fun _ _ h => h)
      fun _ h => h
    rintro _ s2 ⟨docs, hdocs, hne⟩
    refine e.wp_close fun s3 hs3 => ?_
    refine e.wrote_array (hne fun h => hlen ?_) rfl (Buffer.content_push ..) hdocs hs3.depth
      hs3.content
    rw [h, List.length_nil]

/-- What the members written by a loop look like, from the member behind `first` on. -/
def WroteMembers (e : Env Obj H) (first : Bool) (s s' : St Obj H a) (ms : List (Bytes × Doc)) :
    Prop :=
  s'.depth = s.depth ∧ (∃ ns, MembersStand ms ns) ∧
    s'.out.content = s.out.content ++ membersText e.indent s.depth first ms

omit hself in
lemma writeKey_wrote (key : Obj) (first : Bool) (s : St Obj H a) :
    wp (fun _ => True) (e.writeKey key first) (fun _ s' => s'.depth = s.depth ∧ ∃ k chars,
      IsString k chars ∧ s'.out.content = s.out.content ++
        ((if first then [] else [44]) ++ sep e.indent s.depth ++ k ++ colon e.indent))
      (fun _ _ => True) s := by
  -- the key and the colon, in a state with the separator written
  have hrest : ∀ s1, Appended ((if first then [] else [44]) ++ sep e.indent s.depth) s s1 →
      wp (fun _ => True) (e.str key >>= fun _ =>
          if e.indent then emit (·.extend [58, 32]) else emit (·.push 58))
        (fun _ s' => s'.depth = s.depth ∧ ∃ k chars, IsString k chars ∧ s'.out.content =
          s.out.content ++ ((if first then [] else [44]) ++ sep e.indent s.depth ++ k ++
            colon e.indent)) (fun _ _ => True) s1 := by
    intro s1 hs1
    rw [wp_bind]
    refine (e.str_wrote key _).mono ?_ (fun _ _ h => h) fun _ h => h
    rintro _ s2 ⟨hd, k, chars, hk, hc⟩
    rw [hs1.content] at hc
    have hd := hd.trans hs1.depth
    split
    · next hi =>
      refine ⟨hd, k, chars, hk, ?_⟩
      rw [hi] at hc ⊢
      refine (Buffer.content_extend ..).trans ?_
      rw [hc]
      simp [colon]
    · next hi =>
      rw [Bool.not_eq_true] at hi
      refine ⟨hd, k, chars, hk, ?_⟩
      rw [hi] at hc ⊢
      refine (Buffer.content_push ..).trans ?_
      rw [hc]
      simp [colon]
  unfold writeKey
  cases first with
  | true =>
      simp only [if_true]
      rw [wp_bind]
      exact e.wp_breakLine fun s1 hs1 => hrest s1 hs1
  | false =>
      simp only [Bool.false_eq_true, if_false]
      rw [wp_bind, wp_emit, wp_bind]
      refine e.wp_breakLine fun s1 hs1 => hrest s1 ?_
      exact (Appended.written (fun b => b.content_push 44) s).trans hs1

omit hself in
/-- One member, and the members behind it. -/
lemma WroteMembers.cons {first : Bool} {s s1 s2 s3 : St Obj H a} {k : Bytes} {chars : List ℕ}
    {ms : List (Bytes × Doc)} (hd : s1.depth = s.depth) (hk : IsString k chars)
    (hc : s1.out.content = s.out.content ++
      ((if first then [] else [44]) ++ sep e.indent s.depth ++ k ++ colon e.indent))
    (hw : Wrote e s1 s2) (hrest : WroteMembers e false s2 s3 ms) :
    ∃ doc, WroteMembers e first s s3 ((k, doc) :: ms) := by
  obtain ⟨hd2, doc, n, hn, hc2⟩ := hw
  obtain ⟨hd3, ⟨ns, hns⟩, hc3⟩ := hrest
  refine ⟨doc, hd3.trans (hd2.trans hd), ⟨_, .cons hk hn hns⟩, ?_⟩
  rw [hc3, hc2, hc, hd2, hd, membersText]
  simp [List.append_assoc]

/-- The loop of `dict_in_order`, whatever happens to the dict meanwhile. -/
lemma dictLoop_wrote (obj : Obj) (fuel pos : ℕ) (first : Bool) (s : St Obj H a) :
    wp (fun _ => True) (e.dictLoop self obj fuel pos first) (fun _ s' => ∃ ms,
      WroteMembers e first s s' ms ∧ ∀ slots, (e.rt.view s.world.heap obj).body = .dict slots →
        (nextEntry slots pos).isSome → ms ≠ []) (fun _ _ => True) s := by
  induction fuel generalizing pos first s with
  | zero => trivial
  | succ fuel ih =>
      rw [dictLoop]
      unfold dictSlots
      rw [wp_bind, wp_bind, Host.wp_look]
      split
      · next slots hslots =>
        rw [wp_pure]
        split
        · next hnone =>
          refine ⟨[], ⟨rfl, ⟨_, .nil⟩, by simp [membersText]⟩, fun slots' h' hsome => ?_⟩
          obtain rfl := Body.dict.inj (hslots.symm.trans h')
          rw [hnone] at hsome
          exact absurd hsome Bool.false_ne_true
        · next pos' key value hentry =>
          rw [wp_bind, wp_event, wp_bind, wp_event, wp_bind, Host.wp_look]
          split
          · rw [wp_bind]
            refine (e.writeKey_wrote key first _).mono ?_ (fun _ _ h => h) fun _ h => h
            rintro _ s1 ⟨hd, k, chars, hk, hc⟩
            rw [wp_bind]
            refine (e.writes_entryValue hself key value s1).mono (fun _ s2 hw => ?_)
              (fun _ _ h => h) fun _ h => h
            refine (ih pos' false s2).mono ?_ (fun _ _ h => h) fun _ h => h
            rintro _ s3 ⟨ms, hms, -⟩
            obtain ⟨doc, hcons⟩ := WroteMembers.cons e hd hk hc hw hms
            exact ⟨(k, doc) :: ms, hcons, fun _ _ _ => List.cons_ne_nil _ _⟩
          · exact (e.fail_spec _ _).mono (fun _ _ h => h) (fun _ _ _ => trivial) fun _ h => h
      · trivial

/-- The last loop of `dict_sorted`. -/
lemma sortedLoop_wrote (entries : List (Entry Obj)) (first : Bool) (s : St Obj H a) :
    wp (fun _ => True) (e.sortedLoop self first entries) (fun _ s' => ∃ ms,
      WroteMembers e first s s' ms ∧ (entries ≠ [] → ms ≠ [])) (fun _ _ => True) s := by
  induction entries generalizing first s with
  | nil => exact ⟨[], ⟨rfl, ⟨_, .nil⟩, by simp [membersText]⟩, fun h => absurd rfl h⟩
  | cons entry entries ih =>
      obtain ⟨key, value⟩ := entry
      rw [sortedLoop, wp_bind]
      refine (e.writeKey_wrote key first s).mono ?_ (fun _ _ h => h) fun _ h => h
      rintro _ s1 ⟨hd, k, chars, hk, hc⟩
      rw [wp_bind]
      refine (hself value s1).mono (fun _ s2 hw => ?_) (fun _ _ h => h) fun _ h => h
      refine (ih false s2).mono ?_ (fun _ _ h => h) fun _ h => h
      rintro _ s3 ⟨ms, hms, -⟩
      obtain ⟨doc, hcons⟩ := WroteMembers.cons e hd hk hc hw hms
      exact ⟨(k, doc) :: ms, hcons, fun _ => List.cons_ne_nil _ _⟩

omit hself in
lemma keyedEntries_snd (entries : List (Entry Obj)) (s : St Obj H a) :
    wp (fun _ => True) (e.keyedEntries entries) (fun keyed _ => keyed.map Prod.snd = entries)
      (fun _ _ => True) s := by
  induction entries generalizing s with
  | nil => rfl
  | cons kv entries ih =>
      rw [keyedEntries, wp_bind]
      refine ((e.asks_keyText kv.1).preserves s).mono (fun key s1 _ => ?_) (fun _ _ _ => trivial)
        fun _ _ => trivial
      rw [wp_bind]
      exact (ih s1).mono (fun keyed s2 h => congrArg (kv :: ·) h) (fun _ _ h => h) fun _ h => h

/-- The members of a sorted dict, once its entries are held. -/
lemma writeSorted_wrote (entries : List (Entry Obj)) (s : St Obj H a) :
    wp (fun _ => True) (e.writeSorted self entries) (fun _ s' => ∃ ms,
      WroteMembers e true s s' ms ∧ (entries ≠ [] → ms ≠ [])) (fun _ _ => True) s := by
  unfold writeSorted
  rw [wp_bind]
  refine ((e.keyedEntries_snd entries s).frame (e.asks_keyedEntries entries).preserves).mono ?_
    (fun _ _ _ => trivial) fun _ h => h
  rintro keyed s1 ⟨hkeyed, hframe⟩
  obtain ⟨hout, hdepth⟩ := St.frame_eq hframe
  refine (e.sortedLoop_wrote hself _ true s1).mono ?_ (fun _ _ h => h) fun _ h => h
  rintro _ s2 ⟨ms, ⟨hd, hns, hc⟩, hne⟩
  refine ⟨ms, ⟨hd.trans hdepth, hns, ?_⟩, fun hentries => hne fun hnil => hentries ?_⟩
  · rw [hc, hout, hdepth]
  · have hperm := (List.mergeSort_perm keyed keyLe).map Prod.snd
    rw [hnil, hkeyed] at hperm
    exact hperm.nil_eq.symm

lemma dictSorted_wrote (obj : Obj) (s : St Obj H a) :
    wp (fun _ => True) (e.dictSorted self obj) (fun _ s' => ∃ ms, WroteMembers e true s s' ms ∧
      ∀ slots, (e.rt.view s.world.heap obj).body = .dict slots → slots.reduceOption ≠ [] → ms ≠ [])
      (fun _ _ => True) s := by
  unfold dictSorted dictSlots
  rw [wp_bind, wp_bind, Host.wp_look]
  split
  · next slots hslots =>
    rw [wp_pure]
    dsimp only
    rw [wp_bind]
    refine ((asks_holdEntries obj slots.reduceOption : Asks e.rt _).preserves _).mono (fun _ s1 hframe => ?_)
      (fun _ _ _ => trivial) fun _ _ => trivial
    obtain ⟨hout, hdepth⟩ := St.frame_eq hframe
    rw [wp_onExit]
    refine (e.writeSorted_wrote hself slots.reduceOption s1).mono ?_ (fun _ _ _ => trivial)
      fun _ h => h
    rintro _ s2 ⟨ms, ⟨hd, hns, hc⟩, hne⟩
    obtain ⟨hout', hdepth'⟩ := St.frame_eq (frame_release slots.reduceOption s2)
    refine ⟨ms, ⟨?_, hns, ?_⟩, fun slots' h' => ?_⟩
    · rw [hdepth', hd, hdepth]
    · rw [hout', hc, hout, hdepth]
    · obtain rfl := Body.dict.inj (hslots.symm.trans h')
      exact hne
  · trivial

omit hself in
lemma firstEntry_isSome {slots : List (Option (Entry Obj))} (h : slots.reduceOption ≠ []) :
    (firstEntry slots).isSome := by
  induction slots with
  | nil => exact absurd rfl h
  | cons slot slots ih =>
      cases slot with
      | some kv => rfl
      | none =>
          rw [List.reduceOption_cons_of_none] at h
          rw [firstEntry, Option.isSome_map]
          exact ih h

omit hself in
/-- Members between braces, at least one. -/
lemma wrote_object {s s1 s2 s3 : St Obj H a} {ms : List (Bytes × Doc)} (hne : ms ≠ [])
    (hd : s1.depth = s.depth + 1) (hc : s1.out.content = s.out.content ++ [123])
    (hms : WroteMembers e true s1 s2 ms) (hd3 : s3.depth = s2.depth - 1)
    (hc3 : s3.out.content = s2.out.content ++ (sep e.indent (s2.depth - 1) ++ [125])) :
    Wrote e s s3 := by
  obtain ⟨hd2, ⟨ns, hns⟩, hc2⟩ := hms
  have hlevel : s2.depth - 1 = s.depth := by rw [hd2, hd, Nat.add_sub_cancel]
  refine ⟨hd3.trans hlevel, .obj ms, _, .obj hns, ?_⟩
  obtain ⟨m, ms, rfl⟩ := List.exists_cons_of_ne_nil hne
  rw [hc3, hc2, hc, hd, hlevel, Doc.render]
  simp [List.append_assoc]

lemma writes_dict (fuel : ℕ) (obj : Obj) : Writes e (e.dict self fuel obj : Encode Obj H a Unit) := by
  intro s
  unfold dict
  rw [wp_bind, wp_event, wp_bind]
  refine e.wp_enter (fun _ => trivial) fun _ => ?_
  unfold dictSlots
  rw [wp_bind, wp_bind, Host.wp_look]
  split
  · next slots hslots =>
    rw [wp_pure]
    split
    · exact ⟨rfl, .obj [], _, .obj .nil, Buffer.content_extend ..⟩
    · next hlen =>
      have hne : slots.reduceOption ≠ [] := fun h => hlen (by rw [h, List.length_nil])
      rw [wp_bind, wp_emit]
      split
      · rw [wp_bind]
        refine (e.dictSorted_wrote hself obj _).mono ?_ (fun _ _ h => h) fun _ h => h
        rintro _ s2 ⟨ms, hms, hms'⟩
        refine e.wp_close fun s3 hs3 => ?_
        exact e.wrote_object (hms' slots hslots hne) rfl (Buffer.content_push ..) hms hs3.depth
          hs3.content
      · rw [wp_bind]
        refine (e.dictLoop_wrote hself obj fuel 0 true _).mono ?_ (fun _ _ h => h) fun _ h => h
        rintro _ s2 ⟨ms, hms, hms'⟩
        refine e.wp_close fun s3 hs3 => ?_
        have hfirst : (nextEntry slots 0).isSome := by
          rw [nextEntry, Option.isSome_map, List.drop_zero]
          exact firstEntry_isSome hne
        exact e.wrote_object (hms' slots hslots hfirst) rfl (Buffer.content_push ..) hms hs3.depth
          hs3.content
  · trivial

/-! ## `default` and the dispatch -/

lemma writes_serializeDefaultResult (r : Obj) :
    Writes e (serializeDefaultResult self r : Encode Obj H a Unit) := by
  intro s
  unfold serializeDefaultResult
  rw [wp_bind, wp_modify, wp_onExit]
  exact (hself r _).mono (fun _ _ hw => hw) (fun _ _ _ => trivial) fun _ h => h

lemma writes_callDefault (obj : Obj) : Writes e (e.callDefault self obj : Encode Obj H a Unit) := by
  unfold callDefault
  split
  · exact .after (e.preserves_look obj) fun _ => .fail _
  · refine .after (e.asks_invokeDefault obj).preserves fun r => ?_
    cases r with
    | error _ => exact .throw _
    | ok r => exact e.writes_serializeDefaultResult hself r

lemma writes_callDefaultDeclined (obj : Obj) (reason : Decline) :
    Writes e (e.callDefaultDeclined self obj reason : Encode Obj H a Unit) := by
  unfold callDefaultDeclined
  split
  · exact .after (e.asks_raiseTypeError _).preserves fun _ =>
      .after (e.asks_addNote _ _).preserves fun _ => .throw _
  · refine .after (e.asks_invokeDefault obj).preserves fun r => ?_
    rcases r with (_ | _) | r
    · exact .throw _
    · exact .after (e.asks_addNote _ _).preserves fun _ => .throw _
    · exact e.writes_serializeDefaultResult hself r

section Dispatch

variable [DecidableEq Obj]

omit hself in
lemma writes_datetimeLike {obj : Obj} {p : PyObj Obj} {dt : DtTypes Obj}
    {write : Encode Obj H a Unit} (h : e.datetimeLike obj p dt = some write) : Writes e write := by
  unfold datetimeLike at h
  split_ifs at h
  · exact Option.some.inj h ▸ e.writes_datetime obj
  · exact Option.some.inj h ▸ e.writes_date obj
  · exact Option.some.inj h ▸ e.writes_time obj

variable (hfmt : e.fmt.WriteNumbers)

include hfmt

omit [DecidableEq Obj] in
lemma writes_subclassLike {fuel : ℕ} {obj : Obj} {p : PyObj Obj} {write : Encode Obj H a Unit}
    (h : e.subclassLike self fuel obj p = some write) : Writes e write := by
  unfold subclassLike at h
  split at h
  · exact absurd h (by simp)
  · split at h
    · exact Option.some.inj h ▸ e.writes_str obj
    · exact Option.some.inj h ▸ e.writes_int hfmt obj
    · exact Option.some.inj h ▸ e.writes_dict hself fuel obj
    · exact Option.some.inj h ▸ e.writes_list hself fuel obj
    · exact absurd h (by simp)

omit hself in
lemma writes_numpyWriter {obj : Obj} {ty : Option Obj} {np : NumpyTypes Obj}
    {write : Encode Obj H a (Option Decline)} (h : e.numpyWriter obj ty np = some write) :
    WritesOrDeclines e write := by
  unfold numpyWriter at h
  split at h
  · exact Option.some.inj h ▸ e.writes_serializeArray hfmt obj
  · obtain ⟨elem, -, rfl⟩ := Option.map_eq_some_iff.mp h
    exact e.writes_serializeScalar hfmt obj elem

omit hself hfmt in
lemma preserves_depth_recognizeNumpy (ty : Option Obj) (s : St Obj H a) :
    wp (fun _ => True) (e.recognizeNumpy ty) (fun _ s' => s'.out = s.out ∧ s'.depth = s.depth)
      (fun _ _ => True) s := by
  unfold recognizeNumpy
  rw [wp_bind, wp_get]
  split
  · exact ⟨rfl, rfl⟩
  · split
    · exact ⟨rfl, rfl⟩
    · rw [wp_bind, wp_modify]
      exact (preserves_cached _ _).mono
        (fun _ _ h => ⟨congrArg Prod.fst h, congrArg (fun f => f.2.1) h⟩) (fun _ _ _ => trivial)
        fun _ _ => trivial

lemma writes_numpyOrDefault (obj : Obj) (p : PyObj Obj) :
    Writes e (e.numpyOrDefault self obj p : Encode Obj H a Unit) := by
  unfold numpyOrDefault
  split
  · intro s
    rw [wp_bind]
    refine (e.preserves_depth_recognizeNumpy p.cls s).mono ?_ (fun _ _ _ => trivial) fun _ h => h
    rintro np s1 ⟨hout, hdepth⟩
    have hof : ∀ {s'}, Wrote e s1 s' → Wrote e s s' := by
      intro s' hw
      unfold Wrote at hw ⊢
      rwa [hout, hdepth] at hw
    split
    · exact (e.writes_callDefault hself obj s1).mono (fun _ _ hw => hof hw) (fun _ _ h => h)
        fun _ h => h
    · next write hwrite =>
      obtain ⟨np, -, hnp⟩ := Option.bind_eq_some_iff.mp hwrite
      rw [wp_bind]
      refine (e.writes_numpyWriter hfmt hnp s1).mono (fun r s2 hr => ?_) (fun _ _ h => h) fun _ h => h
      cases r with
      | none => exact hof hr
      | some reason =>
          refine (e.writes_callDefaultDeclined hself obj reason s2).mono (fun _ s3 hw => hof ?_)
            (fun _ _ h => h) fun _ h => h
          unfold Wrote at hw ⊢
          rwa [hr.1, hr.2] at hw
  · exact e.writes_callDefault hself obj

lemma writes_lateDatetime (obj : Obj) (p : PyObj Obj) :
    Writes e (e.lateDatetime self obj p : Encode Obj H a Unit) := by
  refine .after .get fun s => ?_
  split
  · refine .after (preserves_datetimeGroup _) fun dt => ?_
    intro s
    rw [wp_bind, wp_modify]
    -- the datetime types are no part of what the texts depend on
    have hof : ∀ {m : Encode Obj H a Unit}, Writes e m →
        wp (fun _ => True) m (fun _ s' => Wrote e s s') (fun _ _ => True) { s with dt := dt } :=
      fun hm => (hm _).mono (fun _ _ hw => hw) (fun _ _ h => h) fun _ h => h
    split
    · next write hwrite =>
      obtain ⟨dt, -, hdt⟩ := Option.bind_eq_some_iff.mp hwrite
      exact hof (e.writes_datetimeLike hdt)
    · exact hof (e.writes_numpyOrDefault hself hfmt obj p)
  · exact e.writes_numpyOrDefault hself hfmt obj p

lemma writes_serializeOther (fuel : ℕ) (obj : Obj) (p : PyObj Obj) :
    Writes e (e.serializeOther self fuel obj p : Encode Obj H a Unit) := by
  refine .after .get fun s => ?_
  split
  · next write hwrite =>
    obtain ⟨dt, -, hdt⟩ := Option.bind_eq_some_iff.mp hwrite
    exact e.writes_datetimeLike hdt
  · split
    · next write hwrite => exact e.writes_subclassLike hself hfmt hwrite
    · exact e.writes_lateDatetime hself hfmt obj p

lemma writes_serializeBody (fuel : ℕ) (obj : Obj) :
    Writes e (e.serializeBody self fuel obj : Encode Obj H a Unit) := by
  refine .after (e.preserves_look obj) fun p => ?_
  split
  · exact e.writes_str obj
  · exact e.writes_int hfmt obj
  · next bits _ _ => exact .emit (hfmt.f64Text bits) fun b => b.content_writeF64 e.fmt bits
  · exact .emit (isScalarText_bool true) fun b => Buffer.content_extend ..
  · exact .emit (isScalarText_bool false) fun b => Buffer.content_extend ..
  · exact .emit isScalarText_null fun b => Buffer.content_extend ..
  · exact e.writes_dict hself fuel obj
  · exact e.writes_list hself fuel obj
  · exact e.writes_tuple hself obj
  · exact e.writes_serializeOther hself hfmt fuel obj p

end Dispatch

end Containers

/-- **`serialize`** appends a document, whatever Python code does meanwhile. -/
lemma writes_serialize [DecidableEq Obj] (hfmt : e.fmt.WriteNumbers) (fuel : ℕ) (obj : Obj) :
    Writes e (e.serialize fuel obj : Encode Obj H a Unit) := by
  induction fuel generalizing obj with
  | zero => exact fun _ => trivial
  | succ fuel ih => exact e.writes_serializeBody ih hfmt fuel obj

end Env

/-! ## `dumps` -/

namespace Host

variable (h : Host Obj H)

/-- The encoder starts with an empty output, at depth zero. -/
lemma start_spec [DecidableEq Obj] (hint : ℕ) (default : Option Obj) (opts : UInt32)
    (s : St Obj H a) :
    wp (fun _ => True) (h.start hint default opts)
      (fun e s' => e.fmt = h.fmt ∧ s'.out.content = [] ∧ s'.depth = 0) (fun _ _ => True) s := by
  unfold start
  rw [wp_bind]
  refine (Env.preserves_datetimeGroup _ s).mono (fun dt s1 _ => ?_) (fun _ _ _ => trivial) fun _ _ => trivial
  split
  · trivial
  · next out hout => exact ⟨rfl, Buffer.content_of_new hout, rfl⟩

lemma finish_content (s : St Obj H a) :
    wp (fun _ => True) finish (fun bytes _ => bytes = s.out.content) (fun _ _ => True) s := by
  unfold finish
  obtain ⟨f, hf, -, hres, -⟩ := s.out.raw.finish_spec s.out.wf
  rw [wp_bind, wp_get, wp_bind, wp_unchecked hf]
  split
  · next o ho => exact (hres o ho).1
  · trivial

lemma dumpsObject_isText [DecidableEq Obj] (hfmt : h.fmt.WriteNumbers) (hint fuel : ℕ) (obj : Obj)
    (default : Option Obj) (opts : UInt32) (s : St Obj H a) :
    wp (fun _ => True) (h.dumpsObject hint fuel obj default opts)
      (fun bytes _ => ∃ n, IsText bytes n) (fun _ _ => True) s := by
  unfold dumpsObject
  rw [wp_bind]
  refine (h.start_spec hint default opts s).mono ?_ (fun _ _ _ => trivial) fun _ _ => trivial
  rintro e s1 ⟨hefmt, hempty, -⟩
  rw [wp_bind]
  refine (e.writes_serialize (hefmt ▸ hfmt) fuel obj s1).mono ?_ (fun _ _ h => h) fun _ h => h
  rintro _ s2 ⟨-, doc, n, hdoc, hc⟩
  rw [hempty, List.nil_append] at hc
  have hderives := hdoc.derives e.indent s1.depth
  split
  · rw [wp_bind, wp_emit]
    refine (finish_content _).mono ?_ (fun _ _ h => h) fun _ h => h
    rintro _ _ rfl
    refine ⟨n, [], _, [10], isWs_nil, hderives, by simp [IsWs, isWs], ?_⟩
    rw [List.nil_append, ← hc]
    exact Buffer.content_push ..
  · refine (finish_content _).mono ?_ (fun _ _ h => h) fun _ h => h
    rintro _ _ rfl
    exact ⟨n, [], _, [], isWs_nil, hderives, isWs_nil, by rw [hc, List.nil_append, List.append_nil]⟩

end Host

/-- **What `dumps` returns is one JSON text.**  The interpreter's replies are arbitrary, so
between any two steps the callbacks may have changed every list and dict in any way, and the
iteration over a dict goes on from wherever the dict now has its entries. -/
theorem dumps_isText [DecidableEq Obj] (h : Host Obj H) (hfmt : h.fmt.WriteNumbers)
    (hint fuel : ℕ) (args : List Obj) (kw : List (String × Obj)) {s s' : St Obj H a} {bytes : Bytes}
    (hrun : h.dumps hint fuel args kw s = .ok bytes s') : ∃ n, IsText bytes n := by
  suffices hwp : wp (fun _ => True) (h.dumps hint fuel args kw) (fun bytes _ => ∃ n, IsText bytes n)
      (fun _ _ => True) s from hwp.of_ok hrun
  unfold Host.dumps
  split
  · exact (h.fail_spec _ s).mono (fun _ _ h => h) (fun _ _ _ => trivial) fun _ h => h
  · split
    · exact (h.fail_spec _ s).mono (fun _ _ h => h) (fun _ _ _ => trivial) fun _ h => h
    · -- the arguments decide only which object is written under which options
      refine wp_bind_any (fun args s1 => ?_) s
      obtain ⟨default, option⟩ := args
      refine wp_bind_any (fun default s2 => ?_) s1
      refine wp_bind_any (fun _ s3 => ?_) s2
      refine wp_bind_any (fun option s4 => ?_) s3
      refine wp_bind_any (fun opts s5 => ?_) s4
      exact h.dumpsObject_isText hfmt hint fuel _ default opts s5

/-- A list of a float and an empty dict. -/
def floatAndDict : Snapshot ℕ where
  view
    | 0 => ⟨none, "list", .list [1, 2]⟩
    | 1 => ⟨none, "float", .float 0⟩
    | 2 => ⟨none, "dict", .dict [none]⟩
    | _ => ⟨none, "NoneType", .none⟩
  tupleItems _ := []
  pyNone := 3
  memory _ := 0
  answer _ := .raised 3

/-- The list is written out. -/
theorem dumps_isText_list :
    ∃ s', floatAndDict.host.dumps 0 5 [0] [] (floatAndDict.state ⟨none, none⟩) =
      .ok (Bytes.ascii "[0.0,{}]") s' ∧ ∃ n, IsText (Bytes.ascii "[0.0,{}]") n := by
  have hrun : ∃ s', floatAndDict.host.dumps 0 5 [0] [] (floatAndDict.state ⟨none, none⟩) =
      .ok (Bytes.ascii "[0.0,{}]") s' := ⟨_, rfl⟩
  obtain ⟨s', hrun⟩ := hrun
  exact ⟨s', hrun, dumps_isText floatAndDict.host Formats.writeNumbers_plain 0 5 [0] [] hrun⟩

end Isojson
