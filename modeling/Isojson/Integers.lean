import Isojson.Requests

/-!
# `encode.rs`: integers of any size

`Encoder::int` tells an integer's size by flags and sentinels of CPython's conversions, and writes it
through `i64`, `u64` or CPython's own digits.  Whatever the way, the text is the integer's decimal text
(`int_exact`).
-/

namespace Isojson

open Run

variable {Obj H : Type} {a : Allocator}

/-- The range of `i64` and `u64` together. -/
def Within64Bits (z : ℤ) : Prop := i64Min ≤ z ∧ z ≤ Env.u64Max

/-- The range in which every integer is a double. -/
def Within53Bits (z : ℤ) : Prop := |z| ≤ 2 ^ 53 - 1

instance (z : ℤ) : Decidable (Within64Bits z) := inferInstanceAs (Decidable (_ ∧ _))

instance (z : ℤ) : Decidable (Within53Bits z) := inferInstanceAs (Decidable (_ ≤ _))

/-- A run of `m` from `s` returns, appended `text` and raised nothing. -/
def Appends (text : Bytes) (s : St Obj H a) (m : Encode Obj H a Unit) : Prop :=
  wp (fun _ => False) m
    (fun _ s' => s'.out.content = s.out.content ++ text ∧ s'.exc = none ∧ s'.depth = s.depth)
    (fun _ _ => False) s

/-- A run of `m` from `s` wrote nothing and raised `exc`. -/
def Refuses (exc : Exc Obj) (s : St Obj H a) (m : Encode Obj H a Unit) : Prop :=
  wp (fun _ => False) m (fun _ _ => False) (fun _ s' => s'.out = s.out ∧ s'.exc = some exc) s

lemma within53Bits_iff {z : ℤ} : Within53Bits z ↔ -9007199254740991 ≤ z ∧ z ≤ 9007199254740991 := by
  unfold Within53Bits
  rw [abs_le]
  norm_num

lemma Within53Bits.within64 {z : ℤ} (h : Within53Bits z) : i64Min ≤ z ∧ z ≤ i64Max := by
  obtain ⟨hlo, hhi⟩ := within53Bits_iff.mp h
  constructor
  · exact le_trans (by decide) hlo
  · exact le_trans hhi (by decide)

lemma appends_emit {f : Buffer a → Buffer a} {text : Bytes} {s : St Obj H a} (hexc : s.exc = none)
    (hf : ∀ b, (f b).content = b.content ++ text) : Appends text s (emit f) :=
  ⟨hf s.out, St.exc_written hexc _, rfl⟩

namespace Env

variable (e : Env Obj H)

/-- The exception of a refused integer: the `TypeError`, or the one for which its message could not be
made. -/
def rangeError (w : World Obj H) : Exc Obj :=
  match e.rt.reply (.newText "Integer exceeds 53-bit range") w with
  | (.ok text, _) => .typeError text "Integer exceeds 53-bit range"
  | (.raised exc, _) => .object exc

/-- CPython's digits of an integer have a UTF-8 form, as they are ASCII. -/
def DigitsAreText : Prop :=
  ∀ obj w text w1, e.rt.reply (.toBase obj 10) w = (.ok text, w1) →
    ∃ o w2, e.rt.reply (.utf8 text) w1 = (.ok o, w2)

/-- `itoa` writes the decimal digits of the integers it is for. -/
def WritesDecimal : Prop := ∀ z, Within64Bits z → e.fmt.itoa z = Decimal.intText z

variable {e} {obj : Obj} {z : ℤ} {s : St Obj H a}

lemma refuses_range : Refuses (e.rangeError s.world) s (e.fail "Integer exceeds 53-bit range") := by
  unfold Host.fail Host.raiseTypeError rangeError Refuses
  rw [wp_bind, wp_bind]
  refine e.wp_request (fun text w hr => ?_) fun exc w hr => ?_
  · rw [hr]
    exact ⟨rfl, rfl⟩
  · rw [hr]
    exact ⟨rfl, rfl⟩

lemma appends_writeInt (hitoa : e.WritesDecimal) (hz : Within64Bits z) (hexc : s.exc = none) :
    Appends (Decimal.intText z) s (emit (·.writeInt e.fmt z)) :=
  appends_emit hexc fun b => by rw [b.content_writeInt, hitoa z hz]

/-- The text of a `str` of decimal digits is written as it is. -/
lemma utf8Text_eq {text : Obj} {t : StrObj} (ht : (e.rt.view s.world.heap text).body = .str t)
    (hchars : t.chars = (Decimal.intText z).map UInt8.toNat) :
    e.utf8Text text s =
      match e.rt.reply (.utf8 text) s.world with
      | (.raised exc, w) => .error ⟨⟩ { s with
          world := w, exc := some (.object exc), log := s.log ++ [.read (.obj text)] }
      | (.ok _, w) => .ok () (St.written { s with world := w, log := s.log ++ [.read (.obj text)] }
          (s.out.extend (Decimal.intText z))) := by
  have hascii := Decimal.intText_ascii z
  have hvalid : ¬ (t.chars.any fun c => decide (Utf8.IsSurrogate c)) = true := by
    rw [List.any_eq_true, hchars]
    rintro ⟨c, hc, hsurrogate⟩
    exact (Utf8.isScalar_toNat hascii c hc).2 (of_decide_eq_true hsurrogate)
  have hutf8 : Utf8.encodeAll t.chars = Decimal.intText z := by
    rw [hchars, Utf8.encodeAll_toNat hascii]
  have hlook : e.look text s = .ok (e.rt.view s.world.heap text)
      { s with log := s.log ++ [.read (.obj text)] } := rfl
  unfold utf8Text utf8Of
  rw [bind_assoc, bind_of_ok hlook, ht]
  dsimp only
  rw [if_neg hvalid, bind_assoc]
  rcases hreply : e.rt.reply (.utf8 text) s.world with ⟨o | exc, w⟩
  · have hask : e.ask (.utf8 text) { s with log := s.log ++ [.read (.obj text)] } =
        .ok (some o) { s with world := w, log := s.log ++ [.read (.obj text)] } := by
      rw [Host.ask, hreply]
    rw [bind_of_ok hask, pure_bind, hutf8]
    rfl
  · have hask : e.ask (.utf8 text) { s with log := s.log ++ [.read (.obj text)] } =
        .ok none { s with
          world := w, exc := some (.object exc), log := s.log ++ [.read (.obj text)] } := by
      rw [Host.ask, hreply]
    rw [bind_of_ok hask]
    rfl

/-- **An integer outside of 64 bits** takes two requests, for its digits and for their text. -/
lemma intOutside64Bits_eq (hobj : (e.rt.view s.world.heap obj).body = .int z)
    (hstrict : hasOpt e.opts optStrictInteger = false) :
    ∃ log, e.intOutside64Bits obj z s =
      match e.rt.reply (.toBase obj 10) s.world with
      | (.raised exc, w) =>
          .error ⟨⟩ { s with world := w, exc := some (.object exc), log := log }
      | (.ok text, w) =>
          match e.rt.reply (.utf8 text) w with
          | (.raised exc, w) =>
              .error ⟨⟩ { s with world := w, exc := some (.object exc), log := log }
          | (.ok _, w) => .ok () { ({ s with world := w }).written
              (s.out.extend (Decimal.intText z)) with log := log } := by
  obtain ⟨log, hrecord⟩ : ∃ log, e.recordPylong e.guard obj z 10 s = .ok () { s with log := log } := by
    rw [Host.recordPylong_eq]
    exact ⟨_, rfl⟩
  unfold intOutside64Bits Host.toBase Host.request
  rw [hstrict, if_neg Bool.false_ne_true, bind_assoc, bind_of_ok hrecord, bind_assoc]
  rcases hreply : e.rt.reply (.toBase obj 10) s.world with ⟨text | exc, w⟩
  · have hask : e.ask (.toBase obj 10) { s with log := log } =
        .ok (some text) { s with world := w, log := log } := by
      rw [Host.ask, hreply]
    obtain ⟨t, ht, hchars⟩ := e.rt.toBase_decimal obj s.world z text w hobj hreply
    have hread := utf8Text_eq (e := e) (s := { s with world := w, log := log ++ [.take (.obj text)] }) ht hchars
    refine ⟨log ++ [.take (.obj text)] ++ [.read (.obj text)] ++ [.drop (.obj text)], ?_⟩
    rw [bind_of_ok hask]
    show onExit (e.utf8Text text) (·.dropped text)
      { s with world := w, log := log ++ [.take (.obj text)] } = _
    unfold onExit
    rw [hread]
    dsimp only
    rcases e.rt.reply (.utf8 text) w with ⟨o | exc, w1⟩ <;> rfl
  · have hask : e.ask (.toBase obj 10) { s with log := log } =
        .ok none { s with world := w, exc := some (.object exc), log := log } := by
      rw [Host.ask, hreply]
    refine ⟨log, ?_⟩
    rw [bind_of_ok hask]
    rfl

/-- It is written in CPython's digits, or CPython's error stands. -/
lemma intOutside64Bits_exact (hdigits : e.DigitsAreText) (hexc : s.exc = none)
    (hobj : (e.rt.view s.world.heap obj).body = .int z)
    (hstrict : hasOpt e.opts optStrictInteger = false) :
    match e.rt.reply (.toBase obj 10) s.world with
    | (.ok _, _) => Appends (Decimal.intText z) s (e.intOutside64Bits obj z)
    | (.raised exc, _) => Refuses (.object exc) s (e.intOutside64Bits obj z) := by
  obtain ⟨log, hrun⟩ := intOutside64Bits_eq hobj hstrict
  unfold Appends Refuses wp
  rw [hrun]
  rcases hreply : e.rt.reply (.toBase obj 10) s.world with ⟨text | exc, w⟩
  · obtain ⟨o, w1, hutf8⟩ := hdigits _ _ _ _ hreply
    dsimp only
    rw [hutf8]
    exact ⟨Buffer.content_extend .., St.exc_written hexc _, rfl⟩
  · exact ⟨rfl, rfl⟩

lemma intOutside64Bits_strict (hstrict : hasOpt e.opts optStrictInteger = true) :
    Refuses (e.rangeError s.world) s (e.intOutside64Bits obj z) := by
  unfold intOutside64Bits
  rw [if_pos hstrict]
  exact refuses_range

/-! ## The ways of `int` -/

section Routes

variable {C : St Obj H a → Prop} {Q : Unit → St Obj H a → Prop}
  {E : PendingPyErr → St Obj H a → Prop}

/-- The state once the object is read. -/
def looked (s : St Obj H a) (obj : Obj) : St Obj H a := { s with log := s.log ++ [.read (.obj obj)] }

variable (hobj : (e.rt.view s.world.heap obj).body = .int z) (hexc : s.exc = none)

include hobj hexc

lemma wp_int_i64 (hlo : i64Min ≤ z) (hhi : z ≤ i64Max)
    (h : if hasOpt e.opts optStrictInteger ∧ ¬ Within53Bits z then
      wp C (e.fail "Integer exceeds 53-bit range") Q E (looked s obj)
      else wp C (emit (·.writeInt e.fmt z)) Q E (looked s obj)) : wp C (e.int obj) Q E s := by
  unfold int
  rw [wp_bind, Host.wp_look, hobj]
  dsimp only
  rw [if_pos ⟨hlo, hhi⟩, wp_bind, wp_get, if_neg (by simp [hexc])]
  simp only [within53Bits_iff] at h
  split_ifs at h ⊢ with hstrict
  · exact h
  · exact h

lemma wp_int_u64 (hlo : i64Max < z) (hhi : z ≤ u64Max)
    (hstrict : hasOpt e.opts optStrictInteger = false)
    (h : wp C (emit (·.writeInt e.fmt z)) Q E (looked s obj)) : wp C (e.int obj) Q E s := by
  unfold int asUnsignedLongLong
  rw [wp_bind, Host.wp_look, hobj]
  dsimp only
  rw [if_neg (by omega), if_pos ⟨hlo, by simp [hstrict]⟩, if_pos hhi, pure_bind, wp_bind, wp_get,
    if_pos (Or.inr (by simp [hexc]))]
  exact h

/-- The sentinel `u64::MAX` comes with an error, which is cleared. -/
lemma wp_int_outside (hz : ¬ (i64Min ≤ z ∧ z ≤ i64Max))
    (hbig : hasOpt e.opts optStrictInteger = true ∨ ¬ Within64Bits z)
    (h : wp C (e.intOutside64Bits obj z) Q E (looked s obj)) : wp C (e.int obj) Q E s := by
  unfold int
  rw [wp_bind, Host.wp_look, hobj]
  dsimp only
  rw [if_neg hz]
  split_ifs with habove
  · have hgt : ¬ z ≤ u64Max := by
      rcases hbig with hstrict | hbig
      · exact absurd hstrict habove.2
      · exact fun hle => hbig ⟨le_trans (by decide) habove.1.le, hle⟩
    unfold asUnsignedLongLong
    rw [if_neg hgt]
    simp only [wp_bind, wp_setExc, wp_pure, wp_get]
    rw [if_neg (by simp), wp_bind, wp_clearExc, hexc.symm]
    exact h
  · exact h

end Routes

/-- **`int` is exact.**  Without `OPT_STRICT_INTEGER` it appends the decimal text of every integer, and
fails only outside of 64 bits, where CPython refuses to make the digits.  With the option it appends
that text up to 2^53 - 1 and otherwise raises its `TypeError`, and writes nothing. -/
theorem int_exact (hitoa : e.WritesDecimal) (hdigits : e.DigitsAreText)
    (hobj : (e.rt.view s.world.heap obj).body = .int z) (hexc : s.exc = none) :
    if hasOpt e.opts optStrictInteger then
      if Within53Bits z then Appends (Decimal.intText z) s (e.int obj)
      else Refuses (e.rangeError s.world) s (e.int obj)
    else if Within64Bits z then Appends (Decimal.intText z) s (e.int obj)
    else match e.rt.reply (.toBase obj 10) s.world with
      | (.ok _, _) => Appends (Decimal.intText z) s (e.int obj)
      | (.raised exc, _) => Refuses (.object exc) s (e.int obj) := by
  have hlooked : (looked s obj).exc = none := hexc
  have hi64 : i64Max ≤ u64Max := by decide
  by_cases hstrict : hasOpt e.opts optStrictInteger = true
  · rw [if_pos hstrict]
    by_cases hz : Within53Bits z
    · rw [if_pos hz]
      have h64 := hz.within64
      refine wp_int_i64 hobj hexc h64.1 h64.2 ?_
      rw [if_neg fun h => h.2 hz]
      exact appends_writeInt hitoa ⟨h64.1, h64.2.trans hi64⟩ hlooked
    · rw [if_neg hz]
      by_cases h64 : i64Min ≤ z ∧ z ≤ i64Max
      · refine wp_int_i64 hobj hexc h64.1 h64.2 ?_
        rw [if_pos ⟨hstrict, hz⟩]
        exact refuses_range (s := looked s obj)
      · exact wp_int_outside hobj hexc h64 (Or.inl hstrict)
          (intOutside64Bits_strict (s := looked s obj) hstrict)
  · rw [if_neg hstrict]
    rw [Bool.not_eq_true] at hstrict
    by_cases hz : Within64Bits z
    · rw [if_pos hz]
      have hput := appends_writeInt hitoa hz hlooked
      by_cases hle : z ≤ i64Max
      · refine wp_int_i64 hobj hexc hz.1 hle ?_
        rw [if_neg fun h => by simp [hstrict] at h]
        exact hput
      · exact wp_int_u64 hobj hexc (not_le.mp hle) hz.2 hstrict hput
    · rw [if_neg hz]
      have h64 : ¬ (i64Min ≤ z ∧ z ≤ i64Max) := fun h => hz ⟨h.1, h.2.trans hi64⟩
      have hbig : match e.rt.reply (.toBase obj 10) s.world with
          | (.ok _, _) => Appends (Decimal.intText z) (looked s obj) (e.intOutside64Bits obj z)
          | (.raised exc, _) => Refuses (.object exc) (looked s obj) (e.intOutside64Bits obj z) :=
        intOutside64Bits_exact (s := looked s obj) hdigits hlooked hobj hstrict
      revert hbig
      rcases e.rt.reply (.toBase obj 10) s.world with ⟨text | exc, w⟩
      · exact fun h => wp_int_outside hobj hexc h64 (Or.inr hz) h
      · exact fun h => wp_int_outside hobj hexc h64 (Or.inr hz) h

end Env

lemma Formats.plain_itoa {z : ℤ} (hz : Within64Bits z) : Formats.plain.itoa z = Decimal.intText z := by
  have hlen : (Decimal.intText z).length ≤ 20 := by
    unfold Within64Bits i64Min Env.u64Max at hz
    unfold Decimal.intText
    split
    · have := Decimal.length_natText_le (n := z.natAbs) 18 (by omega)
      rw [List.length_cons]
      omega
    · have := Decimal.length_natText_le (n := z.natAbs) 19 (by omega)
      omega
  exact List.take_of_length_le hlen

/-- The header of a compact ASCII text. -/
def asciiHeader (t : Bytes) : PyUnicode := ⟨t.length, 0x64, none, t⟩

lemma asciiHeader_kind (t : Bytes) : (asciiHeader t).kind = 1 := by
  show (0x64 >>> KIND_SHIFT) &&& KIND_MASK = (1 : UInt32)
  decide

lemma asciiHeader_holds {t : Bytes} (h : ∀ b ∈ t, b.toNat < 0x80) :
    (asciiHeader t).Holds (t.map UInt8.toNat) where
  code_points c hc := (Utf8.isScalar_toNat h c hc).1
  length_eq := (List.length_map _).symm
  kind_eq := Or.inl (asciiHeader_kind t)
  narrow c hc := by
    rw [asciiHeader_kind]
    exact (Utf8.lt_of_mem_toNat h hc).trans (by decide)
  data_eq := by
    rw [asciiHeader_kind, show (1 : UInt32).toNat = 1 from rfl,
      ← PyUnicode.encodeAll_of_ascii fun c hc => Utf8.lt_of_mem_toNat h hc, Utf8.encodeAll_toNat h]
    rfl
  ascii _ := ⟨asciiHeader_kind t, fun c hc => Utf8.lt_of_mem_toNat h hc⟩
  cached _ b hb := absurd hb (Option.not_mem_none b)

/-- The `str` of the decimal text of an `int`. -/
def digitsStr (z : ℤ) : StrObj :=
  ⟨asciiHeader (Decimal.intText z), (Decimal.intText z).map UInt8.toNat,
    asciiHeader_holds (Decimal.intText_ascii z)⟩

/-- The object 0 is of a subclass of `int`, the first `int` that does not fit in 64 bits. -/
def wideView : ℕ → PyObj ℕ
  | 0 => ⟨some 1, "Wide", .int 18446744073709551616⟩
  | 3 => ⟨none, "str", .str (digitsStr 18446744073709551616)⟩
  | _ => ⟨none, "object", .other⟩

def wideReply : Call ℕ → Reply ℕ
  | .toBase obj _ => if obj = 0 then .ok 3 else .raised 2
  | .utf8 o => .ok o
  | _ => .raised 2

lemma wideReply_decimal {obj r : ℕ} {z : ℤ} (hobj : (wideView obj).body = .int z)
    (hreply : wideReply (.toBase obj 10) = .ok r) :
    ∃ t, (wideView r).body = .str t ∧ t.chars = (Decimal.intText z).map UInt8.toNat := by
  have hr : (if obj = 0 then Reply.ok 3 else .raised 2) = .ok r := hreply
  split at hr
  · next h =>
    subst h
    cases hr
    cases hobj
    exact ⟨digitsStr 18446744073709551616, rfl, rfl⟩
  · cases hr

def wideInt : Runtime ℕ Unit where
  view _ := wideView
  tupleItems _ := []
  pyNone := 2
  memory _ _ := 0
  callable _ _ := true
  reply c w := (wideReply c, w)
  pylong _ _ := false
  modules := 2
  getItem _ _ _ := .missing
  moduleDict _ _ := none
  datetimeApi _ _ := none
  ownUtcoffset_valid _ _ _ _ h := absurd (congrArg Prod.fst h) (by simp [wideReply])
  str_valid _ _ _ _ h := absurd (congrArg Prod.fst h) (by simp [wideReply])
  toBase_decimal _ _ _ _ _ hobj h := wideReply_decimal hobj (congrArg Prod.fst h)

def wideHost : Host ℕ Unit := ⟨wideInt, .portable, true, Formats.plain⟩

def wideState : St ℕ Unit Allocator.plain where
  out := Buffer.plain
  depth := 0
  defaultDepth := 0
  dt := none
  npRechecked := false
  world := ⟨(), none, none⟩
  exc := none
  log := []

theorem int_exact_wide :
    Appends (Bytes.ascii "18446744073709551616") wideState
      (Env.int ⟨wideHost, none, 0, true, MAX_DEPTH⟩ 0) := by
  have hobj : (wideHost.rt.view () 0).body = .int 18446744073709551616 := rfl
  have h := Env.int_exact (e := ⟨wideHost, none, 0, true, MAX_DEPTH⟩) (s := wideState)
    (fun z hz => Formats.plain_itoa hz) (fun _ _ text w _ => ⟨text, w, rfl⟩) hobj rfl
  rw [if_neg (by decide), if_neg (by decide)] at h
  have htext : Bytes.ascii "18446744073709551616" = Decimal.intText 18446744073709551616 := by
    decide +kernel
  rw [htext]
  exact h

end Isojson
