import Isojson.Library.Decimal
import Isojson.Strfast

/-!
# `float.rs`: numbers and short copies

`small_copy` moves up to 32 bytes with two fixed-size copies that may overlap, and numbers are
formatted in place at the end of the buffer.  The formatters themselves are third-party code and
a parameter (`Formats`).
-/

namespace Isojson

/-! ## The code -/

/-- Fixed-size copies of `s` to `dst`, each piece given by its offset and size.  A piece that is
not inside `s` would read past its end. -/
def copyPieces (out : OutputBuffer) (dst : ℕ) (s : Bytes) : List (ℕ × ℕ) → Option OutputBuffer
  | [] => some out
  | (i, n) :: pieces =>
      if i + n ≤ s.length then do
        let out ← out.storeAt (dst + i) (Bytes.block s i n)
        copyPieces out dst s pieces
      else none

/-- The pieces of `small_copy` for `n` bytes. -/
def smallPieces (n : ℕ) : List (ℕ × ℕ) :=
  if 16 ≤ n then [(0, 16), (n - 16, 16)]
  else if 8 ≤ n then [(0, 8), (n - 8, 8)]
  else if 4 ≤ n then [(0, 4), (n - 4, 4)]
  else (List.range n).map fun i => (i, 1)

def smallCopy (out : OutputBuffer) (s : Bytes) : Option OutputBuffer := do
  let out ← out.reserve s.length
  let out ← copyPieces out out.len s (smallPieces s.length)
  some (out.setLen (out.len + s.length))

/-- The number formatters of the crates `itoa` and `zmij`, floats by their bits, with the sizes
their buffers promise. -/
structure Formats where
  itoa : ℤ → Bytes
  length_itoa : ∀ z, (itoa z).length ≤ 20
  /-- `size_of::<zmij::Buffer>()` -/
  zmijBuffer : ℕ
  zmij64 : UInt64 → Bytes
  length_zmij64 : ∀ v, (zmij64 v).length ≤ zmijBuffer
  zmij32 : UInt32 → Bytes
  length_zmij32 : ∀ v, (zmij32 v).length ≤ zmijBuffer

/-- Formatters that write every float as zero, and integers as far as 20 bytes go. -/
def Formats.plain : Formats where
  itoa z := (Decimal.intText z).take 20
  length_itoa _ := List.length_take_le ..
  zmijBuffer := 3
  zmij64 _ := Bytes.ascii "0.0"
  length_zmij64 _ := le_rfl
  zmij32 _ := Bytes.ascii "0.0"
  length_zmij32 _ := le_rfl

/-- `f64::is_finite` -/
def isFinite64 (v : UInt64) : Bool := (v >>> 52) &&& 0x7FF != 0x7FF

/-- `f32::is_finite` -/
def isFinite32 (v : UInt32) : Bool := (v >>> 23) &&& 0xFF != 0xFF

/-- `write_finite`, where `t` is what `format_finite` puts at the start of its buffer. -/
def writeFinite (bufferSize : ℕ) (out : OutputBuffer) (t : Bytes) : Option OutputBuffer := do
  let out ← out.reserve bufferSize
  let out ← out.storeAt out.len t
  some (out.setLen (out.len + t.length))

/-- `u16::leading_zeros` -/
def leadingZeros16 (x : UInt16) : UInt32 := UInt32.ofNat (16 - Nat.size x.toNat)

def f16ToF32 (i : UInt16) : UInt32 :=
  if i &&& 0x7FFF = 0 then i.toUInt32 <<< 16
  else
    let halfSign := (i &&& 0x8000).toUInt32
    let halfExp := (i &&& 0x7C00).toUInt32
    let halfMan := (i &&& 0x03FF).toUInt32
    if halfExp = 0x7C00 then
      if halfMan = 0 then (halfSign <<< 16) ||| (0x7F800000 : UInt32)
      else (halfSign <<< 16) ||| (0x7FC00000 : UInt32) ||| (halfMan <<< 13)
    else
      let sign := halfSign <<< 16
      if halfExp = 0 then
        let e := leadingZeros16 halfMan.toUInt16 - 6
        let exp : UInt32 := (127 - 15 - e) <<< 23
        let man : UInt32 := (halfMan <<< (14 + e)) &&& 0x7FFFFF
        sign ||| exp ||| man
      else
        -- the unbiased exponent is at least -14, so the sum is not negative
        let exp : UInt32 := ((halfExp >>> 10) - 15 + 127) <<< 23
        let man := (halfMan &&& 0x03FF) <<< 13
        sign ||| exp ||| man

/-! ## Short copies -/

/-- The pieces cover every offset below `n`, and nothing else. -/
def Covers (pieces : List (ℕ × ℕ)) (n : ℕ) : Prop :=
  (∀ p ∈ pieces, p.1 + p.2 ≤ n) ∧ ∀ i < n, ∃ p ∈ pieces, p.1 ≤ i ∧ i < p.1 + p.2

lemma covers_bytes (n : ℕ) : Covers ((List.range n).map fun i => (i, 1)) n := by
  refine ⟨?_, fun i hi => ⟨(i, 1), List.mem_map_of_mem (List.mem_range.mpr hi), le_rfl, by omega⟩⟩
  intro p hp
  obtain ⟨i, hi, rfl⟩ := List.mem_map.mp hp
  have := List.mem_range.mp hi
  omega

/-- Two pieces of size `k`, one from each end, cover every length from `k` to `2 * k`. -/
lemma covers_ends {k n : ℕ} (h : k ≤ n) (h' : n ≤ 2 * k) : Covers [(0, k), (n - k, k)] n := by
  refine ⟨?_, fun i hi => ?_⟩
  · simp only [List.mem_cons, List.not_mem_nil, or_false, forall_eq_or_imp, forall_eq]
    omega
  · rcases Nat.lt_or_ge i k with hk | hk
    · exact ⟨(0, k), by simp, Nat.zero_le _, by simpa using hk⟩
    · exact ⟨(n - k, k), by simp, by simp only; omega, by simp only; omega⟩

lemma covers_smallPieces {n : ℕ} (h : n ≤ 32) : Covers (smallPieces n) n := by
  unfold smallPieces
  split
  · exact covers_ends (by omega) (by omega)
  · split
    · exact covers_ends (by omega) (by omega)
    · split
      · exact covers_ends (by omega) (by omega)
      · exact covers_bytes n

lemma getElem?_block {s : Bytes} {i n j : ℕ} (h : i ≤ j) (h' : j < i + n) :
    (Bytes.block s i n)[j - i]? = s[j]? := by
  rw [Bytes.block, List.getElem?_take_of_lt (by omega), List.getElem?_drop]
  congr 1
  omega

namespace OutputBuffer

variable {a : Allocator} {dst : ℕ} {t : Bytes} {out : OutputBuffer}

/-- Pieces of `s` copied to `dst` leave the memory before `dst` alone, and behind it they show
`s` wherever they reach. -/
lemma copyPieces_spec (h : out.WF) {s : Bytes} (hcap : dst + s.length ≤ out.cap)
    (pieces : List (ℕ × ℕ)) (hin : ∀ p ∈ pieces, p.1 + p.2 ≤ s.length) {m : Bytes}
    (hm : out.memory = some m) :
    ∃ out' m', copyPieces out dst s pieces = some out' ∧ out'.WF ∧ out'.len = out.len ∧
      out'.cap = out.cap ∧ out'.alloc = out.alloc ∧ out'.memory = some m' ∧
      m'.take dst = m.take dst ∧ ∀ i < s.length,
        (m[dst + i]? = s[i]? ∨ ∃ p ∈ pieces, p.1 ≤ i ∧ i < p.1 + p.2) → m'[dst + i]? = s[i]? := by
  induction pieces generalizing out m with
  | nil =>
      refine ⟨out, m, rfl, h, rfl, rfl, rfl, hm, rfl, fun i _ hi => ?_⟩
      rcases hi with hi | ⟨p, hp, -⟩
      · exact hi
      · exact absurd hp List.not_mem_nil
  | cons p pieces ih =>
      obtain ⟨j, n⟩ := p
      obtain ⟨hj, hin⟩ := List.forall_mem_cons.mp hin
      simp only at hj
      have hlen : (Bytes.block s j n).length = n := by
        simp only [Bytes.block, List.length_take, List.length_drop]
        omega
      obtain ⟨m0, hm0, hmcap⟩ := h.memory_eq
      obtain rfl : m0 = m := Option.some.inj (hm0.symm.trans hm)
      obtain ⟨o1, ho1, hwf1, hlen1, hcap1, ha1, hmem1⟩ :=
        @storeAt_spec _ h (dst + j) (Bytes.block s j n) (by omega)
      rw [hm, Option.map_some] at hmem1
      obtain ⟨o2, m2, ho2, hwf2, hlen2, hcap2, ha2, hm2, htake, hshow⟩ :=
        ih hwf1 (by omega) hin hmem1
      refine ⟨o2, m2, ?_, hwf2, hlen2.trans hlen1, hcap2.trans hcap1, ha2.trans ha1, hm2, ?_, ?_⟩
      · rw [copyPieces, if_pos hj, ho1]
        exact ho2
      · rw [htake, Bytes.take_store_of_le (by omega) (by omega)]
      · intro i hi hor
        refine hshow i hi ?_
        rw [Bytes.getElem?_store (by omega), hlen]
        by_cases hhere : j ≤ i ∧ i < j + n
        · refine Or.inl ?_
          rw [if_pos (by omega), show dst + i - (dst + j) = i - j by omega,
            getElem?_block hhere.1 hhere.2]
        · rw [if_neg (by omega)]
          rcases hor with hor | ⟨p, hp, hlo, hhi⟩
          · exact Or.inl hor
          · rcases List.mem_cons.mp hp with rfl | hp
            · exact absurd ⟨hlo, hhi⟩ hhere
            · exact Or.inr ⟨p, hp, hlo, hhi⟩

/-- Pieces that cover `s` copy it behind `dst`. -/
lemma Pending.copyPieces (h : out.Pending a dst t) {s : Bytes} (hcap : dst + s.length ≤ out.cap)
    {pieces : List (ℕ × ℕ)} (hc : Covers pieces s.length) :
    ∃ out', Isojson.copyPieces out dst s pieces = some out' ∧
      out'.Pending a (dst + s.length) (t ++ s) ∧ out'.len = out.len ∧ out'.cap = out.cap := by
  obtain ⟨m, hm, hmcap⟩ := h.wf.memory_eq
  obtain ⟨out', m', ho, hwf, hlen, hcap', ha, hm', htake, hshow⟩ :=
    copyPieces_spec h.wf hcap pieces hc.1 hm
  obtain ⟨m0, hm0, hmcap'⟩ := hwf.memory_eq
  obtain rfl : m0 = m' := Option.some.inj (hm0.symm.trans hm')
  refine ⟨out', ho, ⟨hwf, ha.trans h.alloc_eq, by omega, ?_⟩, hlen, hcap'⟩
  have hw := h.written
  rw [hm, Option.getD_some] at hw
  rw [hm', Option.getD_some, ← hw, ← htake]
  refine List.ext_getElem? fun i => ?_
  have hl : (m0.take dst).length = dst := by
    rw [List.length_take]
    omega
  rcases Nat.lt_or_ge i dst with hi | hi
  · rw [List.getElem?_take_of_lt (by omega), List.getElem?_append_left (by omega),
      List.getElem?_take_of_lt hi]
  · rw [List.getElem?_append_right (by omega), hl]
    rcases Nat.lt_or_ge (i - dst) s.length with hlt | hge
    · rw [List.getElem?_take_of_lt (by omega)]
      have := hshow (i - dst) hlt (Or.inr (hc.2 _ hlt))
      rwa [Nat.add_sub_cancel' hi] at this
    · rw [List.getElem?_eq_none (by rw [List.length_take]; omega), List.getElem?_eq_none hge]

lemma smallCopy_spec (h : out.WF) {s : Bytes} (hs : s.length ≤ 32) :
    ∃ out', smallCopy out s = some out' ∧ out'.WF ∧ out'.content = out.content ++ s ∧
      out'.alloc = out.alloc := by
  obtain ⟨o1, h1, hwf1, hlen1, hc1, ha1, hcap1⟩ := reserve_spec h s.length
  obtain ⟨o2, h2, hp, hlen2, -⟩ :=
    (Pending.of_wf hwf1).copyPieces (by omega) (covers_smallPieces hs)
  obtain ⟨hwf, hc, ha⟩ := hp.setLen
  rw [← hlen2] at hwf hc ha
  refine ⟨_, ?_, hwf, hc.trans (by rw [hc1]), ha.trans ha1⟩
  simp only [smallCopy, h1, h2, Option.bind_eq_bind, Option.bind_some]

lemma writeFinite_spec (h : out.WF) {size : ℕ} {s : Bytes} (hs : s.length ≤ size) :
    ∃ out', writeFinite size out s = some out' ∧ out'.WF ∧ out'.content = out.content ++ s ∧
      out'.alloc = out.alloc := by
  obtain ⟨o1, h1, hwf1, hlen1, hc1, ha1, hcap1⟩ := reserve_spec h size
  obtain ⟨o2, h2, hwf2, hlen2, hc2, ha2⟩ := storeAt_end_spec hwf1 s (by omega)
  refine ⟨_, ?_, hwf2, hc2.trans (by rw [hc1]), ha2.trans ha1⟩
  simp only [writeFinite, h1, h2, Option.bind_eq_bind, Option.bind_some]

end OutputBuffer

end Isojson
