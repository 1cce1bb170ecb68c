import Isojson.Float
import Isojson.Library.Binary

/-!
# Half-precision numbers

numpy's float16 elements are widened to single precision before they are written
(`f16_to_f32`).  The widening is exact: the single that it makes is the one that stands for the
same number.  So a float16 array is written as the float32 array of its numbers is.
-/

namespace Isojson

open Binary
open Float.Model (Format)

/-- The format of numpy's float16. -/
abbrev binary16 : Format where
  mantissaBitsWithoutImplicit := 10
  exponentBits := 5

/-! ## The fields of a half -/

section Fields

variable (i : UInt16)

lemma toNat_halfSign : (i &&& 0x8000).toUInt32.toNat = i.toNat / 2 ^ 15 * 2 ^ 15 := by
  have hlt := i.toNat_lt
  have hmask := land_field i.toNat 1 15
  simp only [UInt16.toNat_toUInt32, UInt16.toNat_and]
  exact hmask.trans (by omega)

lemma toNat_halfExp : (i &&& 0x7C00).toUInt32.toNat = i.toNat / 2 ^ 10 % 2 ^ 5 * 2 ^ 10 := by
  simp only [UInt16.toNat_toUInt32, UInt16.toNat_and]
  exact land_field i.toNat 5 10

lemma toNat_halfMan : (i &&& 0x03FF).toUInt32.toNat = i.toNat % 2 ^ 10 := by
  simp only [UInt16.toNat_toUInt32, UInt16.toNat_and]
  exact Nat.and_two_pow_sub_one_eq_mod i.toNat 10

lemma isZero_iff : i &&& 0x7FFF = 0 ↔ i.toNat % 2 ^ 15 = 0 := by
  rw [← UInt16.toNat_inj, UInt16.toNat_and]
  exact iff_of_eq (congrArg (· = 0) (Nat.and_two_pow_sub_one_eq_mod i.toNat 15))

end Fields

/-! ## The widening -/

/-- What a half stands for. -/
def datum16 (i : UInt16) : Datum := datum (Float.Model.UnpackedFloat.unpack binary16 i.toBitVec)

/-- What a single stands for. -/
def datum32 (v : UInt32) : Datum := datum (Float.Model.UnpackedFloat.unpack .binary32 v.toBitVec)

/-- What a half stands for, by its fields. -/
lemma datum16_eq (i : UInt16) : datum16 i = reading binary16 (i.toNat / 2 ^ 15)
    (i.toNat / 2 ^ 10 % 2 ^ 5) (i.toNat % 2 ^ 10) :=
  datum_unpack (F := binary16) i.toBitVec

/-- What a single stands for, by its fields. -/
lemma datum32_eq (v : UInt32) : datum32 v = reading .binary32 (v.toNat / 2 ^ 31)
    (v.toNat / 2 ^ 23 % 2 ^ 8) (v.toNat % 2 ^ 23) :=
  datum_unpack (F := .binary32) v.toBitVec

lemma datum32_eq_read (v : UInt32) : datum32 v = Binary.read .binary32 v.toNat := by
  have hbits : BitVec.ofNat 32 v.toNat = v.toBitVec := by
    rw [← UInt32.toNat_toBitVec, BitVec.ofNat_toNat, BitVec.setWidth_eq]
  exact congrArg (fun b => datum (Float.Model.UnpackedFloat.unpack .binary32 b)) hbits.symm

/-- Two singles that stand for one number are the same. -/
lemma eq_of_datum32 {v w : UInt32} (heq : datum32 v = datum32 w) (hnan : datum32 v ≠ .nan) : v = w := by
  rw [datum32_eq_read, datum32_eq_read] at heq
  rw [datum32_eq_read] at hnan
  exact UInt32.toNat_inj.mp (read_inj (F := .binary32) v.toNat_lt w.toNat_lt heq hnan)

/-- `is_finite` tells the numbers. -/
lemma isFinite32_iff (v : UInt32) : isFinite32 v = true ↔ ∃ s q, datum32 v = .finite s q := by
  have hexp : isFinite32 v = true ↔ v.toNat / 2 ^ 23 % 2 ^ 8 ≠ 255 := by
    have hfield : (v >>> 23 &&& 0xFF).toNat = v.toNat / 2 ^ 23 % 2 ^ 8 := by
      rw [UInt32.toNat_and, UInt32.toNat_shiftRight, Nat.shiftRight_eq_div_pow]
      exact Nat.and_two_pow_sub_one_eq_mod _ 8
    rw [isFinite32, bne_iff_ne, Ne, ← UInt32.toNat_inj, hfield]
    rfl
  rw [hexp, datum32_eq]
  exact (reading_finite_iff (F := .binary32)).symm

/-- A single that is put together from its fields. -/
lemma toNat_lor_fields {a b c : UInt32} {s e f : ℕ} (ha : a.toNat = s * 2 ^ 31)
    (hb : b.toNat = e * 2 ^ 23) (hc : c.toNat = f) (he : e < 2 ^ 8) (hf : f < 2 ^ 23) :
    (a ||| b ||| c).toNat = ofFields .binary32 s e f := by
  rw [UInt32.toNat_or, UInt32.toNat_or, ha, hb, hc]
  exact lor_fields (F := .binary32) he hf

/-- A shift to the left that loses no bit. -/
lemma toNat_shift {a b : UInt32} {n w : ℕ} (ha : a.toNat = n) (hb : b.toNat = w) (hw : w < 32)
    (hlt : n * 2 ^ w < 2 ^ 32) : (a <<< b).toNat = n * 2 ^ w := by
  rw [UInt32.toNat_shiftLeft, ha, hb, Nat.mod_eq_of_lt hw, Nat.shiftLeft_eq, Nat.mod_eq_of_lt hlt]

section Widening

variable (i : UInt16)

lemma toNat_sign : ((i &&& 0x8000).toUInt32 <<< 16).toNat = i.toNat / 2 ^ 15 * 2 ^ 31 := by
  have hlt := i.toNat_lt
  have hshift : (16 : UInt32).toNat = 16 := rfl
  rw [toNat_shift (toNat_halfSign i) hshift (by decide) (by norm_num; omega), mul_assoc, ← pow_add]

lemma toNat_man : ((i &&& 0x03FF).toUInt32 <<< 13).toNat = i.toNat % 2 ^ 10 * 2 ^ 13 :=
  toNat_shift (toNat_halfMan i) rfl (by decide) (by norm_num; omega)

variable {i}

/-- Infinities and NaNs. -/
lemma toNat_f16ToF32_top (htop : i.toNat / 2 ^ 10 % 2 ^ 5 = 31) : ∃ f < 2 ^ 23,
    (f16ToF32 i).toNat = ofFields .binary32 (i.toNat / 2 ^ 15) 255 f ∧
    (f = 0 ↔ i.toNat % 2 ^ 10 = 0) := by
  have hexp : (i &&& 0x7C00).toUInt32 = 0x7C00 := by
    rw [← UInt32.toNat_inj, toNat_halfExp, htop]
    rfl
  have hzero : i &&& 0x7FFF ≠ 0 := fun h => absurd ((isZero_iff i).mp h) (by omega)
  have hinf : (i &&& 0x03FF).toUInt32 = 0 ↔ i.toNat % 2 ^ 10 = 0 := by
    rw [← UInt32.toNat_inj, toNat_halfMan]
    rfl
  unfold f16ToF32
  dsimp only
  rw [if_neg hzero, if_pos hexp]
  split
  · next h =>
      refine ⟨0, by decide, ?_, iff_of_true rfl (hinf.mp h)⟩
      have hor := toNat_lor_fields (c := 0) (toNat_sign i)
        (show (0x7F800000 : UInt32).toNat = 255 * 2 ^ 23 from rfl) rfl (by decide) (by decide)
      simpa using hor
  · next h =>
      -- the quiet bit is set, and the digits that are left of the payload are kept
      have hpayload : ((0x400000 : UInt32) ||| (i &&& 0x03FF).toUInt32 <<< 13).toNat < 2 ^ 23 := by
        rw [UInt32.toNat_or, toNat_man]
        exact Nat.or_lt_two_pow (by decide) (by omega)
      refine ⟨_, hpayload, ?_, iff_of_false ?_ fun hman => h (hinf.mpr hman)⟩
      · have hor := toNat_lor_fields (toNat_sign i)
          (show (0x7F800000 : UInt32).toNat = 255 * 2 ^ 23 from rfl) rfl (by decide) hpayload
        have hquiet : (0x7FC00000 : UInt32) = 0x7F800000 ||| 0x400000 := rfl
        rw [← hor, hquiet]
        simp only [UInt32.or_assoc]
      · rw [UInt32.toNat_or]
        exact fun hor => absurd (Nat.or_eq_zero_iff.mp hor).1 (by decide)

/-- Normal numbers. -/
lemma toNat_f16ToF32_normal (hlow : i.toNat / 2 ^ 10 % 2 ^ 5 ≠ 0)
    (htop : i.toNat / 2 ^ 10 % 2 ^ 5 ≠ 31) :
    (f16ToF32 i).toNat = ofFields .binary32 (i.toNat / 2 ^ 15) (i.toNat / 2 ^ 10 % 2 ^ 5 + 112)
      (i.toNat % 2 ^ 10 * 2 ^ 13) := by
  have hzero : i &&& 0x7FFF ≠ 0 := fun h => absurd ((isZero_iff i).mp h) (by omega)
  have hexp : (i &&& 0x7C00).toUInt32 ≠ 0x7C00 := by
    rw [Ne, ← UInt32.toNat_inj, toNat_halfExp]
    exact fun h => htop (Nat.eq_of_mul_eq_mul_right (by decide : 0 < 2 ^ 10) h)
  have hexp' : (i &&& 0x7C00).toUInt32 ≠ 0 := by
    rw [Ne, ← UInt32.toNat_inj, toNat_halfExp]
    exact fun h => hlow (Nat.eq_of_mul_eq_mul_right (by decide : 0 < 2 ^ 10) (h.trans (zero_mul _).symm))
  have hbiased : ((i &&& 0x7C00).toUInt32 >>> 10 - 15 + 127).toNat = i.toNat / 2 ^ 10 % 2 ^ 5 + 112 := by
    have hten : (10 : UInt32).toNat % 32 = 10 := rfl
    have hfifteen : (15 : UInt32).toNat = 15 := rfl
    have hmax : (127 : UInt32).toNat = 127 := rfl
    rw [UInt32.toNat_add, UInt32.toNat_sub, UInt32.toNat_shiftRight, toNat_halfExp, hten, hfifteen, hmax,
      Nat.shiftRight_eq_div_pow, Nat.mul_div_cancel _ (Nat.two_pow_pos _)]
    omega
  have hman : ((i &&& 0x03FF).toUInt32 &&& 0x03FF) = (i &&& 0x03FF).toUInt32 := by
    rw [← UInt32.toNat_inj, UInt32.toNat_and, toNat_halfMan]
    exact (Nat.and_two_pow_sub_one_eq_mod _ 10).trans (Nat.mod_mod _ _)
  unfold f16ToF32
  dsimp only
  rw [if_neg hzero, if_neg hexp, if_neg hexp', hman]
  exact toNat_lor_fields (toNat_sign i) (toNat_shift hbiased rfl (by decide) (by norm_num; omega))
    (toNat_man i) (by omega) (by omega)

/-- The fraction of a subnormal number, shifted so that it has eleven digits. -/
lemma leading_one {f : ℕ} (hf : f < 2 ^ 10) (hne : f ≠ 0) : 0 < f.size ∧ f.size ≤ 10 ∧
    2 ^ 10 ≤ f * 2 ^ (11 - f.size) ∧ f * 2 ^ (11 - f.size) < 2 ^ 11 := by
  have hsize : f.size ≤ 10 := Nat.size_le.mpr hf
  have hpos : 0 < f.size := Nat.size_pos.mpr (Nat.pos_of_ne_zero hne)
  have hlo : 2 ^ (f.size - 1) ≤ f := Nat.lt_size.mp (by omega)
  have hhi : f < 2 ^ f.size := Nat.lt_size_self f
  refine ⟨hpos, hsize, ?_, ?_⟩
  · calc 2 ^ 10 = 2 ^ (f.size - 1) * 2 ^ (11 - f.size) := by
          rw [← pow_add]
          congr 1
          omega
      _ ≤ f * 2 ^ (11 - f.size) := Nat.mul_le_mul_right _ hlo
  · calc f * 2 ^ (11 - f.size) < 2 ^ f.size * 2 ^ (11 - f.size) :=
          Nat.mul_lt_mul_of_pos_right hhi (Nat.two_pow_pos _)
      _ = 2 ^ 11 := by
          rw [← pow_add]
          congr 1
          omega

/-- Subnormal numbers. -/
lemma toNat_f16ToF32_subnormal (hlow : i.toNat / 2 ^ 10 % 2 ^ 5 = 0) (hman : i.toNat % 2 ^ 10 ≠ 0) :
    (f16ToF32 i).toNat = ofFields .binary32 (i.toNat / 2 ^ 15)
      (112 - (10 - Nat.size (i.toNat % 2 ^ 10)))
      ((i.toNat % 2 ^ 10 * 2 ^ (11 - Nat.size (i.toNat % 2 ^ 10)) - 2 ^ 10) * 2 ^ 13) := by
  have hzero : i &&& 0x7FFF ≠ 0 := fun h => absurd ((isZero_iff i).mp h) (by omega)
  have hexp : (i &&& 0x7C00).toUInt32 = 0 := by
    rw [← UInt32.toNat_inj, toNat_halfExp, hlow]
    rfl
  have htop : (i &&& 0x7C00).toUInt32 ≠ 0x7C00 := by
    rw [hexp]
    decide
  have hf : i.toNat % 2 ^ 10 < 2 ^ 10 := Nat.mod_lt _ (by decide)
  have hmanNat := toNat_halfMan i
  generalize hfeq : i.toNat % 2 ^ 10 = f at hf hman hmanNat ⊢
  obtain ⟨hpos, hsize, hlead, hnext⟩ := leading_one hf hman
  have he : (leadingZeros16 (i &&& 0x03FF).toUInt32.toUInt16 - 6).toNat = 10 - f.size := by
    have hsix : (6 : UInt32).toNat = 6 := rfl
    rw [leadingZeros16, UInt32.toNat_toUInt16, hmanNat, Nat.mod_eq_of_lt (by omega), UInt32.toNat_sub,
      hsix, UInt32.toNat_ofNat_of_lt' (by simp only [UInt32.size]; omega)]
    omega
  have hexpNat : (127 - 15 - (leadingZeros16 (i &&& 0x03FF).toUInt32.toUInt16 - 6)).toNat =
      112 - (10 - f.size) := by
    have hbase : (127 - 15 : UInt32) = 112 := rfl
    have hbaseNat : (112 : UInt32).toNat = 112 := rfl
    rw [hbase, UInt32.toNat_sub, hbaseNat, he]
    omega
  have hshift : (14 + (leadingZeros16 (i &&& 0x03FF).toUInt32.toUInt16 - 6)).toNat =
      11 - f.size + 13 := by
    have hbase : (14 : UInt32).toNat = 14 := rfl
    rw [UInt32.toNat_add, he, hbase]
    omega
  unfold f16ToF32
  dsimp only
  rw [if_neg hzero, if_neg htop, if_pos hexp]
  apply toNat_lor_fields (toNat_sign i)
  · exact toNat_shift hexpNat rfl (by decide) (by norm_num; omega)
  · have hwide : f * 2 ^ (11 - f.size + 13) = f * 2 ^ (11 - f.size) * 2 ^ 13 := by
      rw [pow_add, mul_assoc]
    have hdropped : (f * 2 ^ (11 - f.size) * 2 ^ 13) % 2 ^ 23 =
        (f * 2 ^ (11 - f.size) - 2 ^ 10) * 2 ^ 13 := by omega
    rw [UInt32.toNat_and, toNat_shift hmanNat hshift (by omega) (by rw [hwide]; omega), hwide, ← hdropped]
    exact Nat.and_two_pow_sub_one_eq_mod _ 23
  · omega
  · omega

/-- Zeros. -/
lemma toNat_f16ToF32_zero (hzero : i.toNat % 2 ^ 15 = 0) :
    (f16ToF32 i).toNat = ofFields .binary32 (i.toNat / 2 ^ 15) 0 0 := by
  have hlt := i.toNat_lt
  have hshift : (16 : UInt32).toNat = 16 := rfl
  have hfields : ofFields .binary32 (i.toNat / 2 ^ 15) 0 0 = i.toNat * 2 ^ 16 := by
    change (i.toNat / 2 ^ 15 * 2 ^ 8 + 0) * 2 ^ 23 + 0 = i.toNat * 2 ^ 16
    omega
  rw [f16ToF32, if_pos ((isZero_iff i).mpr hzero), hfields]
  exact toNat_shift (UInt16.toNat_toUInt32 i) hshift (by decide) (by norm_num; omega)

/-- The single stands for what the half stands for. -/
lemma datum32_f16ToF32 (i : UInt16) : datum32 (f16ToF32 i) = datum16 i := by
  have hlt := i.toNat_lt
  have hs : i.toNat / 2 ^ 15 < 2 := by omega
  have hfrac : binary16.mantissaBitsWithoutImplicit + 13 =
      Format.binary32.mantissaBitsWithoutImplicit := rfl
  have hbias : binary16.exponentBias + 112 = Format.binary32.exponentBias := rfl
  have hread : ∀ {e f : ℕ}, (f16ToF32 i).toNat = ofFields .binary32 (i.toNat / 2 ^ 15) e f →
      e < 2 ^ 8 → f < 2 ^ 23 → datum32 (f16ToF32 i) = reading .binary32 (i.toNat / 2 ^ 15) e f := by
    intro e f hnat he hf
    rw [datum32_eq_read, hnat]
    exact read_ofFields (F := .binary32) hs he hf
  rw [datum16_eq]
  by_cases htop : i.toNat / 2 ^ 10 % 2 ^ 5 = 31
  · obtain ⟨f, hf, hnat, hnan⟩ := toNat_f16ToF32_top htop
    rw [hread hnat (by decide) hf, reading_top (F := .binary32) (show 255 = 255 from rfl),
      reading_top (F := binary16) (show _ = 31 from htop), if_congr hnan rfl rfl]
  have hhalf := reading_number (F := binary16) (s := i.toNat / 2 ^ 15) (f := i.toNat % 2 ^ 10)
    (show _ ≠ 31 from htop)
  have hsingle : ∀ {e f : ℕ}, e < 255 → reading .binary32 (i.toNat / 2 ^ 15) e f =
      .finite (signOf (i.toNat / 2 ^ 15)) (magnitude .binary32 e f) := by
    intro e f he
    exact reading_number (F := .binary32) (show e ≠ 255 by omega)
  rw [hhalf]
  by_cases hlow : i.toNat / 2 ^ 10 % 2 ^ 5 = 0
  · by_cases hman : i.toNat % 2 ^ 10 = 0
    · rw [hread (toNat_f16ToF32_zero (by omega)) (by decide) (by decide), hsingle (by decide), hlow, hman,
        magnitude_zero, magnitude_zero]
    · obtain ⟨hpos, hsize, hlead, hnext⟩ := leading_one (Nat.mod_lt _ (by decide)) hman
      have hmagnitude := magnitude_subnormal hfrac hbias
        (show 11 - Nat.size (i.toNat % 2 ^ 10) ≤ 112 by omega) hlead
      have hexp : 112 - (10 - Nat.size (i.toNat % 2 ^ 10)) =
          112 + 1 - (11 - Nat.size (i.toNat % 2 ^ 10)) := by omega
      rw [hread (toNat_f16ToF32_subnormal hlow hman) (by omega) (by omega), hsingle (by omega), hlow, hexp]
      exact congrArg (Datum.finite _) hmagnitude
  · rw [hread (toNat_f16ToF32_normal hlow htop) (by omega) (by omega), hsingle (by omega)]
    exact congrArg (Datum.finite _) (magnitude_normal hfrac hbias hlow)

end Widening

/-- **The widening is exact.**  The single stands for the number, infinity or NaN that the half stands
for; it is finite if the half is; and for a half that is no NaN, no other single stands for the same. -/
theorem f16ToF32_exact (i : UInt16) :
    datum32 (f16ToF32 i) = datum16 i ∧
    (isFinite32 (f16ToF32 i) = true ↔ ∃ s q, datum16 i = .finite s q) ∧
    ∀ v, datum32 v = datum16 i → datum16 i ≠ .nan → v = f16ToF32 i := by
  have hexact := datum32_f16ToF32 i
  refine ⟨hexact, ?_, fun v hv hnan => ?_⟩
  · rw [isFinite32_iff, hexact]
  · rw [← hexact] at hv
    exact eq_of_datum32 hv (by rwa [hv, hexact])

/-- The single 1.0 is the one that the half 1.0 is widened to. -/
theorem f16ToF32_exact_one : (0x3F800000 : UInt32) = f16ToF32 0x3C00 := by
  have hone : datum16 0x3C00 = reading binary16 0 15 0 := datum16_eq 0x3C00
  have hnumber : reading binary16 0 15 0 = _ :=
    reading_number (F := binary16) (show 15 ≠ 31 by decide)
  apply (f16ToF32_exact 0x3C00).2.2
  · have hwide : (0x3F800000 : UInt32) = f16ToF32 0x3C00 := by decide
    rw [hwide]
    exact datum32_f16ToF32 _
  · rw [hone, hnumber]
    exact Datum.noConfusion

end Isojson
