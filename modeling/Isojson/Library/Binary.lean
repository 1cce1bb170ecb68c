import Mathlib

/-!
# Binary interchange formats

What the bit patterns of a binary format stand for, over Lean's own model of floats
(`Float.Model.Format`).  A pattern is read by its fields (`read_ofFields`); the magnitudes of a
format are ordered as their patterns are (`magnitude_lt`), so that a number has one pattern
(`reading_inj`).  `magnitude_normal` and `magnitude_subnormal` say how the fields of a number
change in a wider format.
-/

namespace Binary

open Float.Model
open Float.Model.UnpackedFloat (Sign unpack unpackSign unpackExponent unpackMantissa)

/-! ## Fields -/

/-- What a float stands for.  A zero has a sign, and all NaNs are alike. -/
inductive Datum where
  | nan
  | infinite (s : Sign)
  | finite (s : Sign) (magnitude : ℚ)

def datum : UnpackedFloat → Datum
  | .notANumber => .nan
  | .infinity s => .infinite s
  | .zero s => .finite s 0
  | .finite s m e _ => .finite s (m * 2 ^ e)

/-- What a bit pattern of a format stands for. -/
def read (F : Format) (n : ℕ) : Datum := datum (unpack F (BitVec.ofNat F.numBits n))

variable (F G : Format)

/-- The bit pattern with the given sign, exponent and fraction fields. -/
def ofFields (s e f : ℕ) : ℕ :=
  (s * 2 ^ F.exponentBits + e) * 2 ^ F.mantissaBitsWithoutImplicit + f

/-- The magnitude of a number, by its exponent and fraction fields. -/
def magnitude (e f : ℕ) : ℚ :=
  (if e = 0 then (f : ℚ) else 2 ^ F.mantissaBitsWithoutImplicit + f) *
    2 ^ ((max e 1 : ℕ) - (F.exponentBias + F.mantissaBitsWithoutImplicit : ℤ))

def signOf (s : ℕ) : Sign := if s = 0 then .positive else .negative

/-- What fields stand for. -/
def reading (s e f : ℕ) : Datum :=
  if e = 2 ^ F.exponentBits - 1 then if f = 0 then .infinite (signOf s) else .nan
  else .finite (signOf s) (magnitude F e f)

variable {F G} {s e f s' e' f' : ℕ}

lemma reading_top (he : e = 2 ^ F.exponentBits - 1) :
    reading F s e f = if f = 0 then .infinite (signOf s) else .nan := if_pos he

lemma reading_number (he : e ≠ 2 ^ F.exponentBits - 1) :
    reading F s e f = .finite (signOf s) (magnitude F e f) := if_neg he

/-- The fields of a number. -/
lemma reading_finite_iff :
    (∃ sign q, reading F s e f = .finite sign q) ↔ e ≠ 2 ^ F.exponentBits - 1 := by
  constructor
  · rintro ⟨sign, q, h⟩ he
    rw [reading_top he] at h
    split at h <;> cases h
  · intro he
    exact ⟨_, _, reading_number he⟩

lemma toNat_unpackMantissa (b : BitVec F.numBits) :
    (unpackMantissa b).toNat = b.toNat % 2 ^ F.mantissaBitsWithoutImplicit := by
  have hm := F.hm
  rw [unpackMantissa, BitVec.toNat_cast, BitVec.extractLsb_toNat, Nat.shiftRight_zero, Nat.sub_zero,
    Nat.sub_add_cancel hm]

lemma toNat_unpackExponent (b : BitVec F.numBits) :
    (unpackExponent b).toNat =
      b.toNat / 2 ^ F.mantissaBitsWithoutImplicit % 2 ^ F.exponentBits := by
  have he := F.he
  rw [unpackExponent, BitVec.toNat_cast, BitVec.extractLsb_toNat, Nat.shiftRight_eq_div_pow]
  congr 2
  omega

lemma ofBitVec_unpackSign (b : BitVec F.numBits) :
    Sign.ofBitVec (unpackSign b) =
      signOf (b.toNat / 2 ^ (F.mantissaBitsWithoutImplicit + F.exponentBits)) := by
  have hlt : b.toNat / 2 ^ (F.mantissaBitsWithoutImplicit + F.exponentBits) < 2 := by
    apply Nat.div_lt_of_lt_mul
    calc b.toNat < 2 ^ (1 + F.exponentBits + F.mantissaBitsWithoutImplicit) := b.isLt
      _ = 2 ^ (F.mantissaBitsWithoutImplicit + F.exponentBits) * 2 := by
        rw [← pow_succ]
        congr 1
        omega
  have hbit : (unpackSign b).toNat =
      b.toNat / 2 ^ (F.mantissaBitsWithoutImplicit + F.exponentBits) := by
    rw [unpackSign, BitVec.toNat_cast, BitVec.extractLsb_toNat, Nat.shiftRight_eq_div_pow,
      Nat.sub_self, zero_add, pow_one, Nat.mod_eq_of_lt hlt]
  unfold Sign.ofBitVec signOf
  rw [← hbit]
  simp only [← BitVec.toNat_inj, BitVec.toNat_ofNat, Nat.zero_mod]

/-- What a pattern stands for, by its fields. -/
lemma datum_unpack (b : BitVec F.numBits) :
    datum (unpack F b) = reading F
      (b.toNat / 2 ^ (F.mantissaBitsWithoutImplicit + F.exponentBits))
      (b.toNat / 2 ^ F.mantissaBitsWithoutImplicit % 2 ^ F.exponentBits)
      (b.toNat % 2 ^ F.mantissaBitsWithoutImplicit) := by
  have hones : 1 ≤ 2 ^ F.exponentBits - 1 := by
    have := Nat.one_lt_two_pow_iff.mpr F.he.ne'
    omega
  have htop : unpackExponent b = -1#_ ↔
      b.toNat / 2 ^ F.mantissaBitsWithoutImplicit % 2 ^ F.exponentBits = 2 ^ F.exponentBits - 1 := by
    rw [← toNat_unpackExponent, BitVec.neg_one_eq_allOnes, ← BitVec.toNat_inj, BitVec.toNat_allOnes]
  have hlow : unpackExponent b = 0#_ ↔
      b.toNat / 2 ^ F.mantissaBitsWithoutImplicit % 2 ^ F.exponentBits = 0 := by
    rw [← toNat_unpackExponent, ← BitVec.toNat_inj, BitVec.toNat_ofNat, Nat.zero_mod]
  have hzero : unpackMantissa b = 0#_ ↔ b.toNat % 2 ^ F.mantissaBitsWithoutImplicit = 0 := by
    rw [← toNat_unpackMantissa, ← BitVec.toNat_inj, BitVec.toNat_ofNat, Nat.zero_mod]
  unfold UnpackedFloat.unpack reading
  dsimp only
  rw [ofBitVec_unpackSign, if_congr htop rfl rfl]
  split
  · rw [if_congr hzero rfl rfl]
    split <;> rfl
  · rw [if_congr hlow rfl rfl]
    split
    · next hexp =>
        by_cases hman : unpackMantissa b = 0#_
        · rw [dif_pos hman]
          simp [datum, magnitude, hexp, hzero.mp hman]
        · rw [dif_neg hman]
          simp only [datum, magnitude, hexp, toNat_unpackExponent, toNat_unpackMantissa, if_pos]
          rw [max_eq_right Nat.zero_lt_one.le]
          congr 3
          push_cast
          ring
    · next hexp =>
        have happend : (1#1 ++ unpackMantissa b).toNat = 2 ^ F.mantissaBitsWithoutImplicit +
            b.toNat % 2 ^ F.mantissaBitsWithoutImplicit := by
          rw [BitVec.toNat_append, toNat_unpackMantissa, Nat.shiftLeft_eq, mul_comm,
            ← Nat.two_pow_add_eq_or_of_lt (Nat.mod_lt _ (Nat.two_pow_pos _))]
          simp
        simp only [datum, magnitude, happend, toNat_unpackExponent, if_neg hexp]
        rw [max_eq_left (Nat.pos_of_ne_zero hexp)]
        push_cast
        rfl

section Fields

variable (hs : s < 2) (he : e < 2 ^ F.exponentBits) (hf : f < 2 ^ F.mantissaBitsWithoutImplicit)

include hs he hf

lemma ofFields_lt : ofFields F s e f < 2 ^ F.numBits := by
  have hse : s * 2 ^ F.exponentBits + e < 2 ^ (1 + F.exponentBits) := by
    rw [pow_add, pow_one]
    nlinarith
  unfold ofFields Format.numBits
  rw [pow_add]
  nlinarith [Nat.two_pow_pos F.mantissaBitsWithoutImplicit]

/-- A pattern made of fields stands for what they stand for. -/
lemma read_ofFields : read F (ofFields F s e f) = reading F s e f := by
  have hm := Nat.two_pow_pos F.mantissaBitsWithoutImplicit
  rw [read, datum_unpack, BitVec.toNat_ofNat, Nat.mod_eq_of_lt (ofFields_lt hs he hf), pow_add,
    ← Nat.div_div_eq_div_mul, ofFields, mul_comm (s * 2 ^ F.exponentBits + e), Nat.mul_add_div hm,
    Nat.mul_add_mod, Nat.div_eq_of_lt hf, Nat.mod_eq_of_lt hf, add_zero,
    mul_comm s, Nat.mul_add_div (Nat.two_pow_pos _), Nat.mul_add_mod, Nat.div_eq_of_lt he,
    Nat.mod_eq_of_lt he, add_zero]

end Fields

/-- Every pattern is made of fields. -/
lemma exists_fields {n : ℕ} (hn : n < 2 ^ F.numBits) : ∃ s e f, s < 2 ∧ e < 2 ^ F.exponentBits ∧
    f < 2 ^ F.mantissaBitsWithoutImplicit ∧ n = ofFields F s e f := by
  have hm := Nat.two_pow_pos F.mantissaBitsWithoutImplicit
  have he := Nat.two_pow_pos F.exponentBits
  refine ⟨n / 2 ^ F.mantissaBitsWithoutImplicit / 2 ^ F.exponentBits,
    n / 2 ^ F.mantissaBitsWithoutImplicit % 2 ^ F.exponentBits,
    n % 2 ^ F.mantissaBitsWithoutImplicit, ?_, Nat.mod_lt _ he, Nat.mod_lt _ hm, ?_⟩
  · apply Nat.div_lt_of_lt_mul
    apply Nat.div_lt_of_lt_mul
    calc n < 2 ^ (1 + F.exponentBits + F.mantissaBitsWithoutImplicit) := hn
      _ = 2 ^ F.mantissaBitsWithoutImplicit * (2 ^ F.exponentBits * 2) := by
        rw [← pow_succ, ← pow_add]
        congr 1
        omega
  · rw [ofFields, Nat.div_add_mod', Nat.div_add_mod']

/-! ## Masks -/

/-- A mask of `w` ones above `k` zeros selects a field. -/
lemma land_field (n w k : ℕ) : n &&& (2 ^ w - 1) * 2 ^ k = n / 2 ^ k % 2 ^ w * 2 ^ k := by
  rw [← Nat.div_add_mod' (n &&& (2 ^ w - 1) * 2 ^ k) (2 ^ k), Nat.and_div_two_pow,
    Nat.and_mod_two_pow, Nat.mul_div_cancel _ (Nat.two_pow_pos k), Nat.mul_mod_left, Nat.and_zero,
    Nat.and_two_pow_sub_one_eq_mod, add_zero]

/-- Fields that don't overlap are put together by `|`. -/
lemma lor_fields (he : e < 2 ^ F.exponentBits) (hf : f < 2 ^ F.mantissaBitsWithoutImplicit) :
    s * 2 ^ (F.exponentBits + F.mantissaBitsWithoutImplicit) |||
        e * 2 ^ F.mantissaBitsWithoutImplicit ||| f = ofFields F s e f := by
  have hlow : e * 2 ^ F.mantissaBitsWithoutImplicit ||| f =
      e * 2 ^ F.mantissaBitsWithoutImplicit + f := by
    rw [mul_comm, Nat.two_pow_add_eq_or_of_lt hf]
  have hlt : e * 2 ^ F.mantissaBitsWithoutImplicit + f <
      2 ^ (F.exponentBits + F.mantissaBitsWithoutImplicit) := by
    rw [pow_add]
    nlinarith
  rw [Nat.or_assoc, hlow, mul_comm s, ← Nat.two_pow_add_eq_or_of_lt hlt, ofFields, pow_add]
  ring

/-! ## The order of the magnitudes -/

@[simp] lemma magnitude_zero : magnitude F 0 0 = 0 := by simp [magnitude]

/-- **Magnitudes are ordered as patterns are.** -/
lemma magnitude_lt (hf : f < 2 ^ F.mantissaBitsWithoutImplicit) (hlt : e < e' ∨ e = e' ∧ f < f') :
    magnitude F e f < magnitude F e' f' := by
  have htwo : (0 : ℚ) < 2 ^ F.mantissaBitsWithoutImplicit := by positivity
  have hfq : (f : ℚ) < 2 ^ F.mantissaBitsWithoutImplicit := by exact_mod_cast hf
  have hf' : (0 : ℚ) ≤ f' := Nat.cast_nonneg _
  unfold magnitude
  rcases hlt with hlt | ⟨rfl, hlt⟩
  · rw [if_neg (show e' ≠ 0 by omega), max_eq_left (show 1 ≤ e' by omega)]
    rcases Nat.eq_zero_or_pos e with rfl | he
    · -- a subnormal is below the first normal
      rw [if_pos rfl, max_eq_right (Nat.zero_le _)]
      apply mul_lt_mul (by linarith) (zpow_le_zpow_right₀ one_le_two (by omega)) (by positivity)
      positivity
    · rw [if_neg he.ne', max_eq_left he]
      calc ((2 : ℚ) ^ F.mantissaBitsWithoutImplicit + f) *
            2 ^ ((e : ℤ) - (F.exponentBias + F.mantissaBitsWithoutImplicit))
          < (2 ^ F.mantissaBitsWithoutImplicit + 2 ^ F.mantissaBitsWithoutImplicit) *
            2 ^ ((e : ℤ) - (F.exponentBias + F.mantissaBitsWithoutImplicit)) :=
            mul_lt_mul_of_pos_right (by linarith) (by positivity)
        _ = 2 ^ F.mantissaBitsWithoutImplicit *
            2 ^ ((e : ℤ) + 1 - (F.exponentBias + F.mantissaBitsWithoutImplicit)) := by
            rw [add_sub_right_comm, zpow_add_one₀ two_ne_zero]
            ring
        _ ≤ (2 ^ F.mantissaBitsWithoutImplicit + f') *
            2 ^ ((e' : ℤ) - (F.exponentBias + F.mantissaBitsWithoutImplicit)) := by
            apply mul_le_mul (by linarith) (zpow_le_zpow_right₀ one_le_two (by omega)) <;> positivity
  · have hff : (f : ℚ) < f' := by exact_mod_cast hlt
    apply mul_lt_mul_of_pos_right _ (by positivity)
    split <;> linarith

lemma magnitude_inj (hf : f < 2 ^ F.mantissaBitsWithoutImplicit)
    (hf' : f' < 2 ^ F.mantissaBitsWithoutImplicit) (heq : magnitude F e f = magnitude F e' f') :
    e = e' ∧ f = f' := by
  by_contra hne
  have hor : (e < e' ∨ e = e' ∧ f < f') ∨ e' < e ∨ e' = e ∧ f' < f := by omega
  rcases hor with hlt | hlt
  · exact (magnitude_lt hf hlt).ne heq
  · exact (magnitude_lt hf' hlt).ne' heq

lemma signOf_inj (hs : s < 2) (hs' : s' < 2) (heq : signOf s = signOf s') : s = s' := by
  unfold signOf at heq
  split at heq <;> split at heq <;> first | omega | cases heq

/-- **A number has one pattern**, and so has an infinity. -/
lemma reading_inj (hs : s < 2) (hs' : s' < 2) (hf : f < 2 ^ F.mantissaBitsWithoutImplicit)
    (hf' : f' < 2 ^ F.mantissaBitsWithoutImplicit) (heq : reading F s e f = reading F s' e' f')
    (hnan : reading F s e f ≠ .nan) : ofFields F s e f = ofFields F s' e' f' := by
  unfold reading at heq hnan
  split at heq
  · next he =>
      rw [if_pos he] at hnan
      split at heq
      · next hzero =>
          split at heq
          · next he' =>
              split at heq
              · next hzero' =>
                  rw [signOf_inj hs hs' (Datum.infinite.inj heq), he, he', hzero, hzero']
              · cases heq
          · cases heq
      · next hzero => exact absurd (if_neg hzero) hnan
  · split at heq
    · split at heq <;> cases heq
    · obtain ⟨hsign, hmagnitude⟩ := Datum.finite.inj heq
      obtain ⟨rfl, rfl⟩ := magnitude_inj hf hf' hmagnitude
      rw [signOf_inj hs hs' hsign]

/-- Two patterns that stand for one number are the same. -/
lemma read_inj {n n' : ℕ} (hn : n < 2 ^ F.numBits) (hn' : n' < 2 ^ F.numBits)
    (heq : read F n = read F n') (hnan : read F n ≠ .nan) : n = n' := by
  obtain ⟨s, e, f, hs, he, hf, rfl⟩ := exists_fields hn
  obtain ⟨s', e', f', hs', he', hf', rfl⟩ := exists_fields hn'
  rw [read_ofFields hs he hf, read_ofFields hs' he' hf'] at heq
  rw [read_ofFields hs he hf] at hnan
  exact reading_inj hs hs' hf hf' heq hnan

/-! ## Wider formats -/

section Widening

variable {k d : ℕ} (hfrac : F.mantissaBitsWithoutImplicit + k = G.mantissaBitsWithoutImplicit)
  (hbias : F.exponentBias + d = G.exponentBias)

include hfrac hbias

/-- A normal number: the exponent is biased anew, and the fraction gets more digits. -/
lemma magnitude_normal (he : e ≠ 0) : magnitude G (e + d) (f * 2 ^ k) = magnitude F e f := by
  unfold magnitude
  rw [if_neg he, if_neg (show e + d ≠ 0 by omega), max_eq_left (show 1 ≤ e + d by omega),
    max_eq_left (Nat.pos_of_ne_zero he), ← hfrac, ← hbias]
  push_cast
  rw [pow_add, show (e : ℤ) - (F.exponentBias + F.mantissaBitsWithoutImplicit) =
    e + d - (F.exponentBias + d + (F.mantissaBitsWithoutImplicit + k)) + k by ring,
    zpow_add₀ two_ne_zero, zpow_natCast]
  ring

/-- A subnormal number gets a leading one by a shift of `t` digits, if the exponents reach that far. -/
lemma magnitude_subnormal {t : ℕ} (ht : t ≤ d) (hlead : 2 ^ F.mantissaBitsWithoutImplicit ≤ f * 2 ^ t) :
    magnitude G (d + 1 - t) ((f * 2 ^ t - 2 ^ F.mantissaBitsWithoutImplicit) * 2 ^ k) =
      magnitude F 0 f := by
  unfold magnitude
  rw [if_pos rfl, if_neg (show d + 1 - t ≠ 0 by omega), max_eq_left (show 1 ≤ d + 1 - t by omega),
    max_eq_right (Nat.zero_le _), ← hfrac, ← hbias, Nat.cast_sub (show t ≤ d + 1 by omega)]
  push_cast [Nat.cast_sub hlead]
  rw [show (1 : ℤ) - (F.exponentBias + F.mantissaBitsWithoutImplicit) =
    d + 1 - t - (F.exponentBias + d + (F.mantissaBitsWithoutImplicit + k)) + (t + k : ℕ) by
      push_cast
      ring,
    zpow_add₀ two_ne_zero, zpow_natCast, pow_add, pow_add]
  ring

end Widening

end Binary
