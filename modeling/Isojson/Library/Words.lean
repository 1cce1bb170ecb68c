import Isojson.Library.Bytes

/-!
# Little-endian words and lane tests

A word read from `n` bytes is their base-256 value (`wordOf`).  The bitwise operations act on
the bytes separately, and subtraction does up to the first borrow.  The result is
`below_detect`: the borrow trick `(w - t·0x01…01) & !w & 0x80…80` is non-zero exactly when some
byte is below `t`, although its single lanes need not be right above the first borrow.

Trailing zeros of a lane mask are at the end: `trailingZeros_mask` finds the first lane a mask
selects, for lanes of any width.
-/

namespace Words

/-! ## Words -/

/-- The little-endian value of a byte string. -/
def wordOf : Bytes → ℕ
  | [] => 0
  | b :: bs => b.toNat + 256 * wordOf bs

/-- The word of `n` bytes `t`. -/
def rep (t : ℕ) : ℕ → ℕ
  | 0 => 0
  | n + 1 => t + 256 * rep t n

lemma wordOf_lt (bs : Bytes) : wordOf bs < 256 ^ bs.length := by
  induction bs with
  | nil => simp [wordOf]
  | cons b bs ih =>
      have hb := b.toNat_lt
      rw [wordOf, List.length_cons, pow_succ]
      omega

lemma rep_lt {t : ℕ} (ht : t < 256) (n : ℕ) : rep t n < 256 ^ n := by
  induction n with
  | zero => simp [rep]
  | succ n ih =>
      rw [rep, pow_succ]
      omega

/-- The `n` low bytes of a number, least significant first. -/
def leBytes : ℕ → ℕ → Bytes
  | 0, _ => []
  | n + 1, w => UInt8.ofNat (w % 256) :: leBytes n (w / 256)

/-- Storing a loaded word gives its bytes back. -/
lemma leBytes_wordOf (bs : Bytes) : leBytes bs.length (wordOf bs) = bs := by
  induction bs with
  | nil => rfl
  | cons b bs ih =>
      have hb := b.toNat_lt
      rw [List.length_cons, leBytes, wordOf, show (b.toNat + 256 * wordOf bs) / 256 = wordOf bs by
        omega, ih, show (b.toNat + 256 * wordOf bs) % 256 = b.toNat by omega, UInt8.ofNat_toNat]

@[simp] lemma length_leBytes (n w : ℕ) : (leBytes n w).length = n := by
  induction n generalizing w with
  | zero => rfl
  | succ n ih => rw [leBytes, List.length_cons, ih]

lemma wordOf_leBytes {n w : ℕ} (h : w < 256 ^ n) : wordOf (leBytes n w) = w := by
  induction n generalizing w with
  | zero => simp only [pow_zero] at h; simp [leBytes, wordOf]; omega
  | succ n ih =>
      have hb : (UInt8.ofNat (w % 256)).toNat = w % 256 := by
        rw [UInt8.toNat_ofNat']
        omega
      rw [pow_succ] at h
      rw [leBytes, wordOf, hb, ih (by omega)]
      omega

/-- `n` words of `w` bytes each, from the start of a memory. -/
def readWords (w : ℕ) : ℕ → Bytes → List ℕ
  | 0, _ => []
  | n + 1, m => wordOf (m.take w) :: readWords w n (m.drop w)

lemma readWords_flatMap {w : ℕ} {s : List ℕ} (h : ∀ c ∈ s, c < 256 ^ w) :
    readWords w s.length (s.flatMap (leBytes w)) = s := by
  induction s with
  | nil => rfl
  | cons c s ih =>
      obtain ⟨hc, hs⟩ := List.forall_mem_cons.mp h
      rw [List.length_cons, readWords, List.flatMap_cons,
        List.take_left' (length_leBytes w c), List.drop_left' (length_leBytes w c),
        wordOf_leBytes hc, ih hs]

/-! ## Bitwise operations, byte by byte -/

lemma land_cons {a b x y : ℕ} (ha : a < 256) (hb : b < 256) :
    (a + 256 * x) &&& (b + 256 * y) = (a &&& b) + 256 * (x &&& y) := by
  have hmod : ((a + 256 * x) &&& (b + 256 * y)) % 2 ^ 8 = a &&& b := by
    rw [Nat.and_mod_two_pow, show (a + 256 * x) % 2 ^ 8 = a by omega,
      show (b + 256 * y) % 2 ^ 8 = b by omega]
  have hdiv : ((a + 256 * x) &&& (b + 256 * y)) / 2 ^ 8 = x &&& y := by
    rw [Nat.and_div_two_pow, show (a + 256 * x) / 2 ^ 8 = x by omega,
      show (b + 256 * y) / 2 ^ 8 = y by omega]
  omega

lemma xor_cons {a b x y : ℕ} (ha : a < 256) (hb : b < 256) :
    (a + 256 * x) ^^^ (b + 256 * y) = (a ^^^ b) + 256 * (x ^^^ y) := by
  have hmod : ((a + 256 * x) ^^^ (b + 256 * y)) % 2 ^ 8 = a ^^^ b := by
    rw [Nat.xor_mod_two_pow, show (a + 256 * x) % 2 ^ 8 = a by omega,
      show (b + 256 * y) % 2 ^ 8 = b by omega]
  have hdiv : ((a + 256 * x) ^^^ (b + 256 * y)) / 2 ^ 8 = x ^^^ y := by
    rw [Nat.xor_div_two_pow, show (a + 256 * x) / 2 ^ 8 = x by omega,
      show (b + 256 * y) / 2 ^ 8 = y by omega]
  omega

/-- Exclusive or with one byte in every lane. -/
lemma wordOf_xor (bs : Bytes) (q : UInt8) :
    wordOf bs ^^^ rep q.toNat bs.length = wordOf (bs.map (· ^^^ q)) := by
  induction bs with
  | nil => simp [wordOf, rep]
  | cons b bs ih =>
      rw [wordOf, List.length_cons, rep, xor_cons b.toNat_lt q.toNat_lt, ih, List.map_cons, wordOf,
        UInt8.toNat_xor]

/-! ## The borrow trick -/

/-- `(w - t·0x01…01) & !w & 0x80…80` over `n` bytes, with wrapping subtraction. -/
def detect (t n w : ℕ) : ℕ :=
  (256 ^ n - rep t n + w) % 256 ^ n &&& (256 ^ n - 1 - w) &&& rep 128 n

lemma land_128 {x : ℕ} (hx : x < 256) : x &&& 128 = if 128 ≤ x then 128 else 0 := by
  rw [show (128 : ℕ) = 2 ^ 7 by rfl, Nat.and_two_pow, Nat.testBit_eq_decide_div_mod_eq]
  split
  · rw [decide_eq_true (by omega)]
    rfl
  · rw [decide_eq_false (by omega)]
    rfl

/-- One lane: bit 7 of `b - t` or of its borrow, where `b` has it clear. -/
lemma lane_detect {b t : ℕ} (hb : b < 256) (ht : t ≤ 128) :
    (t ≤ b → (b - t) &&& (255 - b) &&& 128 = 0) ∧
      (b < t → (b + 256 - t) &&& (255 - b) &&& 128 = 128) := by
  constructor
  · intro h
    rw [Nat.and_right_comm, land_128 (by omega)]
    split
    · rw [Nat.and_comm, land_128 (by omega), if_neg (by omega)]
    · exact Nat.zero_and _
  · intro h
    rw [Nat.and_right_comm, land_128 (by omega), if_pos (by omega), Nat.and_comm, land_128 (by omega),
      if_pos (by omega)]

/-- **Exactness of the borrow trick.** The lowest byte below `t` is reached without a borrow,
so its lane is right; without such a byte no lane borrows at all. -/
theorem below_detect {t : ℕ} (ht : t ≤ 128) (bs : Bytes) :
    detect t bs.length (wordOf bs) ≠ 0 ↔ ∃ b ∈ bs, b.toNat < t := by
  induction bs with
  | nil => simp [detect, rep]
  | cons b bs ih =>
      have hb := b.toNat_lt
      have hw := wordOf_lt bs
      have hr := rep_lt (t := t) (by omega) bs.length
      have hN : 0 < 256 ^ bs.length := by positivity
      have hsplit : ∀ c D, c < 256 → D < 256 ^ bs.length →
          (256 ^ (bs.length + 1) - rep t (bs.length + 1) + wordOf (b :: bs)) %
            256 ^ (bs.length + 1) = c + 256 * D →
          detect t (b :: bs).length (wordOf (b :: bs)) =
            (c &&& (255 - b.toNat) &&& 128) +
              256 * (D &&& (256 ^ bs.length - 1 - wordOf bs) &&& rep 128 bs.length) := by
        intro c D hc _ hD
        have hcomp : 256 ^ (bs.length + 1) - 1 - wordOf (b :: bs) =
            (255 - b.toNat) + 256 * (256 ^ bs.length - 1 - wordOf bs) := by
          rw [wordOf, pow_succ]
          omega
        rw [detect, List.length_cons, hD, hcomp, rep, land_cons hc (by omega),
          land_cons (lt_of_le_of_lt Nat.and_le_left hc) (by decide)]
      obtain ⟨hpass, hhit⟩ := lane_detect (b := b.toNat) (by omega) ht
      rcases Nat.lt_or_ge b.toNat t with hlt | hge
      · -- the borrow leaves bit 7 set in this lane, whatever it does to the lanes above
        have hD : (256 ^ (bs.length + 1) - rep t (bs.length + 1) + wordOf (b :: bs)) %
            256 ^ (bs.length + 1) = (b.toNat + 256 - t) +
              256 * ((256 ^ bs.length - rep t bs.length + wordOf bs - 1) % 256 ^ bs.length) := by
          rw [rep, wordOf, pow_succ]
          have : 256 ^ bs.length * 256 - (t + 256 * rep t bs.length) +
              (b.toNat + 256 * wordOf bs) = (b.toNat + 256 - t) +
                256 * (256 ^ bs.length - rep t bs.length + wordOf bs - 1) := by omega
          rw [this, Nat.mul_comm _ 256, Nat.mod_mul, Nat.add_mul_mod_self_left,
            Nat.mod_eq_of_lt (by omega), Nat.add_mul_div_left _ _ (by decide),
            Nat.div_eq_of_lt (by omega), Nat.zero_add]
        rw [hsplit _ _ (by omega) (Nat.mod_lt _ hN) hD, hhit hlt]
        simp only [List.mem_cons, exists_eq_or_imp, hlt, true_or, iff_true]
        omega
      · have hD : (256 ^ (bs.length + 1) - rep t (bs.length + 1) + wordOf (b :: bs)) %
            256 ^ (bs.length + 1) = (b.toNat - t) +
              256 * ((256 ^ bs.length - rep t bs.length + wordOf bs) % 256 ^ bs.length) := by
          rw [rep, wordOf, pow_succ]
          have : 256 ^ bs.length * 256 - (t + 256 * rep t bs.length) +
              (b.toNat + 256 * wordOf bs) = (b.toNat - t) +
                256 * (256 ^ bs.length - rep t bs.length + wordOf bs) := by omega
          rw [this, Nat.mul_comm _ 256, Nat.mod_mul, Nat.add_mul_mod_self_left,
            Nat.mod_eq_of_lt (by omega), Nat.add_mul_div_left _ _ (by decide),
            Nat.div_eq_of_lt (by omega), Nat.zero_add]
        rw [hsplit _ _ (by omega) (Nat.mod_lt _ hN) hD, hpass hge, Nat.zero_add]
        simp only [List.mem_cons, exists_eq_or_imp, Nat.not_lt.mpr hge, false_or]
        rw [← ih, detect]
        omega

/-- The top bits of the bytes: one is set exactly when some byte is at least 128. -/
lemma high_bits_ne_zero_iff (bs : Bytes) :
    wordOf bs &&& rep 128 bs.length ≠ 0 ↔ ∃ b ∈ bs, 128 ≤ b.toNat := by
  induction bs with
  | nil => simp [wordOf, rep]
  | cons b bs ih =>
      have hb := b.toNat_lt
      rw [wordOf, List.length_cons, rep, land_cons hb (by decide), land_128 hb]
      simp only [List.mem_cons, exists_eq_or_imp, ← ih]
      split <;> omega

/-! ## Lane masks -/

/-- A mask with `w` bits a lane, all set in the lanes that `hit` selects. -/
def mask (w : ℕ) (hit : UInt8 → Bool) : Bytes → ℕ
  | [] => 0
  | b :: bs => (if hit b then 2 ^ w - 1 else 0) + 2 ^ w * mask w hit bs

/-- The number of trailing zero bits among the low `k`. -/
def trailingZeros : ℕ → ℕ → ℕ
  | 0, _ => 0
  | k + 1, m => if m % 2 = 1 then 0 else trailingZeros k (m / 2) + 1

lemma mask_ne_zero_iff {w : ℕ} (hw : 0 < w) (hit : UInt8 → Bool) (bs : Bytes) :
    mask w hit bs ≠ 0 ↔ ∃ b ∈ bs, hit b := by
  have h1 : 2 ≤ 2 ^ w := by
    calc 2 = 2 ^ 1 := rfl
      _ ≤ 2 ^ w := Nat.pow_le_pow_right (by decide) hw
  induction bs with
  | nil => simp [mask]
  | cons b bs ih =>
      simp only [mask, List.mem_cons, exists_eq_or_imp, ← ih]
      by_cases hb : hit b
      · simp only [hb, if_true, true_or, iff_true]
        omega
      · simp only [hb, Bool.false_eq_true, if_false, Nat.zero_add, false_or, ne_eq,
          Nat.mul_eq_zero, not_or]
        exact ⟨fun h => h.2, fun h => ⟨by omega, h⟩⟩

lemma trailingZeros_shift (k w m : ℕ) :
    trailingZeros (k + w) (2 ^ w * m) = trailingZeros k m + w := by
  induction w with
  | zero => simp
  | succ w ih =>
      have hd : 2 ^ (w + 1) * m = 2 * (2 ^ w * m) := by rw [pow_succ]; ring
      rw [← Nat.add_assoc, trailingZeros, hd, if_neg (by omega),
        Nat.mul_div_cancel_left _ (by decide), ih]
      omega

/-- **The first selected lane** is where the trailing zeros of the mask end. -/
lemma trailingZeros_mask {w : ℕ} (hw : 0 < w) (hit : UInt8 → Bool) (bs : Bytes) (k : ℕ)
    (hne : mask w hit bs ≠ 0) :
    trailingZeros (k + w * bs.length) (mask w hit bs) = w * bs.findIdx hit := by
  have h1 : 2 ≤ 2 ^ w := by
    calc 2 = 2 ^ 1 := rfl
      _ ≤ 2 ^ w := Nat.pow_le_pow_right (by decide) hw
  induction bs with
  | nil => simp [mask] at hne
  | cons b bs ih =>
      have hlen : k + w * (b :: bs).length = k + w * bs.length + w := by
        rw [List.length_cons, Nat.mul_succ, Nat.add_assoc]
      rw [mask] at hne ⊢
      by_cases hb : hit b
      · have heven : 2 ^ w % 2 = 0 := by
          rw [← Nat.succ_pred_eq_of_pos hw, pow_succ]
          omega
        have hodd : (2 ^ w - 1 + 2 ^ w * mask w hit bs) % 2 = 1 := by
          rw [Nat.add_mod, Nat.mul_mod, heven]
          omega
        rw [hlen, show k + w * bs.length + w = (k + w * bs.length + w - 1) + 1 by omega,
          trailingZeros, if_pos hb, if_pos hodd, List.findIdx_cons, hb]
        rfl
      · simp only [hb, Bool.false_eq_true, if_false, Nat.zero_add] at hne ⊢
        have hne' : mask w hit bs ≠ 0 := fun h0 => hne (by rw [h0, Nat.mul_zero])
        rw [hlen, trailingZeros_shift, ih hne', List.findIdx_cons]
        simp only [hb, cond_false, Nat.mul_succ]

end Words
