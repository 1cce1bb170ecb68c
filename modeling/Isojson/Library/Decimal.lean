import Isojson.Library.Bytes

/-!
# Decimal texts

Numbers written in decimal: with a fixed number of digits (`fixed`), as the shortest text of a
natural number (`natText`) and of an integer (`intText`), and the value a digit string reads
back as (`value`).  The round trips are `value_fixed` and `readInt_intText`.
-/

namespace Decimal

/-! ## Digits -/

/-- The ASCII digit of `d mod 10`. -/
def digit (d : ℕ) : UInt8 := UInt8.ofNat (48 + d % 10)

def IsDigit (b : UInt8) : Prop := 48 ≤ b.toNat ∧ b.toNat ≤ 57

instance : DecidablePred IsDigit := fun b => by unfold IsDigit; infer_instance

def digitVal (b : UInt8) : ℕ := b.toNat - 48

lemma digit_toNat (d : ℕ) : (digit d).toNat = 48 + d % 10 := by
  rw [digit, UInt8.toNat_ofNat']
  omega

@[simp] lemma digitVal_digit (d : ℕ) : digitVal (digit d) = d % 10 := by
  rw [digitVal, digit_toNat]
  omega

@[simp] lemma isDigit_digit (d : ℕ) : IsDigit (digit d) := by
  rw [IsDigit, digit_toNat]
  omega

lemma digit_mod (d : ℕ) : digit (d % 10) = digit d := by
  rw [digit, digit, Nat.mod_mod]

/-- The value of a digit string, most significant digit first. -/
def value (t : Bytes) : ℕ := t.foldl (fun acc b => acc * 10 + digitVal b) 0

@[simp] lemma value_nil : value [] = 0 := rfl

lemma value_append_singleton (t : Bytes) (b : UInt8) :
    value (t ++ [b]) = value t * 10 + digitVal b := by
  rw [value, List.foldl_append]
  rfl

/-! ## A fixed number of digits -/

/-- The last `k` decimal digits of `n`, zero-padded. -/
def fixed : ℕ → ℕ → Bytes
  | 0, _ => []
  | k + 1, n => fixed k (n / 10) ++ [digit n]

@[simp] lemma length_fixed (k n : ℕ) : (fixed k n).length = k := by
  induction k generalizing n with
  | zero => rfl
  | succ k ih => simp [fixed, ih]

lemma isDigit_fixed (k n : ℕ) : ∀ b ∈ fixed k n, IsDigit b := by
  induction k generalizing n with
  | zero => simp [fixed]
  | succ k ih =>
      intro b hb
      rw [fixed, List.mem_append, List.mem_singleton] at hb
      rcases hb with hb | rfl
      · exact ih _ b hb
      · exact isDigit_digit n

/-- **Fixed-width round trip.** A number of at most `k` digits is its `k`-digit text's value. -/
lemma value_fixed (k n : ℕ) (h : n < 10 ^ k) : value (fixed k n) = n := by
  induction k generalizing n with
  | zero =>
      rw [pow_zero] at h
      rw [fixed, value_nil]
      omega
  | succ k ih =>
      rw [pow_succ] at h
      rw [fixed, value_append_singleton, ih _ (by omega), digitVal_digit]
      omega

/-! ## The shortest text -/

/-- The decimal digits of `n`, without leading zeros. -/
def natText (n : ℕ) : Bytes :=
  if n < 10 then [digit n] else natText (n / 10) ++ [digit n]
termination_by n
decreasing_by omega

/-- The decimal text of an integer. -/
def intText (z : ℤ) : Bytes :=
  if z < 0 then 45 :: natText z.natAbs else natText z.natAbs

lemma isDigit_natText (n : ℕ) : ∀ b ∈ natText n, IsDigit b := by
  induction n using natText.induct with
  | case1 n h =>
      rw [natText, if_pos h]
      simp
  | case2 n h ih =>
      rw [natText, if_neg h]
      intro b hb
      rw [List.mem_append, List.mem_singleton] at hb
      rcases hb with hb | rfl
      · exact ih b hb
      · exact isDigit_digit n

lemma intText_ascii (z : ℤ) : ∀ b ∈ intText z, b.toNat < 0x80 := by
  have hdigits : ∀ b ∈ natText z.natAbs, b.toNat < 0x80 := by
    intro b hb
    have := (isDigit_natText z.natAbs b hb).2
    omega
  intro b hb
  unfold intText at hb
  split at hb
  · rcases List.mem_cons.mp hb with rfl | hb
    · decide
    · exact hdigits b hb
  · exact hdigits b hb

lemma value_natText (n : ℕ) : value (natText n) = n := by
  induction n using natText.induct with
  | case1 n h =>
      rw [natText, if_pos h]
      simp only [value, List.foldl_cons, List.foldl_nil, digitVal_digit]
      omega
  | case2 n h ih =>
      rw [natText, if_neg h, value_append_singleton, ih, digitVal_digit]
      omega

lemma natText_ne_nil (n : ℕ) : natText n ≠ [] := by
  rw [natText]
  split <;> simp

/-- A number of at most `k` digits has a text of at most `k` bytes. -/
lemma length_natText_le {n : ℕ} (k : ℕ) (h : n < 10 ^ (k + 1)) :
    (natText n).length ≤ k + 1 := by
  induction k generalizing n with
  | zero =>
      rw [natText, if_pos (by omega)]
      simp
  | succ k ih =>
      rw [natText]
      split
      · simp
      · have hk := ih (n := n / 10) (by rw [pow_succ] at h; omega)
        simp only [List.length_append, List.length_singleton]
        omega

/-- The first digit of a positive number's text is not `0`. -/
lemma head_natText {n : ℕ} (h : 0 < n) :
    ∃ b t, natText n = b :: t ∧ IsDigit b ∧ b ≠ 48 := by
  induction n using natText.induct with
  | case1 n hn =>
      rw [natText, if_pos hn]
      refine ⟨_, _, rfl, isDigit_digit n, fun he => ?_⟩
      have := congrArg UInt8.toNat he
      rw [digit_toNat] at this
      simp at this
      omega
  | case2 n hn ih =>
      obtain ⟨b, t, ht, hb, h0⟩ := ih (by omega)
      rw [natText, if_neg hn, ht]
      exact ⟨b, t ++ [digit n], rfl, hb, h0⟩

lemma natText_zero : natText 0 = [48] := by
  rw [natText, if_pos (by decide)]
  rfl

/-! ## Reading an integer -/

/-- The integer an optional minus sign and a digit string denote. -/
def readInt (t : Bytes) : ℤ :=
  match t with
  | 45 :: ds => -(value ds : ℤ)
  | ds => value ds

/-- **Integer round trip.** -/
lemma readInt_intText (z : ℤ) : readInt (intText z) = z := by
  rw [intText]
  split
  · rw [readInt, value_natText]
    omega
  · obtain ⟨b, t, ht⟩ := List.exists_cons_of_ne_nil (natText_ne_nil z.natAbs)
    have hb : IsDigit b := isDigit_natText z.natAbs b (by rw [ht]; exact List.mem_cons_self ..)
    have hne : b ≠ 45 := by
      rintro rfl
      exact absurd hb (by decide)
    have hv : readInt (natText z.natAbs) = value (natText z.natAbs) := by
      rw [ht, readInt]
      intro ds hds
      exact hne (List.cons.inj hds).1
    rw [hv, value_natText]
    omega

end Decimal
