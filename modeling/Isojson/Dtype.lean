import Isojson.Datetime

/-!
# `datetime.rs`: dtype strings

The strings that name a `datetime64` dtype, and `parse_dt64`, which takes exactly these.  Its
multiplier is accumulated in `i64` with checked steps; a step fails exactly if the number that is
read is too large in the end, since further digits only make it larger (`accumulate_eq`).
-/

namespace Isojson

open Decimal

/-! ## The strings -/

/-- The code of a unit.  The generic unit has none. -/
def TimeUnit.code : TimeUnit → Option Bytes
  | .year => some (Bytes.ascii "Y")
  | .month => some (Bytes.ascii "M")
  | .week => some (Bytes.ascii "W")
  | .day => some (Bytes.ascii "D")
  | .hour => some (Bytes.ascii "h")
  | .minute => some (Bytes.ascii "m")
  | .second => some (Bytes.ascii "s")
  | .milli => some (Bytes.ascii "ms")
  | .micro => some (Bytes.ascii "us")
  | .nano => some (Bytes.ascii "ns")
  | .pico => some (Bytes.ascii "ps")
  | .femto => some (Bytes.ascii "fs")
  | .atto => some (Bytes.ascii "as")
  | .generic => none

/-- `<`, `>`, `=` or `|`. -/
def IsByteOrder (c : UInt8) : Prop := c = 60 ∨ c = 62 ∨ c = 61 ∨ c = 124

/-- What a multiplier's text stands for: no text for 1, else a decimal number, which may have
leading zeros. -/
inductive IsMult : Bytes → ℤ → Prop
  | absent : IsMult [] 1
  | number {num : Bytes} (hne : num ≠ []) (hdigits : ∀ b ∈ num, IsDigit b) (hpos : 0 < value num)
      (hle : (value num : ℤ) ≤ i64Max) : IsMult num (value num)

/-- The text of a dtype with a multiplier and a unit. -/
def dt64Dtype (c : UInt8) (num code : Bytes) : Bytes :=
  [c, 77, 56, 91] ++ num ++ code ++ [93]

/-- The dtype strings of `datetime64`. -/
inductive IsDtype : Bytes → Dt64Unit → Prop
  | generic {c : UInt8} (hc : IsByteOrder c) : IsDtype [c, 77, 56] ⟨.generic, 1⟩
  | unit {c : UInt8} {num code : Bytes} {base : TimeUnit} {mult : ℤ} (hc : IsByteOrder c)
      (hnum : IsMult num mult) (hcode : base.code = some code) :
      IsDtype (dt64Dtype c num code) ⟨base, mult⟩

/-! ## The unit -/

lemma of_ite_eq {α : Type} {p : Prop} [Decidable p] {x y b : α} (h : (if p then x else y) = b) :
    (p ∧ x = b) ∨ y = b := by
  by_cases hp : p
  · exact Or.inl ⟨hp, (if_pos hp).symm.trans h⟩
  · exact Or.inr ((if_neg hp).symm.trans h)

lemma unitOfCode_iff {code : Bytes} {base : TimeUnit} :
    unitOfCode code = some base ↔ base.code = some code := by
  constructor
  · intro h
    unfold unitOfCode at h
    iterate 13
      rcases of_ite_eq h with ⟨hc, hbase⟩ | h
      · obtain rfl := Option.some.inj hbase
        rw [hc]
        rfl
    exact absurd h (by simp)
  · intro h
    cases base <;> cases h <;> rfl

/-- A code begins with a letter. -/
lemma TimeUnit.not_isDigit_code {base : TimeUnit} {code : Bytes} (h : base.code = some code) :
    ∃ b t, code = b :: t ∧ ¬ IsDigit b := by
  cases base <;> cases h <;> exact ⟨_, _, rfl, by decide⟩

/-! ## The multiplier -/

/-- Digits behind a number make it no smaller. -/
lemma le_foldl_digits (num : Bytes) (m : ℕ) :
    m ≤ num.foldl (fun acc b => acc * 10 + digitVal b) m := by
  induction num generalizing m with
  | nil => exact le_rfl
  | cons c num ih =>
      have hstep := ih (m * 10 + digitVal c)
      rw [List.foldl_cons]
      omega

/-- **The checked accumulation** fails exactly if the number read is too large. -/
lemma accumulate_eq (num : Bytes) (m : ℕ) (hm : (m : ℤ) ≤ i64Max) :
    accumulate m num = if ((num.foldl (fun acc b => acc * 10 + digitVal b) m : ℕ) : ℤ) ≤ i64Max then
      some ((num.foldl (fun acc b => acc * 10 + digitVal b) m : ℕ) : ℤ) else none := by
  induction num generalizing m with
  | nil => rw [accumulate, List.foldl_nil, if_pos hm]
  | cons c num ih =>
      have hle := le_foldl_digits num (m * 10 + digitVal c)
      rw [accumulate, List.foldl_cons]
      by_cases hmul : (m : ℤ) * 10 ≤ i64Max
      · rw [if_pos hmul]
        by_cases hadd : (m : ℤ) * 10 + digitVal c ≤ i64Max
        · rw [if_pos hadd]
          have hcast : (m : ℤ) * 10 + digitVal c = ((m * 10 + digitVal c : ℕ) : ℤ) := by push_cast; rfl
          rw [hcast] at hadd ⊢
          exact ih _ hadd
        · rw [if_neg hadd, if_neg (by omega)]
      · rw [if_neg hmul, if_neg (by omega)]

lemma accumulate_zero (num : Bytes) :
    accumulate 0 num = if (value num : ℤ) ≤ i64Max then some (value num : ℤ) else none :=
  accumulate_eq num 0 (by decide)

lemma parseMult_iff {num : Bytes} (hdigits : ∀ b ∈ num, IsDigit b) {mult : ℤ} :
    parseMult num = some mult ↔ IsMult num mult := by
  unfold parseMult
  by_cases hnil : num = []
  · subst hnil
    rw [if_pos rfl]
    constructor
    · rintro ⟨⟩
      exact .absent
    · intro h
      cases h with
      | absent => rfl
      | number hne => exact absurd rfl hne
  · rw [if_neg hnil, accumulate_zero]
    constructor
    · intro h
      split_ifs at h with hle
      · dsimp only at h
        split_ifs at h with hzero
        obtain rfl := Option.some.inj h
        exact .number hnil hdigits (by omega) hle
    · intro h
      cases h with
      | absent => exact absurd rfl hnil
      | number hne hdigits hpos hle =>
          rw [if_pos hle]
          exact if_neg (by omega)

lemma IsMult.bounds {num : Bytes} {mult : ℤ} (h : IsMult num mult) : 1 ≤ mult ∧ mult ≤ i64Max := by
  cases h with
  | absent => exact ⟨le_rfl, by decide⟩
  | number hne hdigits hpos hle => exact ⟨by omega, hle⟩

/-! ## The whole string -/

lemma stripBrackets_iff {rest inner : Bytes} :
    stripBrackets rest = some inner ↔ rest = [91] ++ inner ++ [93] := by
  constructor
  · intro h
    unfold stripBrackets at h
    split at h
    · next t =>
      split_ifs at h with hlast
      obtain rfl := Option.some.inj h
      rw [List.append_assoc, List.dropLast_append_getLast? 93 hlast]
      rfl
    · exact absurd h (by simp)
  · rintro rfl
    simp [stripBrackets]

/-- What stands between the brackets: the digits, and the rest as the code. -/
lemma parseDt64_bracketed {c : UInt8} (hc : IsByteOrder c) (inner : Bytes) :
    parseDt64 (c :: 77 :: 56 :: ([91] ++ inner ++ [93])) =
      (parseMult (inner.takeWhile fun b => decide (IsDigit b))).bind fun mult =>
        (unitOfCode (inner.dropWhile fun b => decide (IsDigit b))).map fun base => ⟨base, mult⟩ := by
  have hstrip : stripBrackets ([91] ++ inner ++ [93]) = some inner := stripBrackets_iff.mpr rfl
  unfold IsByteOrder at hc
  rw [parseDt64, if_pos hc, if_neg (by simp), hstrip]
  simp only [Option.bind_eq_bind, Option.bind_some]
  cases parseMult (inner.takeWhile fun b => decide (IsDigit b)) with
  | none => rfl
  | some mult =>
      cases unitOfCode (inner.dropWhile fun b => decide (IsDigit b)) <;> rfl

/-- A number in front of a code is read as the number. -/
lemma parseDt64_dt64Dtype {c : UInt8} (hc : IsByteOrder c) {num code : Bytes} {base : TimeUnit}
    (hdigits : ∀ b ∈ num, IsDigit b) (hcode : base.code = some code) :
    parseDt64 (dt64Dtype c num code) = (parseMult num).map fun mult => ⟨base, mult⟩ := by
  obtain ⟨b, t, rfl, hb⟩ := base.not_isDigit_code hcode
  have hnum : ∀ b ∈ num, decide (IsDigit b) = true := fun b h => decide_eq_true (hdigits b h)
  have htake : (num ++ b :: t).takeWhile (fun b => decide (IsDigit b)) = num := by
    rw [List.takeWhile_append_of_pos hnum, List.takeWhile_cons_of_neg (by simpa using hb),
      List.append_nil]
  have hdrop : (num ++ b :: t).dropWhile (fun b => decide (IsDigit b)) = b :: t := by
    rw [List.dropWhile_append_of_pos hnum, List.dropWhile_cons_of_neg (by simpa using hb)]
  have htext : dt64Dtype c num (b :: t) = c :: 77 :: 56 :: ([91] ++ (num ++ b :: t) ++ [93]) := by
    simp [dt64Dtype]
  rw [htext, parseDt64_bracketed hc, htake, hdrop, unitOfCode_iff.mpr hcode]
  cases parseMult num <;> rfl

lemma parseDt64_iff (s : Bytes) (u : Dt64Unit) : parseDt64 s = some u ↔ IsDtype s u := by
  constructor
  · intro h
    unfold parseDt64 at h
    split at h
    · next c rest =>
      split at h
      · next hc =>
        split at h
        · next hrest =>
          obtain rfl := Option.some.inj h
          rw [hrest]
          exact .generic hc
        · simp only [Option.bind_eq_bind, Option.bind_eq_some_iff, Option.some.injEq] at h
          obtain ⟨inner, hinner, mult, hmult, base, hbase, rfl⟩ := h
          have hsplit := List.takeWhile_append_dropWhile (p := fun b => decide (IsDigit b)) (l := inner)
          have hdigits : ∀ b ∈ inner.takeWhile (fun b => decide (IsDigit b)), IsDigit b :=
            fun b hb => of_decide_eq_true
              (List.mem_takeWhile_imp (p := fun b => decide (IsDigit b)) hb)
          have htext : c :: 77 :: 56 :: rest = dt64Dtype c
              (inner.takeWhile fun b => decide (IsDigit b))
              (inner.dropWhile fun b => decide (IsDigit b)) := by
            rw [stripBrackets_iff.mp hinner, dt64Dtype, List.append_assoc _ (List.takeWhile _ _), hsplit]
            rfl
          rw [htext]
          exact .unit hc ((parseMult_iff hdigits).mp hmult) (unitOfCode_iff.mp hbase)
      · exact absurd h (by simp)
    · exact absurd h (by simp)
  · intro h
    cases h with
    | generic hc => exact (if_pos hc).trans (if_pos rfl)
    | @unit c num code base mult hc hnum hcode =>
        have hdigits : ∀ b ∈ num, IsDigit b := by
          cases hnum with
          | absent => exact fun b hb => absurd hb List.not_mem_nil
          | number hne hdigits hpos hle => exact hdigits
        rw [parseDt64_dt64Dtype hc hdigits hcode, (parseMult_iff hdigits).mpr hnum]
        rfl

/-- **`parse_dt64` takes exactly the dtype strings.**  It returns what they say; the rendered dtype of
a unit with any multiplier up to `i64::MAX` gives both back, and a larger number is refused, however
many digits it has. -/
theorem parseDt64_iff_dtype :
    (∀ s u, parseDt64 s = some u ↔ IsDtype s u) ∧
    ∀ c base code, IsByteOrder c → base.code = some code →
      (∀ mult : ℤ, 1 ≤ mult → mult ≤ i64Max →
        parseDt64 (dt64Dtype c (natText mult.toNat) code) = some ⟨base, mult⟩) ∧
      ∀ num, (∀ b ∈ num, IsDigit b) → i64Max < value num →
        parseDt64 (dt64Dtype c num code) = none := by
  refine ⟨parseDt64_iff, fun c base code hc hcode => ⟨fun mult hlo hhi => ?_, fun num hnum hlt => ?_⟩⟩
  · have hvalue : (value (natText mult.toNat) : ℤ) = mult := by
      rw [value_natText, Int.toNat_of_nonneg (by omega)]
    have hmult : IsMult (natText mult.toNat) (value (natText mult.toNat)) :=
      .number (natText_ne_nil _) (isDigit_natText _) (by omega) (by rw [hvalue]; exact hhi)
    rw [hvalue] at hmult
    exact (parseDt64_iff _ _).mpr (.unit hc hmult hcode)
  · have hne : num ≠ [] := by
      rintro rfl
      exact absurd hlt (by decide)
    have hmult : parseMult num = none := by
      rw [parseMult, if_neg hne, accumulate_zero, if_neg (not_le.mpr hlt)]
    rw [parseDt64_dt64Dtype hc hnum hcode, hmult]
    rfl

set_option maxRecDepth 4000 in
/-- A number with a leading zero, and one that is too large by one. -/
theorem parseDt64_iff_dtype_milli :
    parseDt64 (Bytes.ascii "<M8[010ms]") = some ⟨.milli, 10⟩ ∧
    parseDt64 (dt64Dtype 60 (Bytes.ascii "9223372036854775808") (Bytes.ascii "s")) = none := by
  have hvalue : (value (Bytes.ascii "010") : ℤ) = 10 := rfl
  have hmult : IsMult (Bytes.ascii "010") (value (Bytes.ascii "010")) :=
    .number (by decide) (by decide) (by omega) (by rw [hvalue]; decide)
  have htext : Bytes.ascii "<M8[010ms]" = dt64Dtype 60 (Bytes.ascii "010") (Bytes.ascii "ms") := rfl
  have hbig : (value (Bytes.ascii "9223372036854775808") : ℤ) = 9223372036854775808 := rfl
  constructor
  · rw [hvalue] at hmult
    rw [htext]
    exact (parseDt64_iff_dtype.1 _ _).mpr (.unit (Or.inl rfl) hmult rfl)
  · refine (parseDt64_iff_dtype.2 60 .second (Bytes.ascii "s") (Or.inl rfl) rfl).2 _ ?_ ?_
    · decide
    · rw [hbig]
      decide

end Isojson
