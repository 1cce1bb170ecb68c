import Isojson.Library.Words

/-!
# `swar.rs`: word-at-a-time byte scanning

The tests on eight bytes at once, and `load`, whose slice index panics (`none`) past the end.
-/

namespace Isojson

open Words

def lo : UInt64 := 0x0101010101010101
def hi : UInt64 := 0x8080808080808080

def hasZero (w : UInt64) : UInt64 := (w - lo) &&& ~~~w &&& hi

def hasSpecial (w : UInt64) : Bool :=
  ((w - lo * 0x20) &&& ~~~w &&& hi ||| hasZero (w ^^^ lo * 34) ||| hasZero (w ^^^ lo * 92)) != 0

/-- `u64::from_le_bytes(s[at_..at_ + 8])` -/
def load (s : Bytes) (at_ : ℕ) : Option UInt64 :=
  if at_ + 8 ≤ s.length then some (UInt64.ofNat (wordOf (Bytes.block s at_ 8))) else none

/-- The little-endian bytes of a word, as an unaligned store writes them. -/
def storeLe (w : UInt64) : Bytes := leBytes 8 w.toNat

/-- `is_ascii` from index `i` on: whole words first, then the tail byte by byte. -/
def isAsciiFrom (s : Bytes) (i : ℕ) : Bool :=
  if i + 8 ≤ s.length then
    match load s i with
    | some w => if w &&& hi != 0 then false else isAsciiFrom s (i + 8)
    | none => false
  else (s.drop i).all fun b => b < 0x80
termination_by s.length - i

def isAscii (s : Bytes) : Bool := isAsciiFrom s 0

/-! ## The tests on a word -/

/-- A byte that is special inside a JSON string. -/
def IsSpecial (b : UInt8) : Prop := b.toNat < 0x20 ∨ b = 34 ∨ b = 92

instance : DecidablePred IsSpecial := fun b => by unfold IsSpecial; infer_instance

lemma toNat_wordOf {bs : Bytes} (h : bs.length = 8) :
    (UInt64.ofNat (wordOf bs)).toNat = wordOf bs := by
  have hlt := wordOf_lt bs
  rw [h] at hlt
  rw [UInt64.toNat_ofNat']
  omega

lemma storeLe_wordOf {bs : Bytes} (h : bs.length = 8) : storeLe (UInt64.ofNat (wordOf bs)) = bs := by
  rw [storeLe, toNat_wordOf h, ← h, leBytes_wordOf]

/-- The source's borrow test is the library's, for a threshold `t` in every lane. -/
lemma toNat_detect (w k : UInt64) {t : ℕ} (hk : k.toNat = rep t 8) :
    ((w - k) &&& ~~~w &&& hi).toNat = detect t 8 w.toNat := by
  have hh : hi.toNat = rep 128 8 := by decide
  rw [UInt64.toNat_and, UInt64.toNat_and, UInt64.toNat_sub, UInt64.toNat_not, hk, hh, detect]
  rfl

lemma wordOf_map_xor {bs : Bytes} (h : bs.length = 8) {k : UInt64} {q : UInt8}
    (hk : k.toNat = rep q.toNat 8) :
    (UInt64.ofNat (wordOf bs) ^^^ k).toNat = wordOf (bs.map (· ^^^ q)) := by
  rw [UInt64.toNat_xor, toNat_wordOf h, hk, ← h, wordOf_xor]

/-- Some byte equals `q` when the test for a zero byte hits the word exclusive-or `q`. -/
lemma hasZero_xor_ne_zero_iff {bs : Bytes} (h : bs.length = 8) {k : UInt64} {q : UInt8}
    (hk : k.toNat = rep q.toNat 8) :
    hasZero (UInt64.ofNat (wordOf bs) ^^^ k) ≠ 0 ↔ q ∈ bs := by
  have hlen : (bs.map (· ^^^ q)).length = 8 := by rw [List.length_map, h]
  have hd := below_detect (t := 1) (by decide) (bs.map (· ^^^ q))
  rw [hlen] at hd
  rw [hasZero, ne_eq, ← UInt64.toNat_inj, toNat_detect _ _ (t := 1) (by decide), wordOf_map_xor h hk]
  refine hd.trans ⟨?_, fun hq => ⟨q ^^^ q, List.mem_map_of_mem hq, by simp⟩⟩
  rintro ⟨x, hx, hx0⟩
  obtain ⟨b, hb, rfl⟩ := List.mem_map.mp hx
  have hz : b ^^^ q = 0 := by
    rw [← UInt8.toNat_inj]
    simp only [UInt8.toNat_zero]
    omega
  rwa [← UInt8.xor_eq_zero_iff.mp hz]

/-- **Exactness of `has_special`** on the word of any eight bytes. -/
lemma hasSpecial_wordOf {bs : Bytes} (h : bs.length = 8) :
    hasSpecial (UInt64.ofNat (wordOf bs)) = true ↔ ∃ b ∈ bs, IsSpecial b := by
  have hctrl : (UInt64.ofNat (wordOf bs) - lo * 0x20) &&& ~~~(UInt64.ofNat (wordOf bs)) &&& hi ≠ 0 ↔
      ∃ b ∈ bs, b.toNat < 0x20 := by
    have hd := below_detect (t := 0x20) (by decide) bs
    rw [h] at hd
    rw [ne_eq, ← UInt64.toNat_inj, toNat_detect _ _ (t := 0x20) (by decide), toNat_wordOf h]
    exact hd
  have hquote := hasZero_xor_ne_zero_iff h (k := lo * 34) (q := 34) (by decide)
  have hback := hasZero_xor_ne_zero_iff h (k := lo * 92) (q := 92) (by decide)
  rw [hasSpecial, bne_iff_ne, ne_eq, UInt64.or_eq_zero_iff, UInt64.or_eq_zero_iff, not_and_or,
    not_and_or, ← ne_eq, ← ne_eq, ← ne_eq, hctrl, hquote, hback]
  constructor
  · rintro ((⟨b, hb, hlt⟩ | hq) | hq)
    · exact ⟨b, hb, Or.inl hlt⟩
    · exact ⟨34, hq, Or.inr (Or.inl rfl)⟩
    · exact ⟨92, hq, Or.inr (Or.inr rfl)⟩
  · rintro ⟨b, hb, hlt | rfl | rfl⟩
    · exact Or.inl (Or.inl ⟨b, hb, hlt⟩)
    · exact Or.inl (Or.inr hb)
    · exact Or.inr hb

/-- **`has_special` has no false negatives or false positives.**  It hits a word exactly if one of the
word's eight bytes is a control character, a quote or a backslash, whatever is borrowed between the
lanes. -/
theorem hasSpecial_iff (w : UInt64) :
    hasSpecial w = true ↔ ∃ b ∈ storeLe w, b.toNat < 0x20 ∨ b = 0x22 ∨ b = 0x5C := by
  have hlen : (storeLe w).length = 8 := length_leBytes 8 w.toNat
  have hlt : w.toNat < 256 ^ 8 := w.toNat_lt
  have hword : UInt64.ofNat (wordOf (storeLe w)) = w := by
    rw [storeLe, wordOf_leBytes hlt, UInt64.ofNat_toNat]
  have hiff := hasSpecial_wordOf hlen
  rwa [hword] at hiff

/-- **`is_ascii`** agrees with the test of every byte, for every length. -/
lemma isAscii_iff {s : Bytes} : isAscii s = true ↔ ∀ b ∈ s, b.toNat < 0x80 := by
  have hfrom : ∀ k i, s.length - i = k →
      (isAsciiFrom s i = true ↔ ∀ b ∈ s.drop i, b.toNat < 0x80) := by
    intro k
    induction k using Nat.strong_induction_on with
    | _ k ih =>
        intro i hk
        rw [isAsciiFrom]
        split
        · next hle =>
          have hlen : (Bytes.block s i 8).length = 8 := by
            simp only [Bytes.block, List.length_take, List.length_drop]
            omega
          have hsplit : s.drop i = Bytes.block s i 8 ++ s.drop (i + 8) := by
            rw [Bytes.block, ← List.drop_drop, List.take_append_drop]
          have hbits := high_bits_ne_zero_iff (Bytes.block s i 8)
          have hhi : hi.toNat = rep 128 8 := by decide
          rw [hlen, ← toNat_wordOf hlen, ← hhi, ← UInt64.toNat_and, ← UInt64.toNat_zero, ne_eq,
            UInt64.toNat_inj] at hbits
          simp only [load, if_pos hle]
          rw [hsplit, List.forall_mem_append, ← ih _ (by omega) (i + 8) rfl]
          split
          · next hne =>
            obtain ⟨b, hb, hge⟩ := hbits.mp (by simpa using hne)
            refine iff_of_false (by simp) fun h => ?_
            have := h.1 b hb
            omega
          · next heq =>
            refine (and_iff_right fun b hb => ?_).symm
            by_contra hge
            exact heq (by simpa using hbits.mpr ⟨b, hb, not_lt.mp hge⟩)
        · simp only [List.all_eq_true, decide_eq_true_eq]
          exact forall₂_congr fun b _ => UInt8.lt_iff_toNat_lt
  rw [isAscii, hfrom _ 0 rfl, List.drop_zero]

end Isojson
