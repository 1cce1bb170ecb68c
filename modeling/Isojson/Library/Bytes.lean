import Mathlib

/-!
# Byte strings

Byte strings are lists of `UInt8`.  This file fixes the name, the bytes of an ASCII literal,
and the two list operations that memory is described with: storing a block at an offset and
cutting a block out.
-/

abbrev Bytes := List UInt8

namespace Bytes

/-- The bytes of an ASCII literal. -/
def ascii (s : String) : Bytes := s.toList.map fun c => UInt8.ofNat c.toNat

/-! ## Blocks -/

/-- `mem` with the block `bs` stored at offset `i`. -/
def store (mem : Bytes) (i : ℕ) (bs : Bytes) : Bytes :=
  mem.take i ++ bs ++ mem.drop (i + bs.length)

/-- The block of `n` bytes at offset `i`. -/
def block (mem : Bytes) (i n : ℕ) : Bytes := (mem.drop i).take n

@[simp] lemma store_nil (mem : Bytes) (i : ℕ) : store mem i [] = mem := by
  simp [store]

lemma length_store {mem : Bytes} {i : ℕ} {bs : Bytes} (h : i + bs.length ≤ mem.length) :
    (store mem i bs).length = mem.length := by
  simp only [store, List.length_append, List.length_take, List.length_drop]
  omega

/-- A store at `i` leaves every prefix up to `i` alone. -/
lemma take_store_of_le {mem : Bytes} {i k : ℕ} {bs : Bytes} (hk : k ≤ i)
    (h : i ≤ mem.length) : (store mem i bs).take k = mem.take k := by
  rw [store, List.append_assoc, List.take_append_of_le_length (by simp; omega), List.take_take,
    min_eq_left hk]

/-- The prefix that ends with the stored block. -/
lemma take_store {mem : Bytes} {i : ℕ} {bs : Bytes} (h : i ≤ mem.length) :
    (store mem i bs).take (i + bs.length) = mem.take i ++ bs := by
  have hl : (mem.take i ++ bs).length = i + bs.length := by
    simp only [List.length_append, List.length_take]
    omega
  rw [store, ← hl, List.take_left]

/-- A prefix that ends inside the stored block. -/
lemma take_store_part {mem : Bytes} {i k : ℕ} {bs : Bytes} (h : i ≤ mem.length)
    (hk : k ≤ bs.length) : (store mem i bs).take (i + k) = mem.take i ++ bs.take k := by
  have hl : (mem.take i).length = i := by
    simp only [List.length_take]
    omega
  rw [store, List.append_assoc, List.take_append, hl, List.take_of_length_le (by omega),
    Nat.add_sub_cancel_left, List.take_append_of_le_length hk]

/-- The bytes of a memory after a store, one by one. -/
lemma getElem?_store {mem : Bytes} {i : ℕ} {bs : Bytes} (h : i + bs.length ≤ mem.length) (j : ℕ) :
    (store mem i bs)[j]? = if i ≤ j ∧ j < i + bs.length then bs[j - i]? else mem[j]? := by
  have hl : (mem.take i).length = i := by
    simp only [List.length_take]
    omega
  rw [store, List.append_assoc]
  split
  · next hin =>
    rw [List.getElem?_append_right (by omega), hl, List.getElem?_append_left (by omega)]
  · next hout =>
    rcases Nat.lt_or_ge j i with hj | hj
    · rw [List.getElem?_append_left (by omega), List.getElem?_take_of_lt hj]
    · rw [List.getElem?_append_right (by omega), hl, List.getElem?_append_right (by omega),
        List.getElem?_drop]
      congr 1
      omega

end Bytes
