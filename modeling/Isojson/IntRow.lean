import Isojson.Buffer
import Isojson.Library.JsonGrammar

/-!
# `numpy.rs`: compact integer rows

`write_int_row` writes a row of integers through a raw pointer after one `reserve`.  Its text is
the compact layout of an array of leaves (`writeIntRow_spec`): 21 bytes for each item cover the
longest integer and a comma.
-/

namespace Isojson

open Json

/-! ## The code -/

/-- The pieces of `copy_digits` for `n` bytes. -/
def digitPieces (n : ℕ) : List (ℕ × ℕ) :=
  if 8 ≤ n then [(0, 8), (n - 8, 8)] ++ if 16 < n then [(8, 8)] else []
  else if 4 ≤ n then [(0, 4), (n - 4, 4)]
  else (List.range n).map fun i => (i, 1)

/-- A comma before every item but the first. -/
def storeComma (i dst : ℕ) (out : OutputBuffer) : Option (ℕ × OutputBuffer) :=
  if 0 < i then do
    let out ← out.storeAt dst [44]
    some (dst + 1, out)
  else some (dst, out)

/-- The loop of `write_int_row` over the texts of a row, from item `i` on. -/
def intRowLoop : ℕ → List Bytes → ℕ → OutputBuffer → Option (ℕ × OutputBuffer)
  | _, [], dst, out => some (dst, out)
  | i, t :: texts, dst, out => do
      let (dst, out) ← storeComma i dst out
      let out ← copyPieces out dst t (digitPieces t.length)
      intRowLoop (i + 1) texts (dst + t.length) out

/-- `write_int_row` over the texts of its items. -/
def writeIntRow (out : OutputBuffer) (texts : List Bytes) : Option OutputBuffer := do
  let out ← out.reserve (texts.length * 21 + 2)
  let base := out.len
  let out ← out.storeAt base [91]
  let (dst, out) ← intRowLoop 0 texts (base + 1) out
  let out ← out.storeAt dst [93]
  some (out.setLen (dst + 1))

/-! ## Its text -/

lemma covers_digitPieces {n : ℕ} (h : n ≤ 20) : Covers (digitPieces n) n := by
  unfold digitPieces
  split
  · next h8 =>
    split
    · next h16 =>
      refine ⟨?_, fun i hi => ?_⟩
      · simp only [List.cons_append, List.nil_append, List.mem_cons, List.not_mem_nil, or_false,
          forall_eq_or_imp, forall_eq]
        omega
      · rcases Nat.lt_or_ge i 8 with h0 | h0
        · exact ⟨(0, 8), by simp, Nat.zero_le _, by simpa using h0⟩
        · rcases Nat.lt_or_ge i 16 with h1 | h1
          · exact ⟨(8, 8), by simp, h0, by simpa using h1⟩
          · exact ⟨(n - 8, 8), by simp, by simp only; omega, by simp only; omega⟩
    · rw [List.append_nil]
      exact covers_ends h8 (by omega)
  · split
    · exact covers_ends (by omega) (by omega)
    · exact covers_bytes n

/-- The text of the items of a compact row. -/
def rowItems (first : Bool) (texts : List Bytes) : Bytes :=
  itemsText false 0 first (texts.map Doc.leaf)

lemma rowItems_cons (first : Bool) (t : Bytes) (texts : List Bytes) :
    rowItems first (t :: texts) = (if first then [] else [44]) ++ t ++ rowItems false texts := by
  simp [rowItems, itemsText, sep, Doc.render]

namespace OutputBuffer

variable {a : Allocator} {dst : ℕ} {t : Bytes} {out : OutputBuffer}

lemma Pending.storeComma (h : out.Pending a dst t) (hcap : dst + 1 ≤ out.cap) (i : ℕ) :
    ∃ out', Isojson.storeComma i dst out = some (dst + (if 0 < i then 1 else 0), out') ∧
      out'.Pending a (dst + (if 0 < i then 1 else 0)) (t ++ if i = 0 then [] else [44]) ∧
      out'.cap = out.cap := by
  unfold Isojson.storeComma
  rcases Nat.eq_zero_or_pos i with rfl | hi
  · exact ⟨out, by simp, by simpa using h, rfl⟩
  · obtain ⟨o1, h1, hp, hc⟩ := h.storeAt_all [44] hcap
    rw [if_pos hi, if_pos hi, if_neg (by omega), h1]
    exact ⟨o1, rfl, hp, hc⟩

/-- The loop keeps 21 bytes of room for each item to come. -/
lemma Pending.intRowLoop (h : out.Pending a dst t) (i : ℕ) (texts : List Bytes)
    (hlen : ∀ u ∈ texts, u.length ≤ 20) (room : ℕ) (hcap : dst + texts.length * 21 + room ≤ out.cap) :
    ∃ dst' out', Isojson.intRowLoop i texts dst out = some (dst', out') ∧
      out'.Pending a dst' (t ++ rowItems (i = 0) texts) ∧ dst' + room ≤ out'.cap := by
  induction texts generalizing i dst t out with
  | nil => exact ⟨dst, out, rfl, by simpa [rowItems, itemsText] using h, by simpa using hcap⟩
  | cons u texts ih =>
      obtain ⟨hu, hlen⟩ := List.forall_mem_cons.mp hlen
      rw [List.length_cons] at hcap
      obtain ⟨o1, h1, hp1, hc1⟩ := h.storeComma (by omega) i
      have hstep : (if 0 < i then 1 else 0) ≤ 1 := by split <;> omega
      obtain ⟨o2, h2, hp2, -, hc2⟩ := hp1.copyPieces (s := u) (by omega) (covers_digitPieces hu)
      obtain ⟨dst', o3, h3, hp3, hroom⟩ := ih hp2 (i + 1) hlen (by omega)
      refine ⟨dst', o3, ?_, ?_, hroom⟩
      · simp only [Isojson.intRowLoop, h1, h2, Option.bind_eq_bind, Option.bind_some, h3]
      · rw [rowItems_cons]
        simpa only [List.append_assoc, Nat.add_eq_zero_iff, one_ne_zero, and_false, decide_false,
          decide_eq_true_eq] using hp3

lemma writeIntRow_spec (h : out.WF) {texts : List Bytes} (hlen : ∀ u ∈ texts, u.length ≤ 20) :
    ∃ out', writeIntRow out texts = some out' ∧ out'.WF ∧
      out'.content = out.content ++ ([91] ++ rowItems true texts ++ [93]) ∧
      out'.alloc = out.alloc := by
  obtain ⟨o1, h1, hwf1, hlen1, hc1, ha1, hcap1⟩ := reserve_spec h (texts.length * 21 + 2)
  obtain ⟨o2, h2, hp2, hcap2⟩ := (Pending.of_wf hwf1).storeAt_all [91]
    (by simp only [List.length_singleton]; omega)
  rw [List.length_singleton] at hp2
  obtain ⟨dst, o3, h3, hp3, hcap3⟩ := hp2.intRowLoop 0 texts hlen 1 (by omega)
  obtain ⟨o4, h4, hp4, -⟩ := hp3.storeAt_all [93] hcap3
  obtain ⟨hwf, hc, ha⟩ := hp4.setLen
  refine ⟨o4.setLen (dst + 1), ?_, hwf, ?_, ha.trans ha1⟩
  · simp only [writeIntRow, h1, h2, h3, h4, Option.bind_eq_bind, Option.bind_some]
  · rw [List.length_singleton] at hc
    rw [hc, hc1]
    simp [List.append_assoc]

end OutputBuffer

namespace Buffer

variable {a : Allocator}

def writeIntRow (b : Buffer a) (texts : List Bytes) (h : ∀ t ∈ texts, t.length ≤ 20) : Buffer a :=
  b.append _ (Isojson.writeIntRow · texts) (b.raw.writeIntRow_spec b.wf h)

@[simp] lemma content_writeIntRow (b : Buffer a) {texts : List Bytes}
    (h : ∀ t ∈ texts, t.length ≤ 20) :
    (b.writeIntRow texts h).content = b.content ++ ([91] ++ rowItems true texts ++ [93]) :=
  content_append _

end Buffer

end Isojson
