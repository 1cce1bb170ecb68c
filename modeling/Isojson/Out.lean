import Isojson.Library.Bytes

/-!
# `out.rs`: the output buffer

`OutputBuffer` writes through a raw pointer into one of two backing stores: the `bytes` object
that becomes the result, and the Rust `Vec` it spills to when a larger object cannot be
allocated.  The model keeps both stores with their memory, so that "the content" is what the
pointer shows, and it keeps the pitfalls of the code apart from its effect:

- a raw store or read outside the memory behind the pointer is `none` (undefined behaviour);
- `reserve` computes `cap - len` in `usize`, so `len > cap` is `none` as well;
- fresh memory holds arbitrary bytes, and growing a `Vec` copies only its own length, which
  is stale while raw writes go past it.

`Allocator` decides every allocation: it is any pattern of success and failure, any content of
fresh memory and any surplus capacity of a `Vec`.  Sizes are natural numbers, since no
allocation exceeds `isize::MAX`.
-/

namespace Isojson

/-! ## Memory -/

/-- How the allocator answers the requests of one buffer, by their number. -/
structure Allocator where
  /-- Whether request `k`, for a `bytes` object, succeeds. -/
  bytesNew : ℕ → Bool
  /-- Byte `i` of the fresh memory of request `k`. -/
  junk : ℕ → ℕ → UInt8
  /-- The capacity a `Vec` gets beyond what request `k` asked for. -/
  surplus : ℕ → ℕ

def Allocator.fresh (a : Allocator) (k n : ℕ) : Bytes := (List.range n).map (a.junk k)

@[simp] lemma Allocator.length_fresh (a : Allocator) (k n : ℕ) : (a.fresh k n).length = n := by
  simp [Allocator.fresh]

/-- A `bytes` object. -/
structure PyBytes where
  id : ℕ
  mem : Bytes

/-- A Rust `Vec<u8>`: its whole allocation and its own length. -/
structure RawVec where
  mem : Bytes
  len : ℕ

/-- `Vec::reserve`, which copies the first `len` bytes when it reallocates. -/
def RawVec.reserve (v : RawVec) (additional : ℕ) (a : Allocator) (k : ℕ) : RawVec :=
  if additional ≤ v.mem.length - v.len then v
  else
    ⟨Bytes.store (a.fresh k (v.len + additional + a.surplus k)) 0 (v.mem.take v.len), v.len⟩

/-- What the raw pointer of a buffer points into. -/
inductive Backing
  | bytes
  | spill
  deriving DecidableEq

/-- The buffer, and what the allocator and the interpreter have seen of it: `asked` counts
the allocation requests, `made` the `bytes` objects created, `released` lists the objects
released, and `memoryError` says that the exception is pending. -/
structure OutputBuffer where
  obj : Option PyBytes
  spill : RawVec
  ptr : Backing
  len : ℕ
  cap : ℕ
  alloc : Allocator
  asked : ℕ
  made : ℕ
  released : List ℕ
  memoryError : Bool

namespace OutputBuffer

/-- The memory behind the raw pointer; `none` when it dangles. -/
def memory (b : OutputBuffer) : Option Bytes :=
  match b.ptr with
  | .bytes => b.obj.map PyBytes.mem
  | .spill => some b.spill.mem

/-- A read of the first `n` bytes through the pointer. -/
def readPrefix (b : OutputBuffer) (n : ℕ) : Option Bytes := do
  let m ← b.memory
  if n ≤ m.length then some (m.take n) else none

/-- A raw store of `bs` at offset `i` from the pointer. -/
def storeAt (b : OutputBuffer) (i : ℕ) (bs : Bytes) : Option OutputBuffer :=
  match b.ptr, b.obj with
  | .bytes, some o =>
      if i + bs.length ≤ o.mem.length then
        some { b with obj := some { o with mem := Bytes.store o.mem i bs } }
      else none
  | .bytes, none => none
  | .spill, _ =>
      if i + bs.length ≤ b.spill.mem.length then
        some { b with spill := { b.spill with mem := Bytes.store b.spill.mem i bs } }
      else none

/-! ## The code -/

def minCap : ℕ := 64

/-- The buffer for the thread's size hint; `none` with a `MemoryError` pending. -/
def new (a : Allocator) (hint : ℕ) : Option OutputBuffer :=
  let cap := max (hint + hint / 8) minCap
  if a.bytesNew 0 then
    some { obj := some ⟨0, a.fresh 0 cap⟩, spill := ⟨[], 0⟩, ptr := .bytes, len := 0, cap := cap,
           alloc := a, asked := 1, made := 1, released := [], memoryError := false }
  else none

def setLen (b : OutputBuffer) (len : ℕ) : OutputBuffer := { b with len := len }

def grow (b : OutputBuffer) (n : ℕ) : Option OutputBuffer := do
  let want := max (b.len + n) (b.cap * 2)
  match b.obj with
  | some o =>
      let written ← b.readPrefix b.len
      if b.alloc.bytesNew b.asked then
        some { b with
          obj := some ⟨b.made, Bytes.store (b.alloc.fresh b.asked want) 0 written⟩
          ptr := .bytes
          cap := want
          asked := b.asked + 1
          made := b.made + 1
          released := o.id :: b.released }
      else
        -- out of memory for a `bytes` object: the `MemoryError` is cleared, and writing goes on
        -- in a `Vec`
        let v : RawVec := ⟨Bytes.store
          (b.alloc.fresh (b.asked + 1) (want + b.alloc.surplus (b.asked + 1))) 0 written, b.len⟩
        some { b with
          obj := none
          spill := v
          ptr := .spill
          cap := v.mem.length
          asked := b.asked + 2
          released := o.id :: b.released
          memoryError := false }
  | none =>
      let v := { b.spill with len := b.len }
      let v := v.reserve (want - b.len) b.alloc b.asked
      some { b with spill := v, ptr := .spill, cap := v.mem.length, asked := b.asked + 1 }

def reserve (b : OutputBuffer) (n : ℕ) : Option OutputBuffer :=
  if b.cap < b.len then none
  else if b.cap - b.len < n then b.grow n
  else some b

def push (b : OutputBuffer) (c : UInt8) : Option OutputBuffer := do
  let b ← b.reserve 1
  let b ← b.storeAt b.len [c]
  some (b.setLen (b.len + 1))

def extendFromSlice (b : OutputBuffer) (s : Bytes) : Option OutputBuffer := do
  let b ← b.reserve s.length
  let b ← b.storeAt b.len s
  some (b.setLen (b.len + s.length))

/-- What `finish` leaves behind: the `bytes` handed to Python, or null with a `MemoryError`,
the new size hint, and the objects made and released in the buffer's whole life. -/
structure Finished where
  result : Option PyBytes
  hint : ℕ
  made : ℕ
  released : List ℕ
  memoryError : Bool

/-- `finish`, and the `Drop` that follows it, which finds no object left to release. -/
def finish (b : OutputBuffer) : Option Finished := do
  let text ← b.readPrefix b.len
  match b.obj with
  | none =>
      if b.alloc.bytesNew b.asked then
        some ⟨some ⟨b.made, text⟩, b.len, b.made + 1, b.released, b.memoryError⟩
      else some ⟨none, b.len, b.made, b.released, true⟩
  | some o =>
      if b.len = b.cap then some ⟨some o, b.len, b.made, b.released, b.memoryError⟩
      else if b.alloc.bytesNew b.asked then
        some ⟨some ⟨o.id, text⟩, b.len, b.made, b.released, b.memoryError⟩
      else
        -- `_PyBytes_Resize` has released the object
        some ⟨none, b.len, b.made, o.id :: b.released, true⟩

/-! ## The invariant -/

/-- The content: the first `len` bytes behind the pointer. -/
def content (b : OutputBuffer) : Bytes := (b.memory.getD []).take b.len

/-- A buffer that the code can have built. -/
structure WF (b : OutputBuffer) : Prop where
  len_le : b.len ≤ b.cap
  /-- The pointer is valid and shows `cap` bytes. -/
  memory_eq : ∃ m, b.memory = some m ∧ m.length = b.cap
  /-- The pointer points into the store that is in use. -/
  ptr_eq : b.ptr = if b.obj.isSome then Backing.bytes else Backing.spill
  /-- Every object made is released, except the one in use. -/
  released_iff : ∀ i, i ∈ b.released ↔ i < b.made ∧ b.obj.map PyBytes.id ≠ some i
  obj_made : ∀ o ∈ b.obj, o.id < b.made
  released_nodup : b.released.Nodup
  no_error : b.memoryError = false

variable {b : OutputBuffer}

lemma length_content (h : b.WF) : b.content.length = b.len := by
  obtain ⟨m, hm, hlen⟩ := h.memory_eq
  have := h.len_le
  simp only [content, hm, Option.getD_some, List.length_take]
  omega

lemma readPrefix_of_wf (h : b.WF) : b.readPrefix b.len = some b.content := by
  obtain ⟨m, hm, hlen⟩ := h.memory_eq
  have := h.len_le
  simp only [readPrefix, hm, Option.bind_eq_bind, Option.bind_some, content, Option.getD_some]
  rw [if_pos (by omega)]

lemma wf_new {a : Allocator} {hint : ℕ} (h : new a hint = some b) :
    b.WF ∧ b.content = [] ∧ b.len = 0 ∧ b.alloc = a := by
  unfold new at h
  split at h
  · simp only [Option.some.injEq] at h
    subst h
    exact ⟨⟨by simp, ⟨_, rfl, by simp⟩, rfl, by simp, by simp, by simp, rfl⟩, by simp [content],
      rfl, rfl⟩
  · simp at h

/-- A raw store inside the memory keeps the invariant, the length and the capacity, and shows
in the memory as the stored block. -/
lemma storeAt_spec (h : b.WF) {i : ℕ} {bs : Bytes} (hi : i + bs.length ≤ b.cap) :
    ∃ b', b.storeAt i bs = some b' ∧ b'.WF ∧ b'.len = b.len ∧ b'.cap = b.cap ∧
      b'.alloc = b.alloc ∧ b'.memory = b.memory.map fun m => Bytes.store m i bs := by
  obtain ⟨obj, spill, ptr, len, cap, alloc, asked, made, released, merr⟩ := b
  obtain ⟨hlen, ⟨m, hm, hcap⟩, hptr, hrel, hmade, hnd, herr⟩ := h
  simp only at hi hcap
  cases obj with
  | none =>
      simp only [Option.isSome_none, Bool.false_eq_true, if_false] at hptr
      subst hptr
      simp only [memory, Option.some.injEq] at hm
      subst hm
      have hfit : i + bs.length ≤ spill.mem.length := by omega
      exact ⟨_, if_pos hfit, ⟨hlen, ⟨_, rfl, (Bytes.length_store hfit).trans hcap⟩, rfl, hrel, hmade,
        hnd, herr⟩, rfl, rfl, rfl, rfl⟩
  | some o =>
      simp only [Option.isSome_some, if_true] at hptr
      subst hptr
      simp only [memory, Option.map_some, Option.some.injEq] at hm
      subst hm
      have hfit : i + bs.length ≤ o.mem.length := by omega
      refine ⟨_, if_pos hfit, ⟨hlen, ⟨_, rfl, (Bytes.length_store hfit).trans hcap⟩, rfl, hrel, ?_,
        hnd, herr⟩, rfl, rfl, rfl, rfl⟩
      intro o' ho'
      obtain rfl := Option.some.inj ho'
      exact hmade o rfl

/-- **Growth copies exactly the written prefix**, whichever of its three ways it takes, and
makes room for `n` more bytes. -/
lemma grow_spec (h : b.WF) (n : ℕ) :
    ∃ b', b.grow n = some b' ∧ b'.WF ∧ b'.len = b.len ∧ b'.content = b.content ∧
      b'.alloc = b.alloc ∧ b.len + n ≤ b'.cap := by
  have hpre := readPrefix_of_wf h
  have hlc := length_content h
  have hwant : ∀ (f : Bytes), b.len ≤ f.length →
      (Bytes.store f 0 b.content).take b.len = b.content ∧
        (Bytes.store f 0 b.content).length = f.length := by
    intro f hf
    refine ⟨?_, Bytes.length_store (by omega)⟩
    have ht := @Bytes.take_store f 0 b.content (by omega)
    rwa [hlc, Nat.zero_add, List.take_zero, List.nil_append] at ht
  obtain ⟨hlen, ⟨m, hm, hcap⟩, hptr, hrel, hmade, hnd, herr⟩ := h
  unfold grow
  cases hobj : b.obj with
  | some o =>
      have hid := hmade o hobj
      have hnot : o.id ∉ b.released := fun hin => ((hrel _).mp hin).2 (by rw [hobj]; rfl)
      have hrel' : ∀ i, i ∈ o.id :: b.released ↔ i < b.made := by
        intro i
        rw [List.mem_cons, hrel, hobj]
        simp only [Option.map_some, ne_eq, Option.some.injEq]
        constructor
        · rintro (rfl | ⟨h1, -⟩)
          exacts [hid, h1]
        · intro hi
          by_cases he : i = o.id
          · exact Or.inl he
          · exact Or.inr ⟨hi, fun h => he h.symm⟩
      simp only [hpre, Option.bind_eq_bind, Option.bind_some]
      by_cases ha : b.alloc.bytesNew b.asked
      · obtain ⟨ht, hl⟩ := hwant (b.alloc.fresh b.asked (max (b.len + n) (b.cap * 2)))
          (by rw [Allocator.length_fresh]; omega)
        rw [Allocator.length_fresh] at hl
        rw [if_pos ha]
        refine ⟨_, rfl, ⟨by simp only; omega, ⟨_, rfl, hl⟩, rfl, fun i => ?_, ?_, ?_, herr⟩, rfl,
          ht, rfl, by simp only; omega⟩
        · simp only [hrel', Option.map_some, ne_eq, Option.some.injEq]
          omega
        · rintro o' ho'
          obtain rfl := Option.some.inj ho'
          exact Nat.lt_succ_self _
        · exact List.nodup_cons.mpr ⟨hnot, hnd⟩
      · obtain ⟨ht, hl⟩ := hwant (b.alloc.fresh (b.asked + 1)
          (max (b.len + n) (b.cap * 2) + b.alloc.surplus (b.asked + 1)))
          (by rw [Allocator.length_fresh]; omega)
        rw [Allocator.length_fresh] at hl
        rw [if_neg ha]
        refine ⟨_, rfl, ⟨by simp only; omega, ⟨_, rfl, rfl⟩, rfl, fun i => ?_, by simp, ?_, rfl⟩,
          rfl, ht, rfl, by simp only; omega⟩
        · simp only [hrel', Option.map_none, ne_eq, reduceCtorEq, not_false_eq_true, and_true]
        · exact List.nodup_cons.mpr ⟨hnot, hnd⟩
  | none =>
      rw [hobj] at hptr
      simp only [Option.isSome_none, Bool.false_eq_true, if_false] at hptr
      have hmem : m = b.spill.mem := by
        rw [memory, hptr] at hm
        exact (Option.some.inj hm).symm
      subst hmem
      have hcont : b.content = b.spill.mem.take b.len := by
        rw [content, hm]
        rfl
      -- the `Vec`'s own length is set to the written length before it may reallocate
      simp only [RawVec.reserve]
      split
      · next hroom =>
        refine ⟨_, rfl, ⟨by simp only; omega, ⟨_, rfl, rfl⟩, ?_, hobj ▸ hrel, hobj ▸ hmade, hnd,
          herr⟩, rfl, ?_, rfl, by simp only; omega⟩
        · simp
        · rw [hcont]
          rfl
      · next hroom =>
        obtain ⟨ht, hl⟩ := hwant (b.alloc.fresh b.asked
          (b.len + (max (b.len + n) (b.cap * 2) - b.len) + b.alloc.surplus b.asked))
          (by rw [Allocator.length_fresh]; omega)
        rw [Allocator.length_fresh, hcont] at hl
        rw [hcont] at ht
        refine ⟨_, rfl, ⟨by simp only; omega, ⟨_, rfl, rfl⟩, ?_, hobj ▸ hrel, hobj ▸ hmade, hnd,
          herr⟩, rfl, ?_, rfl, by simp only; omega⟩
        · simp
        · rw [hcont]
          exact ht

/-- **`reserve`** never underflows, keeps the content and makes room. -/
lemma reserve_spec (h : b.WF) (n : ℕ) :
    ∃ b', b.reserve n = some b' ∧ b'.WF ∧ b'.len = b.len ∧ b'.content = b.content ∧
      b'.alloc = b.alloc ∧ b.len + n ≤ b'.cap := by
  have hlen := h.len_le
  rw [reserve, if_neg (by omega)]
  split
  · exact grow_spec h n
  · exact ⟨b, rfl, h, rfl, rfl, rfl, by omega⟩

/-- A store at the end of the content, inside the capacity, followed by `set_len` behind it,
appends to the content. -/
lemma storeAt_end_spec (h : b.WF) (bs : Bytes) (hi : b.len + bs.length ≤ b.cap) :
    ∃ b', b.storeAt b.len bs = some b' ∧ (b'.setLen (b'.len + bs.length)).WF ∧ b'.len = b.len ∧
      (b'.setLen (b'.len + bs.length)).content = b.content ++ bs ∧ b'.alloc = b.alloc := by
  obtain ⟨m, hm, hcap⟩ := h.memory_eq
  obtain ⟨b', hb', hwf, hlen, hcap', ha, hmem⟩ := storeAt_spec h hi
  refine ⟨b', hb', ⟨?_, hwf.memory_eq, hwf.ptr_eq, hwf.released_iff, hwf.obj_made,
    hwf.released_nodup, hwf.no_error⟩, hlen, ?_, ha⟩
  · show b'.len + bs.length ≤ b'.cap
    omega
  · show ((b'.memory).getD []).take (b'.len + bs.length) = _
    rw [hmem, hm, hlen, content, hm]
    exact Bytes.take_store (by have := h.len_le; omega)

lemma extendFromSlice_spec (h : b.WF) (s : Bytes) :
    ∃ b', b.extendFromSlice s = some b' ∧ b'.WF ∧ b'.content = b.content ++ s ∧
      b'.alloc = b.alloc := by
  obtain ⟨b1, h1, hwf1, hlen1, hc1, ha1, hcap1⟩ := reserve_spec h s.length
  obtain ⟨b2, h2, hwf2, hlen2, hc2, ha2⟩ := storeAt_end_spec hwf1 s (by omega)
  refine ⟨_, ?_, hwf2, hc2.trans (by rw [hc1]), ha2.trans ha1⟩
  simp only [extendFromSlice, h1, h2, Option.bind_eq_bind, Option.bind_some]

lemma push_spec (h : b.WF) (c : UInt8) :
    ∃ b', b.push c = some b' ∧ b'.WF ∧ b'.content = b.content ++ [c] ∧ b'.alloc = b.alloc :=
  extendFromSlice_spec h [c]

/-- `set_len` to a length the content already has cuts the content there. -/
lemma setLen_spec (h : b.WF) {n : ℕ} (hn : n ≤ b.len) :
    (b.setLen n).WF ∧ (b.setLen n).content = b.content.take n := by
  refine ⟨⟨?_, h.memory_eq, h.ptr_eq, h.released_iff, h.obj_made, h.released_nodup, h.no_error⟩,
    ?_⟩
  · exact hn.trans h.len_le
  · show (b.memory.getD []).take n = (b.content).take n
    rw [content, List.take_take, min_eq_left hn]

/-! ## Sequences of operations

The abstract buffer is a byte list.  An operation of the code is one of four; a `raw` one
stands for every writer that reserves room, stores through the pointer inside that room, in any
order and with any overlaps, and then sets the length behind what it wants to keep. -/

inductive Op
  | push (c : UInt8)
  | extend (s : Bytes)
  | raw (room : ℕ) (stores : List (ℕ × Bytes)) (n : ℕ)
  | truncate (n : ℕ)

/-- The byte a sequence of stores leaves at offset `i`, if any store covers it. -/
def lastStore (stores : List (ℕ × Bytes)) (i : ℕ) : Option UInt8 :=
  stores.foldl (fun acc st => if st.1 ≤ i ∧ i < st.1 + st.2.length then st.2[i - st.1]? else acc)
    none

/-- What the operation does to the byte list. -/
def Op.apply : Op → Bytes → Bytes
  | .push c, t => t ++ [c]
  | .extend s, t => t ++ s
  | .raw _ stores n, t => t ++ (List.range n).map fun i => (lastStore stores i).getD 0
  | .truncate n, t => t.take n

/-- What the code promises at each call: raw stores stay inside the reserved room, what is kept
has been written, and a truncation goes back to an earlier length. -/
def Op.Valid : Op → Bytes → Prop
  | .push _, _ => True
  | .extend _, _ => True
  | .raw room stores n, _ => (∀ st ∈ stores, st.1 + st.2.length ≤ room) ∧ n ≤ room ∧
      ∀ i < n, (lastStore stores i).isSome
  | .truncate n, t => n ≤ t.length

/-- What the operation does to the buffer. -/
def runOp (b : OutputBuffer) : Op → Option OutputBuffer
  | .push c => b.push c
  | .extend s => b.extendFromSlice s
  | .raw room stores n => do
      let b ← b.reserve room
      let b ← stores.foldlM (fun (b : OutputBuffer) st => b.storeAt (b.len + st.1) st.2) b
      some (b.setLen (b.len + n))
  | .truncate n => some (b.setLen n)

def run (b : OutputBuffer) (ops : List Op) : Option OutputBuffer := ops.foldlM runOp b

def applyAll (ops : List Op) (t : Bytes) : Bytes := ops.foldl (fun t op => op.apply t) t

def ValidFrom : List Op → Bytes → Prop
  | [], _ => True
  | op :: ops, t => op.Valid t ∧ ValidFrom ops (op.apply t)

/-- A sequence of raw stores inside the room keeps the content and shows in the room as the
last store at each offset. -/
lemma stores_spec {room : ℕ} (stores : List (ℕ × Bytes))
    (hin : ∀ st ∈ stores, st.1 + st.2.length ≤ room) (h : b.WF) (hroom : b.len + room ≤ b.cap)
    (seen : ℕ → Option UInt8) {m : Bytes} (hm : b.memory = some m)
    (hseen : ∀ i c, seen i = some c → m[b.len + i]? = some c) :
    ∃ b' m', stores.foldlM (fun (b : OutputBuffer) st => b.storeAt (b.len + st.1) st.2) b = some b' ∧
      b'.WF ∧ b'.len = b.len ∧ b'.cap = b.cap ∧ b'.alloc = b.alloc ∧ b'.memory = some m' ∧
      m'.take b.len = m.take b.len ∧
      ∀ i c, stores.foldl (fun acc st =>
        if st.1 ≤ i ∧ i < st.1 + st.2.length then st.2[i - st.1]? else acc) (seen i) = some c →
          m'[b.len + i]? = some c := by
  induction stores generalizing b seen m with
  | nil => exact ⟨b, m, rfl, h, rfl, rfl, rfl, hm, rfl, hseen⟩
  | cons st stores ih =>
      have hst := hin st (List.mem_cons_self ..)
      have hlen := h.len_le
      obtain ⟨m0, hm0, hcap⟩ := h.memory_eq
      obtain rfl : m0 = m := Option.some.inj (hm0.symm.trans hm)
      obtain ⟨b1, hb1, hwf1, hlen1, hcap1, ha1, hmem1⟩ :=
        @storeAt_spec _ h (b.len + st.1) st.2 (by omega)
      have hstep : ∀ i c, (if st.1 ≤ i ∧ i < st.1 + st.2.length then st.2[i - st.1]? else seen i) =
          some c → (Bytes.store m0 (b.len + st.1) st.2)[b1.len + i]? = some c := by
        intro i c hc
        rw [hlen1, Bytes.getElem?_store (by omega)]
        split at hc
        · rw [if_pos (by omega), show b.len + i - (b.len + st.1) = i - st.1 by omega]
          exact hc
        · rw [if_neg (by omega)]
          exact hseen i c hc
      obtain ⟨b2, m2, hb2, hwf2, hlen2, hcap2, ha2, hm2, htake, hlast⟩ :=
        ih (fun x hx => hin x (List.mem_cons_of_mem _ hx)) hwf1 (by omega)
          (fun i => if st.1 ≤ i ∧ i < st.1 + st.2.length then st.2[i - st.1]? else seen i)
          (by rw [hmem1, hm]; rfl) hstep
      refine ⟨b2, m2, ?_, hwf2, hlen2.trans hlen1, hcap2.trans hcap1, ha2.trans ha1, hm2, ?_, ?_⟩
      · rw [List.foldlM_cons, hb1]
        exact hb2
      · rw [hlen1] at htake
        rw [htake, Bytes.take_store_of_le (by omega) (by omega)]
      · rw [hlen1] at hlast
        exact hlast

/-- A prefix of a memory that is known byte by byte. -/
lemma take_add_eq_of_getElem? {m : Bytes} {k n : ℕ} {f : ℕ → UInt8}
    (h : ∀ i < n, m[k + i]? = some (f i)) : m.take (k + n) = m.take k ++ (List.range n).map f := by
  induction n with
  | zero => simp
  | succ n ih =>
      have hn := h n (Nat.lt_succ_self n)
      rw [← Nat.add_assoc, List.take_add_one, ih fun i hi => h i (by omega), hn, List.range_succ,
        List.map_append, List.append_assoc]
      rfl

/-- **One operation** of the code does to the content what it does to the byte list. -/
lemma runOp_spec (h : b.WF) (op : Op) (hv : op.Valid b.content) :
    ∃ b', b.runOp op = some b' ∧ b'.WF ∧ b'.content = op.apply b.content ∧
      b'.alloc = b.alloc := by
  cases op with
  | push c => exact push_spec h c
  | extend s => exact extendFromSlice_spec h s
  | truncate n =>
      rw [Op.Valid, length_content h] at hv
      obtain ⟨hwf, hc⟩ := setLen_spec h hv
      exact ⟨_, rfl, hwf, hc, rfl⟩
  | raw room stores n =>
      obtain ⟨hin, hn, hsome⟩ := hv
      obtain ⟨b1, h1, hwf1, hlen1, hc1, ha1, hcap1⟩ := reserve_spec h room
      obtain ⟨m1, hm1, hmcap1⟩ := hwf1.memory_eq
      obtain ⟨b2, m2, h2, hwf2, hlen2, hcap2, ha2, hm2, htake, hlast⟩ :=
        stores_spec stores hin hwf1 (by omega) (fun _ => none) hm1 (by simp)
      refine ⟨b2.setLen (b2.len + n), ?_, ⟨?_, hwf2.memory_eq, hwf2.ptr_eq, hwf2.released_iff,
        hwf2.obj_made, hwf2.released_nodup, hwf2.no_error⟩, ?_, ha2.trans ha1⟩
      · simp only [runOp, h1, h2, Option.bind_eq_bind, Option.bind_some]
      · show b2.len + n ≤ b2.cap
        omega
      · have hkept : ∀ i < n, m2[b1.len + i]? = some ((lastStore stores i).getD 0) := by
          intro i hi
          obtain ⟨c, hc⟩ := Option.isSome_iff_exists.mp (hsome i hi)
          rw [hc]
          exact hlast i c hc
        show (b2.memory.getD []).take (b2.len + n) = _
        rw [hm2, Option.getD_some, hlen2, take_add_eq_of_getElem? hkept, htake, Op.apply, ← hc1,
          content, hm1, Option.getD_some]

/-- **Every run** of operations does to the content what it does to the byte list. -/
lemma run_spec (ops : List Op) (h : b.WF) (hv : ValidFrom ops b.content) :
    ∃ b', b.run ops = some b' ∧ b'.WF ∧ b'.content = applyAll ops b.content ∧
      b'.alloc = b.alloc := by
  induction ops generalizing b with
  | nil => exact ⟨b, rfl, h, rfl, rfl⟩
  | cons op ops ih =>
      obtain ⟨b1, h1, hwf1, hc1, ha1⟩ := runOp_spec h op hv.1
      obtain ⟨b2, h2, hwf2, hc2, ha2⟩ := ih hwf1 (hc1 ▸ hv.2)
      refine ⟨b2, ?_, hwf2, hc2.trans (by rw [hc1]; rfl), ha2.trans ha1⟩
      rw [run, List.foldlM_cons, h1]
      exact h2

/-- The objects released once the result has been handed out: each made object once, except
the result itself. -/
def ReleasedOnce (f : Finished) : Prop :=
  f.released.Nodup ∧ ∀ i, i ∈ f.released ↔ i < f.made ∧ f.result.map PyBytes.id ≠ some i

/-- **`finish`** returns exactly the content, or null with a `MemoryError` when its own
allocation fails, and accounts for every `bytes` object. -/
lemma finish_spec (h : b.WF) :
    ∃ f, b.finish = some f ∧ ReleasedOnce f ∧
      (∀ o ∈ f.result, o.mem = b.content ∧ f.memoryError = false) ∧
      (f.result = none → f.memoryError = true ∧ b.alloc.bytesNew b.asked = false) := by
  have hpre := readPrefix_of_wf h
  have hlc := length_content h
  obtain ⟨hlen, ⟨m, hm, hcap⟩, hptr, hrel, hmade, hnd, herr⟩ := h
  simp only [finish, hpre, Option.bind_eq_bind, Option.bind_some]
  cases hobj : b.obj with
  | none =>
      rw [hobj] at hrel
      by_cases ha : b.alloc.bytesNew b.asked
      · simp only [ha, if_true]
        refine ⟨_, rfl, ⟨hnd, fun i => ?_⟩, ?_, by simp⟩
        · simp only [hrel, Option.map_none, Option.map_some, ne_eq, reduceCtorEq,
            not_false_eq_true, and_true, Option.some.injEq]
          omega
        · rintro o ho
          obtain rfl := Option.some.inj ho
          exact ⟨rfl, herr⟩
      · simp only [ha]
        exact ⟨_, rfl, ⟨hnd, hrel⟩, by simp, by simp⟩
  | some o =>
      have hid := hmade o hobj
      rw [hobj] at hrel hptr
      have hmem : m = o.mem := by
        rw [memory, hptr, hobj] at hm
        exact (Option.some.inj hm).symm
      simp only
      split
      · next heq =>
        refine ⟨_, rfl, ⟨hnd, hrel⟩, ?_, by simp⟩
        rintro o' ho'
        obtain rfl := Option.some.inj ho'
        refine ⟨?_, herr⟩
        rw [content, hm, Option.getD_some, hmem, List.take_of_length_le (by rw [← hmem]; omega)]
      · by_cases ha : b.alloc.bytesNew b.asked
        · simp only [ha, if_true]
          refine ⟨_, rfl, ⟨hnd, hrel⟩, ?_, by simp⟩
          rintro o' ho'
          obtain rfl := Option.some.inj ho'
          exact ⟨rfl, herr⟩
        · simp only [ha]
          have hnot : o.id ∉ b.released := fun hin => ((hrel _).mp hin).2 rfl
          refine ⟨_, rfl, ⟨List.nodup_cons.mpr ⟨hnot, hnd⟩, fun i => ?_⟩, by simp, by simp⟩
          simp only [List.mem_cons, hrel, Option.map_some, Option.map_none, ne_eq,
            Option.some.injEq, reduceCtorEq, not_false_eq_true, and_true]
          constructor
          · rintro (rfl | ⟨h1, -⟩)
            exacts [hid, h1]
          · intro hi
            by_cases he : i = o.id
            · exact Or.inl he
            · exact Or.inr ⟨hi, fun h => he h.symm⟩

/-- **`OutputBuffer` refines an append-only byte list.**  For every size hint, every allocator
and every sequence of operations, no step reads or writes outside its memory and no `reserve`
underflows (the run is not `none`), the length stays within the capacity, the content is the
byte list, and `finish` hands out exactly that list, or null with a `MemoryError` when its own
allocation fails, with every `bytes` object made on the way released exactly once. -/
theorem refines_byte_list (a : Allocator) (hint : ℕ) (b₀ : OutputBuffer)
    (hnew : new a hint = some b₀) (ops : List Op) (hv : ValidFrom ops []) :
    ∃ b, b₀.run ops = some b ∧ b.len ≤ b.cap ∧ b.content = applyAll ops [] ∧
      ∃ f, b.finish = some f ∧ ReleasedOnce f ∧
        (∀ o ∈ f.result, o.mem = applyAll ops [] ∧ f.memoryError = false) ∧
        (f.result = none → f.memoryError = true ∧ a.bytesNew b.asked = false) := by
  obtain ⟨hwf, hc, -, ha⟩ := wf_new hnew
  obtain ⟨b, hrun, hwf', hc', ha'⟩ := run_spec ops hwf (hc ▸ hv)
  rw [hc] at hc'
  obtain ⟨f, hf, hrel, hsome, hnone⟩ := finish_spec hwf'
  rw [hc'] at hsome
  rw [ha', ha] at hnone
  exact ⟨b, hrun, hwf'.len_le, hc', f, hf, hrel, hsome, hnone⟩

/-- An allocator that never serves a second `bytes` object. -/
def onlyFirst : Allocator := ⟨fun k => k == 0, fun _ _ => 0xaa, fun _ => 3⟩

/-- The same on a run that spills while it writes past the first capacity and is cut back
before and after. -/
theorem refines_byte_list_spilling :
    ∃ b₀ b, new onlyFirst 0 = some b₀ ∧
      b₀.run [.push 91, .extend (List.replicate 80 48), .truncate 3,
        .raw 40 [(0, [44, 49, 0]), (2, [93])] 3] = some b ∧
      b.content = [91, 48, 48, 44, 49, 93] :=
  have h := refines_byte_list onlyFirst 0 _ rfl
    [.push 91, .extend (List.replicate 80 48), .truncate 3,
      .raw 40 [(0, [44, 49, 0]), (2, [93])] 3]
    ⟨trivial, trivial, Nat.le_of_ble_eq_true rfl, ⟨by decide, by decide, by decide⟩, trivial⟩
  have ⟨b, hb⟩ := h
  ⟨_, b, rfl, hb.1, hb.2.2.1.trans (by decide)⟩

end OutputBuffer

end Isojson
