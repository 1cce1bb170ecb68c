import Isojson.Library.JsonText
import Isojson.Out
import Isojson.Swar

/-!
# `encode.rs`: string escaping

The two writers of a quoted string.  `write_escaped` copies a UTF-8 text in blocks up to the
next byte that needs an escape; `write_escaped_ucs` transcodes code units one by one.  Both
store through the raw pointer of the output buffer, at an offset `dst` that runs ahead of the
buffer's length, and top the room up only when they meet an escape.
-/

namespace Isojson

open Words

/-! ## The code -/

def hex : Bytes := Bytes.ascii "0123456789abcdef"

/-- `ESCAPE`: 0 for a byte that is copied through, else its escape letter, where `u` means the
`\u00XX` form. -/
def escapeEntry (b : UInt8) : UInt8 :=
  if b = 0x08 then 98
  else if b = 0x09 then 116
  else if b = 0x0A then 110
  else if b = 0x0C then 102
  else if b = 0x0D then 114
  else if b = 34 then 34
  else if b = 92 then 92
  else if b < 0x20 then 117
  else 0

/-- The target architectures that `copy_plain` tells apart. -/
inductive Arch
  | x86_64
  | aarch64
  | portable

/-- A lane of a vector comparison. -/
def lane (p : Prop) [Decidable p] : UInt8 := if p then 0xFF else 0

/-- `_mm_movemask_epi8`: the top bits of the lanes. -/
def movemask : Bytes → ℕ
  | [] => 0
  | b :: bs => (b >>> 7).toNat + 2 * movemask bs

/-- `vshrn_n_u16(_, 4)`: two lanes shifted right by four bits and cut to one byte. -/
def shrn4 : Bytes → Bytes
  | b0 :: b1 :: bs => UInt8.ofNat ((b0.toNat + 256 * b1.toNat) >>> 4) :: shrn4 bs
  | _ => []

/-- The first byte of a block to escape, as SSE2 finds it. -/
def firstHitSse2 (v : Bytes) : Option ℕ :=
  let hit := v.map fun b => lane (min b 0x1f = b) ||| (lane (b = 34) ||| lane (b = 92))
  let m := movemask hit
  if m ≠ 0 then some (trailingZeros 32 m) else none

/-- The first byte of a block to escape, as NEON finds it. -/
def firstHitNeon (v : Bytes) : Option ℕ :=
  let hit := v.map fun b => lane (b < 0x20) ||| (lane (b = 34) ||| lane (b = 92))
  let nib := wordOf (shrn4 hit)
  if nib ≠ 0 then some (trailingZeros 64 nib / 4) else none

/-- Where a copy stands: the source index, the offset behind the raw pointer, the buffer. -/
structure Cursor where
  i : ℕ
  dst : ℕ
  out : OutputBuffer

/-- The blocks of 16 bytes; `true` when one of them held the byte that ends the copy. -/
def copyBlocks (firstHit : Bytes → Option ℕ) (s : Bytes) (c : Cursor) : Option (Bool × Cursor) :=
  if c.i + 16 ≤ s.length then do
    let v := Bytes.block s c.i 16
    let out ← c.out.storeAt c.dst v
    match firstHit v with
    | some k => some (true, ⟨c.i + k, c.dst + k, out⟩)
    | none => copyBlocks firstHit s ⟨c.i + 16, c.dst + 16, out⟩
  else some (false, c)
termination_by s.length - c.i

/-- The words of 8 bytes. -/
def copyWords (s : Bytes) (c : Cursor) : Option Cursor :=
  if c.i + 8 ≤ s.length then do
    let w ← load s c.i
    if hasSpecial w then some c
    else
      let out ← c.out.storeAt c.dst (storeLe w)
      copyWords s ⟨c.i + 8, c.dst + 8, out⟩
  else some c
termination_by s.length - c.i

/-- The single bytes. -/
def copyBytes (s : Bytes) (c : Cursor) : Option Cursor :=
  if h : c.i < s.length then
    if escapeEntry s[c.i] = 0 then do
      let out ← c.out.storeAt c.dst [s[c.i]]
      copyBytes s ⟨c.i + 1, c.dst + 1, out⟩
    else some c
  else some c
termination_by s.length - c.i

/-- The part of `copy_plain` that is compiled for one architecture. -/
def copyVector (arch : Arch) (s : Bytes) (c : Cursor) : Option (Bool × Cursor) :=
  match arch with
  | .x86_64 => copyBlocks firstHitSse2 s c
  | .aarch64 => copyBlocks firstHitNeon s c
  | .portable => some (false, c)

def copyPlain (arch : Arch) (s : Bytes) (c : Cursor) : Option Cursor := do
  let (found, c) ← copyVector arch s c
  if found then some c
  else copyBytes s (← copyWords s c)

def putEscape (out : OutputBuffer) (dst : ℕ) (b e : UInt8) : Option (ℕ × OutputBuffer) :=
  if e = 117 then do
    let u := [92, 117, 48, 48, ← hex[(b >>> 4).toNat]?, ← hex[(b &&& 0xf).toNat]?]
    some (dst + 6, ← out.storeAt dst u)
  else do
    let out ← out.storeAt dst [92]
    some (dst + 2, ← out.storeAt (dst + 1) [e])

/-- The `while i < n` loop of `write_escaped`.  Each round takes at least one byte of `s`, so
the fuel given by `writeEscaped` outlasts it. -/
def escapeLoop (arch : Arch) (s : Bytes) : ℕ → Cursor → Option Cursor
  | 0, _ => none
  | fuel + 1, c =>
      if h : c.i < s.length then do
        let b := s[c.i]
        let (dst, out) ← putEscape c.out c.dst b (escapeEntry b)
        let out ← (out.setLen dst).reserve (s.length - (c.i + 1) + 6 + 1 + 16)
        escapeLoop arch s fuel (← copyPlain arch s ⟨c.i + 1, dst, out⟩)
      else some c

def writeEscaped (arch : Arch) (out : OutputBuffer) (s : Bytes) : Option OutputBuffer := do
  let n := s.length
  let out ← out.reserve (n + 2 + 16)
  let dst := out.len
  let out ← out.storeAt dst [34]
  let c ← copyPlain arch s ⟨0, dst + 1, out⟩
  let c ← escapeLoop arch s (n + 1) c
  let out ← c.out.storeAt c.dst [34]
  some (out.setLen (c.dst + 1))

/-- Single-byte stores at successive offsets. -/
def storeEach (out : OutputBuffer) (dst : ℕ) : Bytes → Option OutputBuffer
  | [] => some out
  | b :: bs => do storeEach (← out.storeAt dst [b]) (dst + 1) bs

section Ucs

variable {T : Type} (into : T → UInt32)

/-- The loop of `write_escaped_ucs` over the units left; `false` on a surrogate. -/
def ucsLoop (width : ℕ) : List T → ℕ → OutputBuffer → Option (Bool × ℕ × OutputBuffer)
  | [], dst, out => some (true, dst, out)
  | unit :: rest, dst, out =>
      let c := into unit
      if c < 0x80 then
        let e := escapeEntry c.toUInt8
        if e = 0 then do
          ucsLoop width rest (dst + 1) (← storeEach out dst [c.toUInt8])
        else do
          -- an escape takes up to 6 bytes, more than this unit's share
          let written := dst
          let out ← (out.setLen written).reserve ((rest.length + 1) * width + 6 + 1)
          let (dst, out) ← putEscape out written c.toUInt8 e
          ucsLoop width rest dst out
      else if c < 0x800 then do
        let out ← storeEach out dst [(0xC0 : UInt8) ||| (c >>> 6).toUInt8,
          (0x80 : UInt8) ||| (c &&& 0x3F).toUInt8]
        ucsLoop width rest (dst + 2) out
      else if c < 0x10000 then
        if 0xD800 ≤ c ∧ c ≤ 0xDFFF then some (false, dst, out)
        else do
          let out ← storeEach out dst [(0xE0 : UInt8) ||| (c >>> 12).toUInt8,
            (0x80 : UInt8) ||| ((c >>> 6) &&& 0x3F).toUInt8, (0x80 : UInt8) ||| (c &&& 0x3F).toUInt8]
          ucsLoop width rest (dst + 3) out
      else do
        let out ← storeEach out dst [(0xF0 : UInt8) ||| (c >>> 18).toUInt8,
          (0x80 : UInt8) ||| ((c >>> 12) &&& 0x3F).toUInt8,
          (0x80 : UInt8) ||| ((c >>> 6) &&& 0x3F).toUInt8, (0x80 : UInt8) ||| (c &&& 0x3F).toUInt8]
        ucsLoop width rest (dst + 4) out

/-- `size` is the size of a unit in bytes. -/
def writeEscapedUcs (size : ℕ) (out : OutputBuffer) (s : List T) : Option (Bool × OutputBuffer) := do
  let width := match size with
    | 1 => 2
    | 2 => 3
    | _ => 4
  let out ← out.reserve (s.length * width + 2)
  let dst := out.len
  let out ← out.storeAt dst [34]
  let (ok, dst, out) ← ucsLoop into width s (dst + 1) out
  if ok then
    let out ← out.storeAt dst [34]
    some (true, out.setLen (dst + 1))
  else some (false, out)

end Ucs

/-! ## Writing behind the length

`Pending a dst t out`: the memory of `out` starts with `t`, which ends at `dst`, wherever the
length stands. -/

structure OutputBuffer.Pending (a : Allocator) (dst : ℕ) (t : Bytes) (out : OutputBuffer) :
    Prop where
  wf : out.WF
  alloc_eq : out.alloc = a
  dst_le : dst ≤ out.cap
  written : (out.memory.getD []).take dst = t

namespace OutputBuffer

variable {a : Allocator} {dst : ℕ} {t : Bytes} {out : OutputBuffer}

lemma Pending.of_wf (h : out.WF) : out.Pending out.alloc out.len out.content :=
  ⟨h, rfl, h.len_le, rfl⟩

/-- A store at `dst` after which `dst` moves `k` bytes on, inside the stored block. -/
lemma Pending.storeAt (h : out.Pending a dst t) (bs : Bytes) (hcap : dst + bs.length ≤ out.cap)
    {k : ℕ} (hk : k ≤ bs.length) :
    ∃ out', out.storeAt dst bs = some out' ∧ out'.Pending a (dst + k) (t ++ bs.take k) ∧
      out'.cap = out.cap := by
  obtain ⟨m, hm, hlen⟩ := h.wf.memory_eq
  obtain ⟨out', hst, hwf, -, hcap', ha, hmem⟩ := storeAt_spec h.wf hcap
  refine ⟨out', hst, ⟨hwf, ha.trans h.alloc_eq, by omega, ?_⟩, hcap'⟩
  have hw := h.written
  rw [hm, Option.getD_some] at hw
  rw [hmem, hm, Option.map_some, Option.getD_some, Bytes.take_store_part (by omega) hk, hw]

lemma Pending.storeAt_all (h : out.Pending a dst t) (bs : Bytes)
    (hcap : dst + bs.length ≤ out.cap) :
    ∃ out', out.storeAt dst bs = some out' ∧ out'.Pending a (dst + bs.length) (t ++ bs) ∧
      out'.cap = out.cap := by
  simpa only [List.take_length] using h.storeAt bs hcap le_rfl

lemma Pending.storeEach (h : out.Pending a dst t) (bs : Bytes)
    (hcap : dst + bs.length ≤ out.cap) :
    ∃ out', storeEach out dst bs = some out' ∧ out'.Pending a (dst + bs.length) (t ++ bs) ∧
      out'.cap = out.cap := by
  induction bs generalizing out dst t with
  | nil => exact ⟨out, rfl, by simpa using h, rfl⟩
  | cons b bs ih =>
      rw [List.length_cons] at hcap
      obtain ⟨o1, h1, p1, c1⟩ := h.storeAt_all [b] (by simp only [List.length_singleton]; omega)
      obtain ⟨o2, h2, p2, c2⟩ := ih p1 (by simp only [List.length_singleton]; omega)
      refine ⟨o2, ?_, ?_, c2.trans c1⟩
      · rw [Isojson.storeEach, h1]
        exact h2
      · rw [List.length_cons, Nat.add_comm bs.length 1, ← Nat.add_assoc]
        simpa using p2

lemma Pending.isPrefix (h : out.Pending a dst t) : t <+: out.memory.getD [] := by
  rw [← h.written]
  exact List.take_prefix ..

/-- `set_len(dst)` makes the text before `dst` the content. -/
lemma Pending.setLen (h : out.Pending a dst t) :
    (out.setLen dst).WF ∧ (out.setLen dst).content = t ∧ (out.setLen dst).alloc = a :=
  ⟨⟨h.dst_le, h.wf.memory_eq, h.wf.ptr_eq, h.wf.released_iff, h.wf.obj_made, h.wf.released_nodup,
    h.wf.no_error⟩, h.written, h.alloc_eq⟩

/-- A top-up in mid-string keeps the text before `dst`. -/
lemma Pending.reserve (h : out.Pending a dst t) (n : ℕ) :
    ∃ out', (out.setLen dst).reserve n = some out' ∧ out'.Pending a dst t ∧
      dst + n ≤ out'.cap := by
  obtain ⟨hwf, hc, ha⟩ := h.setLen
  obtain ⟨out', hr, hwf', hlen, hc', ha', hcap⟩ := reserve_spec hwf n
  have hlen' : out'.len = dst := hlen
  have hp := Pending.of_wf hwf'
  rw [ha', ha, hlen', hc', hc] at hp
  exact ⟨out', hr, hp, hcap⟩

end OutputBuffer

/-! ## The tests on a byte and on a block -/

/-- A byte that is copied through. -/
def unescaped (b : UInt8) : Bool := escapeEntry b == 0

lemma unescaped_iff {b : UInt8} : unescaped b = true ↔ ¬ IsSpecial b := by
  rw [unescaped, beq_iff_eq, IsSpecial]
  unfold escapeEntry
  split_ifs with h1 h2 h3 h4 h5 h6 h7 h8
  iterate 7 subst b; decide
  · have := UInt8.lt_iff_toNat_lt.mp h8
    exact iff_of_false (by decide) (not_not.mpr (Or.inl this))
  · have : ¬ b.toNat < 0x20 := fun h => h8 (UInt8.lt_iff_toNat_lt.mpr h)
    simp only [true_iff, not_or]
    exact ⟨this, h6, h7⟩

/-- The mask of a block has the lanes that `hit` selects set. -/
lemma movemask_map {hit : UInt8 → UInt8} (h : ∀ b, hit b = if unescaped b then 0 else 0xFF) (v : Bytes) :
    movemask (v.map hit) = mask 1 (fun b => !unescaped b) v := by
  induction v with
  | nil => rfl
  | cons b v ih =>
      rw [List.map_cons, movemask, mask, ih, h]
      cases unescaped b <;> rfl

lemma wordOf_shrn4_map {hit : UInt8 → UInt8} (h : ∀ b, hit b = if unescaped b then 0 else 0xFF) :
    ∀ (n : ℕ) (v : Bytes), v.length = 2 * n →
      wordOf (shrn4 (v.map hit)) = mask 4 (fun b => !unescaped b) v
  | 0, [], _ => rfl
  | n + 1, b0 :: b1 :: v, hv => by
      have ih := wordOf_shrn4_map h n v (by simpa [Nat.mul_succ] using hv)
      simp only [List.map_cons, shrn4, wordOf, mask, ih, h]
      rcases Bool.eq_false_or_eq_true (unescaped b0) with h0 | h0 <;>
        rcases Bool.eq_false_or_eq_true (unescaped b1) with h1 | h1 <;>
        simp [h0, h1, Nat.shiftRight_eq_div_pow] <;> omega

lemma lane_sse2 (b : UInt8) :
    lane (min b 0x1f = b) ||| (lane (b = 34) ||| lane (b = 92)) = if unescaped b then 0 else 0xFF := by
  have hmin : min b 0x1f = b ↔ b.toNat < 0x20 := by
    have hle : b ≤ 0x1f ↔ b.toNat < 0x20 := by
      rw [UInt8.le_iff_toNat_le]
      exact Nat.lt_succ_iff.symm
    rw [← hle]
    show (if b ≤ 0x1f then b else 0x1f) = b ↔ _
    split_ifs with h
    · simp [h]
    · exact iff_of_false (fun he => h (he ▸ UInt8.le_refl _)) h
  have hp := unescaped_iff (b := b)
  unfold IsSpecial at hp
  unfold lane
  simp only [hmin]
  split_ifs <;> simp_all

lemma lane_neon (b : UInt8) :
    lane (b < 0x20) ||| (lane (b = 34) ||| lane (b = 92)) = if unescaped b then 0 else 0xFF := by
  have hlt : b < 0x20 ↔ b.toNat < 0x20 := UInt8.lt_iff_toNat_lt
  have hp := unescaped_iff (b := b)
  unfold IsSpecial at hp
  unfold lane
  simp only [hlt]
  split_ifs <;> simp_all

/-- What the vector tests compute: the first byte of the block to escape. -/
def FindsFirst (firstHit : Bytes → Option ℕ) : Prop :=
  ∀ v : Bytes, v.length = 16 →
    firstHit v = if v.all unescaped then none else some (v.takeWhile unescaped).length

lemma findIdx_not_unescaped (v : Bytes) : v.findIdx (fun b => !unescaped b) = (v.takeWhile unescaped).length := by
  induction v with
  | nil => rfl
  | cons b v ih =>
      rw [List.findIdx_cons, List.takeWhile_cons]
      cases hb : unescaped b
      · simp
      · simpa [hb] using ih

/-- A lane mask of the block gives the first byte to escape. -/
lemma first_of_mask {w : ℕ} (hw : 0 < w) (k : ℕ) (v : Bytes) :
    (if mask w (fun b => !unescaped b) v ≠ 0 then
      some (trailingZeros (k + w * v.length) (mask w (fun b => !unescaped b) v) / w) else none) =
      if v.all unescaped then none else some (v.takeWhile unescaped).length := by
  have hm := mask_ne_zero_iff hw (fun b => !unescaped b) v
  split
  · next hne =>
    obtain ⟨b, hb, hp⟩ := hm.mp hne
    rw [if_neg (by simpa using ⟨b, hb, by simpa using hp⟩), trailingZeros_mask hw _ _ _ hne,
      Nat.mul_div_cancel_left _ hw, findIdx_not_unescaped]
  · next heq =>
    rw [if_pos]
    rw [List.all_eq_true]
    intro b hb
    by_contra hp
    exact heq (hm.mpr ⟨b, hb, by simpa using hp⟩)

lemma findsFirst_sse2 : FindsFirst firstHitSse2 := by
  intro v hv
  have h := first_of_mask (w := 1) (by decide) 16 v
  simp only [hv, Nat.div_one] at h
  simp only [firstHitSse2, movemask_map lane_sse2]
  exact h

lemma findsFirst_neon : FindsFirst firstHitNeon := by
  intro v hv
  have h := first_of_mask (w := 4) (by decide) 0 v
  simp only [hv, Nat.zero_add] at h
  simp only [firstHitNeon, wordOf_shrn4_map lane_neon 8 v hv]
  exact h

/-! ## `copy_plain`

A copy advances over bytes that are all unescaped; at its end the byte under it, if there is one,
is not. -/

/-- The copy went from `c` to `c'` over the bytes `bs`, and `t ++ bs` stands before it. -/
structure Copied (a : Allocator) (s t : Bytes) (c c' : Cursor) (bs : Bytes) : Prop where
  source : s.drop c.i = bs ++ s.drop c'.i
  unescaped : ∀ b ∈ bs, unescaped b = true
  i_eq : c'.i = c.i + bs.length
  dst_eq : c'.dst = c.dst + bs.length
  pending : c'.out.Pending a c'.dst (t ++ bs)
  cap_eq : c'.out.cap = c.out.cap

/-- Nothing more to copy at `c`. -/
def Stopped (s : Bytes) (c : Cursor) : Prop := (s.drop c.i).takeWhile unescaped = []

variable {a : Allocator} {s t : Bytes} {c c₁ c₂ : Cursor}

lemma Copied.refl (hp : c.out.Pending a c.dst t) : Copied a s t c c [] :=
  ⟨rfl, by simp, rfl, rfl, by simpa using hp, rfl⟩

lemma Copied.trans {bs bs' : Bytes} (h : Copied a s t c c₁ bs)
    (h' : Copied a s (t ++ bs) c₁ c₂ bs') : Copied a s t c c₂ (bs ++ bs') where
  source := by rw [h.source, h'.source, List.append_assoc]
  unescaped := by
    intro b hb
    rcases List.mem_append.mp hb with hb | hb
    exacts [h.unescaped b hb, h'.unescaped b hb]
  i_eq := by rw [h'.i_eq, h.i_eq, List.length_append, Nat.add_assoc]
  dst_eq := by rw [h'.dst_eq, h.dst_eq, List.length_append, Nat.add_assoc]
  pending := by rw [← List.append_assoc]; exact h'.pending
  cap_eq := h'.cap_eq.trans h.cap_eq

/-- The room for the rest of the source is kept. -/
lemma Copied.room {bs : Bytes} (h : Copied a s t c c₁ bs) {k : ℕ}
    (hroom : c.dst + (s.length - c.i) + k ≤ c.out.cap) :
    c₁.dst + (s.length - c₁.i) + k ≤ c₁.out.cap := by
  have hl := congrArg List.length h.source
  have := h.i_eq
  have := h.dst_eq
  have := h.cap_eq
  rw [List.length_append, List.length_drop, List.length_drop] at hl
  omega

/-- A copy that stopped has taken exactly the unescaped bytes. -/
lemma Copied.eq_takeWhile {bs : Bytes} (h : Copied a s t c c₁ bs) (hstop : Stopped s c₁) :
    bs = (s.drop c.i).takeWhile Isojson.unescaped := by
  rw [h.source, List.takeWhile_append_of_pos h.unescaped, hstop, List.append_nil]

/-- A copy of all the unescaped bytes has stopped. -/
lemma Copied.stopped (h : Copied a s t c c₁ ((s.drop c.i).takeWhile Isojson.unescaped)) :
    Stopped s c₁ := by
  have hlen := congrArg (fun l => (l.takeWhile Isojson.unescaped).length) h.source
  simp only [List.takeWhile_append_of_pos h.unescaped, List.length_append] at hlen
  exact List.length_eq_zero_iff.mp (by omega)

/-- A store of a block of the source whose first `k` bytes are unescaped. -/
lemma Copied.store (hp : c.out.Pending a c.dst t) {k n : ℕ} (hn : c.i + n ≤ s.length) (hk : k ≤ n)
    (hroom : c.dst + (s.length - c.i) ≤ c.out.cap)
    (hun : ∀ b ∈ (Bytes.block s c.i n).take k, Isojson.unescaped b = true) :
    ∃ out, c.out.storeAt c.dst (Bytes.block s c.i n) = some out ∧
      Copied a s t c ⟨c.i + k, c.dst + k, out⟩ ((Bytes.block s c.i n).take k) := by
  have hlen : (Bytes.block s c.i n).length = n := by
    simp only [Bytes.block, List.length_take, List.length_drop]
    omega
  have hlen' : ((Bytes.block s c.i n).take k).length = k := by
    rw [List.length_take, hlen, min_eq_left hk]
  obtain ⟨out, hst, hp', hcap⟩ := hp.storeAt (Bytes.block s c.i n) (by omega)
    (k := k) (by omega)
  refine ⟨out, hst, ⟨?_, hun, by rw [hlen'], by rw [hlen'], hp', hcap⟩⟩
  rw [Bytes.block, List.take_take, min_eq_left hk, ← List.drop_drop, List.take_append_drop]

/-- Behind its unescaped prefix, a block that is not all unescaped stops the copy. -/
lemma stopped_of_prefix (v w : Bytes) (hv : ¬ v.all unescaped) :
    (((v ++ w).drop (v.takeWhile unescaped).length).takeWhile unescaped) = [] := by
  induction v with
  | nil => simp at hv
  | cons b v ih =>
      rw [List.takeWhile_cons]
      by_cases hb : unescaped b = true
      · simp only [List.all_cons, hb, Bool.true_and] at hv
        simpa [hb] using ih hv
      · simp [hb]

lemma copyBlocks_spec {firstHit : Bytes → Option ℕ} (hf : FindsFirst firstHit)
    (hp : c.out.Pending a c.dst t) (hroom : c.dst + (s.length - c.i) ≤ c.out.cap) :
    ∃ found c' bs, copyBlocks firstHit s c = some (found, c') ∧ Copied a s t c c' bs ∧
      (found = true → Stopped s c') := by
  induction hk : s.length - c.i using Nat.strong_induction_on generalizing c t with
  | _ k ih =>
      rw [copyBlocks]
      split
      · next hle =>
        have hlen : (Bytes.block s c.i 16).length = 16 := by
          simp only [Bytes.block, List.length_take, List.length_drop]
          omega
        have hhit := hf _ hlen
        have hall_take : (Bytes.block s c.i 16).take 16 = Bytes.block s c.i 16 :=
          List.take_of_length_le (by omega)
        by_cases hall : (Bytes.block s c.i 16).all unescaped
        · rw [if_pos hall] at hhit
          obtain ⟨out, hst, hc⟩ := Copied.store hp hle le_rfl hroom
            (by rw [hall_take]; exact List.all_eq_true.mp hall)
          obtain ⟨found, c', bs, hrec, hc', hstop⟩ := ih _ (by simp only; omega) hc.pending
            (hc.room (k := 0) hroom) rfl
          refine ⟨found, c', _, ?_, hc.trans hc', hstop⟩
          simp only [hst, hhit, Option.bind_eq_bind, Option.bind_some]
          exact hrec
        · rw [if_neg hall] at hhit
          have hle' : ((Bytes.block s c.i 16).takeWhile unescaped).length ≤ 16 :=
            (List.takeWhile_sublist _).length_le.trans hlen.le
          have htake : (Bytes.block s c.i 16).take ((Bytes.block s c.i 16).takeWhile unescaped).length =
              (Bytes.block s c.i 16).takeWhile unescaped :=
            (List.prefix_iff_eq_take.mp (List.takeWhile_prefix _)).symm
          obtain ⟨out, hst, hc⟩ := Copied.store hp hle hle' hroom
            (by rw [htake]; exact fun b hb => List.mem_takeWhile_imp hb)
          refine ⟨true, _, _, ?_, hc, fun _ => ?_⟩
          · simp only [hst, hhit, Option.bind_eq_bind, Option.bind_some]
          · have hstop := stopped_of_prefix (Bytes.block s c.i 16) ((s.drop c.i).drop 16) hall
            rwa [Bytes.block, List.take_append_drop, List.drop_drop, ← Bytes.block] at hstop
      · exact ⟨false, c, [], rfl, Copied.refl hp, by simp⟩

lemma copyWords_spec (hp : c.out.Pending a c.dst t)
    (hroom : c.dst + (s.length - c.i) ≤ c.out.cap) :
    ∃ c' bs, copyWords s c = some c' ∧ Copied a s t c c' bs := by
  induction hk : s.length - c.i using Nat.strong_induction_on generalizing c t with
  | _ k ih =>
      rw [copyWords]
      split
      · next hle =>
        have hlen : (Bytes.block s c.i 8).length = 8 := by
          simp only [Bytes.block, List.length_take, List.length_drop]
          omega
        have hload : load s c.i = some (UInt64.ofNat (wordOf (Bytes.block s c.i 8))) := if_pos hle
        have hspecial := hasSpecial_wordOf hlen
        simp only [hload, Option.bind_eq_bind, Option.bind_some]
        split
        · exact ⟨c, [], rfl, Copied.refl hp⟩
        · next hnone =>
          have hun : ∀ b ∈ Bytes.block s c.i 8, unescaped b = true := by
            intro b hb
            rw [unescaped_iff]
            exact fun hs => hnone (hspecial.mpr ⟨b, hb, hs⟩)
          obtain ⟨out, hst, hc⟩ := Copied.store hp hle le_rfl hroom
            fun b hb => hun b (List.mem_of_mem_take hb)
          obtain ⟨c', bs, hrec, hc'⟩ := ih _ (by simp only; omega) hc.pending
            (hc.room (k := 0) hroom) rfl
          refine ⟨c', _, ?_, hc.trans hc'⟩
          rw [storeLe_wordOf hlen, hst]
          exact hrec
      · exact ⟨c, [], rfl, Copied.refl hp⟩

lemma copyBytes_spec (hp : c.out.Pending a c.dst t)
    (hroom : c.dst + (s.length - c.i) ≤ c.out.cap) :
    ∃ c' bs, copyBytes s c = some c' ∧ Copied a s t c c' bs ∧ Stopped s c' := by
  induction hk : s.length - c.i using Nat.strong_induction_on generalizing c t with
  | _ k ih =>
      rw [copyBytes]
      split
      · next hlt =>
        have hdrop : s.drop c.i = s[c.i] :: s.drop (c.i + 1) := List.drop_eq_getElem_cons hlt
        have hblock : Bytes.block s c.i 1 = [s[c.i]] := by rw [Bytes.block, hdrop]; rfl
        split
        · next hzero =>
          obtain ⟨out, hst, hc⟩ := Copied.store hp hlt le_rfl hroom
            (by rw [hblock]; simpa [unescaped] using hzero)
          obtain ⟨c', bs, hrec, hc', hstop⟩ := ih _ (by simp only; omega) hc.pending
            (hc.room (k := 0) hroom) rfl
          refine ⟨c', _, ?_, hc.trans hc', hstop⟩
          rw [← hblock, hst]
          exact hrec
        · next hne =>
          refine ⟨c, [], rfl, Copied.refl hp, ?_⟩
          rw [Stopped, hdrop, List.takeWhile_cons, if_neg (by simpa [unescaped] using hne)]
      · next hge =>
        refine ⟨c, [], rfl, Copied.refl hp, ?_⟩
        rw [Stopped, List.drop_eq_nil_of_le (by omega)]
        rfl

lemma copyVector_spec (arch : Arch) (hp : c.out.Pending a c.dst t)
    (hroom : c.dst + (s.length - c.i) ≤ c.out.cap) :
    ∃ found c' bs, copyVector arch s c = some (found, c') ∧ Copied a s t c c' bs ∧
      (found = true → Stopped s c') := by
  cases arch with
  | x86_64 => exact copyBlocks_spec findsFirst_sse2 hp hroom
  | aarch64 => exact copyBlocks_spec findsFirst_neon hp hroom
  | portable => exact ⟨false, c, [], rfl, Copied.refl hp, by simp⟩

/-- **`copy_plain`**, on every architecture, copies exactly the bytes up to the next one that
needs an escape. -/
lemma copyPlain_spec (arch : Arch) (hp : c.out.Pending a c.dst t)
    (hroom : c.dst + (s.length - c.i) ≤ c.out.cap) :
    ∃ c', copyPlain arch s c = some c' ∧
      Copied a s t c c' ((s.drop c.i).takeWhile unescaped) := by
  obtain ⟨found, c1, bs1, h1, hc1, hstop1⟩ := copyVector_spec arch hp hroom
  simp only [copyPlain, h1, Option.bind_eq_bind, Option.bind_some]
  cases found with
  | true =>
      rw [← hc1.eq_takeWhile (hstop1 rfl)]
      exact ⟨c1, rfl, hc1⟩
  | false =>
      obtain ⟨c2, bs2, h2, hc2⟩ := copyWords_spec hc1.pending (hc1.room (k := 0) hroom)
      obtain ⟨c3, bs3, h3, hc3, hstop3⟩ :=
        copyBytes_spec hc2.pending (hc2.room (k := 0) (hc1.room (k := 0) hroom))
      have hc := (hc1.trans hc2).trans (by rw [List.append_assoc] at hc3; exact hc3)
      rw [← hc.eq_takeWhile hstop3]
      refine ⟨c3, ?_, hc⟩
      simp only [Bool.false_eq_true, if_false, h2, Option.bind_some, h3]

/-- The bytes a copy went over are the block of the source there. -/
lemma Copied.eq_block {bs : Bytes} (h : Copied a s t c c₁ bs) :
    bs = Bytes.block s c.i (c₁.i - c.i) := by
  rw [Bytes.block, h.source, h.i_eq, Nat.add_sub_cancel_left, List.take_left]

/-- None of them has to be escaped. -/
lemma Copied.unescaped_getElem {bs : Bytes} (h : Copied a s t c c₁ bs) {k : ℕ} (hk : k < s.length)
    (hlo : c.i ≤ k) (hhi : k < c₁.i) : escapeEntry s[k] = 0 := by
  have hmem : s[k] ∈ bs := by
    have hi := h.i_eq
    have hget : (s.drop c.i)[k - c.i]? = some s[k] := by
      rw [List.getElem?_drop, Nat.add_sub_cancel' hlo, List.getElem?_eq_getElem hk]
    rw [h.source, List.getElem?_append_left (by omega)] at hget
    exact List.mem_of_getElem? hget
  simpa [Isojson.unescaped] using h.unescaped _ hmem

/-- A copy that stopped is at the end, or in front of a byte to escape. -/
lemma Stopped.end_or_escape (h : Stopped s c) (hi : c.i ≤ s.length) :
    c.i = s.length ∨ ∃ hlt : c.i < s.length, escapeEntry s[c.i] ≠ 0 := by
  rcases hi.eq_or_lt with heq | hlt
  · exact Or.inl heq
  · refine Or.inr ⟨hlt, fun hzero => ?_⟩
    rw [Stopped, List.drop_eq_getElem_cons hlt,
      List.takeWhile_cons_of_pos (by simpa [unescaped] using hzero)] at h
    exact List.cons_ne_nil _ _ h

/-- **`copy_plain` stops at the first byte to escape.**  Whatever part of it is compiled, from any
index of any text and with room for the rest of the text at the pointer, it comes to the least index
from which on nothing is left or a byte has an entry in `ESCAPE`.  The pointer has moved over exactly
the bytes up to there, which hold what the text has there, behind what stood there before; and so it
does where the bytes are copied one by one. -/
theorem copyPlain_first_escape (arch : Arch) (s : Bytes) (c : Cursor) (hi : c.i ≤ s.length)
    (hwf : c.out.WF) (hroom : c.dst + (s.length - c.i) ≤ c.out.cap) :
    ∃ c', copyPlain arch s c = some c' ∧ c.i ≤ c'.i ∧
      (∀ k (hk : k < s.length), c.i ≤ k → k < c'.i → escapeEntry s[k] = 0) ∧
      (c'.i = s.length ∨ ∃ hlt : c'.i < s.length, escapeEntry s[c'.i] ≠ 0) ∧
      c'.dst = c.dst + (c'.i - c.i) ∧
      (c'.out.memory.getD []).take c'.dst =
        (c.out.memory.getD []).take c.dst ++ Bytes.block s c.i (c'.i - c.i) ∧
      ∃ c'', copyBytes s c = some c'' ∧ c''.i = c'.i ∧ c''.dst = c'.dst ∧
        (c''.out.memory.getD []).take c''.dst = (c'.out.memory.getD []).take c'.dst := by
  have hp : c.out.Pending c.out.alloc c.dst ((c.out.memory.getD []).take c.dst) :=
    ⟨hwf, rfl, by omega, rfl⟩
  obtain ⟨c', hrun, hc'⟩ := copyPlain_spec arch (s := s) hp hroom
  obtain ⟨c'', bs, hbytes, hc'', hstop⟩ := copyBytes_spec (s := s) hp hroom
  rw [hc''.eq_takeWhile hstop] at hc''
  have hi' := hc'.i_eq
  have hdst := hc'.dst_eq
  have hle : c'.i ≤ s.length := by
    have hlen := congrArg List.length hc'.source
    rw [List.length_append, List.length_drop, List.length_drop] at hlen
    omega
  refine ⟨c', hrun, by omega, fun k hk => hc'.unescaped_getElem hk, hc'.stopped.end_or_escape hle,
    by omega, ?_, c'', hbytes, ?_, ?_, ?_⟩
  · rw [hc'.pending.written, ← hc'.eq_block]
  · rw [hc''.i_eq, hi']
  · rw [hc''.dst_eq, hdst]
  · rw [hc''.pending.written, hc'.pending.written]

/-- Nineteen bytes and a quote. -/
def quoteAt19 : Bytes := Bytes.ascii "0123456789abcdefghi\""

/-- From index 1, a block of 16 bytes and two single ones are copied. -/
theorem copyPlain_first_escape_quote :
    ∃ out c', OutputBuffer.new OutputBuffer.onlyFirst 0 = some out ∧
      copyPlain .x86_64 quoteAt19 ⟨1, 0, out⟩ = some c' ∧ c'.i = 19 ∧ c'.dst = 18 := by
  obtain ⟨hwf, -, -, -⟩ := @OutputBuffer.wf_new _ OutputBuffer.onlyFirst 0 rfl
  have honly : ∀ k (hk : k < quoteAt19.length), escapeEntry quoteAt19[k] ≠ 0 → k = 19 := by decide
  obtain ⟨c', hrun, -, hplain, hstop, hdst, -⟩ :=
    copyPlain_first_escape .x86_64 quoteAt19 ⟨1, 0, _⟩ (by decide) hwf (by decide)
  have hi : c'.i = 19 := by
    rcases hstop with hend | ⟨hlt, hescape⟩
    · exact absurd (hplain 19 (by decide) (by decide) (by rw [hend]; decide)) (by decide)
    · exact honly _ hlt hescape
  exact ⟨_, c', rfl, hrun, hi, hdst.trans (congrArg (fun i => 0 + (i - 1)) hi)⟩

/-! ## `put_escape` and `write_escaped` -/

/-- What `write_escaped` writes for one byte of a UTF-8 text. -/
def byteText (b : UInt8) : Bytes := if unescaped b then [b] else Json.charText b.toNat

lemma hex_getElem? : ∀ n < 16, hex[n]? = some (Json.hexDigit n) := by decide

lemma escapeEntry_cases {b : UInt8} (hb : unescaped b = false) :
    (escapeEntry b = 117 ∧ Json.charText b.toNat =
      [92, 117, 48, 48, Json.hexDigit (b.toNat / 16), Json.hexDigit (b.toNat % 16)]) ∨
    (escapeEntry b ≠ 117 ∧ Json.charText b.toNat = [92, escapeEntry b]) := by
  have hne : escapeEntry b ≠ 0 := by simpa [unescaped] using hb
  unfold escapeEntry at hne ⊢
  split_ifs at hne ⊢ with h1 h2 h3 h4 h5 h6 h7 h8
  iterate 7 subst b; exact Or.inr (by decide)
  · refine Or.inl ⟨rfl, ?_⟩
    have hlt : b.toNat < 0x20 := UInt8.lt_iff_toNat_lt.mp h8
    have hcode : ∀ n < 256, b ≠ UInt8.ofNat n → b.toNat ≠ n := by
      intro n hn h he
      exact h (by rw [← he, UInt8.ofNat_toNat])
    have hs : Json.shortEscape b.toNat = none := by
      unfold Json.shortEscape
      rw [if_neg (hcode 0x22 (by decide) h6), if_neg (hcode 0x5C (by decide) h7),
        if_neg (hcode 0x08 (by decide) h1), if_neg (hcode 0x09 (by decide) h2),
        if_neg (hcode 0x0A (by decide) h3), if_neg (hcode 0x0C (by decide) h4),
        if_neg (hcode 0x0D (by decide) h5)]
    simp only [Json.charText, hs]
    rw [if_pos hlt]
  · exact absurd rfl hne

lemma putEscape_spec {out : OutputBuffer} {dst : ℕ} (hp : out.Pending a dst t) {b : UInt8}
    (hb : unescaped b = false) (hroom : dst + 6 ≤ out.cap) :
    ∃ dst' out', putEscape out dst b (escapeEntry b) = some (dst', out') ∧ dst' ≤ dst + 6 ∧
      out'.Pending a dst' (t ++ Json.charText b.toNat) ∧ out'.cap = out.cap := by
  rw [putEscape]
  rcases escapeEntry_cases hb with ⟨he, ht⟩ | ⟨he, ht⟩
  · have hlo : (b &&& 0xf).toNat = b.toNat % 16 := by
      rw [UInt8.toNat_and]
      exact Nat.and_two_pow_sub_one_eq_mod b.toNat 4
    have hhi : (b >>> 4).toNat = b.toNat / 16 := by
      rw [UInt8.toNat_shiftRight]
      exact Nat.shiftRight_eq_div_pow b.toNat 4
    have hlt := b.toNat_lt
    rw [if_pos he, hlo, hhi, hex_getElem? _ (by omega), hex_getElem? _ (by omega), ht]
    obtain ⟨out', hst, hp', hcap⟩ := hp.storeAt_all ([92, 117, 48, 48,
      Json.hexDigit (b.toNat / 16), Json.hexDigit (b.toNat % 16)]) hroom
    simp only [Option.bind_eq_bind, Option.bind_some, hst]
    exact ⟨_, _, rfl, le_rfl, hp', hcap⟩
  · rw [if_neg he, ht]
    obtain ⟨o1, h1, p1, c1⟩ := hp.storeAt_all [92] (by simp only [List.length_singleton]; omega)
    obtain ⟨o2, h2, p2, c2⟩ := p1.storeAt_all [escapeEntry b]
      (by simp only [List.length_singleton]; omega)
    simp only [List.length_singleton] at h2
    simp only [Option.bind_eq_bind, Option.bind_some, h1, h2]
    refine ⟨_, _, rfl, by omega, ?_, c2.trans c1⟩
    simpa using p2

lemma flatMap_byteText_of_unescaped {bs : Bytes} (h : ∀ b ∈ bs, unescaped b = true) :
    bs.flatMap byteText = bs := by
  induction bs with
  | nil => rfl
  | cons b bs ih =>
      rw [List.flatMap_cons, byteText, if_pos (h b (List.mem_cons_self ..)),
        ih fun x hx => h x (List.mem_cons_of_mem _ hx)]
      rfl

lemma Copied.flatMap_byteText {bs : Bytes} (h : Copied a s t c c₁ bs) :
    (s.drop c.i).flatMap byteText = bs ++ (s.drop c₁.i).flatMap byteText := by
  rw [h.source, List.flatMap_append, flatMap_byteText_of_unescaped h.unescaped]

/-- The loop of `write_escaped`.  Whenever the copy has stopped there is room for the rest of
the text, one escape and the closing quote. -/
lemma escapeLoop_spec (arch : Arch) (fuel : ℕ) (hfuel : s.length - c.i < fuel)
    (hp : c.out.Pending a c.dst t) (hstop : Stopped s c)
    (hroom : c.dst + (s.length - c.i) + 7 ≤ c.out.cap) :
    ∃ c', escapeLoop arch s fuel c = some c' ∧
      c'.out.Pending a c'.dst (t ++ (s.drop c.i).flatMap byteText) ∧ c'.dst + 1 ≤ c'.out.cap := by
  induction fuel generalizing c t with
  | zero => omega
  | succ fuel ih =>
      rw [escapeLoop]
      split
      · next hlt =>
        have hdrop : s.drop c.i = s[c.i] :: s.drop (c.i + 1) := List.drop_eq_getElem_cons hlt
        have hb : unescaped s[c.i] = false := by
          rw [Stopped, hdrop, List.takeWhile_cons] at hstop
          by_contra hne
          rw [if_pos (by simpa using hne)] at hstop
          exact List.cons_ne_nil _ _ hstop
        obtain ⟨dst, o1, h1, hd1, p1, -⟩ := putEscape_spec hp hb (by omega)
        obtain ⟨o2, h2, p2, hcap2⟩ := p1.reserve (s.length - (c.i + 1) + 6 + 1 + 16)
        obtain ⟨c3, h3, hc3⟩ := copyPlain_spec (c := ⟨c.i + 1, dst, o2⟩) (s := s) arch p2
          (by simp only; omega)
        obtain ⟨c4, h4, p4, hcap4⟩ := ih (c := c3) (by have := hc3.i_eq; simp only at this; omega)
          hc3.pending hc3.stopped (hc3.room (k := 7) (by simp only; omega))
        refine ⟨c4, ?_, ?_, hcap4⟩
        · simp only [h1, h2, h3, Option.bind_eq_bind, Option.bind_some]
          exact h4
        · rw [hdrop, List.flatMap_cons, byteText, if_neg (by simp [hb]), hc3.flatMap_byteText]
          simpa only [List.append_assoc] using p4
      · next hge =>
        refine ⟨c, rfl, ?_, by omega⟩
        rw [List.drop_eq_nil_of_le (by omega)]
        simpa using hp

/-- **`write_escaped`** appends the quoted text, byte by byte. -/
lemma writeEscaped_spec (arch : Arch) {out : OutputBuffer} (h : out.WF) (s : Bytes) :
    ∃ out', writeEscaped arch out s = some out' ∧ out'.WF ∧ out'.alloc = out.alloc ∧
      out'.content = out.content ++ [34] ++ s.flatMap byteText ++ [34] := by
  obtain ⟨o1, h1, hwf1, hlen1, hc1, ha1, hcap1⟩ := OutputBuffer.reserve_spec h (s.length + 2 + 16)
  obtain ⟨o2, h2, p2, hcap2⟩ := (OutputBuffer.Pending.of_wf hwf1).storeAt_all [34]
    (by simp only [List.length_singleton]; omega)
  simp only [List.length_singleton] at p2
  obtain ⟨c3, h3, hc3⟩ := copyPlain_spec (c := ⟨0, o1.len + 1, o2⟩) (s := s) arch p2
    (by simp only; omega)
  obtain ⟨c4, h4, p4, hcap4⟩ := escapeLoop_spec arch (s.length + 1) (by omega) hc3.pending
    hc3.stopped (hc3.room (k := 7) (by simp only; omega))
  rw [List.append_assoc, ← hc3.flatMap_byteText] at p4
  obtain ⟨o5, h5, p5, -⟩ := p4.storeAt_all [34] hcap4
  obtain ⟨hwf, hcont, halloc⟩ := p5.setLen
  refine ⟨_, ?_, hwf, halloc.trans ha1, hcont.trans ?_⟩
  · simp only [writeEscaped, h1, h2, h3, h4, h5, Option.bind_eq_bind, Option.bind_some]
    rfl
  · rw [hc1]
    rfl

/-- Over a UTF-8 text, byte by byte is code point by code point. -/
lemma flatMap_byteText_encodeAll {cs : List ℕ} (h : ∀ c ∈ cs, c < 0x110000) :
    (Utf8.encodeAll cs).flatMap byteText = cs.flatMap Json.charText := by
  rw [Utf8.encodeAll, List.flatMap_assoc]
  refine List.flatMap_congr fun c hc => ?_
  rcases Nat.lt_or_ge c 0x80 with hlt | hge
  · have hb : (UInt8.ofNat c).toNat = c := Utf8.ofNat_toNat_of_lt (by omega)
    rw [Utf8.encode, if_pos hlt, List.flatMap_singleton, byteText, hb]
    split
    · next hun =>
      have hs := unescaped_iff.mp hun
      have hcode : c ≠ 34 ∧ c ≠ 92 ∧ ¬ c < 0x20 := by
        refine ⟨?_, ?_, ?_⟩
        · rintro rfl
          exact hs (by decide)
        · rintro rfl
          exact hs (by decide)
        · exact fun hc => hs (Or.inl (by rw [hb]; exact hc))
      have hnone : Json.shortEscape c = none := by
        unfold Json.shortEscape
        split_ifs <;> first | omega | rfl
      simp only [Json.charText, hnone]
      rw [if_neg hcode.2.2, Utf8.encode, if_pos hlt]
    · rfl
  · rw [Json.charText_of_ge hge]
    refine flatMap_byteText_of_unescaped fun b hb => unescaped_iff.mpr ?_
    have := Utf8.encode_high hge (h c hc) b hb
    rintro (hb | rfl | rfl)
    · omega
    · exact absurd this (by decide)
    · exact absurd this (by decide)

/-! ## `write_escaped_ucs` -/

/-- Bits put below a marker add up. -/
lemma or_toUInt8 {m n : ℕ} {base : UInt8} {x : UInt32} (hbase : base.toNat = 2 ^ n * m)
    (hx : x.toNat < 2 ^ n) (hsum : base.toNat + x.toNat < 256) :
    base ||| x.toUInt8 = UInt8.ofNat (base.toNat + x.toNat) := by
  rw [← UInt8.toNat_inj, UInt8.toNat_or, UInt32.toNat_toUInt8, Nat.mod_eq_of_lt (by omega),
    Utf8.ofNat_toNat_of_lt hsum, hbase, Nat.two_pow_add_eq_or_of_lt hx]

lemma toNat_shiftRight_of_lt (c : UInt32) {k : ℕ} (hk : k < 32) :
    (c >>> UInt32.ofNat k).toNat = c.toNat / 2 ^ k := by
  rw [UInt32.toNat_shiftRight, UInt32.toNat_ofNat', Nat.shiftRight_eq_div_pow]
  congr 2
  omega

lemma toNat_and_3F (c : UInt32) : (c &&& 0x3F).toNat = c.toNat % 64 := by
  rw [UInt32.toNat_and]
  exact Nat.and_two_pow_sub_one_eq_mod c.toNat 6

/-- A continuation byte. -/
lemma or_tail (c : UInt32) : (0x80 : UInt8) ||| (c &&& 0x3F).toUInt8 = Utf8.tail c.toNat := by
  have h := toNat_and_3F c
  rw [or_toUInt8 (n := 6) (m := 2) rfl (by omega) (by rw [h]; change 128 + _ < 256; omega), h]
  rfl

lemma isSurrogate_toNat (c : UInt32) :
    (0xD800 ≤ c ∧ c ≤ 0xDFFF) ↔ Utf8.IsSurrogate c.toNat := by
  rw [UInt32.le_iff_toNat_le, UInt32.le_iff_toNat_le]
  rfl

variable {T : Type} {into : T → UInt32}

/-- **One unit** that is not a surrogate: its text is written, and the room for the units left
and the closing quote stays. -/
lemma ucsLoop_cons {width dst : ℕ} {unit : T} {rest : List T} {out : OutputBuffer}
    (hp : out.Pending a dst t) (hroom : dst + (rest.length + 1) * width + 1 ≤ out.cap)
    (hc : (into unit).toNat < 0x110000)
    (hwidth : (Utf8.encode (into unit).toNat).length ≤ width)
    (hs : ¬ Utf8.IsSurrogate (into unit).toNat) :
    ∃ dst' out', ucsLoop into width (unit :: rest) dst out = ucsLoop into width rest dst' out' ∧
      out'.Pending a dst' (t ++ Json.charText (into unit).toNat) ∧
      dst' + rest.length * width + 1 ≤ out'.cap := by
  rw [Nat.succ_mul] at hroom
  rw [ucsLoop]
  obtain ⟨c, hce⟩ : ∃ c, c = into unit := ⟨_, rfl⟩
  rw [← hce] at hc hwidth hs ⊢
  have hlt : ∀ n < 2 ^ 32, (c < UInt32.ofNat n ↔ c.toNat < n) := by
    intro n hn
    rw [UInt32.lt_iff_toNat_lt, UInt32.toNat_ofNat', Nat.mod_eq_of_lt hn]
  have hshift := fun {k : ℕ} (hk : k < 32) => toNat_shiftRight_of_lt c hk
  -- a character stored byte by byte
  have hput : ∀ bs, bs = Utf8.encode c.toNat → 0x80 ≤ c.toNat →
      ∃ out', storeEach out dst bs = some out' ∧
        out'.Pending a (dst + bs.length) (t ++ Json.charText c.toNat) ∧
        dst + bs.length + rest.length * width + 1 ≤ out'.cap := by
    intro bs hbs hge
    obtain ⟨out', hst, hp', hcap⟩ := hp.storeEach bs (by rw [hbs]; omega)
    rw [Json.charText_of_ge hge]
    exact ⟨out', hst, by rw [← hbs]; exact hp', by rw [hcap, hbs]; omega⟩
  simp only [Option.bind_eq_bind]
  have hl := Utf8.length_encode c.toNat
  split
  · next h1 =>
    have h1 := (hlt 0x80 (by decide)).mp h1
    have hb : c.toUInt8.toNat = c.toNat := by
      rw [UInt32.toNat_toUInt8]
      omega
    rw [if_pos h1] at hl
    split
    · next hzero =>
      have hun : unescaped c.toUInt8 = true := by simpa [unescaped] using hzero
      have htext := @flatMap_byteText_encodeAll [c.toNat] (by simpa using hc)
      rw [Utf8.encodeAll, List.flatMap_singleton, List.flatMap_singleton, Utf8.encode, if_pos h1,
        ← hb, UInt8.ofNat_toNat, List.flatMap_singleton, byteText, if_pos hun, hb] at htext
      obtain ⟨out', hst, hp', hcap⟩ := hp.storeEach [c.toUInt8]
        (by simp only [List.length_singleton]; omega)
      simp only [hst, Option.bind_some]
      exact ⟨_, _, rfl, htext ▸ hp', by omega⟩
    · next hne =>
      have hun : unescaped c.toUInt8 = false := by simpa [unescaped] using hne
      obtain ⟨o1, hr, p1, hcap1⟩ := hp.reserve ((rest.length + 1) * width + 6 + 1)
      rw [Nat.succ_mul] at hcap1
      obtain ⟨dst', o2, h2, hd2, p2, hcap2⟩ := putEscape_spec p1 hun (by omega)
      simp only [hr, h2, Option.bind_some]
      exact ⟨_, _, rfl, hb ▸ p2, by omega⟩
  · next h1 =>
    have h1 : 0x80 ≤ c.toNat := not_lt.mp fun h => h1 ((hlt 0x80 (by decide)).mpr h)
    rw [if_neg (by omega)] at hl
    split
    · next h2 =>
      have h2 := (hlt 0x800 (by decide)).mp h2
      obtain ⟨out', hst, hp', hcap⟩ := hput [(0xC0 : UInt8) ||| (c >>> 6).toUInt8,
        (0x80 : UInt8) ||| (c &&& 0x3F).toUInt8] (by
          have h6 : (c >>> 6).toNat = c.toNat / 64 := hshift (by decide)
          rw [Utf8.encode, if_neg (by omega), if_pos h2, or_tail,
            or_toUInt8 (n := 5) (m := 6) rfl (by omega) (by rw [h6]; change 192 + _ < 256; omega), h6]
          rfl) h1
      simp only [hst, Option.bind_some]
      exact ⟨_, _, rfl, hp', hcap⟩
    · next h2 =>
      have h2 : 0x800 ≤ c.toNat := not_lt.mp fun h => h2 ((hlt 0x800 (by decide)).mpr h)
      rw [if_neg (by omega)] at hl
      split
      · next h3 =>
        have h3 := (hlt 0x10000 (by decide)).mp h3
        rw [if_neg fun h => hs ((isSurrogate_toNat c).mp h)]
        obtain ⟨out', hst, hp', hcap⟩ := hput [(0xE0 : UInt8) ||| (c >>> 12).toUInt8,
          (0x80 : UInt8) ||| ((c >>> 6) &&& 0x3F).toUInt8,
          (0x80 : UInt8) ||| (c &&& 0x3F).toUInt8] (by
            have h6 : (c >>> 6).toNat = c.toNat / 64 := hshift (by decide)
            have h12 : (c >>> 12).toNat = c.toNat / 4096 := hshift (by decide)
            rw [Utf8.encode, if_neg (by omega), if_neg (by omega), if_pos h3, or_tail, or_tail, h6,
              or_toUInt8 (n := 4) (m := 14) rfl (by omega)
                (by rw [h12]; change 224 + _ < 256; omega), h12]
            rfl) h1
        simp only [hst, Option.bind_some]
        exact ⟨_, _, rfl, hp', hcap⟩
      · next h3 =>
        have h3 : 0x10000 ≤ c.toNat := not_lt.mp fun h => h3 ((hlt 0x10000 (by decide)).mpr h)
        obtain ⟨out', hst, hp', hcap⟩ := hput [(0xF0 : UInt8) ||| (c >>> 18).toUInt8,
          (0x80 : UInt8) ||| ((c >>> 12) &&& 0x3F).toUInt8,
          (0x80 : UInt8) ||| ((c >>> 6) &&& 0x3F).toUInt8,
          (0x80 : UInt8) ||| (c &&& 0x3F).toUInt8] (by
            have h6 : (c >>> 6).toNat = c.toNat / 64 := hshift (by decide)
            have h12 : (c >>> 12).toNat = c.toNat / 4096 := hshift (by decide)
            have h18 : (c >>> 18).toNat = c.toNat / 262144 := hshift (by decide)
            rw [Utf8.encode, if_neg (by omega), if_neg (by omega), if_neg (by omega), or_tail,
              or_tail, or_tail, h6, h12, or_toUInt8 (n := 3) (m := 30) rfl (by omega)
                (by rw [h18]; change 240 + _ < 256; omega), h18]
            rfl) h1
        simp only [hst, Option.bind_some]
        exact ⟨_, _, rfl, hp', hcap⟩

lemma ucsLoop_surrogate {width dst : ℕ} {unit : T} {rest : List T} {out : OutputBuffer}
    (hs : Utf8.IsSurrogate (into unit).toNat) :
    ucsLoop into width (unit :: rest) dst out = some (false, dst, out) := by
  have hlt : ∀ n ≤ 0xD800, ¬ into unit < UInt32.ofNat n := by
    intro n hn h
    rw [UInt32.lt_iff_toNat_lt, UInt32.toNat_ofNat', Nat.mod_eq_of_lt (by omega)] at h
    exact absurd hs.1 (by omega)
  have hlt' : into unit < 0x10000 := UInt32.lt_iff_toNat_lt.mpr (lt_of_le_of_lt hs.2 (by decide))
  have h1 : ¬ into unit < 0x80 := hlt 0x80 (by decide)
  have h2 : ¬ into unit < 0x800 := hlt 0x800 (by decide)
  rw [ucsLoop, if_neg h1, if_neg h2, if_pos hlt', if_pos ((isSurrogate_toNat _).mpr hs)]

/-- The code points before the first surrogate. -/
def beforeSurrogate (s : List ℕ) : List ℕ := s.takeWhile fun c => !decide (Utf8.IsSurrogate c)

lemma beforeSurrogate_of_forall {s : List ℕ} (h : ∀ c ∈ s, ¬ Utf8.IsSurrogate c) :
    beforeSurrogate s = s :=
  List.takeWhile_eq_self_iff.mpr fun c hc => by simpa using h c hc

/-- The loop of `write_escaped_ucs`, for units whose UTF-8 fits the width reserved for them: it
writes everything before the first surrogate. -/
lemma ucsLoop_spec {width dst : ℕ} {out : OutputBuffer} (units : List T)
    (hunits : ∀ u ∈ units, (into u).toNat < 0x110000 ∧
      (Utf8.encode (into u).toNat).length ≤ width)
    (hp : out.Pending a dst t) (hroom : dst + units.length * width + 1 ≤ out.cap) :
    ∃ ok dst' out', ucsLoop into width units dst out = some (ok, dst', out') ∧
      (ok = true ↔ ∀ u ∈ units, ¬ Utf8.IsSurrogate (into u).toNat) ∧
      dst' + 1 ≤ out'.cap ∧ out'.Pending a dst' (t ++
        (beforeSurrogate (units.map fun u => (into u).toNat)).flatMap Json.charText) := by
  induction units generalizing dst t out with
  | nil => exact ⟨true, dst, out, rfl, by simp, by omega, by simpa [beforeSurrogate] using hp⟩
  | cons u units ih =>
      obtain ⟨hu, hunits⟩ := List.forall_mem_cons.mp hunits
      rw [List.length_cons] at hroom
      by_cases hs : Utf8.IsSurrogate (into u).toNat
      · rw [Nat.succ_mul] at hroom
        exact ⟨false, dst, out, ucsLoop_surrogate hs, by simp [hs], by omega,
          by simpa [beforeSurrogate, hs] using hp⟩
      · obtain ⟨dst1, o1, h1, p1, hroom1⟩ := ucsLoop_cons hp hroom hu.1 hu.2 hs
        obtain ⟨ok, dst', out', hrec, hok, hcap, p'⟩ := ih hunits p1 hroom1
        refine ⟨ok, dst', out', h1.trans hrec, ?_, hcap, ?_⟩
        · rw [hok, List.forall_mem_cons]
          exact (and_iff_right hs).symm
        · rw [List.map_cons, beforeSurrogate, List.takeWhile_cons, if_pos (by simpa using hs),
            List.flatMap_cons, ← List.append_assoc]
          exact p'

variable (into) in
/-- **`write_escaped_ucs`** appends the quoted text of code units of one, two or four bytes, or
reports that one of them is a surrogate. -/
lemma writeEscapedUcs_spec {out : OutputBuffer} (h : out.WF) {size : ℕ}
    (hsize : size = 1 ∨ size = 2 ∨ size = 4) (units : List T)
    (hunits : ∀ u ∈ units, (into u).toNat < 0x110000 ∧ (into u).toNat < 256 ^ size) :
    ∃ ok out', writeEscapedUcs into size out units = some (ok, out') ∧ out'.WF ∧
      out'.alloc = out.alloc ∧ (ok = true ↔ ∀ u ∈ units, ¬ Utf8.IsSurrogate (into u).toNat) ∧
      (ok = true → out'.content =
        out.content ++ Json.quoted (units.map fun u => (into u).toNat)) ∧
      (out.content ++ [34] ++ (beforeSurrogate (units.map fun u => (into u).toNat)).flatMap
        Json.charText) <+: out'.memory.getD [] := by
  obtain ⟨width, hw⟩ : ∃ width, width = match (motive := ℕ → ℕ) size with
    | 1 => 2
    | 2 => 3
    | _ => 4 := ⟨_, rfl⟩
  have hunits' : ∀ u ∈ units, (into u).toNat < 0x110000 ∧
      (Utf8.encode (into u).toNat).length ≤ width := by
    intro u hu
    obtain ⟨h1, h2⟩ := hunits u hu
    refine ⟨h1, ?_⟩
    rw [Utf8.length_encode]
    rcases hsize with rfl | rfl | rfl <;> simp only at hw <;> subst hw <;> split_ifs <;> omega
  obtain ⟨o1, h1, hwf1, hlen1, hc1, ha1, hcap1⟩ :=
    OutputBuffer.reserve_spec h (units.length * width + 2)
  obtain ⟨o2, h2, p2, hcap2⟩ := (OutputBuffer.Pending.of_wf hwf1).storeAt_all [34]
    (by simp only [List.length_singleton]; omega)
  simp only [List.length_singleton] at p2
  obtain ⟨ok, dst, o3, h3, hok, hcap3, p3⟩ := ucsLoop_spec units hunits' p2 (by omega)
  rw [hc1] at p3
  simp only [writeEscapedUcs, ← hw, h1, h2, h3, Option.bind_eq_bind, Option.bind_some]
  cases ok with
  | false => exact ⟨false, o3, rfl, p3.wf, p3.alloc_eq.trans ha1, hok, by simp, p3.isPrefix⟩
  | true =>
      obtain ⟨o4, h4, p4, -⟩ := p3.storeAt_all [34] hcap3
      obtain ⟨hwf, hcont, halloc⟩ := p4.setLen
      refine ⟨true, o4.setLen (dst + 1), ?_, hwf, halloc.trans ha1, hok, fun _ => ?_, ?_⟩
      · simp only [if_true, h4, Option.bind_some]
      · have hall : ∀ c ∈ units.map fun u => (into u).toNat, ¬ Utf8.IsSurrogate c :=
          List.forall_mem_map.mpr (hok.mp rfl)
        simp only [List.length_singleton] at hcont
        rw [hcont, beforeSurrogate_of_forall hall, Json.quoted]
        simp only [List.append_assoc]
      · exact (List.prefix_append _ _).trans p4.isPrefix

end Isojson
