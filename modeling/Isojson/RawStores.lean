import Isojson.IntRow
import Isojson.Strfast

/-!
# Raw stores stay inside the buffer

The writers that store through a raw pointer, over every buffer the code can have built: however
long the string or the row, wherever its escapes stand and whatever room was left, each store
falls inside the capacity that the buffer has at that moment.  A store outside is `none`, and
`Backed` is what ties that to the capacity: it holds before and after every step, also where the
length lags behind the raw writes.
-/

namespace Isojson

namespace OutputBuffer

/-! ## Capacity and memory -/

/-- The pointer shows `cap` bytes of memory. -/
def Backed (b : OutputBuffer) : Prop := ∃ m, b.memory = some m ∧ m.length = b.cap

variable {b b' : OutputBuffer}

lemma Backed.setLen (h : b.Backed) (n : ℕ) : (b.setLen n).Backed := h

/-- **A raw store is inside the capacity, or undefined.** -/
lemma Backed.storeAt_isSome_iff (h : b.Backed) (i : ℕ) (bs : Bytes) :
    (b.storeAt i bs).isSome ↔ i + bs.length ≤ b.cap := by
  obtain ⟨m, hm, hcap⟩ := h
  rw [← hcap]
  unfold memory at hm
  unfold storeAt
  cases hptr : b.ptr with
  | bytes =>
      rw [hptr] at hm
      obtain ⟨o, hobj, rfl⟩ := Option.map_eq_some_iff.mp hm
      simp only [hobj]
      split <;> simp_all
  | spill =>
      rw [hptr] at hm
      obtain rfl := Option.some.inj hm
      simp only
      split <;> simp_all

lemma Backed.storeAt (h : b.Backed) {i : ℕ} {bs : Bytes} (hs : b.storeAt i bs = some b') :
    b'.Backed ∧ b'.cap = b.cap := by
  obtain ⟨m, hm, hcap⟩ := h
  unfold OutputBuffer.storeAt at hs
  unfold memory at hm
  cases hptr : b.ptr with
  | bytes =>
      rw [hptr] at hm hs
      obtain ⟨o, hobj, rfl⟩ := Option.map_eq_some_iff.mp hm
      simp only [hobj] at hs
      split at hs
      · next hfit =>
        obtain rfl := Option.some.inj hs
        exact ⟨⟨_, rfl, (Bytes.length_store hfit).trans hcap⟩, rfl⟩
      · exact absurd hs (by simp)
  | spill =>
      rw [hptr] at hm hs
      obtain rfl := Option.some.inj hm
      simp only at hs
      split at hs
      · next hfit =>
        obtain rfl := Option.some.inj hs
        exact ⟨⟨_, rfl, (Bytes.length_store hfit).trans hcap⟩, rfl⟩
      · exact absurd hs (by simp)

/-- Growth leaves the pointer on as many bytes as the new capacity says. -/
lemma Backed.reserve (h : b.Backed) {n : ℕ} (hr : b.reserve n = some b') : b'.Backed := by
  unfold OutputBuffer.reserve at hr
  split at hr
  · exact absurd hr (by simp)
  · next hlen =>
    split at hr
    · unfold grow at hr
      cases hobj : b.obj with
      | some o =>
          simp only [hobj, Option.bind_eq_bind, Option.bind_eq_some_iff] at hr
          obtain ⟨written, hw, hr⟩ := hr
          have hwritten : written.length ≤ b.len := by
            unfold readPrefix at hw
            simp only [Option.bind_eq_bind, Option.bind_eq_some_iff] at hw
            obtain ⟨m, -, hw⟩ := hw
            split at hw
            · obtain rfl := Option.some.inj hw
              exact List.length_take_le ..
            · exact absurd hw (by simp)
          split at hr
          · obtain rfl := Option.some.inj hr
            refine ⟨_, rfl, ?_⟩
            rw [Bytes.length_store (by rw [Allocator.length_fresh]; omega), Allocator.length_fresh]
          · obtain rfl := Option.some.inj hr
            exact ⟨_, rfl, rfl⟩
      | none =>
          simp only [hobj] at hr
          obtain rfl := Option.some.inj hr
          exact ⟨_, rfl, rfl⟩
    · obtain rfl := Option.some.inj hr
      exact h

end OutputBuffer

/-! ## The writers -/

/-- **Every raw store is inside the capacity of its moment.**  From every buffer, whatever its
length and its capacity, the string writers and the integer rows end without a store outside
(their result is not `none`), with the length inside the capacity; and what was written before a
growth in mid-string is still there at the end, also where a surrogate cuts the string short. -/
theorem raw_stores_in_capacity (arch : Arch) (out : OutputBuffer) (h : out.WF) :
    (∀ b : OutputBuffer, b.Backed →
      (∀ i bs, (b.storeAt i bs).isSome ↔ i + bs.length ≤ b.cap) ∧
      (∀ i bs b', b.storeAt i bs = some b' → b'.Backed ∧ b'.cap = b.cap) ∧
      (∀ n, (b.setLen n).Backed) ∧ ∀ n b', b.reserve n = some b' → b'.Backed) ∧
    (∀ s : Bytes, ∃ out', writeEscaped arch out s = some out' ∧ out'.len ≤ out'.cap ∧
      out'.content = out.content ++ [34] ++ s.flatMap byteText ++ [34]) ∧
    (∀ {T : Type} (into : T → UInt32) (size : ℕ) (units : List T),
      size = 1 ∨ size = 2 ∨ size = 4 →
      (∀ u ∈ units, (into u).toNat < 0x110000 ∧ (into u).toNat < 256 ^ size) →
      ∃ ok out', writeEscapedUcs into size out units = some (ok, out') ∧ out'.len ≤ out'.cap ∧
        (out.content ++ [34] ++ (beforeSurrogate (units.map fun u => (into u).toNat)).flatMap
          Json.charText) <+: out'.memory.getD [] ∧
        (ok = true → out'.content =
          out.content ++ Json.quoted (units.map fun u => (into u).toNat))) ∧
    ∀ (fmt : Formats) (row : List ℤ), ∃ out', writeIntRow out (row.map fmt.itoa) = some out' ∧
      out'.len ≤ out'.cap ∧
      out'.content = out.content ++ ([91] ++ rowItems true (row.map fmt.itoa) ++ [93]) := by
  refine ⟨fun b hb => ⟨hb.storeAt_isSome_iff, fun i bs b' => hb.storeAt, hb.setLen,
    fun n b' => hb.reserve⟩, fun s => ?_, fun into size units hsize hunits => ?_, fun fmt row => ?_⟩
  · obtain ⟨out', hw, hwf, -, hc⟩ := writeEscaped_spec arch h s
    exact ⟨out', hw, hwf.len_le, hc⟩
  · obtain ⟨ok, out', hw, hwf, -, -, hc, hp⟩ := writeEscapedUcs_spec into h hsize units hunits
    exact ⟨ok, out', hw, hwf.len_le, hp, hc⟩
  · have hlen : ∀ u ∈ row.map fmt.itoa, u.length ≤ 20 :=
      List.forall_mem_map.mpr fun z _ => fmt.length_itoa z
    obtain ⟨out', hw, hwf, hc, -⟩ := out.writeIntRow_spec h hlen
    exact ⟨out', hw, hwf.len_le, hc⟩

/-- A hundred characters that all need the longest escape, in a buffer of 64 bytes. -/
theorem raw_stores_in_capacity_dense : Buffer.plain.raw.cap = 64 ∧
    ∃ out', writeEscaped .x86_64 Buffer.plain.raw (List.replicate 100 1) = some out' ∧
      out'.len ≤ out'.cap ∧ out'.content.length = 602 := by
  refine ⟨rfl, ?_⟩
  obtain ⟨out', hw, hlen, hc⟩ := (raw_stores_in_capacity .x86_64 Buffer.plain.raw
    Buffer.plain.wf).2.1 (List.replicate 100 1)
  refine ⟨out', hw, hlen, ?_⟩
  have hstart : Buffer.plain.raw.content = [] := Buffer.content_plain
  have hone : (byteText 1).length = 6 := rfl
  rw [hc, hstart]
  simp [hone]

end Isojson
