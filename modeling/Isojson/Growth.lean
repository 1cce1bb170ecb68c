import Isojson.Out

/-!
# How often the output buffer grows

`grow` at least doubles the capacity, and it is called only when the room runs out.  So the requests for
memory in a whole run are logarithmic in the longest text that room was made for, and none is made but the
first when the size hint covers it (`run_asks_rarely`).
-/

namespace Isojson.OutputBuffer

variable {b b' : OutputBuffer} {cap peak g : ℕ}

/-- The length up to which an operation needs room, on a text of length `n`. -/
def Op.demand (n : ℕ) : Op → ℕ
  | .push _ => n + 1
  | .extend s => n + s.length
  | .raw room _ _ => n + room
  | .truncate _ => n

/-- The greatest demand of a run from a text on. -/
def peakFrom : List Op → Bytes → ℕ
  | [], t => t.length
  | op :: ops, t => max (op.demand t.length) (peakFrom ops (op.apply t))

/-- One more request was made if the content has moved to a `Vec`. -/
def spilled (b : OutputBuffer) : ℕ := if b.obj.isSome then 0 else 1

/-- The capacity has grown `g` times from `cap` on, each time at least twofold, and the last time for more
than it held. -/
structure Grew (cap peak g : ℕ) (b : OutputBuffer) : Prop where
  doubled : cap * 2 ^ g ≤ b.cap
  needed : ∀ j, g = j + 1 → cap * 2 ^ j < peak
  asked : b.asked ≤ 1 + g + b.spilled
  inBytes : g = 0 → b.obj.isSome
  tight : b.obj.isSome → b.cap ≤ max cap (2 * peak)

lemma grew_new {a : Allocator} {hint : ℕ} (hnew : new a hint = some b) (peak : ℕ) :
    Grew (max (hint + hint / 8) minCap) peak 0 b := by
  unfold new at hnew
  split at hnew
  · obtain rfl := Option.some.inj hnew
    exact ⟨(Nat.mul_one _).le, fun j hj => absurd hj (by omega), le_rfl, fun _ => rfl,
      fun _ => le_max_left _ _⟩
  · exact absurd hnew (by simp)

/-- **One growth** at least doubles the capacity.  It takes one request, and one more when the content
moves to a `Vec`. -/
lemma grow_cases (h : b.WF) {n : ℕ} (hgrow : b.grow n = some b') :
    2 * b.cap ≤ b'.cap ∧ b'.asked + b.spilled ≤ b.asked + 1 + b'.spilled ∧
      (b'.obj.isSome → b'.cap = max (b.len + n) (b.cap * 2)) := by
  have hpre := readPrefix_of_wf h
  have hlc := length_content h
  have hlen := h.len_le
  unfold grow at hgrow
  cases hobj : b.obj with
  | some o =>
      have hspilled : b.spilled = 0 := by rw [spilled, hobj]; rfl
      rw [hobj, hpre] at hgrow
      simp only [Option.bind_eq_bind, Option.bind_some] at hgrow
      split at hgrow
      · obtain rfl := Option.some.inj hgrow
        refine ⟨?_, ?_, fun _ => rfl⟩
        · show 2 * b.cap ≤ max (b.len + n) (b.cap * 2)
          omega
        · rw [hspilled]
          exact le_rfl
      · obtain rfl := Option.some.inj hgrow
        refine ⟨?_, ?_, fun hsome => absurd hsome Bool.false_ne_true⟩
        · dsimp only
          rw [Bytes.length_store (by rw [Allocator.length_fresh]; omega), Allocator.length_fresh]
          omega
        · rw [hspilled]
          exact le_rfl
  | none =>
      have hspilled : b.spilled = 1 := by rw [spilled, hobj]; rfl
      obtain ⟨m, hm, hcap⟩ := h.memory_eq
      have hptr := h.ptr_eq
      rw [hobj] at hptr hgrow
      simp only [Option.isSome_none, Bool.false_eq_true, if_false] at hptr
      rw [memory, hptr] at hm
      obtain rfl := Option.some.inj hm
      obtain rfl := Option.some.inj hgrow
      refine ⟨?_, ?_, fun hsome => ?_⟩
      · dsimp only [RawVec.reserve]
        split
        · omega
        · rw [Bytes.length_store (by rw [Allocator.length_fresh, List.length_take]; omega),
            Allocator.length_fresh]
          omega
      · rw [hspilled]
        exact le_rfl
      · exact absurd hsome Bool.false_ne_true

lemma Grew.grow (hg : Grew cap peak g b) (h : b.WF) {n : ℕ} (hfull : b.cap < b.len + n)
    (hpeak : b.len + n ≤ peak) (hgrow : b.grow n = some b') : Grew cap peak (g + 1) b' := by
  obtain ⟨hcap, hasked, hbytes⟩ := grow_cases h hgrow
  have hdoubled := hg.doubled
  refine ⟨?_, fun j hj => ?_, ?_, fun hzero => absurd hzero (Nat.succ_ne_zero g), fun hsome => ?_⟩
  · calc cap * 2 ^ (g + 1) = 2 * (cap * 2 ^ g) := by ring
      _ ≤ 2 * b.cap := Nat.mul_le_mul_left 2 hdoubled
      _ ≤ b'.cap := hcap
  · obtain rfl : g = j := Nat.succ.inj hj
    omega
  · have := hg.asked
    omega
  · rw [hbytes hsome]
    omega

/-- **`reserve`** grows the buffer once at most. -/
lemma Grew.reserve (hg : Grew cap peak g b) (h : b.WF) {n : ℕ} (hpeak : b.len + n ≤ peak)
    (hreserve : b.reserve n = some b') : ∃ g', Grew cap peak g' b' := by
  have hlen := h.len_le
  rw [OutputBuffer.reserve, if_neg (by omega)] at hreserve
  split at hreserve
  · exact ⟨g + 1, hg.grow h (by omega) hpeak hreserve⟩
  · exact ⟨g, Option.some.inj hreserve ▸ hg⟩

/-- A store asks for no memory. -/
lemma Grew.storeAt (hg : Grew cap peak g b) {i : ℕ} {bs : Bytes} (hstore : b.storeAt i bs = some b') :
    Grew cap peak g b' := by
  unfold OutputBuffer.storeAt at hstore
  split at hstore
  · next o hptr hobj =>
    split at hstore
    · obtain rfl := Option.some.inj hstore
      obtain ⟨hdoubled, hneeded, hasked, hbytes, htight⟩ := hg
      rw [spilled, hobj] at hasked
      rw [hobj] at htight
      exact ⟨hdoubled, hneeded, hasked, fun _ => rfl, htight⟩
    · exact absurd hstore (by simp)
  · exact absurd hstore (by simp)
  · split at hstore
    · obtain rfl := Option.some.inj hstore
      exact ⟨hg.doubled, hg.needed, hg.asked, hg.inBytes, hg.tight⟩
    · exact absurd hstore (by simp)

lemma Grew.setLen (hg : Grew cap peak g b) (n : ℕ) : Grew cap peak g (b.setLen n) :=
  ⟨hg.doubled, hg.needed, hg.asked, hg.inBytes, hg.tight⟩

lemma Grew.stores (hg : Grew cap peak g b) {stores : List (ℕ × Bytes)}
    (hstores : stores.foldlM (fun (b : OutputBuffer) st => b.storeAt (b.len + st.1) st.2) b = some b') :
    Grew cap peak g b' := by
  induction stores generalizing b with
  | nil => exact Option.some.inj hstores ▸ hg
  | cons st stores ih =>
      rw [List.foldlM_cons] at hstores
      obtain ⟨b1, hone, hrest⟩ := Option.bind_eq_some_iff.mp hstores
      exact ih (hg.storeAt hone) hrest

/-- **One operation** grows the buffer once at most. -/
lemma Grew.runOp (hg : Grew cap peak g b) (h : b.WF) {op : Op} (hpeak : op.demand b.len ≤ peak)
    (hrun : b.runOp op = some b') : ∃ g', Grew cap peak g' b' := by
  cases op with
  | push c =>
      obtain ⟨b1, hreserve, hrest⟩ := Option.bind_eq_some_iff.mp hrun
      obtain ⟨b2, hstore, hlast⟩ := Option.bind_eq_some_iff.mp hrest
      obtain ⟨g', hg'⟩ := hg.reserve h hpeak hreserve
      exact ⟨g', Option.some.inj hlast ▸ (hg'.storeAt hstore).setLen _⟩
  | extend s =>
      obtain ⟨b1, hreserve, hrest⟩ := Option.bind_eq_some_iff.mp hrun
      obtain ⟨b2, hstore, hlast⟩ := Option.bind_eq_some_iff.mp hrest
      obtain ⟨g', hg'⟩ := hg.reserve h hpeak hreserve
      exact ⟨g', Option.some.inj hlast ▸ (hg'.storeAt hstore).setLen _⟩
  | raw room stores n =>
      obtain ⟨b1, hreserve, hrest⟩ := Option.bind_eq_some_iff.mp hrun
      obtain ⟨b2, hstores, hlast⟩ := Option.bind_eq_some_iff.mp hrest
      obtain ⟨g', hg'⟩ := hg.reserve h hpeak hreserve
      exact ⟨g', Option.some.inj hlast ▸ (hg'.stores hstores).setLen _⟩
  | truncate n => exact ⟨g, Option.some.inj hrun ▸ hg.setLen n⟩

/-- **Every run** grows the buffer only for what its operations need room for. -/
lemma Grew.run (hg : Grew cap peak g b) (h : b.WF) {ops : List Op} (hv : ValidFrom ops b.content)
    (hpeak : peakFrom ops b.content ≤ peak) (hrun : b.run ops = some b') : ∃ g', Grew cap peak g' b' := by
  induction ops generalizing b g with
  | nil => exact ⟨g, Option.some.inj hrun ▸ hg⟩
  | cons op ops ih =>
      obtain ⟨b1, hone, hwf1, hcontent, -⟩ := runOp_spec h op hv.1
      rw [OutputBuffer.run, List.foldlM_cons, hone] at hrun
      rw [peakFrom, length_content h] at hpeak
      obtain ⟨g1, hg1⟩ := hg.runOp h (le_of_max_le_left hpeak) hone
      refine ih hg1 hwf1 (hcontent ▸ hv.2) ?_ hrun
      rw [hcontent]
      exact le_of_max_le_right hpeak

/-- **The buffer grows rarely.**  Take any run from a new buffer, with any size hint and any allocator, and
let `k` doublings of the first capacity hold every length that the run makes room for.  The run makes at
most `k + 1` requests for memory, and one more if the content had to move to a `Vec`; it makes only the
first when that capacity is enough.  A capacity of a `bytes` object is the first one, or at most twice the
greatest of these lengths. -/
theorem run_asks_rarely (a : Allocator) (hint : ℕ) (b₀ : OutputBuffer) (hnew : new a hint = some b₀)
    (ops : List Op) (hv : ValidFrom ops []) (k : ℕ)
    (hk : peakFrom ops [] ≤ max (hint + hint / 8) minCap * 2 ^ k) :
    ∃ b, b₀.run ops = some b ∧ b.asked ≤ k + 1 + b.spilled ∧ (k = 0 → b.asked ≤ 1 ∧ b.obj.isSome) ∧
      (b.obj.isSome → b.cap ≤ max (max (hint + hint / 8) minCap) (2 * peakFrom ops [])) := by
  obtain ⟨hwf, hcontent, -, -⟩ := wf_new hnew
  obtain ⟨b, hrun, -, -, -⟩ := run_spec ops hwf (hcontent ▸ hv)
  obtain ⟨g, hg⟩ := (grew_new hnew (peakFrom ops [])).run hwf (hcontent ▸ hv)
    (hcontent ▸ le_rfl) hrun
  have hgk : g ≤ k := by
    cases g with
    | zero => exact Nat.zero_le k
    | succ j =>
        have hlt := (hg.needed j rfl).trans_le hk
        have hpow : 2 ^ j < 2 ^ k := lt_of_mul_lt_mul_left hlt (Nat.zero_le _)
        exact (Nat.pow_lt_pow_iff_right (by decide)).mp hpow
  have hasked := hg.asked
  refine ⟨b, hrun, by omega, fun hzero => ?_, hg.tight⟩
  have hsome : b.obj.isSome = true := hg.inBytes (by omega)
  have hspilled : b.spilled = 0 := if_pos hsome
  exact ⟨by omega, hsome⟩

/-- A run that moves to a `Vec` makes three requests at most. -/
theorem run_asks_rarely_spilling : ∃ b₀ b, new onlyFirst 0 = some b₀ ∧
    b₀.run [.push 91, .extend (List.replicate 80 48), .truncate 3] = some b ∧
    b.asked ≤ 2 + b.spilled := by
  obtain ⟨b, hrun, hasked, -⟩ := run_asks_rarely onlyFirst 0 _ rfl
    [.push 91, .extend (List.replicate 80 48), .truncate 3]
    ⟨trivial, trivial, Nat.le_of_ble_eq_true rfl, trivial⟩ 1 (by decide)
  exact ⟨_, b, rfl, hrun, hasked⟩

end Isojson.OutputBuffer
