import Isojson.Canonical

/-!
# `loads` of what `dumps` wrote, and `dumps` of what `loads` made

A value that is written and read comes back as `Value.restored` says (`loads_dumps`).  One that was read
before comes back as it is (`dumps_loaded`).
-/

namespace Isojson

open Json Run

/-! ## `dumps`, and then `loads` -/

section Trip

variable {Obj H B : Type} {a : Allocator} [DecidableEq Obj] (h : Host Obj H) {W : H → Prop}
  {float : Bytes → UInt64 → Prop} {limit : ℕ}

/-- A call of `dumps` over an object that shows a value, once there is enough fuel. -/
lemma Host.wp_dumps_shown (htrees : h.WritesTrees W float limit) (halloc : ∀ k, a.bytesNew k = true)
    {s : St Obj H a} (hcalm : s.exc = none)
    (htypes : ∀ exc, (s.world.types.datetime h.rt s.world.heap).1 ≠ .error exc)
    (hW : W s.world.heap) {obj : Obj} {v : Value} (hshows : Shows h.rt W obj v) {option : Obj}
    {opts : UInt32} (hopts : opts &&& treeOpts = opts)
    (hoption : (h.rt.view s.world.heap option).body = .int opts.toNat) (hint : ℕ) :
    ∃ N, ∀ fuel ≥ N, wp (fun _ => False) (h.dumps hint fuel [obj] [("option", option)])
      (fun bytes _ => v.Fits (hasOpt opts optStrictInteger) limit 0 ∧
        ReadsBack float (hasOpt opts optSortKeys) v bytes)
      (fun _ _ => ¬ v.Fits (hasOpt opts optStrictInteger) limit 0) s := by
  obtain ⟨dt, hdt⟩ : ∃ dt, (s.world.types.datetime h.rt s.world.heap).1 = .ok dt := by
    cases hr : (s.world.types.datetime h.rt s.world.heap).1 with
    | ok dt => exact ⟨dt, rfl⟩
    | error exc => exact absurd hr (htypes exc)
  obtain ⟨N, hN⟩ := Env.serializes_shown (e := h.treeEnv opts dt) (a := a) htrees rfl hW hshows
  refine ⟨N, fun fuel hfuel => h.wp_dumps_option hopts hoption fun log => ?_⟩
  exact h.dumpsObject_tree (s := { s with log := log }) halloc hcalm hdt hW hN hfuel hint

/-- **Round trip.**  What `dumps` writes of a tree of builtin values, under any layout, `loads` reads
back, from any of the forms that the text can be given in, and on any thread between two calls: the
same value, with lists for the tuples and `None` for the floats that are not finite, and with
dicts in the order that they were written in.  The integers are within 64 bits, no dict has a key twice
and the text is below 4 GiB; that the parser reads JSON is assumed. -/
theorem loads_dumps {float : Bytes → Option UInt64} {maxDepth : ℕ}
    (htrees : h.WritesTrees W (fun t bits => Decode.isInteger t = false ∧ float t = some bits) limit)
    (halloc : ∀ k, a.bytesNew k = true) {s : St Obj H a} (hcalm : s.exc = none)
    (htypes : ∀ exc, (s.world.types.datetime h.rt s.world.heap).1 ≠ .error exc)
    (hW : W s.world.heap) {obj : Obj} {v : Value} (hshows : Shows h.rt W obj v) {option : Obj}
    {opts : UInt32} (hopts : opts &&& treeOpts = opts)
    (hoption : (h.rt.view s.world.heap option).body = .int opts.toNat) (hint : ℕ)
    (hfits : v.Fits (hasOpt opts optStrictInteger) limit 0) (hv : v.Restorable)
    {p : Decode.Parser B} {parse : Bytes → Except (Decode.ErrorType × ℕ) Decode.Tree}
    (hp : p.Reads parse) (hjson : Decode.ReadsJson parse float maxDepth)
    (hdepth : MAX_DEPTH ≤ maxDepth) :
    ∃ N, ∀ fuel ≥ N, ∃ bytes s',
      h.dumps hint fuel [obj] [("option", option)] s = .ok bytes s' ∧
      (bytes.length < 2 ^ 32 → ∀ arg, Decode.Carries bytes arg →
        ∀ (during : List Decode.Act) (t : Decode.Thread B), t.Sound →
        Decode.Answers (.ok (v.restored (hasOpt opts optSortKeys)))
          (Decode.loads p (Decode.runAll p during) arg) t) := by
  obtain ⟨N, hN⟩ := h.wp_dumps_shown htrees halloc hcalm htypes hW hshows hopts hoption hint
  refine ⟨N, fun fuel hfuel => ?_⟩
  rcases (hN fuel hfuel).cases with ⟨bytes, s', hok, hfit, hback⟩ | ⟨exc, s', herr, hunfit⟩
  · refine ⟨bytes, s', hok, fun hsize arg harg during t ht => ?_⟩
    have hanswer := Decode.loads_answers hp (Decode.behaves_runAll hp during) arg ht
    rw [Decode.answer_readsBack hjson hdepth hfits hv hsize hback harg] at hanswer
    exact hanswer
  · exact absurd hfits hunfit

end Trip

/-- The dict of a list of an integer, a float and a tuple, and formatters that tell all doubles apart. -/
def nestedHost : Host ℕ Unit := { nestedDict.host with fmt := Formats.fractions }

lemma nestedHost_still : nestedHost.Still Allocator.plain := nestedDict.still _

lemma nestedHost_ready : nestedHost.Ready (nestedDict.state ⟨none, none⟩) :=
  nestedDict.ready _

lemma nestedHost_writes {W : Unit → Prop} : nestedHost.WritesTrees W
    (fun t bits => Decode.isInteger t = false ∧ fractionBits t = some bits) 0 :=
  nestedDict.writesTrees (fun _ _ h => nestedDict_small h) (fun _ hz => Formats.plain_itoa hz)
    fun bits _ => Formats.fractions_zmij64 bits

lemma nestedHost_shows {W : Unit → Prop} : Shows nestedHost.rt W 0
    (.dict [(.str [60, 77, 56], .list [.int 7, .float 0, .tuple [.none]])]) := by
  have hnone : Shows nestedHost.rt W 7 .none := .intro (fun _ _ => rfl) .none
  have htuple : Shows nestedHost.rt W 5 (.tuple [.none]) :=
    .intro (fun _ _ => rfl) (.tuple (.cons hnone .nil))
  have hlist : Shows nestedHost.rt W 2 (.list [.int 7, .float 0, .tuple [.none]]) :=
    .intro (fun _ _ => rfl) (.list (.cons (.intro (fun _ _ => rfl) (.int 7))
      (.cons (.intro (fun _ _ => rfl) (.float 0)) (.cons htuple .nil))))
  exact .intro (fun _ _ => rfl) (.dict (.cons (.intro (fun _ _ => rfl) (.str _)) hlist .nil))

/-- It comes back with a list for the tuple. -/
theorem loads_dumps_nested :
    ∃ fuel bytes s', nestedHost.dumps 0 fuel [0] [("option", 6)] (nestedDict.state ⟨none, none⟩) =
        .ok bytes s' ∧
      Decode.Answers (.ok (.dict [(.str [60, 77, 56], .list [.int 7, .float 0, .list [.none]])]))
        (Decode.loads Decode.readerParser (Decode.runAll Decode.readerParser []) (.bytes bytes))
        Decode.freshThread := by
  have htypes : ((nestedDict.state ⟨none, none⟩).world.types.datetime nestedHost.rt ()).1 =
      .ok none := rfl
  have hopts : (33 : UInt32) &&& treeOpts = 33 := by decide
  have hoption : (nestedHost.rt.view () 6).body = .int (33 : UInt32).toNat := rfl
  have hkey : (Value.str [60, 77, 56]).IsText := ⟨_, rfl, by decide⟩
  have hint : IntFits (hasOpt 33 optStrictInteger) 0 7 := Or.inr (Or.inl rfl)
  have hseven : Within64Bits 7 := by decide
  have hfinite : isFinite64 0 = true := by decide
  obtain ⟨N, hN⟩ := loads_dumps nestedHost nestedHost_writes (W := fun _ => True) (fun _ => rfl)
    (s := nestedDict.state ⟨none, none⟩) rfl (fun _ h => absurd (htypes.symm.trans h) (by simp)) trivial
    nestedHost_shows hopts hoption 0
    (by simp [Value.Fits, entriesFit, itemsFit, hkey, hint, MAX_DEPTH])
    (by simp [Value.Restorable, entriesRestorable, itemsRestorable, hseven])
    Decode.readerParser_reads (Decode.readTree_readsJson MAX_DEPTH) le_rfl
  obtain ⟨bytes, s', hrun, hloads⟩ := hN N le_rfl
  have hsize : bytes.length < 2 ^ 32 := by
    have hcall : nestedHost.CallsFor (nestedDict.state ⟨none, none⟩).world [0] [("option", 6)]
        ⟨0, none, 33⟩ _ := ⟨rfl, nestedHost_shows, Option.some_ne_none _⟩
    rw [Host.text_of_dumps nestedHost_still nestedHost_ready nestedHost_writes hcall hrun]
    have hlength : (nestedHost.textOf 33 (.dict [(.str [60, 77, 56],
        .list [.int 7, .float 0, .tuple [.none]])])).length = 57 := by decide +kernel
    rw [hlength]
    norm_num
  refine ⟨N, bytes, s', hrun, ?_⟩
  have hanswer := hloads hsize _ .bytes [] Decode.freshThread Decode.fresh_freshThread.sound
  simpa [Value.restored, entriesRestored, itemsRestored, inOrder, hfinite] using hanswer

/-! ## `loads`, and then `dumps` -/

mutual

/-- The number of containers that are nested in each other. -/
def Value.depth : Value → ℕ
  | .none => 0
  | .bool _ => 0
  | .int _ => 0
  | .float _ => 0
  | .str _ => 0
  | .list vs => listDepth vs + 1
  | .tuple vs => listDepth vs + 1
  | .dict es => dictDepth es + 1

def listDepth : List Value → ℕ
  | [] => 0
  | v :: vs => max v.depth (listDepth vs)

def dictDepth : List (Value × Value) → ℕ
  | [] => 0
  | (_, v) :: es => max v.depth (dictDepth es)

end

lemma listDepth_le_iff {vs : List Value} {k : ℕ} : listDepth vs ≤ k ↔ ∀ v ∈ vs, v.depth ≤ k := by
  induction vs with
  | nil => exact iff_of_true (Nat.zero_le k) fun v hv => absurd hv List.not_mem_nil
  | cons v vs ih => rw [listDepth, max_le_iff, ih, List.forall_mem_cons]

lemma dictDepth_le_iff {es : List (Value × Value)} {k : ℕ} :
    dictDepth es ≤ k ↔ ∀ e ∈ es, e.2.depth ≤ k := by
  induction es with
  | nil => exact iff_of_true (Nat.zero_le k) fun e he => absurd he List.not_mem_nil
  | cons e es ih => rw [dictDepth, max_le_iff, ih, List.forall_mem_cons]

lemma itemsPlain_iff {vs : List Value} : itemsPlain vs ↔ ∀ v ∈ vs, v.IsPlain := by
  induction vs with
  | nil => exact iff_of_true trivial fun v hv => absurd hv List.not_mem_nil
  | cons v vs ih => rw [itemsPlain, ih, List.forall_mem_cons]

lemma entriesPlain_iff {es : List (Value × Value)} : entriesPlain es ↔ ∀ e ∈ es, e.2.IsPlain := by
  induction es with
  | nil => exact iff_of_true trivial fun e he => absurd he List.not_mem_nil
  | cons e es ih => rw [entriesPlain, ih, List.forall_mem_cons]

lemma itemsRestorable_iff {vs : List Value} : itemsRestorable vs ↔ ∀ v ∈ vs, v.Restorable := by
  induction vs with
  | nil => exact iff_of_true trivial fun v hv => absurd hv List.not_mem_nil
  | cons v vs ih => rw [itemsRestorable, ih, List.forall_mem_cons]

/-- What is known of a value that `loads` made: it comes back as it is, and only its depth keeps it from
being written. -/
structure Value.Loaded (limit : ℕ) (v : Value) : Prop where
  plain : v.IsPlain
  restorable : v.Restorable
  fits : ∀ d ≤ MAX_DEPTH, v.Fits false limit d ↔ v.depth + d ≤ MAX_DEPTH

namespace Value.Loaded

variable {limit : ℕ}

lemma leaf {v : Value} (hplain : v.IsPlain) (hrestorable : v.Restorable) (hdepth : v.depth = 0)
    (hfits : ∀ d, v.Fits false limit d) : v.Loaded limit := by
  refine ⟨hplain, hrestorable, fun d hd => iff_of_true (hfits d) ?_⟩
  rwa [hdepth, Nat.zero_add]

lemma list {vs : List Value} (h : ∀ v ∈ vs, v.Loaded limit) : (Value.list vs).Loaded limit := by
  refine ⟨itemsPlain_iff.mpr fun v hv => (h v hv).plain,
    itemsRestorable_iff.mpr fun v hv => (h v hv).restorable, fun d hd => ?_⟩
  rw [Value.Fits, itemsFit_iff, Value.depth]
  constructor
  · rintro ⟨hdeeper, hfit⟩
    have hdepth : listDepth vs ≤ MAX_DEPTH - (d + 1) := listDepth_le_iff.mpr fun v hv => by
      have hitem := ((h v hv).fits (d + 1) hdeeper).mp (hfit v hv)
      omega
    omega
  · intro hdepth
    have hall := listDepth_le_iff.mp (le_refl (listDepth vs))
    refine ⟨by omega, fun v hv => ((h v hv).fits (d + 1) (by omega)).mpr ?_⟩
    have hitem := hall v hv
    omega

lemma dict {es : List (Value × Value)} (htext : ∀ e ∈ es, e.1.IsText) (hnodup : (es.map Prod.fst).Nodup)
    (h : ∀ e ∈ es, e.2.Loaded limit) : (Value.dict es).Loaded limit := by
  refine ⟨entriesPlain_iff.mpr fun e he => (h e he).plain,
    ⟨hnodup, entriesRestorable_iff.mpr fun e he => (h e he).restorable⟩, fun d hd => ?_⟩
  rw [Value.Fits, entriesFit_iff, Value.depth]
  constructor
  · rintro ⟨hdeeper, hfit⟩
    have hdepth : dictDepth es ≤ MAX_DEPTH - (d + 1) := dictDepth_le_iff.mpr fun e he => by
      have hitem := ((h e he).fits (d + 1) hdeeper).mp (hfit e he).2
      omega
    omega
  · intro hdepth
    have hall := dictDepth_le_iff.mp (le_refl (dictDepth es))
    refine ⟨by omega, fun e he => ⟨htext e he, ((h e he).fits (d + 1) (by omega)).mpr ?_⟩⟩
    have hitem := hall e he
    omega

end Value.Loaded

namespace Decode

mutual

/-- The floats in the tree are finite. -/
def Tree.IsFinite : Tree → Prop
  | .f64 v => isFinite64 v = true
  | .array ts => itemsFinite ts
  | .object ms => membersFinite ms
  | _ => True

def itemsFinite : List Tree → Prop
  | [] => True
  | t :: ts => t.IsFinite ∧ itemsFinite ts

def membersFinite : List (Utf8.Text × Tree) → Prop
  | [] => True
  | (_, t) :: ms => t.IsFinite ∧ membersFinite ms

end

mutual

lemma Tree.value_loaded (limit : ℕ) : ∀ t : Tree, t.IsFinite → t.value.Loaded limit
  | .null, _ => .leaf trivial trivial rfl fun _ => trivial
  | .bool _, _ => .leaf trivial trivial rfl fun _ => trivial
  | .i64 v, _ => by
      have hrange : Within64Bits v.toInt := by
        have hlo := v.le_toInt
        have hhi := v.toInt_lt
        unfold Within64Bits i64Min Env.u64Max
        omega
      exact .leaf trivial hrange rfl fun _ => Or.inl hrange
  | .u64 v, _ => by
      have hrange : Within64Bits v.toNat := by
        have hhi := v.toNat_lt
        unfold Within64Bits i64Min Env.u64Max
        omega
      exact .leaf trivial hrange rfl fun _ => Or.inl hrange
  | .f64 _, h => .leaf h trivial rfl fun _ => trivial
  | .string s, _ => by
      have htext : (Value.str s).IsText := ⟨s, rfl, fun c hc => (s.2 c hc).2⟩
      exact .leaf trivial trivial rfl fun _ => htext
  | .array ts, h => .list (itemsValue_loaded limit ts h)
  | .object ms, h => by
      refine .dict (fun e he => ?_) ?_ fun e he => ?_
      · obtain ⟨m, -, rfl⟩ := List.mem_map.mp he
        exact ⟨m.1, rfl, fun c hc => (m.1.2 c hc).2⟩
      · have hkeys := (Assoc.nodup_collapse (membersValue ms)).map
          (f := fun k : Utf8.Text => Value.str k) fun k k' hk => Subtype.ext (Value.str.inj hk)
        rw [List.map_map] at hkeys ⊢
        exact hkeys
      · obtain ⟨m, hm, rfl⟩ := List.mem_map.mp he
        exact membersValue_loaded limit ms h m (Assoc.mem_of_mem_collapse hm)

lemma itemsValue_loaded (limit : ℕ) : ∀ ts : List Tree, itemsFinite ts →
    ∀ v ∈ itemsValue ts, v.Loaded limit
  | [], _ => fun _ hv => absurd hv List.not_mem_nil
  | t :: ts, h => List.forall_mem_cons.mpr ⟨t.value_loaded limit h.1, itemsValue_loaded limit ts h.2⟩

lemma membersValue_loaded (limit : ℕ) : ∀ ms : List (Utf8.Text × Tree), membersFinite ms →
    ∀ m ∈ membersValue ms, m.2.Loaded limit
  | [], _ => fun _ hm => absurd hm List.not_mem_nil
  | (_, t) :: ms, h =>
      List.forall_mem_cons.mpr ⟨t.value_loaded limit h.1, membersValue_loaded limit ms h.2⟩

end

end Decode

/-- The options that only bear on the layout. -/
def layoutOpts : UInt32 := optIndent2 ||| optAppendNewline

/-- **What `loads` made can be written again.**  Take the value of any JSON tree with finite floats, and
any object that shows it.  `dumps` fails if more than 254 containers are nested in it, which simd-json
would read, and only then.  What it writes, `loads` reads as the same value if it is below 4 GiB. -/
theorem dumps_loaded {Obj H B : Type} {a : Allocator} [DecidableEq Obj] (h : Host Obj H) {W : H → Prop}
    {float : Bytes → Option UInt64} {limit maxDepth : ℕ}
    (htrees : h.WritesTrees W (fun t bits => Decode.isInteger t = false ∧ float t = some bits) limit)
    (halloc : ∀ k, a.bytesNew k = true) {s : St Obj H a} (hcalm : s.exc = none)
    (htypes : ∀ exc, (s.world.types.datetime h.rt s.world.heap).1 ≠ .error exc)
    (hW : W s.world.heap) {obj : Obj} {tree : Decode.Tree} (hfinite : tree.IsFinite)
    (hshows : Shows h.rt W obj tree.value) {option : Obj} {opts : UInt32}
    (hopts : opts &&& layoutOpts = opts)
    (hoption : (h.rt.view s.world.heap option).body = .int opts.toNat) (hint : ℕ)
    {p : Decode.Parser B} {parse : Bytes → Except (Decode.ErrorType × ℕ) Decode.Tree}
    (hp : p.Reads parse) (hjson : Decode.ReadsJson parse float maxDepth)
    (hdepth : MAX_DEPTH ≤ maxDepth) :
    ∃ N, ∀ fuel ≥ N,
      (tree.value.depth ≤ MAX_DEPTH → ∃ bytes s',
        h.dumps hint fuel [obj] [("option", option)] s = .ok bytes s' ∧
        (bytes.length < 2 ^ 32 → ∀ arg, Decode.Carries bytes arg →
          ∀ (during : List Decode.Act) (t : Decode.Thread B), t.Sound →
          Decode.Answers (.ok tree.value) (Decode.loads p (Decode.runAll p during) arg) t)) ∧
      (MAX_DEPTH < tree.value.depth → ∃ exc s',
        h.dumps hint fuel [obj] [("option", option)] s = .error exc s') := by
  have hloaded := tree.value_loaded limit hfinite
  have hfits := hloaded.fits 0 (Nat.zero_le _)
  have htree : opts &&& treeOpts = opts := by
    rw [← hopts, UInt32.and_assoc]
    rfl
  have hstrict : hasOpt opts optStrictInteger = false := by
    rw [← hopts]
    exact hasOpt_and_of_drop (by decide)
  have hsorted : hasOpt opts optSortKeys = false := by
    rw [← hopts]
    exact hasOpt_and_of_drop (by decide)
  obtain ⟨N, hN⟩ := h.wp_dumps_shown htrees halloc hcalm htypes hW hshows htree hoption hint
  rw [hstrict, hsorted] at hN
  refine ⟨N, fun fuel hfuel => ?_⟩
  rcases (hN fuel hfuel).cases with ⟨bytes, s', hok, hfit, hback⟩ | ⟨exc, s', herr, hunfit⟩
  · refine ⟨fun _ => ⟨bytes, s', hok, fun hsize arg harg during t ht => ?_⟩, fun hdeep => ?_⟩
    · have hanswer := Decode.loads_answers hp (Decode.behaves_runAll hp during) arg ht
      rw [Decode.answer_readsBack hjson hdepth hfit hloaded.restorable hsize hback harg,
        Value.restored_of_isPlain hloaded.plain] at hanswer
      exact hanswer
    · exact absurd (hfits.mp hfit) (Nat.not_le_of_lt hdeep)
  · exact ⟨fun hle => absurd (hfits.mpr hle) hunfit, fun _ => ⟨exc, s', herr⟩⟩

/-- A list of an integer and `None`, and the options of an indented call. -/
def loadedList : Snapshot ℕ where
  view
    | 0 => ⟨none, "list", .list [1, 2]⟩
    | 1 => ⟨none, "int", .int 19⟩
    | 3 => ⟨none, "int", .int 1⟩
    | _ => ⟨none, "NoneType", .none⟩
  tupleItems _ := []
  pyNone := 2
  memory _ := 0
  answer _ := .ok 4

lemma loadedList_small {o : ℕ} {z : ℤ} (h : (loadedList.view o).body = .int z) : Within64Bits z := by
  unfold loadedList at h
  dsimp only at h
  split at h <;> cases h <;> decide

def loadedHost : Host ℕ Unit := { loadedList.host with fmt := Formats.fractions }

lemma loadedHost_still : loadedHost.Still Allocator.plain := loadedList.still _

lemma loadedHost_ready : loadedHost.Ready (loadedList.state ⟨none, none⟩) :=
  loadedList.ready _

lemma loadedHost_writes {W : Unit → Prop} : loadedHost.WritesTrees W
    (fun t bits => Decode.isInteger t = false ∧ fractionBits t = some bits) 0 :=
  loadedList.writesTrees (fun _ _ h => loadedList_small h) (fun _ hz => Formats.plain_itoa hz)
    fun bits _ => Formats.fractions_zmij64 bits

lemma loadedHost_shows {W : Unit → Prop} : Shows loadedHost.rt W 0 (.list [.int 19, .none]) := by
  have hnone : Shows loadedHost.rt W 2 .none := .intro (fun _ _ => rfl) .none
  exact .intro (fun _ _ => rfl) (.list (.cons (.intro (fun _ _ => rfl) (.int 19)) (.cons hnone .nil)))

theorem dumps_loaded_list :
    ∃ fuel bytes s', loadedHost.dumps 0 fuel [0] [("option", 3)] (loadedList.state ⟨none, none⟩) =
        .ok bytes s' ∧
      Decode.Answers (.ok (.list [.int 19, .none]))
        (Decode.loads Decode.readerParser (Decode.runAll Decode.readerParser []) (.byteArray bytes))
        Decode.freshThread := by
  have htypes : ((loadedList.state ⟨none, none⟩).world.types.datetime loadedHost.rt ()).1 =
      .ok none := rfl
  have hfinite : (Decode.Tree.array [.u64 19, .null]).IsFinite := ⟨trivial, trivial, trivial⟩
  have hopts : (1 : UInt32) &&& layoutOpts = 1 := by decide
  have hoption : (loadedHost.rt.view () 3).body = .int (1 : UInt32).toNat := rfl
  obtain ⟨N, hN⟩ := dumps_loaded loadedHost loadedHost_writes (W := fun _ => True) (fun _ => rfl)
    (s := loadedList.state ⟨none, none⟩) rfl (fun _ h => absurd (htypes.symm.trans h) (by simp)) trivial
    hfinite loadedHost_shows hopts hoption 0
    Decode.readerParser_reads (Decode.readTree_readsJson MAX_DEPTH) le_rfl
  obtain ⟨bytes, s', hrun, hloads⟩ := (hN N le_rfl).1 (by decide)
  have hsize : bytes.length < 2 ^ 32 := by
    have hcall : loadedHost.CallsFor (loadedList.state ⟨none, none⟩).world [0] [("option", 3)]
        ⟨0, none, 1⟩ _ := ⟨rfl, loadedHost_shows, Option.some_ne_none _⟩
    rw [Host.text_of_dumps loadedHost_still loadedHost_ready loadedHost_writes hcall hrun]
    have hlength : (loadedHost.textOf 1 (.list [.int 19, .none])).length = 16 := by decide +kernel
    rw [hlength]
    norm_num
  exact ⟨N, bytes, s', hrun, hloads hsize _ .byteArray [] _ Decode.fresh_freshThread.sound⟩

end Isojson
