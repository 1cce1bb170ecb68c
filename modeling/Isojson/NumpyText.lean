import Isojson.Dtype
import Isojson.Isoformat

/-!
# What the array walk writes

`arrayDoc` is the nested list that an array stands for, read off the strides alone.  The walk
takes three paths through a dimension: a compact integer row through the raw pointer, compact
rows in chunks, and indented rows.  All of them write the layout of that document, or stop at its
first element that can't be written (`walk_spec`).
-/

namespace Isojson

open Json

variable {a : Allocator}

/-! ## Layout -/

namespace Env

lemma content_indentBy (b : Buffer a) (level : ℕ) :
    (indentBy b level).content = b.content ++ List.replicate (2 * level) 32 := by
  induction level generalizing b with
  | zero => simp [indentBy]
  | succ level ih =>
      rw [indentBy, ih, Buffer.content_extend, List.append_assoc, Nat.mul_succ,
        Nat.add_comm (2 * level), List.replicate_add]
      rfl

lemma content_newlineIndent (b : Buffer a) (level : ℕ) :
    (newlineIndent b level).content = b.content ++ sep true level := by
  rw [newlineIndent, content_indentBy, Buffer.content_push]
  simp [sep]

end Env

/-! ## Elements -/

/-- The text of a datetime64 value. -/
def dt64Text (opts : UInt32) (v : ℤ) (unit : Dt64Unit) : Except Decline Bytes :=
  match dt64ToParts v unit with
  | some (.ok (some p)) =>
      .ok (inQuotes (datetimeText p (if hasOpt opts optNaiveUtc then some 0 else none) opts))
  | some (.error .genericUnit) => .error (.genericUnit v)
  | some (.error .unrepresentable) => .error (.unrepresentable v unit)
  | _ => .ok (Bytes.ascii "null")

/-- The text of the element with the unsigned value `n`. -/
def Leaves.text (l : Leaves) (n : ℕ) : Except Decline Bytes :=
  match l.elem with
  | .bool => .ok (if n ≠ 0 then Bytes.ascii "true" else Bytes.ascii "false")
  | .f16 => .ok (Buffer.f32Text l.fmt (f16ToF32 (UInt16.ofNat n)))
  | .f32 => .ok (Buffer.f32Text l.fmt (UInt32.ofNat n))
  | .f64 => .ok (Buffer.f64Text l.fmt (UInt64.ofNat n))
  | .dt64 =>
      match l.unit with
      | none => .ok []
      | some unit => dt64Text l.opts (signed 8 n) unit
  | elem =>
      match elem.intValue n with
      | some z => .ok (l.fmt.itoa z)
      | none => .ok []

/-- The multiplier of a unit is one that a dtype string can give. -/
def UnitInRange (unit : Option Dt64Unit) : Prop := ∀ u ∈ unit, 1 ≤ u.mult ∧ u.mult ≤ i64Max

lemma signed_eight_bounds (n : ℕ) : i64Min ≤ signed 8 n ∧ signed 8 n ≤ i64Max := by
  have h1 := Int.le_bmod (x := (n : ℤ)) (m := 256 ^ 8) (by positivity)
  have h2 := Int.bmod_lt (x := (n : ℤ)) (m := 256 ^ 8) (by positivity)
  simp only [signed, i64Min, i64Max]
  norm_num at h1 h2 ⊢
  omega

/-- A unit is generic, a calendar unit or a fixed length of time. -/
lemma TimeUnit.cases (b : TimeUnit) :
    b = .generic ∨ (∃ months, b.months = some months) ∨ ∃ ratio, b.ratio = some ratio := by
  cases b <;> simp [TimeUnit.months, TimeUnit.ratio]

/-- No operation of `dt64_to_parts` wraps. -/
lemma dt64ToParts_isSome {v : ℤ} {u : Dt64Unit} (h : Dt64Args v u.mult) :
    ∃ r, dt64ToParts v u = some r := by
  by_cases hv : v = i64Min
  · exact ⟨_, if_pos hv⟩
  · rcases TimeUnit.cases u.base with hg | ⟨months, hm⟩ | ⟨ratio, hr⟩
    · obtain ⟨hlo, hhi⟩ := h.product_bounds
      rw [dt64ToParts, if_neg hv, checkedMul_of_mem (by unfold InI128; omega), hg]
      exact ⟨_, rfl⟩
    · exact ⟨_, dt64ToParts_month h hv hm⟩
    · obtain ⟨hin, hout⟩ := dt64ToParts_instant h hv hr
      by_cases hrange : firstInstant ≤ instant v u.mult ratio ∧ instant v u.mult ratio ≤ lastInstant
      · obtain ⟨p, hp, -⟩ := hin hrange
        exact ⟨_, hp⟩
      · exact ⟨_, hout hrange⟩

lemma offsetFits_naive (opts : UInt32) :
    OffsetFits (if hasOpt opts optNaiveUtc then some 0 else none) := by
  intro us hus
  split at hus
  · obtain rfl := Option.some.inj hus
    exact Nat.lt_of_lt_of_le Nat.zero_lt_one (Nat.le_of_ble_eq_true rfl)
  · exact absurd hus (by simp)

lemma writeDt64_spec (opts : UInt32) (out : Buffer a) {v : ℤ} {unit : Dt64Unit}
    (h : Dt64Args v unit.mult) :
    (∃ t out', dt64Text opts v unit = .ok t ∧ writeDt64 opts out v unit = some (.ok out') ∧
      out'.content = out.content ++ t) ∨
    ∃ reason, dt64Text opts v unit = .error reason ∧
      writeDt64 opts out v unit = some (.error reason) := by
  obtain ⟨r, hr⟩ := dt64ToParts_isSome h
  simp only [dt64Text, writeDt64, hr]
  rcases r with (_ | _) | (_ | p)
  · exact Or.inr ⟨_, rfl, rfl⟩
  · exact Or.inr ⟨_, rfl, rfl⟩
  · exact Or.inl ⟨_, _, rfl, rfl, Buffer.content_extend ..⟩
  · obtain ⟨out', hw, hc⟩ := writeDatetime_spec out p (offsetFits_naive opts) opts
    exact Or.inl ⟨_, out', rfl, by simp only [hw, Option.map_some], hc⟩

/-- **One element** is written as its text, or declined. -/
lemma Leaves.write_spec (l : Leaves) (hunit : UnitInRange l.unit) (out : Buffer a) (n : ℕ) :
    (∃ t out', l.text n = .ok t ∧ l.write out n = some (.ok out') ∧
      out'.content = out.content ++ t) ∨
    ∃ reason, l.text n = .error reason ∧ l.write out n = some (.error reason) := by
  obtain ⟨fmt, opts, elem, unit⟩ := l
  have hint : ∀ z : ℤ, (out.writeInt fmt z).content = out.content ++ fmt.itoa z :=
    Buffer.content_writeInt out fmt
  cases elem with
  | bool =>
      refine Or.inl ⟨_, _, rfl, rfl, ?_⟩
      unfold writeBool
      split <;> exact Buffer.content_extend ..
  | f16 => exact Or.inl ⟨_, _, rfl, rfl, Buffer.content_writeF32 ..⟩
  | f32 => exact Or.inl ⟨_, _, rfl, rfl, Buffer.content_writeF32 ..⟩
  | f64 => exact Or.inl ⟨_, _, rfl, rfl, Buffer.content_writeF64 ..⟩
  | dt64 =>
      cases unit with
      | none => exact Or.inl ⟨[], out, rfl, rfl, (List.append_nil _).symm⟩
      | some unit =>
          obtain ⟨hlo, hhi⟩ := signed_eight_bounds n
          obtain ⟨h1, h2⟩ := hunit unit rfl
          have h : Dt64Args (signed 8 n) unit.mult := ⟨hlo, hhi, h1, h2⟩
          simpa only [Leaves.text, Leaves.write] using writeDt64_spec opts out h
  | i64 => exact Or.inl ⟨_, _, rfl, rfl, hint (signed 8 n)⟩
  | i32 => exact Or.inl ⟨_, _, rfl, rfl, hint (signed 4 n)⟩
  | i16 => exact Or.inl ⟨_, _, rfl, rfl, hint (signed 2 n)⟩
  | i8 => exact Or.inl ⟨_, _, rfl, rfl, hint (signed 1 n)⟩
  | u64 | u32 | u16 | u8 => exact Or.inl ⟨_, _, rfl, rfl, hint n⟩

/-! ## The document of an array -/

/-- The nested list of an array from address `p` on: `dims` are its lengths and strides, and
`text` writes the element at an address. -/
def arrayDoc (text : ℤ → Except Decline Bytes) : List (ℕ × ℤ) → ℤ → Except Decline Doc
  | [], p => (text p).map .leaf
  | (n, stride) :: rest, p => ((rowAddresses p n stride).mapM (arrayDoc text rest)).map .arr

/-- The addresses of the elements of an array, in row-major order. -/
def elementAddresses : List (ℕ × ℤ) → ℤ → List ℤ
  | [], p => [p]
  | (n, stride) :: rest, p => (rowAddresses p n stride).flatMap (elementAddresses rest)

/-- The text of the element at an address. -/
def Leaves.textAt (l : Leaves) (memory : ℤ → UInt8) (p : ℤ) : Except Decline Bytes :=
  l.text (readNumber memory p l.elem.size)

lemma rowAddresses_succ (p : ℤ) (n : ℕ) (stride : ℤ) :
    rowAddresses p (n + 1) stride = p :: rowAddresses (p + stride) n stride := by
  rw [rowAddresses, List.range_succ_eq_map, List.map_cons, List.map_map, rowAddresses]
  simp only [Nat.cast_zero, zero_mul, add_zero, List.cons.injEq, true_and]
  refine List.map_congr_left fun i _ => ?_
  simp only [Function.comp_apply, Nat.cast_succ]
  ring

lemma Leaves.textAt_of_isInt {l : Leaves} (h : l.elem.isInt = true) (memory : ℤ → UInt8) (p : ℤ) :
    l.textAt memory p = .ok (l.intText memory p) := by
  obtain ⟨fmt, opts, elem, unit⟩ := l
  unfold Leaves.textAt Leaves.intText Leaves.text
  cases elem <;> first | rfl | exact absurd h Bool.false_ne_true

/-! ## The walk -/

/-- What a walk step leaves: the layout of `d` and the addresses `reads` behind what was there, or
on a decline some text behind it. -/
def Walked (d : Except Decline Doc) (indent : Bool) (level : ℕ) (reads : List ℤ) (w : WalkSt a)
    (m : Walk a Unit) : Prop :=
  Run.wp (fun _ => False) m
    (fun _ w' => ∃ doc, d = .ok doc ∧ w'.out.content = w.out.content ++ doc.render indent level ∧
      w'.reads = w.reads ++ reads)
    (fun reason w' => d = .error reason ∧ ∃ t, w'.out.content = w.out.content ++ t) w

@[simp] lemma wp_put {C : WalkSt a → Prop} {Q : Unit → WalkSt a → Prop}
    {E : Decline → WalkSt a → Prop} {w : WalkSt a} (f : Buffer a → Buffer a) :
    Run.wp C (put f) Q E w ↔ Q () { w with out := f w.out } := Iff.rfl

lemma Leaves.leaf_spec (l : Leaves) (hunit : UnitInRange l.unit) (memory : ℤ → UInt8)
    (indent : Bool) (level : ℕ) (p : ℤ) (w : WalkSt a) :
    Walked ((l.textAt memory p).map .leaf) indent level [p] w (l.leaf memory p) := by
  unfold Walked Leaves.leaf recordRead
  simp only [Run.wp_bind, Run.wp_modify, Run.wp_get]
  rcases l.write_spec hunit w.out (readNumber memory p l.elem.size) with
    ⟨t, out, ht, hw, hc⟩ | ⟨reason, ht, hw⟩
  · simp only [hw, wp_put, textAt, ht]
    exact ⟨_, rfl, hc, trivial⟩
  · simp only [hw, Run.wp_throw, textAt, ht]
    exact ⟨rfl, [], (List.append_nil _).symm⟩

/-- One step of a row: the separator, and then the item and the rest. -/
lemma wp_rowLoop_succ {l : Leaves} {indent last : Bool} {level : ℕ} {item : ℤ → Walk a Unit}
    {p stride : ℤ} {i k : ℕ} {w : WalkSt a} {C : WalkSt a → Prop} {Q : Unit → WalkSt a → Prop}
    {E : Decline → WalkSt a → Prop}
    (h : ∀ w1 : WalkSt a, w1.reads = w.reads → w1.out.content = w.out.content ++
        ((if i = 0 then [] else [44]) ++ sep indent (level + 1)) →
      Run.wp C (item (p + (i : ℤ) * stride)) (fun _ w2 =>
        Run.wp C (rowLoop l indent last level item p stride (i + 1) k) Q E w2) E w1) :
    Run.wp C (rowLoop l indent last level item p stride i (k + 1)) Q E w := by
  rw [rowLoop]
  by_cases hi : i = 0
  · subst hi
    split <;> cases indent <;>
      simp only [Run.wp_bind, wp_put, if_true, if_false, Nat.lt_irrefl, Bool.false_eq_true] <;>
      exact h _ rfl (by simp [sep, Env.content_newlineIndent])
  · have hpos : 0 < i := Nat.pos_of_ne_zero hi
    rw [if_pos hpos]
    split <;> cases indent <;>
      simp only [Run.wp_bind, wp_put, if_true, if_false, Bool.false_eq_true] <;>
      exact h _ rfl (by simp [sep, hi, Env.content_newlineIndent])

/-- The items of a row from item `i` on. -/
lemma rowLoop_spec {docAt : ℤ → Except Decline Doc} {readsAt : ℤ → List ℤ} {indent : Bool}
    {level : ℕ} {item : ℤ → Walk a Unit} (l : Leaves) (last : Bool)
    (hitem : ∀ q w, Walked (docAt q) indent (level + 1) (readsAt q) w (item q)) (p stride : ℤ)
    (k i : ℕ) (w : WalkSt a) :
    Run.wp (fun _ => False) (rowLoop l indent last level item p stride i k)
      (fun _ w' => ∃ docs, (rowAddresses (p + i * stride) k stride).mapM docAt = .ok docs ∧
        w'.out.content = w.out.content ++ itemsText indent (level + 1) (i = 0) docs ∧
        w'.reads = w.reads ++ (rowAddresses (p + i * stride) k stride).flatMap readsAt)
      (fun reason w' => (rowAddresses (p + i * stride) k stride).mapM docAt = .error reason ∧
        ∃ t, w'.out.content = w.out.content ++ t) w := by
  induction k generalizing i w with
  | zero => exact ⟨[], rfl, by simp [itemsText], by simp [rowAddresses]⟩
  | succ k ih =>
      have hnext : p + (i : ℤ) * stride + stride = p + ((i + 1 : ℕ) : ℤ) * stride := by
        push_cast
        ring
      refine wp_rowLoop_succ fun w1 hreads hout => ?_
      rw [rowAddresses_succ, hnext, List.mapM_cons, List.flatMap_cons]
      refine (hitem (p + (i : ℤ) * stride) w1).mono ?_ ?_ fun _ h => h
      · rintro _ w2 ⟨doc, hdoc, hc2, hr2⟩
        refine (ih (i + 1) w2).mono ?_ ?_ fun _ h => h
        · rintro _ w3 ⟨docs, hdocs, hc3, hr3⟩
          refine ⟨doc :: docs, by rw [hdoc, hdocs]; rfl, ?_, ?_⟩
          · rw [hc3, hc2, hout, itemsText]
            simp
          · rw [hr3, hr2, hreads, List.append_assoc]
        · rintro reason w3 ⟨hdocs, t, hc3⟩
          refine ⟨by rw [hdoc, hdocs]; rfl, ?_⟩
          exact ⟨_, by rw [hc3, hc2, hout, List.append_assoc, List.append_assoc]⟩
      · rintro reason w2 ⟨hdoc, t, hc2⟩
        exact ⟨by rw [hdoc]; rfl, _, by rw [hc2, hout, List.append_assoc]⟩

/-- The items of a compact row of leaves. -/
lemma itemsText_leaves (level : ℕ) (first : Bool) (texts : List Bytes) :
    itemsText false level first (texts.map .leaf) = rowItems first texts := by
  induction texts generalizing first with
  | nil => cases first <;> rfl
  | cons t texts ih => rw [List.map_cons, itemsText, ih, rowItems_cons]; simp [Doc.render, sep]

/-- A row of texts that are all there. -/
lemma mapM_ok {α β : Type} {ε : Type} {f : α → Except ε β} {g : α → β} (h : ∀ x, f x = .ok (g x))
    (l : List α) : l.mapM f = .ok (l.map g) := by
  induction l with
  | nil => rfl
  | cons x l ih => rw [List.mapM_cons, h, ih]; rfl

lemma mapM_cons_ok {α β : Type} {ε : Type} {f : α → Except ε β} {x : α} {l : List α} {ys : List β}
    (h : (x :: l).mapM f = .ok ys) :
    ∃ z zs, f x = .ok z ∧ l.mapM f = .ok zs ∧ ys = z :: zs := by
  rw [List.mapM_cons] at h
  cases hx : f x with
  | error e => rw [hx] at h; exact absurd h (by simp [bind, Except.bind])
  | ok z =>
      cases hl : l.mapM f with
      | error e => rw [hx, hl] at h; exact absurd h (by simp [bind, Except.bind])
      | ok zs =>
          rw [hx, hl] at h
          exact ⟨z, zs, rfl, rfl, (Except.ok.inj h).symm⟩

/-- A compact integer row. -/
lemma Leaves.intRow_spec {l : Leaves} (h : l.elem.isInt = true) (memory : ℤ → UInt8) (level : ℕ)
    (p : ℤ) (n : ℕ) (stride : ℤ) (w : WalkSt a) :
    Walked (arrayDoc (l.textAt memory) [(n + 1, stride)] p) false level
      (elementAddresses [(n + 1, stride)] p) w (l.intRow memory p (n + 1) stride) := by
  have hdoc : ∀ q, arrayDoc (l.textAt memory) [] q = .ok (.leaf (l.intText memory q)) := by
    intro q
    rw [arrayDoc, l.textAt_of_isInt h]
    rfl
  have htexts : ∃ t texts, l.rowTexts memory p (n + 1) stride = t :: texts := by
    rw [Leaves.rowTexts, rowAddresses_succ]
    exact ⟨_, _, rfl⟩
  unfold Walked Leaves.intRow
  simp only [Run.wp_bind, Run.wp_modify, wp_put]
  refine ⟨.arr ((rowAddresses p (n + 1) stride).map fun q => .leaf (l.intText memory q)), ?_, ?_, ?_⟩
  · rw [arrayDoc, mapM_ok hdoc]
    rfl
  · obtain ⟨t, texts, ht⟩ := htexts
    have hleaves : (rowAddresses p (n + 1) stride).map (fun q => Doc.leaf (l.intText memory q)) =
        Doc.leaf t :: texts.map .leaf := by
      rw [← List.map_cons, ← ht, Leaves.rowTexts, List.map_map]
      rfl
    refine (Buffer.content_writeIntRow ..).trans ?_
    rw [hleaves, Doc.render, ht, ← itemsText_leaves (level + 1), List.map_cons]
    simp [sep]
  · rw [elementAddresses, show elementAddresses [] = fun q => [q] from funext fun q => rfl,
      List.flatMap_singleton']

/-- **The walk** writes the layout of the array's document and reads each element once, in
row-major order, or declines the first element that has no text. -/
lemma walk_spec (l : Leaves) (hunit : UnitInRange l.unit) (memory : ℤ → UInt8) (indent : Bool)
    {dims : List (ℕ × ℤ)} (hdims : dims ≠ []) (level : ℕ) (p : ℤ) (w : WalkSt a) :
    Walked (arrayDoc (l.textAt memory) dims p) indent level (elementAddresses dims p) w
      (walk l memory indent level dims p) := by
  induction dims generalizing level p w with
  | nil => exact absurd rfl hdims
  | cons dim rest ih =>
      obtain ⟨_ | n, stride⟩ := dim
      · refine ⟨.arr [], rfl, ?_, (List.append_nil _).symm⟩
        simp [Doc.render]
      · have hitem : ∀ q (w : WalkSt a), Walked (arrayDoc (l.textAt memory) rest q) indent (level + 1)
            (elementAddresses rest q) w
            ((if rest.isEmpty then l.leaf memory else walk l memory indent (level + 1) rest) q) := by
          intro q w
          cases rest with
          | nil => exact l.leaf_spec hunit memory indent (level + 1) q w
          | cons d rest => exact ih (List.cons_ne_nil d rest) (level + 1) q w
        rw [walk]
        split
        · next hrow =>
          simp only [Bool.and_eq_true, List.isEmpty_iff, Bool.not_eq_true'] at hrow
          obtain ⟨⟨rfl, rfl⟩, hint⟩ := hrow
          exact l.intRow_spec hint memory level p n stride w
        · unfold Walked
          simp only [Run.wp_bind, wp_put]
          refine (rowLoop_spec l rest.isEmpty hitem p stride (n + 1) 0 _).mono ?_ ?_ fun _ h => h
          · rintro _ w2 ⟨docs, hdocs, hc, hr⟩
            simp only [Nat.cast_zero, zero_mul, add_zero] at hdocs hr
            have hdoc : arrayDoc (l.textAt memory) ((n + 1, stride) :: rest) p = .ok (.arr docs) := by
              rw [arrayDoc, hdocs]
              rfl
            rw [rowAddresses_succ] at hdocs
            obtain ⟨d, ds, -, -, rfl⟩ := mapM_cons_ok hdocs
            have hclose : w2.out.content = w.out.content ++
                ([91] ++ itemsText indent (level + 1) true (d :: ds)) := by
              rw [hc, Buffer.content_push, List.append_assoc]
              rfl
            cases indent <;> simp only [Run.wp_bind, wp_put, if_true, if_false, Bool.false_eq_true]
            · refine ⟨_, hdoc, ?_, hr⟩
              rw [Buffer.content_push, hclose, Doc.render]
              simp [sep]
            · refine ⟨_, hdoc, ?_, hr⟩
              rw [Buffer.content_push, Env.content_newlineIndent, hclose, Doc.render]
              simp [List.append_assoc]
          · rintro reason w2 ⟨hdocs, t, hc⟩
            simp only [Nat.cast_zero, zero_mul, add_zero] at hdocs
            refine ⟨by rw [arrayDoc, hdocs]; rfl, [91] ++ t, ?_⟩
            rw [hc, Buffer.content_push, List.append_assoc]

/-! ## Units that a dtype string can give -/

lemma unitInRange_of_parseDt64 {s : Bytes} {u : Dt64Unit} (h : parseDt64 s = some u) :
    UnitInRange (some u) := by
  rintro _ ⟨⟩
  cases (parseDt64_iff s u).mp h with
  | generic hc => exact ⟨le_rfl, (by decide : (1 : ℤ) ≤ i64Max)⟩
  | unit hc hnum hcode => exact hnum.bounds

/-! ## The walk over an array -/

section Arrays

open Run

variable {Obj H : Type}

namespace Env

variable (e : Env Obj H)

/-- The leaves of a walk in this call. -/
def leaves (elem : ElementType) (unit : Option Dt64Unit) : Leaves := ⟨e.fmt, e.opts, elem, unit⟩

/-- The document of an array. -/
def documentOf (iface : PyArrayInterface) (elem : ElementType) (unit : Option Dt64Unit) (h : H) :
    Except Decline Doc :=
  arrayDoc ((e.leaves elem unit).textAt (e.rt.memory h)) (iface.shape.zip iface.strides) iface.data

/-- **The walk over an array** appends the layout of its document at the encoder's depth, or
declines it and leaves the output as it was. -/
lemma walkArray_spec (iface : PyArrayInterface) (elem : ElementType) {unit : Option Dt64Unit}
    (hnd : 0 < iface.nd) (hunit : UnitInRange unit) (s : St Obj H a) :
    (∃ doc out, e.documentOf iface elem unit s.world.heap = .ok doc ∧
      e.walkArray iface elem unit s = .ok none (s.written out) ∧
      out.content = s.out.content ++ doc.render e.indent s.depth) ∨
    ∃ reason out, e.documentOf iface elem unit s.world.heap = .error reason ∧
      e.walkArray iface elem unit s = .ok (some reason) (s.written out) ∧
      out.content = s.out.content := by
  have hdims : iface.shape.zip iface.strides ≠ [] := by
    have hshape := iface.length_shape
    have hstrides := iface.length_strides
    intro hnil
    have hlen := congrArg List.length hnil
    rw [List.length_zip, List.length_nil] at hlen
    omega
  have hwalk := walk_spec (e.leaves elem unit) hunit (e.rt.memory s.world.heap) e.indent hdims
    s.depth iface.data ⟨s.out, []⟩
  unfold walkArray documentOf
  rcases hwalk.cases with ⟨_, w, hrun, doc, hdoc, hc, -⟩ | ⟨reason, w, hrun, hdoc, t, hc⟩
  · refine Or.inl ⟨doc, w.out, hdoc, ?_, hc⟩
    rw [leaves] at hrun
    rw [hrun]
  · obtain ⟨out, hcut, hout⟩ := w.out.truncate?_spec (n := s.out.content.length)
      (by rw [hc, List.length_append]; exact Nat.le_add_right _ _)
    refine Or.inr ⟨reason, out, hdoc, ?_, ?_⟩
    · rw [leaves] at hrun
      rw [hrun]
      simp only [hcut]
    · rw [hout, hc]
      exact List.take_left

end Env

end Arrays

end Isojson
