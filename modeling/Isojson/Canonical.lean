import Isojson.Meaning
import Isojson.Restored

/-!
# The text of a value

A tree of builtin values has one text under given options (`Value.doc`).  `dumps` returns that text for
whatever object shows the value, whatever `default` it was given.

Two values have the same text if and only if the same value comes back for both.
-/

namespace Isojson

open Json Run

/-! ## The document of a value -/

/-- Members in the order of their keys' code points, with `OPT_SORT_KEYS`. -/
def byKey {α : Type} (sorted : Bool) (ms : List (Value × α)) : List (Value × α) :=
  if sorted then ms.mergeSort fun x y => decide (x.1.chars?.getD [] ≤ y.1.chars?.getD []) else ms

/-- The text of a member's key. -/
def keyed (m : Value × Doc) : Bytes × Doc := (quoted (m.1.chars?.getD []), m.2)

section Doc

variable (fmt : Formats) (sorted : Bool)

mutual

/-- The document of a value. -/
def Value.doc : Value → Doc
  | .none => .leaf (Bytes.ascii "null")
  | .bool b => .leaf (if b then Bytes.ascii "true" else Bytes.ascii "false")
  | .int z => .leaf (Decimal.intText z)
  | .float bits => .leaf (Buffer.f64Text fmt bits)
  | .str s => .leaf (quoted s)
  | .list vs => .arr (itemDocs vs)
  | .tuple vs => .arr (itemDocs vs)
  | .dict es => .obj ((byKey sorted (entryDocs es)).map keyed)

def itemDocs : List Value → List Doc
  | [] => []
  | v :: vs => v.doc :: itemDocs vs

def entryDocs : List (Value × Value) → List (Value × Doc)
  | [] => []
  | (k, v) :: es => (k, v.doc) :: entryDocs es

end

lemma itemDocs_eq (vs : List Value) : itemDocs fmt sorted vs = vs.map (Value.doc fmt sorted) := by
  induction vs with
  | nil => rfl
  | cons v vs ih => rw [itemDocs, ih, List.map_cons]

lemma entryDocs_eq (es : List (Value × Value)) :
    entryDocs fmt sorted es = es.map fun e => (e.1, e.2.doc fmt sorted) := by
  induction es with
  | nil => rfl
  | cons e es ih => rw [entryDocs, ih, List.map_cons]

/-- The order goes by the keys alone. -/
lemma entryDocs_inOrder (es : List (Value × Value)) :
    entryDocs fmt sorted (inOrder sorted es) = byKey sorted (entryDocs fmt sorted es) := by
  rw [entryDocs_eq, entryDocs_eq]
  unfold inOrder byKey
  cases sorted with
  | false => rfl
  | true => exact List.map_mergeSort fun _ _ _ _ => rfl

end Doc

/-- The member of an entry. -/
def Value.member (fmt : Formats) (sorted : Bool) (e : Value × Value) : Bytes × Doc :=
  (quoted (e.1.chars?.getD []), e.2.doc fmt sorted)

lemma members_eq (fmt : Formats) (sorted : Bool) (es : List (Value × Value)) :
    (byKey sorted (entryDocs fmt sorted es)).map keyed =
      (inOrder sorted es).map (Value.member fmt sorted) := by
  rw [← entryDocs_inOrder, entryDocs_eq, List.map_map]
  rfl

/-! ### The value that comes back -/

lemma byKey_byKey {α : Type} (sorted : Bool) (ms : List (Value × α)) :
    byKey sorted (byKey sorted ms) = byKey sorted ms := by
  unfold byKey
  cases sorted with
  | false => rfl
  | true =>
      refine List.mergeSort_of_pairwise (List.pairwise_mergeSort ?_ ?_ ms)
      · intro x y z hxy hyz
        rw [decide_eq_true_eq] at hxy hyz ⊢
        exact le_trans hxy hyz
      · intro x y
        rw [Bool.or_eq_true, decide_eq_true_eq, decide_eq_true_eq]
        exact le_total _ _

section Restored

variable (fmt : Formats) (sorted : Bool)

mutual

/-- What comes back has the same document. -/
theorem Value.doc_restored : ∀ v : Value, (v.restored sorted).doc fmt sorted = v.doc fmt sorted
  | .none => rfl
  | .bool _ => rfl
  | .int _ => rfl
  | .float bits => by
      rw [Value.restored, Value.doc, Buffer.f64Text]
      split
      · next hfin => rw [Value.doc, Buffer.f64Text, if_pos hfin]
      · rfl
  | .str _ => rfl
  | .list vs => congrArg Doc.arr (itemDocs_restored vs)
  | .tuple vs => congrArg Doc.arr (itemDocs_restored vs)
  | .dict es => by
      rw [Value.restored, Value.doc, Value.doc, entryDocs_inOrder, byKey_byKey, entryDocs_restored es]

lemma itemDocs_restored : ∀ vs : List Value,
    itemDocs fmt sorted (itemsRestored sorted vs) = itemDocs fmt sorted vs
  | [] => rfl
  | v :: vs => congrArg₂ List.cons v.doc_restored (itemDocs_restored vs)

lemma entryDocs_restored : ∀ es : List (Value × Value),
    entryDocs fmt sorted (entriesRestored sorted es) = entryDocs fmt sorted es
  | [] => rfl
  | (k, v) :: es =>
      congrArg₂ List.cons (congrArg (Prod.mk k) v.doc_restored) (entryDocs_restored es)

end

variable {strict : Bool} {limit : ℕ}

mutual

/-- What comes back fits as well. -/
lemma Value.fits_restored : ∀ {v : Value} {d : ℕ}, v.Fits strict limit d →
    (v.restored sorted).Fits strict limit d
  | .none, _, _ => trivial
  | .bool _, _, _ => trivial
  | .int _, _, h => h
  | .float _, _, _ => by
      rw [Value.restored]
      split <;> trivial
  | .str _, _, h => h
  | .list _, _, h => ⟨h.1, itemsFit_restored h.2⟩
  | .tuple _, _, h => ⟨h.1, itemsFit_restored h.2⟩
  | .dict es, d, h => by
      have hfit : entriesFit strict limit (d + 1) (entriesRestored sorted es) := entriesFit_restored h.2
      rw [entriesFit_iff] at hfit
      refine ⟨h.1, (entriesFit_iff ..).mpr fun e he => ?_⟩
      exact hfit e ((inOrder_perm sorted _).mem_iff.mp he)

lemma itemsFit_restored : ∀ {vs : List Value} {d : ℕ}, itemsFit strict limit d vs →
    itemsFit strict limit d (itemsRestored sorted vs)
  | [], _, _ => trivial
  | _ :: _, _, h => ⟨Value.fits_restored h.1, itemsFit_restored h.2⟩

lemma entriesFit_restored : ∀ {es : List (Value × Value)} {d : ℕ}, entriesFit strict limit d es →
    entriesFit strict limit d (entriesRestored sorted es)
  | [], _, _ => trivial
  | (_, _) :: _, _, h => ⟨h.1, Value.fits_restored h.2.1, entriesFit_restored h.2.2⟩

end

end Restored

/-! ## Objects that show a value -/

variable {Obj H : Type} {a : Allocator}

namespace Env

variable {e : Env Obj H} {sc : Scene Obj H} {float : Bytes → UInt64 → Prop} {limit d k : ℕ}

/-- The shape of an object of a builtin type. -/
def builtinShape (e : Env Obj H) (h : H) (obj : Obj) : Builtin Obj → Shape Obj
  | .none => .whole (.leaf (Bytes.ascii "null"))
  | .bool b => .whole (.leaf (if b then Bytes.ascii "true" else Bytes.ascii "false"))
  | .int z => e.intShape h obj z
  | .float bits => .whole (.leaf (Buffer.f64Text e.fmt bits))
  | .str s => textShape s
  | .list items => .array items
  | .tuple items => .array items
  | .dict slots => e.dictShape h slots

lemma shape_of_builtin [DecidableEq Obj] {o : Obj} {b : Builtin Obj}
    (hb : e.rt.builtin sc.heap o = some b) : e.shape sc o = e.builtinShape sc.heap o b := by
  obtain ⟨hcls, hbody⟩ := Runtime.builtin_laidOut hb
  unfold shape
  dsimp only
  rw [hcls]
  cases b with
  | str s =>
      obtain ⟨t, ht, rfl⟩ := hbody
      rw [ht]
      rfl
  | tuple items =>
      rw [hbody.1, hbody.2]
      rfl
  | _ =>
      rw [show (e.rt.view sc.heap o).body = _ from hbody]
      rfl

open Reading Reader

/-- An integer is written in decimal if it fits. -/
lemma settles_int (hrt : e.rt.SideEffectFree) (htrees : e.WritesTrees (fun h => h = sc.heap) float limit)
    {o : Obj} {z : ℤ} (hobj : (e.rt.view sc.heap o).body = .int z) (r : Reader Obj)
    (self : ℕ → ℕ → Obj → Reading Obj Doc) :
    (r.readShape self d k o (e.intShape sc.heap o z)).Settles (IntFits e.strict limit z)
      (.leaf (Decimal.intText z)) := by
  -- the conversion of an integer beyond 64 bits
  have hconverts := htrees.converts o ⟨sc.heap, ⟨none, none⟩⟩ z rfl hobj
  have hdigits := htrees.digits o ⟨sc.heap, ⟨none, none⟩⟩
  simp only [hrt.reply_eq, Prod.mk.injEq, exists_and_left, exists_eq', and_true] at hconverts hdigits
  unfold IntFits intShape
  by_cases hstrict : e.strict = true
  · rw [if_pos hstrict]
    by_cases hz : Within53Bits z
    · have h64 : i64Min ≤ z ∧ z ≤ u64Max := ⟨hz.within64.1, hz.within64.2.trans (by decide)⟩
      rw [if_neg fun h => h.2 (within53Bits_iff.mp hz), if_pos h64, htrees.itoa z h64]
      exact settles_pure hz
    · rw [if_pos ⟨hstrict, mt within53Bits_iff.mpr hz⟩]
      exact settles_fail hz
  · rw [if_neg hstrict, if_neg fun h => hstrict h.1]
    by_cases h64 : Within64Bits z
    · rw [if_pos (show i64Min ≤ z ∧ z ≤ u64Max from h64), htrees.itoa z h64]
      exact settles_pure (Or.inl h64)
    · rw [if_neg (show ¬ (i64Min ≤ z ∧ z ≤ u64Max) from h64), or_iff_right h64, ← hconverts h64]
      cases hanswer : e.rt.answer sc.heap (.toBase o 10) with
      | ok text =>
          obtain ⟨o', ho'⟩ := hdigits text _ ⟨hanswer, rfl⟩
          dsimp only
          rw [ho']
          exact settles_pure ⟨text, rfl⟩
      | raised exc =>
          refine settles_fail ?_
          rintro ⟨text, htext⟩
          exact absurd htext (by simp)

/-- A text is written if it has no surrogates. -/
lemma settles_text (s : List ℕ) (o : Obj) (r : Reader Obj) (self : ℕ → ℕ → Obj → Reading Obj Doc) :
    (r.readShape self d k o (textShape s)).Settles (Value.str s).IsText (.leaf (quoted s)) := by
  have hiff : (Value.str s).IsText ↔ ¬ (s.any fun c => decide (Utf8.IsSurrogate c)) = true := by
    simp [Value.IsText, Writable, Value.chars?]
  unfold textShape
  by_cases hs : (s.any fun c => decide (Utf8.IsSurrogate c)) = true
  · rw [if_pos hs]
    exact settles_fail (not_not.mpr hs ∘ hiff.mp)
  · rw [if_neg hs]
    exact settles_pure (hiff.mpr hs)

section Containers

variable [DecidableEq Obj]

variable (e sc limit) in
/-- The object is read as the value. -/
def ReadAs (o : Obj) (v : Value) : Prop :=
  ∀ d k, ((e.reader sc).read d k o).Settles (v.Fits e.strict limit d) (v.doc e.fmt e.sorted)

/-- A sequence of objects that are read as values. -/
lemma settles_array (hmax : e.maxDepth = MAX_DEPTH) {items : List Obj} {vs : List Value}
    (h : List.Forall₂ (ReadAs e sc limit) items vs) (o : Obj) :
    ((e.reader sc).readShape (e.reader sc).read d k o (.array items)).Settles
      (d + 1 ≤ MAX_DEPTH ∧ itemsFit e.strict limit (d + 1) vs) (.arr (itemDocs e.fmt e.sorted vs)) := by
  have hitems := settles_each (h.imp fun _ _ h => h (d + 1) k)
  rw [← itemDocs_eq] at hitems
  refine (settles_inside (hitems.map Doc.arr)).congr ?_
  rw [show (e.reader sc).maxDepth = MAX_DEPTH from hmax, itemsFit_iff, Nat.succ_le_iff]

/-- An entry that is read as a key and a value. -/
structure EntryReadAs (e : Env Obj H) (sc : Scene Obj H) (limit : ℕ) (kv : Entry Obj) (x : Value × Value) :
    Prop where
  key : e.rt.strChars sc.heap kv.1 = x.1.chars?
  value : ReadAs e sc limit kv.2 x.2

lemma EntryReadAs.good {kv : Entry Obj} {x : Value × Value} (h : EntryReadAs e sc limit kv x) :
    e.goodKey sc.heap kv.1 = true ↔ x.1.IsText := by
  unfold goodKey
  rw [Option.isNone_iff_eq_none, keyError_eq_none, h.key]
  rfl

/-- The members of entries that are read as keys and values. -/
lemma settles_members {kvs : List (Entry Obj)} {es : List (Value × Value)}
    (h : List.Forall₂ (EntryReadAs e sc limit) kvs es) :
    (each (readMember ((e.reader sc).read (d + 1) k)) (kvs.map (e.member sc.heap))).Settles
      (∀ x ∈ es, x.2.Fits e.strict limit (d + 1)) (es.map (Value.member e.fmt e.sorted)) := by
  refine settles_each (List.forall₂_map_left_iff.mpr (h.imp fun kv x hx => ?_))
  have hmember := (hx.value (d + 1) k).map fun doc => ((e.member sc.heap kv).1, doc)
  unfold member at hmember
  rw [hx.key] at hmember
  unfold member readMember
  rw [hx.key]
  exact hmember

/-- The keys can be written. -/
lemma goodKeys_iff {kvs : List (Entry Obj)} {es : List (Value × Value)}
    (h : List.Forall₂ (EntryReadAs e sc limit) kvs es) :
    (kvs.all fun kv => e.goodKey sc.heap kv.1) = true ↔ ∀ x ∈ es, x.1.IsText := by
  induction h with
  | nil => exact iff_of_true rfl fun x hx => absurd hx List.not_mem_nil
  | cons hx _ ih => rw [List.all_cons, Bool.and_eq_true, hx.good, ih, List.forall_mem_cons]

/-- An object without a bad key, in the order that it is written in. -/
lemma settles_complete (hmax : e.maxDepth = MAX_DEPTH) {kvs : List (Entry Obj)}
    {es : List (Value × Value)} (h : List.Forall₂ (EntryReadAs e sc limit) kvs (inOrder e.sorted es))
    (hkeys : ∀ x ∈ es, x.1.IsText) (o : Obj) :
    ((e.reader sc).readShape (e.reader sc).read d k o (.object (kvs.map (e.member sc.heap)) true)).Settles
      (d + 1 ≤ MAX_DEPTH ∧ entriesFit e.strict limit (d + 1) es)
      ((Value.dict es).doc e.fmt e.sorted) := by
  have hmembers := settles_members (d := d) (k := k) h
  have hobject := settles_inside (r := e.reader sc) (d := d) (hmembers.map Doc.obj)
  rw [← members_eq] at hobject
  refine hobject.congr ?_
  have hfits : (∀ x ∈ inOrder e.sorted es, x.2.Fits e.strict limit (d + 1)) ↔
      entriesFit e.strict limit (d + 1) es := by
    rw [entriesFit_iff]
    refine forall_congr' fun x => ?_
    rw [(inOrder_perm _ es).mem_iff]
    exact forall_congr' fun hx => (and_iff_right (hkeys x hx)).symm
  rw [hfits, show (e.reader sc).maxDepth = MAX_DEPTH from hmax, Nat.succ_le_iff]

/-- An object with a bad key is read in no way. -/
lemma settles_incomplete {kvs : List (Entry Obj)} {es es' : List (Value × Value)}
    (h : List.Forall₂ (EntryReadAs e sc limit) kvs es) (hkeys : ¬ ∀ x ∈ es', x.1.IsText) (o : Obj) :
    ((e.reader sc).readShape (e.reader sc).read d k o
      (.object (kvs.map (e.member sc.heap)) false)).Settles
      (d + 1 ≤ MAX_DEPTH ∧ entriesFit e.strict limit (d + 1) es')
      ((Value.dict es').doc e.fmt e.sorted) := by
  have hunfit : ¬ (d + 1 ≤ MAX_DEPTH ∧ entriesFit e.strict limit (d + 1) es') := fun hfit =>
    hkeys fun x hx => ((entriesFit_iff ..).mp hfit.2 x hx).1
  have hmembers := settles_members (d := d) (k := k) h
  have hfail : (e.reader sc).readShape (e.reader sc).read d k o
      (.object (kvs.map (e.member sc.heap)) false) = (e.reader sc).inside d fail :=
    congrArg ((e.reader sc).inside d) hmembers.then_fail
  rw [hfail]
  exact (settles_inside (settles_fail not_false)).congr (iff_of_false (fun h => h.2) hunfit)

/-- A dict of such entries. -/
lemma settles_dict (hmax : e.maxDepth = MAX_DEPTH) {slots : List (Option (Entry Obj))}
    {es : List (Value × Value)} (h : List.Forall₂ (EntryReadAs e sc limit) slots.reduceOption es)
    (o : Obj) :
    ((e.reader sc).readShape (e.reader sc).read d k o (e.dictShape sc.heap slots)).Settles
      (d + 1 ≤ MAX_DEPTH ∧ entriesFit e.strict limit (d + 1) es)
      ((Value.dict es).doc e.fmt e.sorted) := by
  have hgood := goodKeys_iff h
  unfold dictShape
  dsimp only
  by_cases hsort : hasOpt e.opts optSortKeys = true
  · rw [if_pos hsort]
    by_cases hkeys : ∀ x ∈ es, x.1.IsText
    · rw [if_pos (hgood.mpr hkeys)]
      refine settles_complete hmax ?_ hkeys o
      have hsorted : e.sorted = true := hsort
      unfold inOrder sortByKey
      rw [hsorted, if_pos rfl]
      refine forall₂_mergeSort h fun x y x' y' hx hy => ?_
      rw [hx.key, hy.key]
    · rw [if_neg (mt hgood.mp hkeys)]
      exact settles_incomplete .nil hkeys o
  · rw [if_neg hsort]
    by_cases hkeys : ∀ x ∈ es, x.1.IsText
    · rw [hgood.mpr hkeys, List.takeWhile_eq_self_iff.mpr (List.all_eq_true.mp (hgood.mpr hkeys))]
      refine settles_complete hmax ?_ hkeys o
      have hsorted : e.sorted = false := Bool.eq_false_of_not_eq_true hsort
      unfold inOrder
      rw [hsorted, if_neg Bool.false_ne_true]
      exact h
    · rw [Bool.eq_false_of_not_eq_true (mt hgood.mp hkeys)]
      have hprefix := List.takeWhile_prefix (l := slots.reduceOption) fun kv => e.goodKey sc.heap kv.1
      rw [List.prefix_iff_eq_take.mp hprefix]
      exact settles_incomplete (List.forall₂_take _ h) hkeys o

/-- An object of a builtin type by its shape. -/
lemma readAs_of_shape {o : Obj} {b : Builtin Obj} {v : Value} (hb : e.rt.builtin sc.heap o = some b)
    (h : ∀ d k, ((e.reader sc).readShape (e.reader sc).read d k o (e.builtinShape sc.heap o b)).Settles
      (v.Fits e.strict limit d) (v.doc e.fmt e.sorted)) : ReadAs e sc limit o v := by
  intro d k
  rw [Reader.read_eq, step, show (e.reader sc).shape o = e.shape sc o from rfl, shape_of_builtin hb]
  exact h d k

mutual

/-- **An object is read as the value that it shows.** -/
theorem readAs_shown (hrt : e.rt.SideEffectFree)
    (htrees : e.WritesTrees (fun h => h = sc.heap) float limit) (hmax : e.maxDepth = MAX_DEPTH) :
    ∀ {o : Obj} {v : Value}, Shows e.rt (fun h => h = sc.heap) o v → ReadAs e sc limit o v
  | _, _, .intro hb hv => readAs_holds hrt htrees hmax hv (hb _ rfl)

theorem readAs_holds (hrt : e.rt.SideEffectFree)
    (htrees : e.WritesTrees (fun h => h = sc.heap) float limit) (hmax : e.maxDepth = MAX_DEPTH) :
    ∀ {b : Builtin Obj} {v : Value}, Holds e.rt (fun h => h = sc.heap) b v → ∀ {o : Obj},
    e.rt.builtin sc.heap o = some b → ReadAs e sc limit o v
  | _, _, .none, _, hb => readAs_of_shape hb fun _ _ => settles_pure trivial
  | _, _, .bool _, _, hb => readAs_of_shape hb fun _ _ => settles_pure trivial
  | _, _, .int _, _, hb => readAs_of_shape hb fun _ _ =>
      settles_int hrt htrees (Runtime.builtin_laidOut hb).2 _ _
  | _, _, .float _, _, hb => readAs_of_shape hb fun _ _ => settles_pure trivial
  | _, _, .str s, _, hb => readAs_of_shape hb fun _ _ => settles_text s _ _ _
  | _, _, .list hs, _, hb => readAs_of_shape hb fun _ _ =>
      settles_array hmax (readAs_all hrt htrees hmax hs) _
  | _, _, .tuple hs, _, hb => readAs_of_shape hb fun _ _ =>
      settles_array hmax (readAs_all hrt htrees hmax hs) _
  | _, _, .dict hs, _, hb => readAs_of_shape hb fun _ _ =>
      settles_dict hmax (readAs_entries hrt htrees hmax hs) _

theorem readAs_all (hrt : e.rt.SideEffectFree)
    (htrees : e.WritesTrees (fun h => h = sc.heap) float limit) (hmax : e.maxDepth = MAX_DEPTH) :
    ∀ {os : List Obj} {vs : List Value}, ShowAll e.rt (fun h => h = sc.heap) os vs →
    List.Forall₂ (ReadAs e sc limit) os vs
  | _, _, .nil => .nil
  | _, _, .cons h hs => .cons (readAs_shown hrt htrees hmax h) (readAs_all hrt htrees hmax hs)

theorem readAs_entries (hrt : e.rt.SideEffectFree)
    (htrees : e.WritesTrees (fun h => h = sc.heap) float limit) (hmax : e.maxDepth = MAX_DEPTH) :
    ∀ {kvs : List (Entry Obj)} {es : List (Value × Value)},
    ShowEntries e.rt (fun h => h = sc.heap) kvs es → List.Forall₂ (EntryReadAs e sc limit) kvs es
  | _, _, .nil => .nil
  | _, _, .cons hk hv hs =>
      .cons ⟨hk.strChars rfl, readAs_shown hrt htrees hmax hv⟩ (readAs_entries hrt htrees hmax hs)

end

end Containers

/-! ### Values with documents -/

section Renders

variable {W : H → Prop}

/-- The members of entries with keys and values that have documents. -/
lemma memberOf_inOrder {h : H} (hW : W h) {kvs : List (Entry Obj)} {es : List (Value × Value)}
    (hs : List.Forall₂ (ShowsEntry e.rt W) kvs es)
    (hfit : entriesFit e.strict limit d es)
    (hdocs : ∀ x ∈ es, x.2.Fits e.strict limit d → e.Renders float limit d x.2 (x.2.doc e.fmt e.sorted)) :
    List.Forall₂ (MemberOf (e.rt.strChars h) (e.ShownDoc W float limit d)) kvs
      (es.map fun x => (x.1.chars?.getD [], x.2.doc e.fmt e.sorted)) := by
  rw [List.forall₂_map_right_iff]
  induction hs with
  | nil => exact .nil
  | @cons kv x _ _ hkv _ ih =>
      obtain ⟨⟨s, hkey⟩, hvalue, hfits⟩ := hfit
      obtain ⟨hdoc, hdocs⟩ := List.forall_mem_cons.mp hdocs
      refine .cons ⟨?_, _, hkv.2, hdoc hvalue⟩ (ih hfits hdocs)
      rw [hkv.1.strChars hW]
      show Writable x.1.chars? (x.1.chars?.getD [])
      rw [hkey.1]
      exact ⟨rfl, hkey.2⟩

mutual

/-- **A value has the document of its tree**, if it fits. -/
theorem renders_shown (htrees : e.WritesTrees W float limit) {h : H} (hW : W h) :
    ∀ {o : Obj} {v : Value}, Shows e.rt W o v → ∀ {d : ℕ}, v.Fits e.strict limit d →
    e.Renders float limit d v (v.doc e.fmt e.sorted)
  | _, _, .intro hb hv => renders_holds htrees hW hv hb

theorem renders_holds (htrees : e.WritesTrees W float limit) {h : H} (hW : W h) :
    ∀ {b : Builtin Obj} {v : Value}, Holds e.rt W b v → ∀ {o : Obj},
    (∀ h, W h → e.rt.builtin h o = some b) → ∀ {d : ℕ}, v.Fits e.strict limit d →
    e.Renders float limit d v (v.doc e.fmt e.sorted)
  | _, _, .none, _, _, _, hfit => ⟨hfit, _, .leaf .null, .none⟩
  | _, _, .bool true, _, _, _, hfit => ⟨hfit, _, .leaf .true, .bool true⟩
  | _, _, .bool false, _, _, _, hfit => ⟨hfit, _, .leaf .false, .bool false⟩
  | _, _, .int z, _, _, _, hfit => ⟨hfit, _, .leaf (.number (isNumber_intText z)), .int z⟩
  | _, _, .float bits, _, _, _, hfit => by
      rw [Value.doc, Buffer.f64Text]
      by_cases hfin : isFinite64 bits = true
      · rw [if_pos hfin]
        obtain ⟨hnumber, hfloat⟩ := htrees.zmij bits hfin
        exact ⟨hfit, _, .leaf (.number hnumber), .float hfin hfloat⟩
      · rw [if_neg hfin]
        exact ⟨hfit, _, .leaf .null, .notFinite (Bool.eq_false_of_not_eq_true hfin)⟩
  | _, _, .str s, _, hb, _, hfit => by
      obtain ⟨s', hs'⟩ := hfit
      obtain rfl : s = s' := Option.some.inj hs'.1
      have hchars := (Shows.intro hb (.str s)).strChars hW
      have hstring : IsString (quoted s) s := isString_of_writable (e := e) ⟨hchars, hs'.2⟩
      exact ⟨⟨s, hs'⟩, _, .leaf (.string hstring), .str s⟩
  | _, _, .list hs, _, _, _, hfit => by
      obtain ⟨-, ns, hns, hden⟩ := renders_items hW hs.forall₂ (renders_all htrees hW hs hfit.2)
      exact ⟨hfit, _, .arr hns, .list hden⟩
  | _, _, .tuple hs, _, _, _, hfit => by
      obtain ⟨-, ns, hns, hden⟩ := renders_items hW hs.forall₂ (renders_all htrees hW hs hfit.2)
      exact ⟨hfit, _, .arr hns, .tuple hden⟩
  | _, _, @Holds.dict _ _ _ _ _ es hs, _, _, d, hfit => by
      have hordered := shows_inOrder hW hs.forall₂
      have hfits : entriesFit e.strict limit (d + 1) (inOrder e.sorted es) :=
        (entriesFit_inOrder e.sorted).mpr hfit.2
      have hdocs := renders_entries htrees hW hs (d := d + 1)
      obtain ⟨-, ns, hns, hden⟩ := renders_members hW hordered
        (memberOf_inOrder hW hordered hfits fun x hx => hdocs x ((inOrder_perm _ es).mem_iff.mp hx))
      refine ⟨hfit, .object ns, ?_, .dict hden⟩
      rw [Value.doc, members_eq]
      rw [memberTexts, List.map_map] at hns
      exact .obj hns

theorem renders_all (htrees : e.WritesTrees W float limit) {h : H} (hW : W h) :
    ∀ {os : List Obj} {vs : List Value}, ShowAll e.rt W os vs → ∀ {d : ℕ},
    itemsFit e.strict limit d vs →
    List.Forall₂ (e.ShownDoc W float limit d) os (itemDocs e.fmt e.sorted vs)
  | _, _, .nil, _, _ => .nil
  | _, _, .cons h hs, _, hfit =>
      .cons ⟨_, h, renders_shown htrees hW h hfit.1⟩ (renders_all htrees hW hs hfit.2)

theorem renders_entries (htrees : e.WritesTrees W float limit) {h : H} (hW : W h) :
    ∀ {kvs : List (Entry Obj)} {es : List (Value × Value)}, ShowEntries e.rt W kvs es → ∀ {d : ℕ},
    ∀ x ∈ es, x.2.Fits e.strict limit d → e.Renders float limit d x.2 (x.2.doc e.fmt e.sorted)
  | _, _, .nil, _ => fun _ hx => absurd hx List.not_mem_nil
  | _, _, .cons _ hv hs, _ =>
      List.forall_mem_cons.mpr ⟨renders_shown htrees hW hv, renders_entries htrees hW hs⟩

end

end Renders

end Env

/-! ## What a text tells -/

section Unique

variable {float : Bytes → UInt64 → Prop} {sorted : Bool}

/-- A reader takes a number for one double at most, and an integer for none. -/
structure TellsFloats (float : Bytes → UInt64 → Prop) : Prop where
  one : ∀ t bits bits', float t bits → float t bits' → bits = bits'
  notInt : ∀ z bits, ¬ float (Decimal.intText z) bits

/-- What a parser that tells integers from doubles makes of a number. -/
lemma tellsFloats_of (float : Bytes → Option UInt64) :
    TellsFloats fun t bits => Decode.isInteger t = false ∧ float t = some bits := by
  constructor
  · rintro t bits bits' ⟨-, hbits⟩ ⟨-, hbits'⟩
    exact Option.some.inj (hbits.symm.trans hbits')
  · rintro z bits ⟨hno, -⟩
    rw [Decode.isInteger_intText] at hno
    exact absurd hno.symm Bool.false_ne_true

lemma restored_notFinite {bits : UInt64} (hfin : isFinite64 bits = false) :
    (Value.float bits).restored sorted = .none := by
  rw [Value.restored, hfin, if_neg Bool.false_ne_true]

lemma Denotes.of_number {t : Bytes} {v : Value} (h : Denotes float sorted (.number t) v) :
    (∃ z, t = Decimal.intText z ∧ v = .int z) ∨
      ∃ bits, isFinite64 bits = true ∧ float t bits ∧ v = .float bits := by
  cases h with
  | int z => exact Or.inl ⟨z, rfl, rfl⟩
  | float hfin h => exact Or.inr ⟨_, hfin, h, rfl⟩

/-- A number is taken for one value. -/
lemma Denotes.number_eq (hfloat : TellsFloats float) {t : Bytes} {v w : Value}
    (hv : Denotes float sorted (.number t) v) (hw : Denotes float sorted (.number t) w) : v = w := by
  rcases hv.of_number with ⟨z, rfl, rfl⟩ | ⟨bits, hfin, hbits, rfl⟩
  · rcases hw.of_number with ⟨z', hz, rfl⟩ | ⟨bits', -, hbits', -⟩
    · rw [← Decimal.readInt_intText z, hz, Decimal.readInt_intText]
    · exact absurd hbits' (hfloat.notInt z bits')
  · rcases hw.of_number with ⟨z, rfl, -⟩ | ⟨bits', -, hbits', rfl⟩
    · exact absurd hbits (hfloat.notInt z bits)
    · exact congrArg Value.float (hfloat.one t bits bits' hbits hbits')

mutual

/-- **A tree denotes one value**, as far as values come back. -/
theorem Denotes.restored_eq (hfloat : TellsFloats float) : ∀ {n : Json.Node} {v w : Value},
    Denotes float sorted n v → Denotes float sorted n w → v.restored sorted = w.restored sorted
  | .null, _, _, .none, .none => rfl
  | .null, _, _, .none, .notFinite hfin => (restored_notFinite hfin).symm
  | .null, _, _, .notFinite hfin, .none => restored_notFinite hfin
  | .null, _, _, .notFinite hfin, .notFinite hfin' =>
      (restored_notFinite hfin).trans (restored_notFinite hfin').symm
  | .number _, _, _, h, h' => congrArg (Value.restored sorted) (h.number_eq hfloat h')
  | .bool _, _, _, .bool _, .bool _ => rfl
  | .string _, _, _, .str _, .str _ => rfl
  | .array _, _, _, .list h, .list h' => congrArg Value.list (h.restored_eq hfloat h')
  | .array _, _, _, .list h, .tuple h' => congrArg Value.list (h.restored_eq hfloat h')
  | .array _, _, _, .tuple h, .list h' => congrArg Value.list (h.restored_eq hfloat h')
  | .array _, _, _, .tuple h, .tuple h' => congrArg Value.list (h.restored_eq hfloat h')
  | .object _, _, _, .dict h, .dict h' => by
      have hentries := h.restored_eq hfloat h'
      rw [entriesRestored_inOrder, entriesRestored_inOrder] at hentries
      exact congrArg Value.dict hentries

theorem AllDenote.restored_eq (hfloat : TellsFloats float) : ∀ {ns : List Json.Node} {vs ws : List Value},
    AllDenote float sorted ns vs → AllDenote float sorted ns ws →
    itemsRestored sorted vs = itemsRestored sorted ws
  | _, _, _, .nil, .nil => rfl
  | _, _, _, .cons h hs, .cons h' hs' =>
      congrArg₂ List.cons (h.restored_eq hfloat h') (hs.restored_eq hfloat hs')

theorem MembersDenote.restored_eq (hfloat : TellsFloats float) :
    ∀ {ms : List (List ℕ × Json.Node)} {es es' : List (Value × Value)},
    MembersDenote float sorted ms es → MembersDenote float sorted ms es' →
    entriesRestored sorted es = entriesRestored sorted es'
  | _, _, _, .nil, .nil => rfl
  | _, _, _, .cons h hs, .cons h' hs' =>
      congrArg₂ List.cons (congrArg (Prod.mk _) (h.restored_eq hfloat h')) (hs.restored_eq hfloat hs')

end

end Unique

/-! ## Calls -/

namespace Host

variable [DecidableEq Obj] {h h' : Host Obj H} {b : Allocator} {float : Bytes → UInt64 → Prop}
  {limit limit' : ℕ}

/-- The call asks for `A`, and the object in it shows the value; no lookup of a type fails. -/
structure CallsFor (h : Host Obj H) (w : World Obj H) (args : List Obj) (kw : List (String × Obj))
    (A : Arguments Obj) (v : Value) : Prop where
  asks : h.arguments w.heap args kw = .ok A
  shows : Shows h.rt (fun h' => h' = w.heap) A.obj v
  lookup : h.scene w ≠ none

/-- The text of a value under the options. -/
def textOf (h : Host Obj H) (opts : UInt32) (v : Value) : Bytes :=
  dumpedText opts (v.doc h.fmt (hasOpt opts optSortKeys))

variable {w : World Obj H} {args : List Obj} {kw : List (String × Obj)} {A : Arguments Obj} {v : Value}

/-- What a call for a value means. -/
lemma settles_meaning (hrt : h.rt.SideEffectFree)
    (htrees : h.WritesTrees (fun h' => h' = w.heap) float limit) (hcall : h.CallsFor w args kw A v) :
    (h.meaning w args kw).Settles (v.Fits (hasOpt A.opts optStrictInteger) limit 0)
      (h.textOf A.opts v) := by
  obtain ⟨hasks, hshows, hlookup⟩ := hcall
  obtain ⟨sc, hscene⟩ := Option.ne_none_iff_exists'.mp hlookup
  rw [← heap_of_scene hscene] at htrees hshows
  have hread := Env.readAs_shown (e := h.env A sc.dt) hrt htrees rfl hshows 0 0
  unfold meaning meaningOf
  rw [hasks]
  dsimp only
  rw [hscene]
  exact hread.map (dumpedText A.opts)

/-- A call for a value that fits, and one for a value that does not. -/
lemma called_for (hstill : h.Still a) {s : St Obj H a} (hs : h.Ready s)
    (htrees : h.WritesTrees (fun h' => h' = s.world.heap) float limit)
    (hcall : h.CallsFor s.world args kw A v) (hint : ℕ) :
    ∃ N s' r, h.Called s r s' ∧ r.replaced = [] ∧
      (v.Fits (hasOpt A.opts optStrictInteger) limit 0 → r.result = some (h.textOf A.opts v)) ∧
      (¬ v.Fits (hasOpt A.opts optStrictInteger) limit 0 → r.result = none) ∧
      ∀ fuel, N ≤ fuel → h.dumps hint fuel args kw s = outcome r s' := by
  have hmeaning := settles_meaning hstill.sideEffectFree htrees hcall
  obtain ⟨N, s', hcalled, hrun⟩ := dumps_called hstill hs hint args kw
  refine ⟨N, s', _, hcalled, ?_, fun hfit => ?_, fun hfit => ?_, hrun⟩
  · by_cases hfit : v.Fits (hasOpt A.opts optStrictInteger) limit 0
    · rw [hmeaning.holds hfit]
      rfl
    · rw [hmeaning.fails hfit]
      rfl
  · rw [hmeaning.holds hfit]
    rfl
  · rw [hmeaning.fails hfit]
    rfl

/-- What any call for a value returns is its text. -/
lemma text_of_dumps (hstill : h.Still a) {s s' : St Obj H a} (hs : h.Ready s)
    (htrees : h.WritesTrees (fun h' => h' = s.world.heap) float limit)
    (hcall : h.CallsFor s.world args kw A v) {hint fuel : ℕ} {bytes : Bytes}
    (hdumps : h.dumps hint fuel args kw s = .ok bytes s') : bytes = h.textOf A.opts v := by
  have hmeaning := settles_meaning hstill.sideEffectFree htrees hcall
  have hresult := meaning_of_dumps hstill hs hdumps
  by_cases hfit : v.Fits (hasOpt A.opts optStrictInteger) limit 0
  · rw [hmeaning.holds hfit] at hresult
    exact (Option.some.inj hresult).symm
  · rw [hmeaning.fails hfit] at hresult
    exact absurd hresult (by simp [Reading.fail])

/-- **The text of a value.**  Whatever object shows a value of the builtin types, with whatever `default`
and options, `dumps` returns the text of the value that `Value.doc` says, if the value fits, and raises if
it does not.  It never calls `default`.  Of the options, only those for the layout, for the order of keys
and for strict integers bear on it. -/
theorem dumps_text (hstill : h.Still a) {s : St Obj H a} (hs : h.Ready s)
    (htrees : h.WritesTrees (fun h' => h' = s.world.heap) float limit)
    (hcall : h.CallsFor s.world args kw A v) (hint : ℕ) :
    ∃ N s', s'.defaulted = s.defaulted ∧ s'.world.heap = s.world.heap ∧ ∀ fuel, N ≤ fuel →
      (v.Fits (hasOpt A.opts optStrictInteger) limit 0 →
        h.dumps hint fuel args kw s = .ok (h.textOf A.opts v) s' ∧ s'.exc.isNone) ∧
      (¬ v.Fits (hasOpt A.opts optStrictInteger) limit 0 →
        h.dumps hint fuel args kw s = .error ⟨⟩ s' ∧ s'.exc.isSome) := by
  obtain ⟨N, s', r, hcalled, hnone, hfits, hunfit, hrun⟩ := called_for hstill hs htrees hcall hint
  have hexc := hcalled.exc
  refine ⟨N, s', ?_, hcalled.after.heap, fun fuel hfuel => ⟨fun hfit => ?_, fun hfit => ?_⟩⟩
  · rw [hcalled.after.defaulted, hnone, List.append_nil]
  · rw [hrun fuel hfuel, outcome, hfits hfit]
    rw [hfits hfit] at hexc
    refine ⟨rfl, ?_⟩
    rw [← Option.not_isSome, hexc]
    rfl
  · rw [hrun fuel hfuel, outcome, hunfit hfit]
    rw [hunfit hfit] at hexc
    exact ⟨rfl, hexc⟩

/-- A list and a tuple of an integer and `None`. -/
def twoSequences : Snapshot ℕ where
  view
    | 0 => ⟨none, "list", .list [2, 3]⟩
    | 1 => ⟨none, "tuple", .tuple⟩
    | 2 => ⟨none, "int", .int 23⟩
    | 4 => ⟨none, "int", .int 1⟩
    | _ => ⟨none, "NoneType", .none⟩
  tupleItems _ := [2, 3]
  pyNone := 3
  memory _ := 0
  answer _ := .ok 3

lemma twoSequences_small {o : ℕ} {z : ℤ} (h : (twoSequences.view o).body = .int z) : Within64Bits z := by
  unfold twoSequences at h
  dsimp only at h
  split at h <;> cases h <;> decide

/-- The formatters tell all doubles apart. -/
def sequencesHost : Host ℕ Unit := { twoSequences.host with fmt := Formats.fractions }

lemma sequencesHost_still : sequencesHost.Still Allocator.plain := twoSequences.still _

lemma sequencesHost_ready : sequencesHost.Ready (twoSequences.state ⟨none, none⟩) :=
  twoSequences.ready _

lemma sequencesHost_writes : sequencesHost.WritesTrees
    (fun w => w = (twoSequences.state ⟨none, none⟩).world.heap)
    (fun t bits => Decode.isInteger t = false ∧ fractionBits t = some bits) 0 :=
  twoSequences.writesTrees (fun _ _ h => twoSequences_small h) (fun _ hz => Formats.plain_itoa hz)
    fun bits _ => Formats.fractions_zmij64 bits

lemma sequencesHost_items : ShowAll sequencesHost.rt
    (fun w => w = (twoSequences.state ⟨none, none⟩).world.heap) [2, 3] [.int 23, .none] :=
  .cons (.intro (fun _ _ => rfl) (.int 23)) (.cons (.intro (fun _ _ => rfl) .none) .nil)

lemma sequencesHost_list {kw : List (String × ℕ)} {opts : UInt32}
    (hasks : sequencesHost.arguments () [0] kw = .ok ⟨0, none, opts⟩) :
    sequencesHost.CallsFor (twoSequences.state ⟨none, none⟩).world [0] kw ⟨0, none, opts⟩
      (.list [.int 23, .none]) :=
  ⟨hasks, .intro (fun _ _ => rfl) (.list sequencesHost_items), Option.some_ne_none _⟩

lemma sequencesHost_tuple {kw : List (String × ℕ)} {opts : UInt32}
    (hasks : sequencesHost.arguments () [1] kw = .ok ⟨1, none, opts⟩) :
    sequencesHost.CallsFor (twoSequences.state ⟨none, none⟩).world [1] kw ⟨1, none, opts⟩
      (.tuple [.int 23, .none]) :=
  ⟨hasks, .intro (fun _ _ => rfl) (.tuple sequencesHost_items), Option.some_ne_none _⟩

lemma sequencesHost_fits : (Value.list [.int 23, .none]).Fits false 0 0 :=
  ⟨by decide, Or.inl (by decide), trivial, trivial⟩

lemma sequencesHost_doc (sorted : Bool) : (Value.list [.int 23, .none]).doc sequencesHost.fmt sorted =
    .arr [.leaf (Bytes.ascii "23"), .leaf (Bytes.ascii "null")] := by
  have hint : Decimal.intText 23 = Bytes.ascii "23" := by
    rw [Decimal.intText, if_neg (by decide), show (23 : ℤ).natAbs = 23 from rfl, Decimal.natText,
      if_neg (by decide), Decimal.natText, if_pos (by decide)]
    rfl
  rw [Value.doc, itemDocs, Value.doc, hint]
  rfl

/-- The list, indented. -/
theorem dumps_text_list : ∃ N s', ∀ fuel, N ≤ fuel →
    sequencesHost.dumps 0 fuel [0] [("option", 4)] (twoSequences.state ⟨none, none⟩) =
      .ok (Bytes.ascii "[\n  23,\n  null\n]") s' := by
  have hcall : sequencesHost.CallsFor _ [0] [("option", 4)] ⟨0, none, 1⟩ _ := sequencesHost_list rfl
  have htext : sequencesHost.textOf 1 (.list [.int 23, .none]) = Bytes.ascii "[\n  23,\n  null\n]" := by
    rw [textOf, sequencesHost_doc]
    rfl
  obtain ⟨N, s', -, -, hrun⟩ := dumps_text sequencesHost_still sequencesHost_ready sequencesHost_writes
    hcall 0
  exact ⟨N, s', fun fuel hfuel => htext ▸ ((hrun fuel hfuel).1 sequencesHost_fits).1⟩

/-! ## Values with one text -/

lemma isText_dumped {opts : UInt32} {doc : Doc} {n : Json.Node} (hn : doc.Stands n) :
    Json.IsText (dumpedText opts doc) n := by
  have hderives := hn.derives (hasOpt opts optIndent2) 0
  unfold dumpedText
  by_cases hnewline : hasOpt opts optAppendNewline = true
  · rw [if_pos hnewline]
    exact ⟨[], _, [10], isWs_nil, hderives, by simp [IsWs, isWs], rfl⟩
  · rw [if_neg hnewline]
    exact ⟨[], _, [], isWs_nil, hderives, isWs_nil, rfl⟩

/-- The options bear alike on the text of values. -/
structure SameLayout (opts opts' : UInt32) : Prop where
  indent : hasOpt opts' optIndent2 = hasOpt opts optIndent2
  sorted : hasOpt opts' optSortKeys = hasOpt opts optSortKeys
  newline : hasOpt opts' optAppendNewline = hasOpt opts optAppendNewline

lemma SameLayout.dumpedText {opts opts' : UInt32} (hopts : SameLayout opts opts') (doc : Doc) :
    dumpedText opts' doc = dumpedText opts doc := by
  unfold Isojson.dumpedText
  rw [hopts.indent, hopts.newline]

/-- **Texts are told apart as far as values are.**  Take calls for two values that fit, on any builds with
the same formatters, with any `default`s, and with the same layout.  They return the same bytes if and
only if the same value comes back for both. -/
theorem dumps_text_eq_iff (hfloat : TellsFloats float) (hfmt : h'.fmt = h.fmt) (hstill : h.Still a)
    (hstill' : h'.Still b) {s : St Obj H a} {s' : St Obj H b} (hs : h.Ready s) (hs' : h'.Ready s')
    (htrees : h.WritesTrees (fun w => w = s.world.heap) float limit)
    (htrees' : h'.WritesTrees (fun w => w = s'.world.heap) float limit') {args' : List Obj}
    {kw' : List (String × Obj)} {A' : Arguments Obj} {v' : Value}
    (hcall : h.CallsFor s.world args kw A v) (hcall' : h'.CallsFor s'.world args' kw' A' v')
    (hopts : SameLayout A.opts A'.opts) (hfit : v.Fits (hasOpt A.opts optStrictInteger) limit 0)
    (hfit' : v'.Fits (hasOpt A'.opts optStrictInteger) limit' 0) (hint hint' : ℕ) :
    ∃ N bytes bytes' t t', (∀ fuel, N ≤ fuel → h.dumps hint fuel args kw s = .ok bytes t ∧
        h'.dumps hint' fuel args' kw' s' = .ok bytes' t') ∧
      (bytes = bytes' ↔
        v.restored (hasOpt A.opts optSortKeys) = v'.restored (hasOpt A.opts optSortKeys)) := by
  obtain ⟨N, t, r, -, -, hfits, -, hrun⟩ := called_for hstill hs htrees hcall hint
  obtain ⟨N', t', r', -, -, hfits', -, hrun'⟩ := called_for hstill' hs' htrees' hcall' hint'
  refine ⟨max N N', h.textOf A.opts v, h'.textOf A'.opts v', t, t', fun fuel hfuel => ⟨?_, ?_⟩, ?_⟩
  · rw [hrun fuel (le_of_max_le_left hfuel), outcome, hfits hfit]
  · rw [hrun' fuel (le_of_max_le_right hfuel), outcome, hfits' hfit']
  · unfold textOf
    rw [hopts.dumpedText, hopts.sorted, hfmt]
    constructor
    · intro hbytes
      obtain ⟨-, n, hn, hden⟩ := Env.renders_shown (e := h.env A none) htrees rfl hcall.shows hfit
      obtain ⟨-, n', hn', hden'⟩ := Env.renders_shown (e := h'.env A' none) htrees' rfl hcall'.shows hfit'
      have hsorted : (h'.env A' none).sorted = hasOpt A.opts optSortKeys := hopts.sorted
      rw [hsorted, show (h'.env A' none).fmt = h.fmt from hfmt] at hn'
      rw [hsorted] at hden'
      -- one text is read as one tree
      have htext : Json.IsText (dumpedText A.opts (v.doc h.fmt (hasOpt A.opts optSortKeys))) n :=
        isText_dumped hn
      rw [hbytes] at htext
      have htree : some n = some n' := (read_isText htext).symm.trans (read_isText (isText_dumped hn'))
      obtain rfl := Option.some.inj htree
      exact hden.restored_eq hfloat hden'
    · intro hrestored
      rw [← Value.doc_restored, hrestored, Value.doc_restored]

/-- The list and the tuple have one text. -/
theorem dumps_text_eq_iff_sequences : ∃ N bytes t t', ∀ fuel, N ≤ fuel →
    sequencesHost.dumps 0 fuel [0] [] (twoSequences.state ⟨none, none⟩) = .ok bytes t ∧
      sequencesHost.dumps 9 fuel [1] [] (twoSequences.state ⟨none, none⟩) = .ok bytes t' := by
  have hlist : sequencesHost.CallsFor _ [0] [] ⟨0, none, 0⟩ _ := sequencesHost_list rfl
  have htuple : sequencesHost.CallsFor _ [1] [] ⟨1, none, 0⟩ _ := sequencesHost_tuple rfl
  obtain ⟨N, bytes, bytes', t, t', hrun, hiff⟩ := dumps_text_eq_iff (tellsFloats_of fractionBits) rfl
    sequencesHost_still sequencesHost_still sequencesHost_ready sequencesHost_ready sequencesHost_writes
    sequencesHost_writes hlist htuple ⟨rfl, rfl, rfl⟩ sequencesHost_fits sequencesHost_fits 0 9
  obtain rfl := hiff.mpr rfl
  exact ⟨N, bytes, t, t', hrun⟩

/-- **Written, read and written again.**  Take a value whose integers are within 64 bits and whose dicts
have no key twice.  `loads` reads what a call for it returned, below 4 GiB, as the value that comes back,
and any later call for that value, with the same layout, returns the same bytes. -/
theorem dumps_loads_dumps {B : Type} {float : Bytes → Option UInt64} {maxDepth : ℕ} (hstill : h.Still a)
    {s : St Obj H a} (hs : h.Ready s)
    (htrees : h.WritesTrees (fun w => w = s.world.heap)
      (fun t bits => Decode.isInteger t = false ∧ float t = some bits) limit)
    (hcall : h.CallsFor s.world args kw A v)
    (hfit : v.Fits (hasOpt A.opts optStrictInteger) limit 0) (hv : v.Restorable) (hint : ℕ)
    {p : Decode.Parser B} {parse : Bytes → Except (Decode.ErrorType × ℕ) Decode.Tree}
    (hp : p.Reads parse) (hjson : Decode.ReadsJson parse float maxDepth)
    (hdepth : MAX_DEPTH ≤ maxDepth) :
    ∃ N t, (∀ fuel, N ≤ fuel → h.dumps hint fuel args kw s = .ok (h.textOf A.opts v) t) ∧
      ((h.textOf A.opts v).length < 2 ^ 32 → ∀ arg, Decode.Carries (h.textOf A.opts v) arg →
        ∀ (during : List Decode.Act) (t : Decode.Thread B), t.Sound →
        Decode.Answers (.ok (v.restored (hasOpt A.opts optSortKeys)))
          (Decode.loads p (Decode.runAll p during) arg) t) ∧
      ∀ (s' : St Obj H a), h.Ready s' →
        h.WritesTrees (fun w => w = s'.world.heap)
          (fun t bits => Decode.isInteger t = false ∧ float t = some bits) limit →
        ∀ args' kw' A', h.CallsFor s'.world args' kw' A' (v.restored (hasOpt A.opts optSortKeys)) →
        A'.opts = A.opts → ∀ hint', ∃ N' t', ∀ fuel, N' ≤ fuel →
          h.dumps hint' fuel args' kw' s' = .ok (h.textOf A.opts v) t' := by
  obtain ⟨N, t, r, -, -, hfits, -, hrun⟩ := called_for hstill hs htrees hcall hint
  refine ⟨N, t, fun fuel hfuel => ?_, ?_, ?_⟩
  · rw [hrun fuel hfuel, outcome, hfits hfit]
  · intro hsize arg harg during t ht
    obtain ⟨-, n, hn, hden⟩ := Env.renders_shown (e := h.env A none) htrees rfl hcall.shows hfit
    have hback := readsBack_of_isText (isText_dumped hn : Json.IsText (h.textOf A.opts v) n) hden
    have hanswer := Decode.loads_answers hp (Decode.behaves_runAll hp during) arg ht
    rw [Decode.answer_readsBack hjson hdepth hfit hv hsize hback harg] at hanswer
    exact hanswer
  · intro s' hs' htrees' args' kw' A' hcall' hopts hint'
    obtain ⟨N', t', r', -, -, hfits', -, hrun'⟩ := called_for hstill hs' htrees' hcall' hint'
    refine ⟨N', t', fun fuel hfuel => ?_⟩
    rw [hopts] at hfits'
    rw [hrun' fuel hfuel, outcome, hfits' (Value.fits_restored _ hfit), textOf, Value.doc_restored]
    rfl

/-- The tuple is read as the list, which has its text. -/
theorem dumps_loads_dumps_tuple : ∃ N bytes t t', ∀ fuel, N ≤ fuel →
    sequencesHost.dumps 0 fuel [1] [] (twoSequences.state ⟨none, none⟩) = .ok bytes t ∧
      Decode.Answers (.ok (.list [.int 23, .none]))
        (Decode.loads Decode.readerParser (Decode.runAll Decode.readerParser []) (.bytes bytes))
        Decode.freshThread ∧
      sequencesHost.dumps 0 fuel [0] [] (twoSequences.state ⟨none, none⟩) = .ok bytes t' := by
  have hlist : sequencesHost.CallsFor _ [0] [] ⟨0, none, 0⟩ _ := sequencesHost_list rfl
  have htuple : sequencesHost.CallsFor _ [1] [] ⟨1, none, 0⟩ _ := sequencesHost_tuple rfl
  have hrange : Within64Bits 23 := by decide
  obtain ⟨N, t, hrun, hloads, hagain⟩ := dumps_loads_dumps sequencesHost_still
    sequencesHost_ready sequencesHost_writes htuple sequencesHost_fits ⟨hrange, trivial, trivial⟩ 0
    Decode.readerParser_reads (Decode.readTree_readsJson MAX_DEPTH) le_rfl
  obtain ⟨N', t', hrun'⟩ := hagain _ sequencesHost_ready sequencesHost_writes [0] [] _ hlist rfl 0
  have hsize : (sequencesHost.textOf 0 (.tuple [.int 23, .none])).length < 2 ^ 32 := by
    have hdoc := sequencesHost_doc (hasOpt 0 optSortKeys)
    rw [Value.doc] at hdoc
    rw [textOf, Value.doc, hdoc]
    exact Nat.lt_of_le_of_lt (m := 9) (by decide) (by norm_num)
  refine ⟨max N N', _, t, t', fun fuel hfuel => ⟨hrun fuel (le_of_max_le_left hfuel), ?_, ?_⟩⟩
  · exact hloads hsize _ .bytes [] Decode.freshThread Decode.fresh_freshThread.sound
  · exact hrun' fuel (le_of_max_le_right hfuel)

end Host

end Isojson
