import Isojson.Arrays
import Isojson.Containers

/-!
# An array is written as its nested list

The array writer and the list encoder share no code: the one walks strides, in rows through a raw
pointer, in chunks or indented, and the other goes through objects.  Here they are compared on an
array and on the nested list of its elements, whatever interpreter that list lives in
(`serializeArray_eq_list`).
-/

namespace Isojson

open Json Run

variable {Obj H : Type} {a : Allocator}

/-! ## Indices -/

/-- The indices of an array of a shape, in row-major order. -/
def indices : List ℕ → List (List ℕ)
  | [] => [[]]
  | n :: shape => (List.range n).flatMap fun i => (indices shape).map (i :: ·)

/-- `data + sum(i_k * stride_k)` -/
def elementAddress (data : ℤ) (strides : List ℤ) (index : List ℕ) : ℤ :=
  data + ((index.zip strides).map fun p => (p.1 : ℤ) * p.2).sum

lemma elementAddress_cons (data stride : ℤ) (strides : List ℤ) (i : ℕ) (index : List ℕ) :
    elementAddress data (stride :: strides) (i :: index) =
      elementAddress (data + (i : ℤ) * stride) strides index := by
  simp only [elementAddress, List.zip_cons_cons, List.map_cons, List.sum_cons]
  ring

lemma elementAddresses_eq_map {shape : List ℕ} {strides : List ℤ}
    (hlen : shape.length = strides.length) (data : ℤ) :
    elementAddresses (shape.zip strides) data = (indices shape).map (elementAddress data strides) := by
  induction shape generalizing strides data with
  | nil =>
      obtain rfl := List.length_eq_zero_iff.mp hlen.symm
      simp [elementAddresses, indices, elementAddress]
  | cons n shape ih =>
      obtain ⟨stride, strides, rfl⟩ := List.exists_cons_of_length_eq_add_one hlen.symm
      rw [List.zip_cons_cons, elementAddresses, rowAddresses, indices, List.flatMap_map,
        List.map_flatMap]
      refine List.flatMap_congr fun i _ => ?_
      rw [ih (Nat.succ.inj hlen), List.map_map]
      exact List.map_congr_left fun index _ => (elementAddress_cons data stride strides i index).symm

/-- The indices are those within the shape. -/
lemma mem_indices {shape index : List ℕ} : index ∈ indices shape ↔ List.Forall₂ (· < ·) index shape := by
  induction shape generalizing index with
  | nil => simp [indices]
  | cons n shape ih =>
      simp only [indices, List.mem_flatMap, List.mem_range, List.mem_map]
      constructor
      · rintro ⟨i, hi, rest, hrest, rfl⟩
        exact .cons hi (ih.mp hrest)
      · rintro (_ | ⟨hi, hrest⟩)
        exact ⟨_, hi, _, ih.mpr hrest, rfl⟩

/-- Row-major order is the lexicographic order, so that no index is repeated. -/
lemma indices_pairwise (shape : List ℕ) : (indices shape).Pairwise (· < ·) := by
  induction shape with
  | nil => exact List.pairwise_singleton _ _
  | cons n shape ih =>
      rw [indices, List.pairwise_flatMap]
      refine ⟨fun i _ => ?_, ?_⟩
      · rw [List.pairwise_map]
        exact ih.imp fun h => List.Lex.cons h
      · refine List.pairwise_lt_range.imp fun hij => ?_
        simp only [List.mem_map]
        rintro _ ⟨x, -, rfl⟩ _ ⟨y, -, rfl⟩
        exact List.Lex.rel hij

lemma indices_of_zero {shape : List ℕ} (h : 0 ∈ shape) : indices shape = [] := by
  refine List.eq_nil_iff_forall_not_mem.mpr fun index hindex => ?_
  obtain ⟨k, hk, hzero⟩ := List.getElem_of_mem h
  have hlt := (mem_indices.mp hindex)
  have hlen := hlt.length_eq
  have hget := hlt.get (i := k) (by omega) hk
  simp only [List.get_eq_getElem, hzero] at hget
  exact Nat.not_lt_zero _ hget

/-! ## The nested list -/

section Objects

variable (rt : Runtime Obj H) (W : H → Prop)

/-- Reading `o.dtype.str` gives the dtype string of the unit, and leaves a heap of `W`. -/
def Runtime.HasUnit (o : Obj) (unit : Dt64Unit) : Prop :=
  ∃ dtype str t, (∀ w, W w.heap → ∃ w', rt.reply (.getAttr o "dtype") w = (.ok dtype, w') ∧ W w'.heap) ∧
    (∀ w, W w.heap → ∃ w', rt.reply (.getAttr dtype "str") w = (.ok str, w') ∧ W w'.heap) ∧
    (∀ h, W h → (rt.view h str).body = .str t) ∧ (∀ c ∈ t.chars, ¬ Utf8.IsSurrogate c) ∧
    (∀ w, W w.heap → ∃ r w', rt.reply (.utf8 str) w = (.ok r, w') ∧ W w'.heap) ∧
    parseDt64 (Utf8.encodeAll t.chars) = some unit

/-- The object is a numpy scalar of the element at `p`. -/
structure Runtime.IsElement (memory : ℤ → UInt8) (elem : ElementType) (unit : Option Dt64Unit) (p : ℤ)
    (o : Obj) : Prop where
  data : ∃ data : Bytes, (∀ h, W h → (rt.view h o).body = .scalar data) ∧
    data.take elem.size = (List.range elem.size).map fun i : ℕ => memory (p + i)
  unit : elem = .dt64 → ∃ u, unit = some u ∧ rt.HasUnit W o u

/-- Over the heaps of `W`, the object is the nested list of an array from address `p` on: `dims` are
its lengths and strides. -/
def Runtime.IsNested (memory : ℤ → UInt8) (elem : ElementType) (unit : Option Dt64Unit) :
    List (ℕ × ℤ) → ℤ → Obj → Prop
  | [], p, o => rt.IsElement W memory elem unit p o
  | (n, stride) :: rest, p, o => ∃ items, (∀ h, W h → (rt.view h o).body = .list items) ∧
      items.length = n ∧ ∀ (i : ℕ) (item : Obj), items[i]? = some item →
        Runtime.IsNested memory elem unit rest (p + (i : ℤ) * stride) item

end Objects

namespace Env

variable (e : Env Obj H)

/-- The list encoder on a nested list whose leaves are for `serialize_scalar`. -/
def serializeNested (elem : ElementType) : ℕ → Obj → Encode Obj H a Unit
  | 0, _ => Run.starve
  | fuel + 1, obj => do
      match (← e.look obj).body with
      | .list _ => e.list (serializeNested elem fuel) fuel obj
      | _ =>
          match ← e.serializeScalar obj elem with
          | none => Pure.pure ()
          | some _ => Run.throw ⟨⟩

variable {e} {W : H → Prop} {d : ℕ} {c : Bytes} {s : St Obj H a} {elem : ElementType}
  {unit : Option Dt64Unit} {memory : ℤ → UInt8}

/-- A request that is answered. -/
lemma wp_answered {guard : Bool} {call : Call Obj} {o : Obj} {C : St Obj H a → Prop}
    {Q : Option Obj → St Obj H a → Prop} {E : PendingPyErr → St Obj H a → Prop} (hs : At W d c s)
    (hreply : ∃ w', e.rt.reply call s.world = (.ok o, w') ∧ W w'.heap)
    (hQ : ∀ s', At W d c s' → Q (some o) s') : wp C (e.call guard call) Q E s := by
  obtain ⟨w', hreply, hw⟩ := hreply
  refine e.wp_call (fun o' w hr => ?_) fun exc w hr => ?_
  · obtain ⟨ho, rfl⟩ := Prod.mk.inj (hreply.symm.trans hr)
    obtain rfl := Reply.ok.inj ho
    exact hQ _ ⟨hs.content, hs.depth, hs.calm, hw⟩
  · exact absurd (congrArg Prod.fst (hreply.symm.trans hr)) (by simp)

/-- The unit of a scalar is read. -/
lemma wp_dt64Unit {o : Obj} {u : Dt64Unit} (hunit : e.rt.HasUnit W o u) (hs : At W d c s)
    {C : St Obj H a → Prop} {E : PendingPyErr → St Obj H a → Prop} :
    wp C (e.dt64Unit o) (fun r s' => r = .ok u ∧ At W d c s') E s := by
  obtain ⟨dtype, str, t, hdtype, hstr, hview, hscalar, hutf8, hparse⟩ := hunit
  unfold dt64Unit dtypeStr
  rw [wp_bind, wp_bind]
  refine wp_answered hs (hdtype _ hs.heap) fun s1 hs1 => ?_
  dsimp only
  rw [wp_bind]
  refine wp_answered hs1 (hstr _ hs1.heap) fun s2 hs2 => ?_
  rw [wp_bind, wp_decref]
  dsimp only
  rw [wp_onExit]
  unfold utf8Of
  have hbody : (e.rt.view s2.world.heap str).body = .str t := hview _ hs2.heap
  have hnone : (t.chars.any fun c => decide (Utf8.IsSurrogate c)) = false := by
    simpa using hscalar
  rw [wp_bind, Host.wp_look]
  dsimp only
  rw [hbody]
  dsimp only
  rw [hnone, if_neg Bool.false_ne_true, wp_bind]
  refine e.wp_ask (fun o' w hr => ?_) fun exc w hr => ?_
  · obtain ⟨r, w', hreply, hw⟩ := hutf8 _ hs2.heap
    obtain ⟨-, rfl⟩ := Prod.mk.inj (hreply.symm.trans hr)
    dsimp only
    rw [wp_pure, hparse]
    exact ⟨rfl, hs2.content, hs2.depth, hs2.calm, hw⟩
  · obtain ⟨r, w', hreply, hw⟩ := hutf8 _ hs2.heap
    exact absurd (congrArg Prod.fst (hreply.symm.trans hr)) (by simp)

/-- An element that has a text is written by `serialize_scalar`. -/
lemma wp_serializeScalar {o : Obj} {p : ℤ} (ho : e.rt.IsElement W memory elem unit p o)
    (hunit : UnitInRange unit) (hnone : elem ≠ .dt64 → unit = none) {text : Bytes}
    (htext : (e.leaves elem unit).textAt memory p = .ok text) (hs : At W d c s)
    {C : St Obj H a → Prop} {E : PendingPyErr → St Obj H a → Prop} :
    wp C (e.serializeScalar o elem) (fun r s' => r = none ∧ At W d (c ++ text) s') E s := by
  obtain ⟨data, hview, hdata⟩ := ho.data
  have hnumber : Words.wordOf (data.take elem.size) = readNumber memory p elem.size := by
    rw [hdata, readNumber]
  have helement : ∀ s1, At W d c s1 →
      wp C (e.scalarElement o elem unit) (fun r s' => r = none ∧ At W d (c ++ text) s') E s1 := by
    intro s1 hs1
    unfold scalarElement
    rw [wp_bind, Host.wp_look, hview _ hs1.heap]
    dsimp only
    rw [wp_bind, wp_get, hnumber]
    rcases (e.leaves elem unit).write_spec hunit s1.out (readNumber memory p elem.size) with
      ⟨t, out, ht, hw, hc⟩ | ⟨reason, ht, -⟩
    · obtain rfl : t = text := Except.ok.inj (ht.symm.trans htext)
      rw [hw]
      refine ⟨rfl, ?_, hs1.depth, ?_, hs1.heap⟩
      · exact hc.trans (congrArg (· ++ t) hs1.content)
      · exact St.exc_written hs1.calm out
    · exact absurd (ht.symm.trans htext) (by simp)
  rw [serializeScalar_eq]
  by_cases hdt : elem = .dt64
  · obtain ⟨u, rfl, hu⟩ := ho.unit hdt
    rw [if_pos hdt, wp_bind]
    refine (wp_dt64Unit hu hs).mono ?_ (fun _ _ h => h) fun _ h => h
    rintro _ s1 ⟨rfl, hs1⟩
    exact helement s1 hs1
  · obtain rfl := hnone hdt
    rw [if_neg hdt]
    exact helement s hs

/-- A list of results is one that each of them is. -/
lemma mapM_eq_ok {α β ε : Type} {f : α → Except ε β} {l : List α} {ys : List β}
    (h : List.Forall₂ (fun x y => f x = .ok y) l ys) : l.mapM f = .ok ys := by
  induction h with
  | nil => rfl
  | cons hx _ ih =>
      rw [List.mapM_cons, hx, ih]
      rfl

/-- The documents of the items are those of the rows below. -/
lemma arrayDoc_of_items {text : ℤ → Except Decline Bytes} {rest : List (ℕ × ℤ)} {q stride : ℤ}
    {items : List Obj} {docs : List Doc} {R : Obj → Doc → Prop} (hdocs : List.Forall₂ R items docs)
    (hitems : ∀ (i : ℕ) (item : Obj), items[i]? = some item → ∀ doc, R item doc →
      arrayDoc text rest (q + (i : ℤ) * stride) = .ok doc) :
    arrayDoc text ((items.length, stride) :: rest) q = .ok (.arr docs) := by
  have hrows : List.Forall₂ (fun p doc => arrayDoc text rest p = .ok doc)
      (rowAddresses q items.length stride) docs := by
    rw [List.forall₂_iff_get]
    have hlen := hdocs.length_eq
    refine ⟨by rw [rowAddresses, List.length_map, List.length_range, hlen], fun i hi hi' => ?_⟩
    have hlt : i < items.length := by omega
    have hR := (List.forall₂_iff_get.mp hdocs).2 i hlt hi'
    have hdoc := hitems i items[i] (List.getElem?_eq_getElem hlt) _ hR
    simpa [rowAddresses] using hdoc
  rw [arrayDoc, mapM_eq_ok hrows]
  rfl

/-- The documents that stand for an array wherever the object is its nested list. -/
def NestedDoc (e : Env Obj H) (W : H → Prop) (memory : ℤ → UInt8) (elem : ElementType)
    (unit : Option Dt64Unit) (dims : List (ℕ × ℤ)) (o : Obj) (doc : Doc) : Prop :=
  ∀ q, e.rt.IsNested W memory elem unit dims q o →
    arrayDoc ((e.leaves elem unit).textAt memory) dims q = .ok doc

/-- A leaf may be the element of other addresses too, with the same bytes. -/
lemma nestedDoc_leaf {p : ℤ} {o : Obj} {text : Bytes} {h : H} (hW : W h)
    (ho : e.rt.IsElement W memory elem unit p o)
    (htext : (e.leaves elem unit).textAt memory p = .ok text) :
    e.NestedDoc W memory elem unit [] o (.leaf text) := by
  obtain ⟨data, hview, hdata⟩ := ho.data
  rintro q ⟨⟨data', hview', hdata'⟩, -⟩
  have heq : data = data' := Body.scalar.inj ((hview h hW).symm.trans (hview' h hW))
  have hnumber : readNumber memory q elem.size = readNumber memory p elem.size := by
    rw [readNumber, readNumber, ← hdata, ← hdata', heq]
  have htextq : (e.leaves elem unit).textAt memory q = .ok text := by
    rw [← htext]
    exact congrArg (e.leaves elem unit).text hnumber
  rw [arrayDoc, htextq]
  rfl

lemma puts_leaf (hunit : UnitInRange unit) (hnone : elem ≠ .dt64 → unit = none) {p : ℤ} {o : Obj}
    (ho : e.rt.IsElement W memory elem unit p o) {text : Bytes}
    (htext : (e.leaves elem unit).textAt memory p = .ok text) (fuel : ℕ) :
    Puts (a := a) W d e.indent False False (e.NestedDoc W memory elem unit [] o)
      (e.serializeNested elem (fuel + 1) o) := by
  obtain ⟨data, hview, -⟩ := ho.data
  intro c s hs
  unfold serializeNested
  rw [wp_bind, Host.wp_look, hview _ hs.heap]
  dsimp only
  rw [wp_bind]
  refine (wp_serializeScalar ho hunit hnone htext (hs.logged _)).mono ?_ (fun _ _ h => h) fun _ h => h
  rintro _ s1 ⟨rfl, hs1⟩
  exact ⟨.leaf text, nestedDoc_leaf hs.heap ho htext, by rwa [Doc.render]⟩

variable (e) in
/-- **The nested list** is put out as the document of the array, by the list encoder and by what it
calls for its items. -/
lemma puts_nested (hunit : UnitInRange unit) (hnone : elem ≠ .dt64 → unit = none)
    {dims : List (ℕ × ℤ)} {p : ℤ} {o : Obj} (ho : e.rt.IsNested W memory elem unit dims p o)
    (htexts : ∀ q ∈ elementAddresses dims p, ∃ t, (e.leaves elem unit).textAt memory q = .ok t)
    (hroom : d + dims.length ≤ e.maxDepth) {fuel : ℕ}
    (hfuel : ∀ dim ∈ dims, dim.1 + dims.length ≤ fuel) :
    (dims ≠ [] → Puts (a := a) W d e.indent False False (e.NestedDoc W memory elem unit dims o)
      (e.list (e.serializeNested elem fuel) fuel o)) ∧
    Puts (a := a) W d e.indent False False (e.NestedDoc W memory elem unit dims o)
      (e.serializeNested elem (fuel + 1) o) := by
  induction dims generalizing d p o fuel with
  | nil =>
      obtain ⟨text, htext⟩ := htexts p List.mem_cons_self
      exact ⟨fun h => absurd rfl h, puts_leaf hunit hnone ho htext fuel⟩
  | cons dim rest ih =>
      obtain ⟨n, stride⟩ := dim
      obtain ⟨items, hview, rfl, hitems⟩ := ho
      have hlong : items.length + (rest.length + 1) ≤ fuel := hfuel _ List.mem_cons_self
      have hdeep : d + (rest.length + 1) ≤ e.maxDepth := hroom
      have hself : ∀ item ∈ items, Puts (a := a) W (d + 1) e.indent False False
          (e.NestedDoc W memory elem unit rest item) (e.serializeNested elem fuel item) := by
        intro item hmem
        obtain ⟨i, hi⟩ := List.mem_iff_getElem?.mp hmem
        have hlt : i < items.length := (List.getElem?_eq_some_iff.mp hi).1
        obtain ⟨fuel, rfl⟩ : ∃ k, fuel = k + 1 := ⟨fuel - 1, by omega⟩
        refine (ih (hitems i item hi) (fun q hq => htexts q ?_) (by omega) fun dim hdim => ?_).2
        · rw [elementAddresses, rowAddresses, List.flatMap_map]
          exact List.mem_flatMap.mpr ⟨i, List.mem_range.mpr hlt, hq⟩
        · have hbound : dim.1 + (rest.length + 1) ≤ fuel + 1 :=
            hfuel dim (List.mem_cons_of_mem _ hdim)
          omega
      have hlist : Puts (a := a) W d e.indent False False
          (e.NestedDoc W memory elem unit ((items.length, stride) :: rest) o)
          (e.list (e.serializeNested elem fuel) fuel o) := by
        have hlen : items.length < fuel := by omega
        have hputs := e.puts_list hview hself (Or.inr hlen)
        intro c s hs
        refine (hputs c s hs).mono ?_ ?_ fun _ h => h
        · rintro _ s1 ⟨doc, ⟨-, docs, hdocs, rfl⟩, hs1⟩
          refine ⟨.arr docs, ?_, hs1⟩
          rintro q ⟨items', hview', hlen, hitems'⟩
          obtain rfl : items = items' :=
            Body.list.inj ((hview _ hs.heap).symm.trans (hview' _ hs.heap))
          exact arrayDoc_of_items hdocs fun i item hi doc hdoc => hdoc _ (hitems' i item hi)
        · rintro _ s1 (hfull | ⟨item, -, hno⟩)
          · omega
          · exact hno
      refine ⟨fun _ => hlist, fun c s hs => ?_⟩
      unfold serializeNested
      rw [wp_bind, Host.wp_look, hview _ hs.heap]
      exact hlist c _ (hs.logged _)

variable (e) in
/-- With enough fuel for the longest dimension the list encoder appends the array's document. -/
lemma list_nested (hunit : UnitInRange unit) (hnone : elem ≠ .dt64 → unit = none)
    {dims : List (ℕ × ℤ)} (hdims : dims ≠ []) {p : ℤ} {o : Obj}
    (ho : e.rt.IsNested W memory elem unit dims p o)
    (htexts : ∀ q ∈ elementAddresses dims p, ∃ t, (e.leaves elem unit).textAt memory q = .ok t)
    {doc : Doc} (hdoc : arrayDoc ((e.leaves elem unit).textAt memory) dims p = .ok doc)
    (hroom : d + dims.length ≤ e.maxDepth) (hs : At W d c s) :
    ∃ N, ∀ fuel ≥ N, ∃ s', e.list (e.serializeNested elem fuel) fuel o s = .ok () s' ∧
      s'.out.content = c ++ doc.render e.indent d := by
  refine ⟨(dims.map fun dim => dim.1 + dims.length).sum, fun fuel hfuel => ?_⟩
  have hlong : ∀ dim ∈ dims, dim.1 + dims.length ≤ fuel := fun dim hdim =>
    (List.single_le_sum (fun _ _ => Nat.zero_le _) _ (List.mem_map_of_mem hdim)).trans hfuel
  have hputs : Puts (a := a) W d e.indent False False (e.NestedDoc W memory elem unit dims o)
      (e.list (e.serializeNested elem fuel) fuel o) :=
    (e.puts_nested hunit hnone ho htexts hroom hlong).1 hdims
  rcases (hputs c s hs).cases with ⟨_, s', hlist, doc', hdoc', hs'⟩ | ⟨_, _, -, hno⟩
  · obtain rfl := Except.ok.inj (hdoc.symm.trans (hdoc' p ho))
    exact ⟨s', hlist, hs'.content⟩
  · exact hno.elim

end Env

/-! ## The array and the list -/

/-- The unit that is read for an array is the one of its own dtype. -/
lemma Env.arrayUnit_hasUnit {e : Env Obj H} {W : H → Prop} {obj : Obj} {u : Dt64Unit}
    (hunit : e.rt.HasUnit W obj u) {shape : List ℕ} (hshape : 0 ∉ shape) {s : St Obj H a}
    (hcalm : s.exc = none) (hW : W s.world.heap) :
    ∃ s', e.arrayUnit obj .dt64 shape s = .ok (.ok (some u)) s' ∧ W s'.world.heap := by
  have hread := e.wp_dt64Unit hunit (⟨rfl, rfl, hcalm, hW⟩ : At W s.depth s.out.content s)
    (C := fun _ => False) (E := fun _ _ => False)
  rcases hread.cases with ⟨r, s', hok, rfl, hs'⟩ | ⟨exc, s', -, hno⟩
  · refine ⟨s', ?_, hs'.heap⟩
    unfold arrayUnit
    rw [if_pos ⟨rfl, hshape⟩]
    exact bind_of_ok hok
  · exact hno.elim

/-- The unit of elements that are no datetimes. -/
lemma Env.unit_of_arrayUnit {e : Env Obj H} {obj : Obj} {elem : ElementType} {shape : List ℕ}
    {unit : Option Dt64Unit} {s1 s2 : St Obj H a}
    (hunit : e.arrayUnit obj elem shape s1 = .ok (.ok unit) s2) (hdt : elem ≠ .dt64) : unit = none := by
  unfold arrayUnit at hunit
  rw [if_neg fun h => hdt h.1] at hunit
  injection hunit with hunit
  exact (Except.ok.inj hunit).symm

namespace Env

/-- **An array is written as its nested list.**  Take any accepted array whose elements have texts, with
the unit that is read for them, which is the one of its dtype (`arrayUnit_hasUnit`), and in any interpreter
an object that is the nested list of its elements, each at its address.  Then at the same depth, with the
same options and formatters, and with room below the depth limit, the list encoder appends for that object
exactly what `serialize_array` appends for the array.  The walk reads each element once, in row-major
order, and none if a dimension has length zero. -/
theorem serializeArray_eq_list (e : Env Obj H) (obj capsule : Obj) (iface : PyArrayInterface)
    (elem : ElementType) (unit : Option Dt64Unit) (s s1 s2 : St Obj H a)
    (hiface : e.arrayStruct obj s = .ok (capsule, iface) s1)
    (hclass : classify iface.flags iface.nd iface.typekind iface.itemsize = .ok elem)
    (hunit : e.arrayUnit obj elem iface.shape s1 = .ok (.ok unit) s2)
    (htexts : ∀ index, List.Forall₂ (· < ·) index iface.shape → ∃ t, (e.leaves elem unit).textAt
      (e.rt.memory s2.world.heap) (elementAddress iface.data iface.strides index) = .ok t)
    {Obj' H' : Type} {a' : Allocator} (e' : Env Obj' H') (hfmt : e'.fmt = e.fmt)
    (hopts : e'.opts = e.opts) (hroom : s.depth + iface.shape.length ≤ e'.maxDepth)
    {W : H' → Prop} {root : Obj'}
    (hnested : e'.rt.IsNested W (e.rt.memory s2.world.heap) elem unit
      (iface.shape.zip iface.strides) iface.data root)
    {t : St Obj' H' a'} (hdepth : t.depth = s.depth) (hcalm : t.exc = none) (hW : W t.world.heap) :
    ∃ text, (∃ s', e.serializeArray obj s = .ok none s' ∧ s'.out.content = s.out.content ++ text) ∧
      (∃ N, ∀ fuel ≥ N, ∃ t', e'.list (e'.serializeNested elem fuel) fuel root t = .ok () t' ∧
        t'.out.content = t.out.content ++ text) ∧
      ∃ (w : WalkSt a) (ids : List (List ℕ)),
        walk (e.leaves elem unit) (e.rt.memory s2.world.heap) e.indent s.depth
          (iface.shape.zip iface.strides) iface.data ⟨s.out, []⟩ = .ok () w ∧
        w.reads = ids.map (elementAddress iface.data iface.strides) ∧ ids.Pairwise (· < ·) ∧
        (∀ index, index ∈ ids ↔ List.Forall₂ (· < ·) index iface.shape) ∧
        (0 ∈ iface.shape → w.reads = []) := by
  have hlen : iface.shape.length = iface.strides.length :=
    iface.length_shape.trans iface.length_strides.symm
  have hnd := nd_pos_of_classify hclass
  have hdims : iface.shape.zip iface.strides ≠ [] := by
    intro hnil
    have hzip := congrArg List.length hnil
    have hshape := iface.length_shape
    rw [List.length_zip, List.length_nil] at hzip
    omega
  have hrange : UnitInRange unit := ((e.arrayUnit_known obj elem iface.shape s1).of_ok hunit unit rfl).1
  have haddresses := elementAddresses_eq_map hlen iface.data
  have helements : ∀ q ∈ elementAddresses (iface.shape.zip iface.strides) iface.data,
      ∃ t, (e.leaves elem unit).textAt (e.rt.memory s2.world.heap) q = .ok t := by
    intro q hq
    rw [haddresses] at hq
    obtain ⟨index, hindex, rfl⟩ := List.mem_map.mp hq
    exact htexts index (mem_indices.mp hindex)
  -- the array
  have hframe := e.frame_arrayUnit hiface hunit
  have hout : s2.out = s.out := congrArg Prod.fst hframe
  have hlevel : s2.depth = s.depth := congrArg (fun f => f.2.1) hframe
  have hwalk := walk_spec (e.leaves elem unit) hrange (e.rt.memory s2.world.heap) e.indent hdims
    s.depth iface.data ⟨s.out, []⟩
  rcases hwalk.cases with ⟨_, w, hrun, doc, hdoc, hc, hreads⟩ | ⟨reason, w, -, hdoc, -⟩
  · have harray : e.walkArray iface elem unit { s2 with log := s2.log ++ [.read (.obj capsule)] } =
        .ok none (St.written { s2 with log := s2.log ++ [.read (.obj capsule)] } w.out) := by
      unfold walkArray
      rw [leaves] at hrun
      dsimp only
      rw [hout, hlevel, hrun]
    have hids : w.reads = (indices iface.shape).map (elementAddress iface.data iface.strides) :=
      (hreads.trans (List.nil_append _)).trans haddresses
    refine ⟨doc.render e.indent s.depth,
      ⟨_, e.serializeArray_of_walk hiface hunit hclass harray, hc⟩, ?_,
      w, indices iface.shape, hrun, hids, indices_pairwise _, fun _ => mem_indices, fun hzero => ?_⟩
    · have hleaves : e'.leaves elem unit = e.leaves elem unit := by
        rw [leaves, leaves, hfmt, hopts]
      have hindent : e'.indent = e.indent := congrArg (hasOpt · optIndent2) hopts
      have hroom' : s.depth + (iface.shape.zip iface.strides).length ≤ e'.maxDepth := by
        rw [List.length_zip, ← hlen, Nat.min_self]
        exact hroom
      rw [← hleaves] at hdoc helements
      rw [← hindent]
      exact e'.list_nested hrange (fun hdt => unit_of_arrayUnit hunit hdt) hdims hnested helements hdoc
        hroom' ⟨rfl, hdepth, hcalm, hW⟩
    · rw [hids, indices_of_zero hzero, List.map_nil]
  · -- no element is declined
    have hfirst := declined_arrayDoc ((e.leaves elem unit).textAt (e.rt.memory s2.world.heap))
      (iface.shape.zip iface.strides) iface.data
    rw [hdoc] at hfirst
    obtain ⟨q, hq, htext⟩ := List.exists_of_findSome?_eq_some hfirst.symm
    obtain ⟨t, ht⟩ := helements q hq
    rw [ht] at htext
    exact absurd htext (by simp [declined])

end Env

lemma length_twoByTwo : [(2 : ℕ), 2].length = 2 := rfl

/-- The interface of two rows of two datetimes. -/
def fourDatetimes : PyArrayInterface where
  two := 2
  nd := 2
  typekind := 77
  itemsize := 8
  flags := 0x201
  shape := [2, 2]
  strides := [16, 8]
  data := 0
  length_shape := length_twoByTwo
  length_strides := rfl

/-- The dtype string of datetimes in days. -/
def daysDtype : StrObj where
  header := ⟨6, 0x64, none, Bytes.ascii "<M8[D]"⟩
  chars := [60, 77, 56, 91, 68, 93]
  holds := {
    code_points := by decide
    length_eq := rfl
    kind_eq := by decide
    narrow := by decide
    data_eq := by decide
    ascii := by decide
    cached := by decide }

/-- The array of the first four days of 1970. -/
def fourDays : Snapshot ℕ where
  view
    | 1 => ⟨none, "PyCapsule", .capsule (some fourDatetimes)⟩
    | 7 => ⟨none, "str", .str daysDtype⟩
    | _ => ⟨some 2, "numpy.ndarray", .other⟩
  tupleItems _ := []
  pyNone := 3
  memory p := if p = 8 then 1 else if p = 16 then 2 else if p = 24 then 3 else 0
  answer
    | .getAttr 0 "__array_struct__" => .ok 1
    | _ => .ok 7

/-- The list of its rows. -/
def listOfRows : Snapshot ℕ where
  view
    | 0 => ⟨none, "list", .list [1, 2]⟩
    | 1 => ⟨none, "list", .list [10, 11]⟩
    | 2 => ⟨none, "list", .list [12, 13]⟩
    | 7 => ⟨none, "str", .str daysDtype⟩
    | o => ⟨some 3, "numpy.datetime64", .scalar [UInt8.ofNat (o - 10), 0, 0, 0, 0, 0, 0, 0]⟩
  tupleItems _ := []
  pyNone := 3
  memory _ := 0
  answer _ := .ok 7

lemma hasUnit_fourDays : fourDays.host.rt.HasUnit (fun _ => True) 0 ⟨.day, 1⟩ :=
  ⟨7, 7, daysDtype, fun w _ => ⟨w, rfl, trivial⟩, fun w _ => ⟨w, rfl, trivial⟩, fun _ _ => rfl, by decide,
    fun w _ => ⟨7, w, rfl, trivial⟩, by decide⟩

lemma hasUnit_listOfRows (o : ℕ) : listOfRows.host.rt.HasUnit (fun _ => True) o ⟨.day, 1⟩ :=
  ⟨7, 7, daysDtype, fun w _ => ⟨w, rfl, trivial⟩, fun w _ => ⟨w, rfl, trivial⟩, fun _ _ => rfl, by decide,
    fun w _ => ⟨7, w, rfl, trivial⟩, by decide⟩

/-- The array and the list of its rows, indented. -/
theorem serializeArray_eq_list_days :
    ∃ text, (∃ s', Env.serializeArray ⟨fourDays.host, none, 1, true, MAX_DEPTH⟩ 0
        (fourDays.state ⟨none, none⟩) = .ok none s' ∧ s'.out.content = [] ++ text) ∧
      ∃ N, ∀ fuel ≥ N, ∃ t', Env.list ⟨listOfRows.host, none, 1, true, MAX_DEPTH⟩
          (Env.serializeNested ⟨listOfRows.host, none, 1, true, MAX_DEPTH⟩ .dt64 fuel) fuel 0
          (listOfRows.state ⟨none, none⟩) = .ok () t' ∧ t'.out.content = [] ++ text := by
  obtain ⟨s1, hstruct, hcalm⟩ : ∃ s1, Env.arrayStruct ⟨fourDays.host, none, 1, true, MAX_DEPTH⟩ 0
      (fourDays.state ⟨none, none⟩) = .ok (1, fourDatetimes) s1 ∧ s1.exc = none := ⟨_, rfl, rfl⟩
  have hnonempty : 0 ∉ fourDatetimes.shape := by decide
  obtain ⟨s2, hunit, -⟩ := Env.arrayUnit_hasUnit (e := ⟨fourDays.host, none, 1, true, MAX_DEPTH⟩)
    hasUnit_fourDays hnonempty hcalm trivial
  have helement : ∀ o : ℕ, 10 ≤ o → o ≤ 13 → listOfRows.host.rt.IsElement (fun _ => True)
      fourDays.memory .dt64 (some ⟨.day, 1⟩) ((o - 10 : ℕ) * 8) o := by
    intro o hlo hhi
    refine ⟨?_, fun _ => ⟨_, rfl, hasUnit_listOfRows o⟩⟩
    obtain rfl | rfl | rfl | rfl : o = 10 ∨ o = 11 ∨ o = 12 ∨ o = 13 := by omega
    all_goals exact ⟨_, fun _ _ => rfl, by decide⟩
  have hrow : ∀ (o first : ℕ), listOfRows.view o = ⟨none, "list", .list [first, first + 1]⟩ →
      10 ≤ first → first ≤ 12 → listOfRows.host.rt.IsNested (fun _ => True) fourDays.memory .dt64
        (some ⟨.day, 1⟩) [(2, 8)] ((first - 10 : ℕ) * 8) o := by
    intro o first hview hlo hhi
    refine ⟨[first, first + 1], fun _ _ => congrArg PyObj.body hview, rfl, fun i item hitem => ?_⟩
    obtain ⟨hi, rfl⟩ := List.getElem?_eq_some_iff.mp hitem
    have hlt : i < 2 := hi
    obtain rfl | rfl : i = 0 ∨ i = 1 := by omega
    · have hfirst := helement first hlo (by omega)
      have haddress : ((first - 10 : ℕ) : ℤ) * 8 + ((0 : ℕ) : ℤ) * 8 = ((first - 10 : ℕ) : ℤ) * 8 := by
        omega
      rwa [← haddress] at hfirst
    · have hsecond := helement (first + 1) (by omega) (by omega)
      have haddress : ((first - 10 : ℕ) : ℤ) * 8 + ((1 : ℕ) : ℤ) * 8 = ((first + 1 - 10 : ℕ) : ℤ) * 8 := by
        omega
      rwa [← haddress] at hsecond
  have hnested : listOfRows.host.rt.IsNested (fun _ => True) fourDays.memory .dt64 (some ⟨.day, 1⟩)
      [(2, 16), (2, 8)] 0 0 := by
    refine ⟨[1, 2], fun _ _ => rfl, rfl, fun i item hitem => ?_⟩
    obtain ⟨hi, rfl⟩ := List.getElem?_eq_some_iff.mp hitem
    have hlt : i < 2 := hi
    obtain rfl | rfl : i = 0 ∨ i = 1 := by omega
    · exact hrow 1 10 rfl le_rfl (by decide)
    · exact hrow 2 12 rfl (by decide) le_rfl
  have htexts : ∀ index, List.Forall₂ (· < ·) index [2, 2] →
      ∃ t, (Leaves.mk fourDays.host.fmt 1 .dt64 (some ⟨.day, 1⟩)).textAt fourDays.memory
        (elementAddress 0 [16, 8] index) = .ok t := by
    intro index hindex
    have hall : ∀ index ∈ indices [2, 2], ((Leaves.mk fourDays.host.fmt 1 .dt64 (some ⟨.day, 1⟩)).textAt
        fourDays.memory (elementAddress 0 [16, 8] index)).isOk := by decide +kernel
    have hok := hall index (mem_indices.mpr hindex)
    generalize Leaves.textAt _ _ _ = r at hok ⊢
    cases r with
    | ok t => exact ⟨t, rfl⟩
    | error reason => cases hok
  obtain ⟨text, harray, hlist, -⟩ := Env.serializeArray_eq_list
    ⟨fourDays.host, none, 1, true, MAX_DEPTH⟩ 0 1 fourDatetimes .dt64 (some ⟨.day, 1⟩)
    (fourDays.state ⟨none, none⟩) s1 s2 hstruct rfl hunit htexts
    ⟨listOfRows.host, none, 1, true, MAX_DEPTH⟩ rfl rfl (by decide) hnested
    (t := listOfRows.state ⟨none, none⟩) rfl rfl trivial
  exact ⟨text, harray, hlist⟩

end Isojson
