import Isojson.Halves
import Isojson.Loadable

/-!
# The bytes of an array

An array of booleans, integers or floats has one text for each nested list of element texts:
where its elements lie, and how numpy stores them, leaves no trace (`dumps_array_eq_iff`).
Float16 elements are one case of it: they are written as the singles with their values.
-/

namespace Isojson

open Json

/-! ## Nested arrays of scalars -/

/-- A scalar that is no string. -/
def IsPlainScalar (t : Bytes) (n : Node) : Prop := Scalar t n ∧ ∀ s, n ≠ .string s

/-- A scalar that is no string has one text. -/
lemma IsPlainScalar.text_eq {t t' : Bytes} {n : Node} (h : IsPlainScalar t n) (h' : IsPlainScalar t' n) :
    t = t' := by
  obtain ⟨hscalar, hplain⟩ := h
  obtain ⟨hscalar', -⟩ := h'
  cases hscalar with
  | null => cases hscalar'; rfl
  | true => cases hscalar'; rfl
  | false => cases hscalar'; rfl
  | number => cases hscalar'; rfl
  | string => exact absurd rfl (hplain _)

/-- The nested array of what is at the addresses of an array. -/
def nestedNode (leaf : ℤ → Node) : List (ℕ × ℤ) → ℤ → Node
  | [], p => leaf p
  | (n, stride) :: rest, p => .array ((rowAddresses p n stride).map (nestedNode leaf rest))

section Nested

variable {text text' : ℤ → Except Decline Bytes} {leaf leaf' : ℤ → Node} {shape : List ℕ}
  {strides strides' : List ℤ}

/-- The document of an array stands for the nested array. -/
lemma stands_arrayDoc (hleaf : ∀ p, ∃ t, text p = .ok t ∧ Scalar t (leaf p)) (dims : List (ℕ × ℤ))
    (p : ℤ) : ∃ doc, arrayDoc text dims p = .ok doc ∧ doc.Stands (nestedNode leaf dims p) := by
  induction dims generalizing p with
  | nil =>
      obtain ⟨t, ht, hscalar⟩ := hleaf p
      refine ⟨.leaf t, ?_, .leaf hscalar⟩
      rw [arrayDoc, ht]
      rfl
  | cons dim rest ih =>
      choose doc hdoc hstands using ih
      have hitems : ∀ ps : List ℤ, ItemsStand (ps.map doc) (ps.map (nestedNode leaf rest)) := by
        intro ps
        induction ps with
        | nil => exact .nil
        | cons q ps ihps => exact .cons (hstands q) ihps
      refine ⟨.arr ((rowAddresses p dim.1 dim.2).map doc), ?_, .arr (hitems _)⟩
      rw [arrayDoc, mapM_ok hdoc]
      rfl

lemma mapM_congr_mem {α β ε : Type} {f g : α → Except ε β} {l : List α} (h : ∀ x ∈ l, f x = g x) :
    l.mapM f = l.mapM g := by
  induction l with
  | nil => rfl
  | cons x l ih =>
      obtain ⟨hx, hl⟩ := List.forall_mem_cons.mp h
      rw [List.mapM_cons, List.mapM_cons, hx, ih hl]

/-- Arrays with the same elements at every index have the same document. -/
lemma arrayDoc_congr (hlen : shape.length = strides.length) (hlen' : shape.length = strides'.length)
    {p p' : ℤ} (hsame : ∀ index, List.Forall₂ (· < ·) index shape →
      text (elementAddress p strides index) = text' (elementAddress p' strides' index)) :
    arrayDoc text (shape.zip strides) p = arrayDoc text' (shape.zip strides') p' := by
  induction shape generalizing strides strides' p p' with
  | nil =>
      have hroot := hsame [] .nil
      simp only [elementAddress, List.zip_nil_left, List.map_nil, List.sum_nil, add_zero] at hroot
      rw [List.zip_nil_left, List.zip_nil_left, arrayDoc, arrayDoc, hroot]
  | cons n shape ih =>
      obtain ⟨stride, strides, rfl⟩ := List.exists_cons_of_length_eq_add_one hlen.symm
      obtain ⟨stride', strides', rfl⟩ := List.exists_cons_of_length_eq_add_one hlen'.symm
      rw [List.zip_cons_cons, List.zip_cons_cons, arrayDoc, arrayDoc, rowAddresses, rowAddresses,
        List.mapM_map, List.mapM_map]
      congr 1
      apply mapM_congr_mem
      intro i hi
      apply ih (Nat.succ.inj hlen) (Nat.succ.inj hlen')
      intro index hindex
      have hitem := hsame (i :: index) (.cons (List.mem_range.mp hi) hindex)
      rwa [elementAddress_cons, elementAddress_cons] at hitem

/-- Nested arrays that are equal have the same elements at every index. -/
lemma leaf_eq_of_nestedNode (hlen : shape.length = strides.length)
    (hlen' : shape.length = strides'.length) {p p' : ℤ}
    (heq : nestedNode leaf (shape.zip strides) p = nestedNode leaf' (shape.zip strides') p')
    {index : List ℕ} (hindex : List.Forall₂ (· < ·) index shape) :
    leaf (elementAddress p strides index) = leaf' (elementAddress p' strides' index) := by
  induction hindex generalizing strides strides' p p' with
  | nil =>
      simp only [elementAddress, List.zip_nil_left, List.map_nil, List.sum_nil, add_zero]
      exact heq
  | @cons i n index shape hi _ ih =>
      obtain ⟨stride, strides, rfl⟩ := List.exists_cons_of_length_eq_add_one hlen.symm
      obtain ⟨stride', strides', rfl⟩ := List.exists_cons_of_length_eq_add_one hlen'.symm
      rw [List.zip_cons_cons, List.zip_cons_cons, nestedNode, nestedNode, Node.array.injEq] at heq
      have hitem := congrArg (·[i]?) heq
      simp only [List.getElem?_map, rowAddresses, List.getElem?_range hi, Option.map_some,
        Option.some.injEq] at hitem
      rw [elementAddress_cons, elementAddress_cons]
      exact ih (Nat.succ.inj hlen) (Nat.succ.inj hlen') hitem

/-- One text is read as one nested array, so it has the element texts of the array. -/
lemma dumpedText_eq_iff (hplain : ∀ p, ∃ t n, text p = .ok t ∧ IsPlainScalar t n)
    (hplain' : ∀ p, ∃ t n, text' p = .ok t ∧ IsPlainScalar t n) (hlen : shape.length = strides.length)
    (hlen' : shape.length = strides'.length) {p p' : ℤ} {doc doc' : Doc}
    (hdoc : arrayDoc text (shape.zip strides) p = .ok doc)
    (hdoc' : arrayDoc text' (shape.zip strides') p' = .ok doc') (opts : UInt32) :
    dumpedText opts doc = dumpedText opts doc' ↔ ∀ index, List.Forall₂ (· < ·) index shape →
      text (elementAddress p strides index) = text' (elementAddress p' strides' index) := by
  choose t leaf ht hscalar using hplain
  choose t' leaf' ht' hscalar' using hplain'
  obtain ⟨d, hd, hstands⟩ := stands_arrayDoc (fun q => ⟨t q, ht q, (hscalar q).1⟩) (shape.zip strides) p
  obtain ⟨d', hd', hstands'⟩ :=
    stands_arrayDoc (fun q => ⟨t' q, ht' q, (hscalar' q).1⟩) (shape.zip strides') p'
  obtain rfl : doc = d := Except.ok.inj (hdoc.symm.trans hd)
  obtain rfl : doc' = d' := Except.ok.inj (hdoc'.symm.trans hd')
  constructor
  · intro hbytes index hindex
    have htext : IsText (dumpedText opts doc) _ := Host.isText_dumped hstands
    have htext' : IsText (dumpedText opts doc') _ := Host.isText_dumped hstands'
    have hread := read_isText htext
    rw [hbytes, read_isText htext'] at hread
    have hleaf := leaf_eq_of_nestedNode hlen hlen' (Option.some.inj hread).symm hindex
    have hnode := hscalar' (elementAddress p' strides' index)
    rw [← hleaf] at hnode
    rw [ht, ht', (hscalar _).text_eq hnode]
  · intro htexts
    rw [arrayDoc_congr hlen hlen' htexts, hdoc'] at hdoc
    rw [Except.ok.inj hdoc]

end Nested

/-! ## The text of an element -/

/-- An element that is no datetime is written as a scalar that is no string. -/
lemma Leaves.text_plain {l : Leaves} (hfmt : l.fmt.WriteNumbers) (hdt : l.elem ≠ .dt64) {n : ℕ}
    (hn : n < 256 ^ l.elem.size) : ∃ t node, l.text n = .ok t ∧ IsPlainScalar t node := by
  have hnumber : ∀ {t : Bytes}, IsNumber t → IsPlainScalar t (.number t) := by
    intro t ht
    exact ⟨.number ht, fun _ => Node.noConfusion⟩
  have hint : ∀ z, l.elem.intValue n = some z → IsNumber (l.fmt.itoa z) := by
    intro z hz
    obtain ⟨hlo, hhi⟩ := ElementType.intValue_bounds hn hz
    exact hfmt.itoa z hlo hhi
  have hsingle : ∀ v, ∃ node, IsPlainScalar (Buffer.f32Text l.fmt v) node := by
    intro v
    unfold Buffer.f32Text
    split
    · next hv => exact ⟨_, hnumber (hfmt.zmij32 v hv)⟩
    · exact ⟨_, .null, fun _ => Node.noConfusion⟩
  have hdouble : ∀ v, ∃ node, IsPlainScalar (Buffer.f64Text l.fmt v) node := by
    intro v
    unfold Buffer.f64Text
    split
    · next hv => exact ⟨_, hnumber (hfmt.zmij64 v hv)⟩
    · exact ⟨_, .null, fun _ => Node.noConfusion⟩
  obtain ⟨fmt, opts, elem, unit⟩ := l
  cases elem with
  | bool =>
      unfold Leaves.text
      dsimp only
      split
      · exact ⟨_, _, rfl, .true, fun _ => Node.noConfusion⟩
      · exact ⟨_, _, rfl, .false, fun _ => Node.noConfusion⟩
  | f16 => exact ⟨_, _, rfl, (hsingle _).choose_spec⟩
  | f32 => exact ⟨_, _, rfl, (hsingle _).choose_spec⟩
  | f64 => exact ⟨_, _, rfl, (hdouble _).choose_spec⟩
  | dt64 => exact absurd rfl hdt
  | i64 | i32 | i16 | i8 | u64 | u32 | u16 | u8 => exact ⟨_, _, rfl, hnumber (hint _ rfl)⟩

namespace Host

variable {Obj Obj' H H' : Type} [DecidableEq Obj] [DecidableEq Obj'] {a b : Allocator}
  {h : Host Obj H} {h' : Host Obj' H'} {s : St Obj H a} {s' : St Obj' H' b}
  {args : List Obj} {args' : List Obj'} {kw : List (String × Obj)} {kw' : List (String × Obj')}
  {A : Arguments Obj} {A' : Arguments Obj'} {iface iface' : PyArrayInterface} {elem elem' : ElementType}

/-- The text of the element at an address. -/
def elementText (h : Host Obj H) (w : H) (opts : UInt32) (elem : ElementType) (p : ℤ) :
    Except Decline Bytes :=
  Leaves.textAt ⟨h.fmt, opts, elem, none⟩ (h.rt.memory w) p

omit [DecidableEq Obj] in
lemma elementText_plain (hfmt : h.fmt.WriteNumbers) (w : H) (opts : UInt32) (hdt : elem ≠ .dt64) (p : ℤ) :
    ∃ t node, h.elementText w opts elem p = .ok t ∧ IsPlainScalar t node := by
  have hlt := Words.wordOf_lt ((List.range elem.size).map fun i : ℕ => h.rt.memory w (p + i))
  rw [List.length_map, List.length_range] at hlt
  exact Leaves.text_plain (l := ⟨h.fmt, opts, elem, none⟩) hfmt hdt hlt

/-- What a call for an array writes. -/
lemma called_for_array (hstill : h.Still a) (hs : h.Ready s) (hfmt : h.fmt.WriteNumbers)
    (hcall : h.CallsForArray s.world args kw A iface elem) (hdt : elem ≠ .dt64) (hint : ℕ) :
    ∃ N doc t, (∀ fuel, N ≤ fuel → h.dumps hint fuel args kw s = .ok (dumpedText A.opts doc) t) ∧
      arrayDoc (h.elementText s.world.heap A.opts elem) (iface.shape.zip iface.strides) iface.data =
        .ok doc := by
  choose text leaf htext hplain using elementText_plain hfmt s.world.heap A.opts hdt
  obtain ⟨doc, hdoc, -⟩ := stands_arrayDoc (fun p => ⟨text p, htext p, (hplain p).1⟩)
    (iface.shape.zip iface.strides) iface.data
  obtain ⟨N, t, -, hrun⟩ := dumps_called hstill hs hint args kw
  refine ⟨N, doc, t, fun fuel hfuel => ?_, hdoc⟩
  rw [hrun fuel hfuel, meaning_array hcall hdt hdoc]
  rfl

/-- Calls for two arrays with one shape and layout, by their element texts. -/
lemma called_for_arrays (hstill : h.Still a) (hstill' : h'.Still b) (hs : h.Ready s) (hs' : h'.Ready s')
    (hfmt : h.fmt.WriteNumbers) (hfmt' : h'.fmt.WriteNumbers)
    (hcall : h.CallsForArray s.world args kw A iface elem)
    (hcall' : h'.CallsForArray s'.world args' kw' A' iface' elem') (hdt : elem ≠ .dt64)
    (hdt' : elem' ≠ .dt64) (hshape : iface'.shape = iface.shape)
    (hindent : hasOpt A'.opts optIndent2 = hasOpt A.opts optIndent2)
    (hnewline : hasOpt A'.opts optAppendNewline = hasOpt A.opts optAppendNewline) (hint hint' : ℕ) :
    ∃ N bytes bytes' t t', (∀ fuel, N ≤ fuel → h.dumps hint fuel args kw s = .ok bytes t ∧
        h'.dumps hint' fuel args' kw' s' = .ok bytes' t') ∧
      (bytes = bytes' ↔ ∀ index, List.Forall₂ (· < ·) index iface.shape →
        h.elementText s.world.heap A.opts elem (elementAddress iface.data iface.strides index) =
          h'.elementText s'.world.heap A'.opts elem'
            (elementAddress iface'.data iface'.strides index)) := by
  have hlen : iface.shape.length = iface.strides.length :=
    iface.length_shape.trans iface.length_strides.symm
  have hlen' : iface.shape.length = iface'.strides.length := by
    rw [← hshape]
    exact iface'.length_shape.trans iface'.length_strides.symm
  have hplain := elementText_plain hfmt s.world.heap A.opts hdt
  have hplain' := elementText_plain hfmt' s'.world.heap A'.opts hdt'
  obtain ⟨N, doc, t, hrun, hdoc⟩ := called_for_array hstill hs hfmt hcall hdt hint
  obtain ⟨N', doc', t', hrun', hdoc'⟩ := called_for_array hstill' hs' hfmt' hcall' hdt' hint'
  have hlayout : dumpedText A'.opts doc' = dumpedText A.opts doc' := by
    unfold dumpedText
    rw [hindent, hnewline]
  refine ⟨max N N', _, _, t, t', fun fuel hfuel => ⟨hrun fuel (le_of_max_le_left hfuel),
    hrun' fuel (le_of_max_le_right hfuel)⟩, ?_⟩
  rw [hshape] at hdoc'
  rw [hlayout]
  exact dumpedText_eq_iff hplain hplain' hlen hlen' hdoc hdoc' A.opts

end Host

/-! ## The list of its items -/

/-- The Python object that numpy's `item()` makes of an element with the unsigned value `n`, where it is
written like that object. -/
def ElementType.item : ElementType → ℕ → Option Value
  | .bool, n => some (.bool (decide (n ≠ 0)))
  | .f64, n => some (.float (UInt64.ofNat n))
  | elem, n => (elem.intValue n).map .int

/-- An element is written as its item is. -/
lemma Leaves.text_item {l : Leaves} (hdecimal : ∀ z, Within64Bits z → l.fmt.itoa z = Decimal.intText z)
    {n : ℕ} (hn : n < 256 ^ l.elem.size) {v : Value} (hitem : l.elem.item n = some v) (sorted : Bool) :
    ∃ t, l.text n = .ok t ∧ v.doc l.fmt sorted = .leaf t := by
  obtain ⟨fmt, opts, elem, unit⟩ := l
  have hint : ∀ z, elem.intValue n = some z → (Value.int z).doc fmt sorted = .leaf (fmt.itoa z) := by
    intro z hz
    have hrange : Within64Bits z := ElementType.intValue_bounds hn hz
    rw [Value.doc, hdecimal z hrange]
  cases elem with
  | bool =>
      obtain rfl := Option.some.inj hitem
      refine ⟨_, rfl, ?_⟩
      simp [Value.doc]
  | f64 =>
      obtain rfl := Option.some.inj hitem
      exact ⟨_, rfl, rfl⟩
  | f16 | f32 | dt64 => cases hitem
  | i64 | i32 | i16 | i8 | u64 | u32 | u16 | u8 =>
      obtain rfl := Option.some.inj hitem
      exact ⟨_, rfl, hint _ rfl⟩

/-- The document of an array is the one of the nested list of its items. -/
lemma arrayDoc_items {fmt : Formats} {sorted : Bool} {text : ℤ → Except Decline Bytes} {leaf : ℤ → Value}
    (hleaf : ∀ p, ∃ t, text p = .ok t ∧ (leaf p).doc fmt sorted = .leaf t) (dims : List (ℕ × ℤ)) (p : ℤ) :
    arrayDoc text dims p = .ok ((nestedValue leaf dims p).doc fmt sorted) := by
  induction dims generalizing p with
  | nil =>
      obtain ⟨t, ht, hdoc⟩ := hleaf p
      rw [arrayDoc, ht, nestedValue, hdoc]
      rfl
  | cons dim rest ih =>
      rw [arrayDoc, mapM_ok ih, nestedValue, Value.doc, itemDocs_eq, List.map_map]
      rfl

namespace Host

variable {Obj Obj' H H' : Type} [DecidableEq Obj] [DecidableEq Obj'] {a b : Allocator}
  {h : Host Obj H} {h' : Host Obj' H'} {s : St Obj H a} {s' : St Obj' H' b}
  {args : List Obj} {args' : List Obj'} {kw : List (String × Obj)} {kw' : List (String × Obj')}
  {A : Arguments Obj} {A' : Arguments Obj'} {iface : PyArrayInterface} {elem : ElementType}

/-- The item at an address. -/
def itemAt (h : Host Obj H) (w : H) (elem : ElementType) (p : ℤ) : Value :=
  (elem.item (readNumber (h.rt.memory w) p elem.size)).getD .none

omit [DecidableEq Obj] in
lemma elementText_item (hdecimal : ∀ z, Within64Bits z → h.fmt.itoa z = Decimal.intText z) (w : H)
    (opts : UInt32) (hitem : ∀ n, (elem.item n).isSome) (sorted : Bool) (p : ℤ) :
    ∃ t, h.elementText w opts elem p = .ok t ∧ (h.itemAt w elem p).doc h.fmt sorted = .leaf t := by
  have hlt := Words.wordOf_lt ((List.range elem.size).map fun i : ℕ => h.rt.memory w (p + i))
  rw [List.length_map, List.length_range] at hlt
  obtain ⟨v, hv⟩ := Option.isSome_iff_exists.mp (hitem (readNumber (h.rt.memory w) p elem.size))
  have htext := Leaves.text_item (l := ⟨h.fmt, opts, elem, none⟩) hdecimal hlt hv sorted
  rw [itemAt, hv]
  exact htext

/-- **An array is written as `tolist()` of it.**  Take a call for an array of booleans, integers or
doubles, and one, on any build and with the same layout, for the nested list of its Python items.  The
first returns the text of the list.  So does the second if the list fits, and else it raises: the array has
neither the limit on nesting nor the one of `OPT_STRICT_INTEGER`. -/
theorem dumps_array_tolist {float : Bytes → UInt64 → Prop} {limit : ℕ} (hstill : h.Still a)
    (hstill' : h'.Still b) (hs : h.Ready s) (hs' : h'.Ready s') (hsame : h'.fmt = h.fmt)
    (hdecimal : ∀ z, Within64Bits z → h.fmt.itoa z = Decimal.intText z)
    (htrees : h'.WritesTrees (fun w => w = s'.world.heap) float limit)
    (hcall : h.CallsForArray s.world args kw A iface elem) (hitem : ∀ n, (elem.item n).isSome) {v : Value}
    (hv : v = nestedValue (h.itemAt s.world.heap elem) (iface.shape.zip iface.strides) iface.data)
    (hcall' : h'.CallsFor s'.world args' kw' A' v)
    (hindent : hasOpt A'.opts optIndent2 = hasOpt A.opts optIndent2)
    (hnewline : hasOpt A'.opts optAppendNewline = hasOpt A.opts optAppendNewline) (hint hint' : ℕ) :
    ∃ N bytes t t', ∀ fuel, N ≤ fuel → h.dumps hint fuel args kw s = .ok bytes t ∧
      (v.Fits (hasOpt A'.opts optStrictInteger) limit 0 →
        h'.dumps hint' fuel args' kw' s' = .ok bytes t') ∧
      (¬ v.Fits (hasOpt A'.opts optStrictInteger) limit 0 →
        h'.dumps hint' fuel args' kw' s' = .error ⟨⟩ t') := by
  have hdt : elem ≠ .dt64 := by
    rintro rfl
    exact absurd (hitem 0) (by decide)
  have hdoc : arrayDoc (h.elementText s.world.heap A.opts elem) (iface.shape.zip iface.strides) iface.data =
      .ok (v.doc h.fmt (hasOpt A'.opts optSortKeys)) := by
    rw [hv]
    exact arrayDoc_items (elementText_item hdecimal s.world.heap A.opts hitem _) _ _
  obtain ⟨N, t, -, hrun⟩ := dumps_called hstill hs hint args kw
  obtain ⟨N', t', r, -, -, hfits, hunfit, hrun'⟩ := called_for hstill' hs' htrees hcall' hint'
  have htext : h'.textOf A'.opts v = dumpedText A.opts (v.doc h.fmt (hasOpt A'.opts optSortKeys)) := by
    unfold textOf dumpedText
    rw [hindent, hnewline, hsame]
  refine ⟨max N N', dumpedText A.opts (v.doc h.fmt (hasOpt A'.opts optSortKeys)), t, t', fun fuel hfuel =>
    ⟨?_, fun hfit => ?_, fun hfit => ?_⟩⟩
  · rw [hrun fuel (le_of_max_le_left hfuel), meaning_array hcall hdt hdoc]
    rfl
  · rw [hrun' fuel (le_of_max_le_right hfuel), outcome, hfits hfit, htext]
  · rw [hrun' fuel (le_of_max_le_right hfuel), outcome, hunfit hfit]

/-- The rows of the array of four bytes. -/
def twoRows : Snapshot ℕ where
  view
    | 0 => ⟨none, "list", .list [1, 2]⟩
    | 1 => ⟨none, "list", .list [3, 3]⟩
    | 2 => ⟨none, "list", .list [3, 5]⟩
    | 3 => ⟨none, "int", .int 6⟩
    | _ => ⟨none, "int", .int (-2)⟩
  tupleItems _ := []
  pyNone := 7
  memory _ := 0
  answer _ := .ok 7

lemma twoRows_small {o : ℕ} {z : ℤ} (h : (twoRows.view o).body = .int z) : Within64Bits z := by
  unfold twoRows at h
  dsimp only at h
  split at h <;> cases h <;> decide

def rowsHost : Host ℕ Unit := { twoRows.host with fmt := Formats.fractions }

lemma rowsHost_still : rowsHost.Still Allocator.plain := twoRows.still _

lemma rowsHost_ready : rowsHost.Ready (twoRows.state ⟨none, none⟩) :=
  twoRows.ready _

lemma rowsHost_writes : rowsHost.WritesTrees (fun w => w = (twoRows.state ⟨none, none⟩).world.heap)
    (fun t bits => Decode.isInteger t = false ∧ fractionBits t = some bits) 0 :=
  twoRows.writesTrees (fun _ _ h => twoRows_small h) (fun _ hz => Formats.plain_itoa hz)
    fun bits _ => Formats.fractions_zmij64 bits

lemma rowsHost_calls : rowsHost.CallsFor (twoRows.state ⟨none, none⟩).world [0] [] ⟨0, none, 0⟩
    (.list [.list [.int 6, .int 6], .list [.int 6, .int (-2)]]) := by
  have hsix : Shows rowsHost.rt (fun w => w = (twoRows.state ⟨none, none⟩).world.heap) 3 (.int 6) :=
    .intro (fun _ _ => rfl) (.int 6)
  have hminus : Shows rowsHost.rt (fun w => w = (twoRows.state ⟨none, none⟩).world.heap) 5 (.int (-2)) :=
    .intro (fun _ _ => rfl) (.int (-2))
  have hrows : ShowAll rowsHost.rt (fun w => w = (twoRows.state ⟨none, none⟩).world.heap) [1, 2]
      [.list [.int 6, .int 6], .list [.int 6, .int (-2)]] :=
    .cons (.intro (fun _ _ => rfl) (.list (.cons hsix (.cons hsix .nil))))
      (.cons (.intro (fun _ _ => rfl) (.list (.cons hsix (.cons hminus .nil)))) .nil)
  exact ⟨rfl, .intro (fun _ _ => rfl) (.list hrows), Option.some_ne_none _⟩

/-- The array and its rows have one text. -/
theorem dumps_array_tolist_rows : ∃ N bytes t t', ∀ fuel, N ≤ fuel →
    columnsHost.dumps 0 fuel [0] [("option", 4)] columnsState = .ok bytes t ∧
      rowsHost.dumps 8 fuel [0] [] (twoRows.state ⟨none, none⟩) = .ok bytes t' := by
  have hsix : IntFits false 0 6 := Or.inl (by decide)
  have hminus : IntFits false 0 (-2) := Or.inl (by decide)
  have hfits : (Value.list [.list [.int 6, .int 6], .list [.int 6, .int (-2)]]).Fits false 0 0 :=
    ⟨by decide, ⟨by decide, hsix, hsix, trivial⟩, ⟨by decide, hsix, hminus, trivial⟩, trivial⟩
  have hitem : ∀ n, (ElementType.i8.item n).isSome := fun _ => rfl
  have hsigned : signed 1 6 = 6 ∧ signed 1 254 = -2 := by decide
  have hbytes : ∀ p, columnsHost.itemAt columnsState.world.heap .i8 p =
      .int (signed 1 (readNumber columnsArray.memory p 1)) := fun _ => rfl
  have hwords : readNumber columnsArray.memory 0 1 = 6 ∧ readNumber columnsArray.memory 1 1 = 6 ∧
      readNumber columnsArray.memory 2 1 = 6 ∧ readNumber columnsArray.memory 3 1 = 254 :=
    ⟨rfl, rfl, rfl, rfl⟩
  have hlist : Value.list [.list [.int 6, .int 6], .list [.int 6, .int (-2)]] =
      nestedValue (columnsHost.itemAt columnsState.world.heap .i8)
        (twoColumns.shape.zip twoColumns.strides) twoColumns.data := by
    have hrange : List.range 2 = [0, 1] := rfl
    simp [twoColumns, nestedValue, rowAddresses, hrange, hbytes, hwords, hsigned]
  obtain ⟨N, bytes, t, t', hrun⟩ := dumps_array_tolist
    (numpyHost_still Formats.fractions columnsArray_cls) rowsHost_still
    (numpyHost_ready Formats.fractions columnsArray_cls) rowsHost_ready rfl
    (fun _ hz => Formats.plain_itoa hz) rowsHost_writes columnsHost_calls hitem hlist rowsHost_calls rfl rfl
    0 8
  exact ⟨N, bytes, t, t', fun fuel hfuel => ⟨(hrun fuel hfuel).1, (hrun fuel hfuel).2.1 hfits⟩⟩

end Host

/-! ## Half-precision elements -/

/-- JSON does not tell the two apart: they are the same number, or none of them is a number. -/
def SameShown (d d' : Binary.Datum) : Prop :=
  d = d' ∨ (¬∃ s q, d = .finite s q) ∧ ¬∃ s q, d' = .finite s q

/-- The digits of a single are read back as the single. -/
def Formats.ReadsSingles (fmt : Formats) (single : Bytes → UInt32) : Prop :=
  ∀ v, isFinite32 v = true → single (fmt.zmij32 v) = v

lemma f32Text_eq_iff {fmt : Formats} {single : Bytes → UInt32} (hfmt : fmt.WriteNumbers)
    (hsingle : fmt.ReadsSingles single) (v w : UInt32) :
    Buffer.f32Text fmt v = Buffer.f32Text fmt w ↔ SameShown (datum32 v) (datum32 w) := by
  have hnull : ∀ u, isFinite32 u = true → fmt.zmij32 u ≠ Bytes.ascii "null" := by
    intro u hu heq
    have hnumber := isNumber_of (hfmt.zmij32 u hu)
    rw [heq] at hnumber
    exact absurd hnumber (by decide)
  unfold Buffer.f32Text SameShown
  rw [← isFinite32_iff, ← isFinite32_iff]
  constructor
  · intro htext
    split at htext
    · next hv =>
        split at htext
        · next hw =>
            refine .inl (congrArg datum32 ?_)
            rw [← hsingle v hv, ← hsingle w hw, htext]
        · exact absurd htext (hnull v hv)
    · next hv =>
        split at htext
        · next hw => exact absurd htext.symm (hnull w hw)
        · next hw => exact .inr ⟨hv, hw⟩
  · rintro (hdatum | ⟨hv, hw⟩)
    · by_cases hv : isFinite32 v = true
      · obtain ⟨s, q, hnumber⟩ := (isFinite32_iff v).mp hv
        have hnan : datum32 v ≠ .nan := by
          rw [hnumber]
          exact Binary.Datum.noConfusion
        rw [eq_of_datum32 hdatum hnan]
      · have hw : ¬isFinite32 w = true := by
          rw [isFinite32_iff, ← hdatum, ← isFinite32_iff]
          exact hv
        rw [if_neg hv, if_neg hw]
    · rw [if_neg hv, if_neg hw]

namespace Host

variable {Obj Obj' H H' : Type} [DecidableEq Obj] [DecidableEq Obj'] {a b : Allocator}
  {h : Host Obj H} {h' : Host Obj' H'} {s : St Obj H a} {s' : St Obj' H' b}
  {args : List Obj} {args' : List Obj'} {kw : List (String × Obj)} {kw' : List (String × Obj')}
  {A : Arguments Obj} {A' : Arguments Obj'} {iface iface' : PyArrayInterface}

/-- The half at an address. -/
def halfAt (h : Host Obj H) (w : H) (p : ℤ) : UInt16 := UInt16.ofNat (readNumber (h.rt.memory w) p 2)

/-- The single at an address. -/
def singleAt (h : Host Obj H) (w : H) (p : ℤ) : UInt32 := UInt32.ofNat (readNumber (h.rt.memory w) p 4)

/-- **A float16 array is written as the float32 array of its numbers.**  Take calls for a float16 and a
float32 array of one shape, with the same formatters and with the same indentation and line break.  They
return the same bytes if and only if at every index the two elements stand for the same number, with its
sign, or neither is a number. -/
theorem dumps_half_array {single : Bytes → UInt32} (hstill : h.Still a) (hstill' : h'.Still b)
    (hs : h.Ready s) (hs' : h'.Ready s') (hsame : h'.fmt = h.fmt) (hfmt : h.fmt.WriteNumbers)
    (hsingle : h.fmt.ReadsSingles single) (hcall : h.CallsForArray s.world args kw A iface .f16)
    (hcall' : h'.CallsForArray s'.world args' kw' A' iface' .f32) (hshape : iface'.shape = iface.shape)
    (hindent : hasOpt A'.opts optIndent2 = hasOpt A.opts optIndent2)
    (hnewline : hasOpt A'.opts optAppendNewline = hasOpt A.opts optAppendNewline) (hint hint' : ℕ) :
    ∃ N bytes bytes' t t', (∀ fuel, N ≤ fuel → h.dumps hint fuel args kw s = .ok bytes t ∧
        h'.dumps hint' fuel args' kw' s' = .ok bytes' t') ∧
      (bytes = bytes' ↔ ∀ index, List.Forall₂ (· < ·) index iface.shape →
        SameShown (datum16 (h.halfAt s.world.heap (elementAddress iface.data iface.strides index)))
          (datum32 (h'.singleAt s'.world.heap (elementAddress iface'.data iface'.strides index)))) := by
  have helement : ∀ p q, h.elementText s.world.heap A.opts .f16 p =
      h'.elementText s'.world.heap A'.opts .f32 q ↔
      SameShown (datum16 (h.halfAt s.world.heap p)) (datum32 (h'.singleAt s'.world.heap q)) := by
    intro p q
    have hhalf : h.elementText s.world.heap A.opts .f16 p =
        .ok (Buffer.f32Text h.fmt (f16ToF32 (h.halfAt s.world.heap p))) := rfl
    have hwhole : h'.elementText s'.world.heap A'.opts .f32 q =
        .ok (Buffer.f32Text h'.fmt (h'.singleAt s'.world.heap q)) := rfl
    rw [hhalf, hwhole, hsame, Except.ok.injEq, f32Text_eq_iff hfmt hsingle, datum32_f16ToF32]
  obtain ⟨N, bytes, bytes', t, t', hrun, hiff⟩ := called_for_arrays hstill hstill' hs hs' hfmt
    (hsame ▸ hfmt) hcall hcall' (by decide) (by decide) hshape hindent hnewline hint hint'
  refine ⟨N, bytes, bytes', t, t', hrun, hiff.trans ?_⟩
  simp only [helement]

/-- The text of a single: that of 1.0, and else its bits as the digits of a fraction. -/
def singleText (v : UInt32) : Bytes :=
  if v = 0x3F800000 then Bytes.ascii "1.0" else [48, 46] ++ Decimal.natText v.toNat

/-- The single that such a text stands for. -/
def singleOf (t : Bytes) : UInt32 :=
  if t = Bytes.ascii "1.0" then 0x3F800000 else UInt32.ofNat (Decimal.value (t.drop 2))

lemma length_singleText (v : UInt32) : (singleText v).length ≤ 22 := by
  unfold singleText
  split
  · decide
  · have hlength := Decimal.length_natText_le 19 (lt_trans v.toNat_lt (by norm_num))
    rw [List.length_append, List.length_cons, List.length_singleton]
    exact (Nat.add_le_add_left hlength 2).trans (by decide)

/-- Formatters that tell all floats apart. -/
def fractions32 : Formats :=
  { Formats.fractions with
    zmij32 := singleText
    length_zmij32 := length_singleText }

lemma fractions32_writeNumbers : fractions32.WriteNumbers where
  itoa := Formats.writeNumbers_plain.itoa
  zmij64 v _ := (Formats.fractions_zmij64 v).1
  zmij32 v _ := by
    show IsNumber (singleText v)
    unfold singleText
    split
    · have hone : IsDigits [49] := ⟨by simp, by simp [Decimal.IsDigit]⟩
      have hzero : IsDigits [48] := ⟨by simp, by simp [Decimal.IsDigit]⟩
      exact ⟨[], [49], [46, 48], [], .inl rfl, .inr ⟨hone, by decide⟩, .inr ⟨[48], hzero, rfl⟩, .inl rfl,
        rfl⟩
    · refine ⟨[], [48], 46 :: Decimal.natText v.toNat, [], .inl rfl, .inl rfl, .inr ⟨_, ?_, rfl⟩,
        .inl rfl, ?_⟩
      · exact ⟨Decimal.natText_ne_nil _, Decimal.isDigit_natText _⟩
      · rw [List.append_nil]
        rfl

lemma fractions32_readsSingles : fractions32.ReadsSingles singleOf := by
  intro v _
  show singleOf (singleText v) = v
  unfold singleText
  split
  · next hone =>
      rw [hone]
      rfl
  · have hne : [48, 46] ++ Decimal.natText v.toNat ≠ Bytes.ascii "1.0" := fun h =>
      absurd (List.cons.inj h).1 (by decide)
    have hdrop : ([48, 46] ++ Decimal.natText v.toNat).drop 2 = Decimal.natText v.toNat := rfl
    rw [singleOf, if_neg hne, hdrop, Decimal.value_natText, UInt32.ofNat_toNat]

/-- The shape of a row of two floats. -/
lemma length_rowOfTwo : [(2 : ℕ)].length = 1 := rfl

/-- The interface of two floats of a size, from an address on. -/
def twoFloats (itemsize : ℕ) (data : ℤ) : PyArrayInterface where
  two := 2
  nd := 1
  typekind := 102
  itemsize := itemsize
  flags := 0x201
  shape := [2]
  strides := [itemsize]
  data := data
  length_shape := length_rowOfTwo
  length_strides := rfl

/-- Two halves, 1.0 and a NaN; and two singles, 1.0 and an infinity. -/
def twoArrays : Snapshot ℕ where
  view
    | 1 => ⟨none, "PyCapsule", .capsule (some (twoFloats 2 0))⟩
    | 6 => ⟨none, "PyCapsule", .capsule (some (twoFloats 4 100))⟩
    | 4 => ⟨none, "int", .int 16⟩
    | _ => ⟨some 2, "numpy.ndarray", .other⟩
  tupleItems _ := []
  pyNone := 3
  memory p :=
    if p = 1 then 0x3C else if p = 3 then 0x7E else if p = 102 ∨ p = 106 then 0x80
    else if p = 103 then 0x3F else if p = 107 then 0x7F else 0
  answer
    | .getAttr 5 _ => .ok 6
    | _ => .ok 1

lemma twoArrays_cls (o : ℕ) : (twoArrays.view o).cls = none ∨ (twoArrays.view o).cls = some 2 := by
  unfold twoArrays
  dsimp only
  split
  · exact .inl rfl
  · exact .inl rfl
  · exact .inl rfl
  · exact .inr rfl

/-- The two arrays have one text. -/
theorem dumps_half_array_two : ∃ N bytes t t', ∀ fuel, N ≤ fuel →
    (numpyHost twoArrays fractions32).dumps 0 fuel [0] [("option", 4)] (numpyState twoArrays) =
        .ok bytes t ∧
      (numpyHost twoArrays fractions32).dumps 7 fuel [5] [("option", 4)] (numpyState twoArrays) =
        .ok bytes t' := by
  have hscene : (numpyHost twoArrays fractions32).scene (numpyState twoArrays).world =
      some ⟨(), none, .ok (some numpyGroup)⟩ := rfl
  have hhalf : (numpyHost twoArrays fractions32).CallsForArray (numpyState twoArrays).world [0]
      [("option", 4)] ⟨0, none, 16⟩ (twoFloats 2 0) .f16 :=
    ⟨rfl, rfl, ⟨_, _, hscene, rfl, rfl, fun _ h => absurd h (Option.not_mem_none _)⟩, rfl,
      ⟨1, rfl, rfl⟩, rfl, rfl⟩
  have hsingle : (numpyHost twoArrays fractions32).CallsForArray (numpyState twoArrays).world [5]
      [("option", 4)] ⟨5, none, 16⟩ (twoFloats 4 100) .f32 :=
    ⟨rfl, rfl, ⟨_, _, hscene, rfl, rfl, fun _ h => absurd h (Option.not_mem_none _)⟩, rfl,
      ⟨6, rfl, rfl⟩, rfl, rfl⟩
  have hstill := numpyHost_still fractions32 twoArrays_cls
  have hready := numpyHost_ready fractions32 twoArrays_cls
  obtain ⟨N, bytes, bytes', t, t', hrun, hiff⟩ := dumps_half_array hstill hstill hready hready rfl
    fractions32_writeNumbers fractions32_readsSingles hhalf hsingle rfl rfl rfl 0 7
  have hone : SameShown (datum16 0x3C00) (datum32 0x3F800000) := by
    have hwide : f16ToF32 0x3C00 = 0x3F800000 := by decide
    exact .inl (hwide ▸ (datum32_f16ToF32 0x3C00).symm)
  have hnone : SameShown (datum16 0x7E00) (datum32 0x7F800000) := by
    refine .inr ⟨?_, ?_⟩
    · rw [← datum32_f16ToF32, ← isFinite32_iff]
      decide
    · rw [← isFinite32_iff]
      decide
  obtain rfl : bytes = bytes' := by
    refine hiff.mpr fun index hindex => ?_
    obtain ⟨i, rest, hi, hrest, rfl⟩ := List.forall₂_cons_right_iff.mp hindex
    obtain rfl := List.forall₂_nil_right_iff.mp hrest
    obtain rfl | rfl : i = 0 ∨ i = 1 := by omega
    · exact hone
    · exact hnone
  exact ⟨N, bytes, t, t', hrun⟩

end Host

end Isojson
