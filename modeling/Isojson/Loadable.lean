import Isojson.Calls
import Isojson.Canonical
import Isojson.NestedList

/-!
# What `dumps` returns can be loaded

Whatever a document consists of, the text of it is a JSON text, and it is nested no deeper than the
containers of the document, with an array at the bottom (`Env.grounds_shape`).  So `loads` reads it.

An array comes back as the nested list of its elements.
-/

namespace Isojson

open Json Run

variable {Obj H : Type} {a : Allocator}

/-! ## The numbers that are written -/

/-- The texts of the numbers that the encoder writes. -/
inductive Formats.Writes (fmt : Formats) : Bytes → Prop
  | itoa {z : ℤ} (hz : Within64Bits z) : fmt.Writes (fmt.itoa z)
  | digits {z : ℤ} (hz : ¬ Within64Bits z) : fmt.Writes (Decimal.intText z)
  | zmij64 {v : UInt64} (hv : isFinite64 v = true) : fmt.Writes (fmt.zmij64 v)
  | zmij32 {v : UInt32} (hv : isFinite32 v = true) : fmt.Writes (fmt.zmij32 v)

section Leaves

open Reader

variable {P : Bytes → Prop} {fmt : Formats} {rank : ℕ} {t : Bytes}

lemma standsWithin_number (ht : IsNumber t) (hP : P t) : StandsWithin P rank (.leaf t) :=
  ⟨.number t, .leaf (.number ht), Nat.zero_le rank, List.forall_mem_singleton.mpr hP⟩

lemma standsWithin_string (ht : ∃ s, IsString t s) : StandsWithin P rank (.leaf t) := by
  obtain ⟨s, hs⟩ := ht
  exact ⟨.string s, .leaf (.string hs), Nat.zero_le rank, fun _ h => absurd h List.not_mem_nil⟩

lemma standsWithin_null : StandsWithin P rank (.leaf (Bytes.ascii "null")) :=
  ⟨.null, .leaf .null, Nat.zero_le rank, fun _ h => absurd h List.not_mem_nil⟩

lemma standsWithin_bool (b : Bool) :
    StandsWithin P rank (.leaf (if b then Bytes.ascii "true" else Bytes.ascii "false")) := by
  cases b with
  | false => exact ⟨.bool false, .leaf .false, Nat.zero_le rank, fun _ h => absurd h List.not_mem_nil⟩
  | true => exact ⟨.bool true, .leaf .true, Nat.zero_le rank, fun _ h => absurd h List.not_mem_nil⟩

lemma standsWithin_itoa (hfmt : fmt.WriteNumbers) {z : ℤ} (hz : Within64Bits z) :
    StandsWithin fmt.Writes rank (.leaf (fmt.itoa z)) :=
  standsWithin_number (hfmt.itoa z hz.1 hz.2) (.itoa hz)

lemma standsWithin_f64Text (hfmt : fmt.WriteNumbers) (v : UInt64) :
    StandsWithin fmt.Writes rank (.leaf (Buffer.f64Text fmt v)) := by
  unfold Buffer.f64Text
  split
  · next hv => exact standsWithin_number (hfmt.zmij64 v hv) (.zmij64 hv)
  · exact standsWithin_null

lemma standsWithin_f32Text (hfmt : fmt.WriteNumbers) (v : UInt32) :
    StandsWithin fmt.Writes rank (.leaf (Buffer.f32Text fmt v)) := by
  unfold Buffer.f32Text
  split
  · next hv => exact standsWithin_number (hfmt.zmij32 v hv) (.zmij32 hv)
  · exact standsWithin_null

lemma standsWithin_dt64 {opts : UInt32} {v : ℤ} {unit : Dt64Unit} (ht : dt64Text opts v unit = .ok t) :
    StandsWithin P rank (.leaf t) := by
  unfold dt64Text at ht
  split at ht
  · obtain rfl := Except.ok.inj ht
    exact standsWithin_string (isString_datetime _ _ _)
  · exact absurd ht (by simp)
  · exact absurd ht (by simp)
  · obtain rfl := Except.ok.inj ht
    exact standsWithin_null

/-- The text of an element, where its unit is known. -/
lemma Leaves.standsWithin {l : Leaves} (hfmt : l.fmt.WriteNumbers)
    (hunit : l.elem = .dt64 → l.unit.isSome) {n : ℕ} (hn : n < 256 ^ l.elem.size)
    (ht : l.text n = .ok t) : StandsWithin l.fmt.Writes rank (.leaf t) := by
  have hint : ∀ z, l.elem.intValue n = some z → StandsWithin l.fmt.Writes rank (.leaf (l.fmt.itoa z)) :=
    fun z hz => standsWithin_itoa hfmt (ElementType.intValue_bounds hn hz)
  obtain ⟨fmt, opts, elem, unit⟩ := l
  cases elem with
  | bool =>
      obtain rfl := Except.ok.inj ht
      simpa using standsWithin_bool (decide (n ≠ 0))
  | f16 =>
      obtain rfl := Except.ok.inj ht
      exact standsWithin_f32Text hfmt _
  | f32 =>
      obtain rfl := Except.ok.inj ht
      exact standsWithin_f32Text hfmt _
  | f64 =>
      obtain rfl := Except.ok.inj ht
      exact standsWithin_f64Text hfmt _
  | dt64 =>
      obtain ⟨unit, rfl⟩ := Option.isSome_iff_exists.mp (hunit rfl)
      simp only [Leaves.text] at ht
      exact standsWithin_dt64 ht
  | i64 | i32 | i16 | i8 | u64 | u32 | u16 | u8 =>
      obtain rfl := Except.ok.inj ht
      exact hint _ rfl

/-- The document of an array is as deep as the array has dimensions. -/
lemma standsWithin_arrayDoc {text : ℤ → Except Decline Bytes} {dims : List (ℕ × ℤ)}
    (h : (∀ p t, text p = .ok t → StandsWithin P 0 (.leaf t)) ∨ 0 ∈ dims.map Prod.fst) {p : ℤ} {doc : Doc}
    (hdoc : arrayDoc text dims p = .ok doc) : StandsWithin P dims.length doc := by
  induction dims generalizing p doc with
  | nil =>
      rw [arrayDoc] at hdoc
      cases ht : text p with
      | error reason =>
          rw [ht] at hdoc
          exact absurd hdoc (by simp [Except.map])
      | ok t =>
          rw [ht] at hdoc
          obtain rfl := Except.ok.inj hdoc
          exact h.resolve_right List.not_mem_nil p t ht
  | cons dim dims ih =>
      obtain ⟨len, stride⟩ := dim
      rw [arrayDoc] at hdoc
      cases hitems : (rowAddresses p len stride).mapM (arrayDoc text dims) with
      | error reason =>
          rw [hitems] at hdoc
          exact absurd hdoc (by simp [Except.map])
      | ok docs =>
          rw [hitems] at hdoc
          obtain rfl := Except.ok.inj hdoc
          refine .arr fun doc hmem => ?_
          obtain ⟨q, hq, hitem⟩ := mapM_ok_forall hitems doc hmem
          refine ih (h.imp_right fun hzero => (List.mem_cons.mp hzero).resolve_left ?_) hitem
          -- a row without items has no documents
          rintro rfl
          exact absurd hq List.not_mem_nil

end Leaves

/-! ## The shapes of objects -/

namespace Env

open Reader

variable {e : Env Obj H} {sc : Scene Obj H} {h : H} {rank : ℕ} {obj : Obj} {body : Body Obj}

/-- No array has more than `rank` dimensions. -/
def RankLe (e : Env Obj H) (h : H) (rank : ℕ) : Prop :=
  ∀ o iface, (e.rt.view h o).body = .capsule (some iface) → iface.shape.length ≤ rank

lemma grounds_text (t : StrObj) : Grounds e.fmt.Writes rank (textShape t.chars : Shape Obj) := by
  unfold textShape
  split
  · exact trivial
  · next hs =>
      refine standsWithin_string ⟨_, isString_quoted fun c hc => ?_⟩
      refine ⟨t.holds.code_points c hc, fun hc' => hs ?_⟩
      rw [List.any_eq_true]
      exact ⟨c, hc, decide_eq_true hc'⟩

lemma grounds_int (hfmt : e.fmt.WriteNumbers) (z : ℤ) : Grounds e.fmt.Writes rank (e.intShape h obj z) := by
  unfold intShape
  split_ifs with hstrict h64
  · exact trivial
  · exact standsWithin_itoa hfmt h64
  · split
    · exact trivial
    · split
      · exact trivial
      · exact standsWithin_number (isNumber_intText z) (.digits h64)

lemma grounds_datetime : Grounds e.fmt.Writes rank (e.datetimeShape h obj body) := by
  unfold datetimeShape
  split
  · split
    · exact trivial
    · exact standsWithin_string (isString_datetime _ _ _)
  · exact trivial

lemma grounds_date : Grounds e.fmt.Writes rank (dateShape body : Shape Obj) := by
  unfold dateShape
  split
  · exact standsWithin_string (isString_date _)
  · exact trivial

lemma grounds_time : Grounds e.fmt.Writes rank (e.timeShape h obj body) := by
  unfold timeShape
  split
  · split
    · exact trivial
    · exact standsWithin_string (isString_timeText _ _ _ _)
  · exact trivial

/-- The unit is read from a dtype string where it is needed. -/
lemma grounds_unit {needed : Bool} {k : Option Dt64Unit → Shape Obj}
    (hk : ∀ unit, UnitInRange unit → (needed = true → unit.isSome) → Grounds e.fmt.Writes rank (k unit)) :
    Grounds e.fmt.Writes rank (e.unitShape h obj needed k) := by
  unfold unitShape
  split
  · split
    · exact trivial
    · split
      · exact trivial
      · next unit hunit => exact hk _ (unitInRange_of_parseDt64 hunit) fun _ => rfl
  · next hneeded =>
      exact hk none (fun u hu => absurd hu (Option.not_mem_none u)) fun h => absurd h hneeded

lemma grounds_held (hfmt : e.fmt.WriteNumbers) {iface : PyArrayInterface}
    (hrank : iface.shape.length ≤ rank) : Grounds e.fmt.Writes rank (e.heldShape h obj iface) := by
  unfold heldShape
  split
  · exact trivial
  · split <;> exact trivial
  · next elem _ =>
      refine grounds_unit fun unit hunit hsome => ?_
      unfold offerShape
      split
      · next doc hdoc =>
          refine StandsWithin.mono (standsWithin_arrayDoc ?_ hdoc) (le_trans ?_ hrank)
          · by_cases hzero : 0 ∈ iface.shape
            · right
              rw [List.map_fst_zip (by rw [iface.length_shape, iface.length_strides])]
              exact hzero
            · left
              intro p t ht
              have hlt := Words.wordOf_lt ((List.range elem.size).map fun i : ℕ => e.rt.memory h (p + i))
              rw [List.length_map, List.length_range] at hlt
              exact Leaves.standsWithin (l := e.leaves elem unit) hfmt
                (fun hdt => hsome (decide_eq_true ⟨hdt, hzero⟩)) hlt ht
          · rw [List.length_zip]
            exact min_le_left ..
      · exact trivial

lemma grounds_array (hfmt : e.fmt.WriteNumbers) (hrank : e.RankLe h rank) :
    Grounds e.fmt.Writes rank (e.arrayShape h obj) := by
  unfold arrayShape
  split
  · exact trivial
  · split
    · next iface hiface =>
        split
        · exact grounds_held hfmt (hrank _ _ hiface)
        · exact trivial
    · exact trivial

lemma grounds_scalar (hfmt : e.fmt.WriteNumbers) (elem : ElementType) :
    Grounds e.fmt.Writes rank (e.scalarShape h obj body elem) := by
  unfold scalarShape
  refine grounds_unit fun unit hunit hsome => ?_
  unfold elementShape
  split
  · next data =>
      unfold offerShape
      cases ht : (e.leaves elem unit).text (Words.wordOf (data.take elem.size)) with
      | error reason => exact trivial
      | ok t =>
          have hlt : Words.wordOf (data.take elem.size) < 256 ^ elem.size :=
            (Words.wordOf_lt _).trans_le (Nat.pow_le_pow_right (by decide) (List.length_take_le ..))
          exact Leaves.standsWithin (l := e.leaves elem unit) hfmt
            (fun hdt => hsome (decide_eq_true hdt)) hlt ht
  · exact trivial

lemma isString_member {kv : Entry Obj} (hgood : e.goodKey h kv.1 = true) :
    ∃ s, IsString (e.member h kv).1 s := by
  unfold goodKey at hgood
  rw [Option.isNone_iff_eq_none, keyError_eq_none] at hgood
  obtain ⟨cs, hcs⟩ := hgood
  refine ⟨cs, ?_⟩
  unfold member
  rw [hcs.1]
  exact isString_of_writable hcs

lemma grounds_dict (slots : List (Option (Entry Obj))) : Grounds e.fmt.Writes rank (e.dictShape h slots) := by
  unfold dictShape
  dsimp only
  split
  · split
    · next hgood =>
        rw [List.all_eq_true] at hgood
        intro m hm
        obtain ⟨kv, hkv, rfl⟩ := List.mem_map.mp hm
        exact isString_member (hgood kv (List.mem_mergeSort.mp hkv))
    · exact fun m hm => absurd hm List.not_mem_nil
  · intro m hm
    obtain ⟨kv, hkv, rfl⟩ := List.mem_map.mp hm
    exact isString_member (List.mem_takeWhile_imp (p := fun kv : Entry Obj => e.goodKey h kv.1) hkv)

variable [DecidableEq Obj]

lemma grounds_other (hfmt : e.fmt.WriteNumbers) (hrank : e.RankLe sc.heap rank) (p : PyObj Obj) :
    Grounds e.fmt.Writes rank (e.otherShape sc obj p) := by
  unfold otherShape
  split
  · next shape hshape =>
      obtain ⟨dt, -, hdt⟩ := Option.bind_eq_some_iff.mp hshape
      unfold datetimeLikeShape at hdt
      split_ifs at hdt
      · exact Option.some.inj hdt ▸ grounds_datetime
      · exact Option.some.inj hdt ▸ grounds_date
      · exact Option.some.inj hdt ▸ grounds_time
  · split
    · next shape hshape =>
        unfold subclassShape at hshape
        split_ifs at hshape
        split at hshape
        · exact Option.some.inj hshape ▸ grounds_text _
        · exact Option.some.inj hshape ▸ grounds_int hfmt _
        · exact Option.some.inj hshape ▸ grounds_dict _
        · exact Option.some.inj hshape ▸ trivial
        · exact absurd hshape (by simp)
    · unfold numpyShape
      split
      · split
        · exact trivial
        · split
          · exact trivial
          · next shape hshape =>
              obtain ⟨np, -, hnp⟩ := Option.bind_eq_some_iff.mp hshape
              unfold numpyWriterShape at hnp
              split_ifs at hnp
              · exact Option.some.inj hnp ▸ grounds_array hfmt hrank
              · obtain ⟨elem, -, rfl⟩ := Option.map_eq_some_iff.mp hnp
                exact grounds_scalar hfmt elem
      · exact trivial

/-- **Every shape is grounded**: the texts that objects are written as are JSON texts, those of arrays are
as deep as the arrays have dimensions, and the numbers in them are those that the encoder writes. -/
lemma grounds_shape (hfmt : e.fmt.WriteNumbers) (hrank : e.RankLe sc.heap rank) (x : Obj) :
    Grounds e.fmt.Writes rank ((e.reader sc).shape x) := by
  show Grounds e.fmt.Writes rank (e.shape sc x)
  unfold shape
  dsimp only
  split
  · exact grounds_text _
  · exact grounds_int hfmt _
  · exact standsWithin_f64Text hfmt _
  · exact standsWithin_bool _
  · exact standsWithin_null
  · exact grounds_dict _
  · exact trivial
  · exact trivial
  · exact grounds_other hfmt hrank _

end Env

/-! ## Texts that are loaded -/

namespace Decode

section Trees

variable {float : Bytes → Option UInt64}

mutual

/-- simd-json has a tree for every tree of texts, if it has nodes for the numbers. -/
lemma treeOf_isSome : ∀ {n : Json.Node}, n.IsTexts → (∀ t ∈ n.numbers, (numberTree float t).isSome) →
    ∃ tree, treeOf float n = some tree
  | .null, _, _ => ⟨_, rfl⟩
  | .bool _, _, _ => ⟨_, rfl⟩
  | .number t, _, h => Option.isSome_iff_exists.mp (h t List.mem_cons_self)
  | .string s, h, _ => ⟨.string ⟨s, h⟩, by rw [treeOf, textOf_eq h]; rfl⟩
  | .array _, h, hnumbers => by
      obtain ⟨ts, hts⟩ := treesOf_isSome h hnumbers
      exact ⟨.array ts, by rw [treeOf, hts]; rfl⟩
  | .object _, h, hnumbers => by
      obtain ⟨ts, hts⟩ := memberTrees_isSome h hnumbers
      exact ⟨.object ts, by rw [treeOf, hts]; rfl⟩

lemma treesOf_isSome : ∀ {ns : List Json.Node}, itemsTexts ns →
    (∀ t ∈ itemsNumbers ns, (numberTree float t).isSome) → ∃ ts, treesOf float ns = some ts
  | [], _, _ => ⟨[], rfl⟩
  | _ :: _, h, hnumbers => by
      obtain ⟨hnumber, hnumbers⟩ := List.forall_mem_append.mp hnumbers
      obtain ⟨t, ht⟩ := treeOf_isSome h.1 hnumber
      obtain ⟨ts, hts⟩ := treesOf_isSome h.2 hnumbers
      exact ⟨t :: ts, by rw [treesOf, ht, hts]; rfl⟩

lemma memberTrees_isSome : ∀ {ms : List (List ℕ × Json.Node)}, membersTexts ms →
    (∀ t ∈ membersNumbers ms, (numberTree float t).isSome) → ∃ ts, memberTrees float ms = some ts
  | [], _, _ => ⟨[], rfl⟩
  | (_, _) :: _, h, hnumbers => by
      obtain ⟨hnumber, hnumbers⟩ := List.forall_mem_append.mp hnumbers
      obtain ⟨t, ht⟩ := treeOf_isSome h.2.1 hnumber
      obtain ⟨ts, hts⟩ := memberTrees_isSome h.2.2 hnumbers
      exact ⟨(⟨_, h.1⟩, t) :: ts, by rw [memberTrees, textOf_eq h.1, ht, hts]; rfl⟩

end

end Trees

/-- `loads` reads a text as the tree of what it stands for, whatever object it is given the text in. -/
lemma loads_isText {B : Type} {float : Bytes → Option UInt64} {maxDepth : ℕ} {p : Parser B}
    {parse : Bytes → Except (ErrorType × ℕ) Tree} (hp : p.Reads parse)
    (hjson : ReadsJson parse float maxDepth) {bytes : Bytes} {n : Json.Node} (htext : Json.IsText bytes n)
    (hsize : bytes.length < 2 ^ 32) (hdepth : n.depth ≤ maxDepth) {tree : Tree}
    (htree : treeOf float n = some tree) {arg : Arg} (harg : Carries bytes arg) (during : List Act)
    {t : Thread B} (ht : t.Sound) : Answers (.ok tree.value) (loads p (runAll p during) arg) t := by
  have hanswer := loads_answers hp (behaves_runAll hp during) arg ht
  rwa [answer_isText hjson htext hsize hdepth htree harg] at hanswer

/-- The texts of one tree are read as one value. -/
lemma exists_loads_isText {B : Type} {float : Bytes → Option UInt64} {maxDepth : ℕ} {p : Parser B}
    {parse : Bytes → Except (ErrorType × ℕ) Tree} (hp : p.Reads parse)
    (hjson : ReadsJson parse float maxDepth) {bytes : Bytes} {n : Json.Node} (htext : Json.IsText bytes n)
    (hnumbers : ∀ t ∈ n.numbers, (numberTree float t).isSome) (hdepth : n.depth ≤ maxDepth) :
    ∃ v, ∀ bytes', Json.IsText bytes' n → bytes'.length < 2 ^ 32 → ∀ arg, Carries bytes' arg →
      ∀ (during : List Act) (t : Thread B), t.Sound →
        Answers (.ok v) (loads p (runAll p during) arg) t := by
  have htexts : n.IsTexts := by
    obtain ⟨w, u, w', -, hu, -, -⟩ := htext
    exact hu.isTexts
  obtain ⟨tree, htree⟩ : ∃ tree, treeOf float n = some tree := treeOf_isSome htexts hnumbers
  refine ⟨tree.value, fun bytes' htext' hsize arg harg during t ht => ?_⟩
  exact loads_isText hp hjson htext' hsize hdepth htree harg during ht

/-- The parser has a double for every integer beyond 64 bits that stands in a text. -/
def FitsWide (float : Bytes → Option UInt64) (bytes : Bytes) : Prop :=
  ∀ n, Json.IsText bytes n → ∀ z, ¬ Within64Bits z → Decimal.intText z ∈ n.numbers →
    (float (Decimal.intText z)).isSome

end Decode

/-- The formatters write what the parser reads: integers in decimal, doubles by a text of their own, and
singles by one that is in the range of doubles. -/
structure Formats.ReadBy (fmt : Formats) (float : Bytes → Option UInt64) : Prop
    extends fmt.WriteNumbers where
  decimal : ∀ z, Within64Bits z → fmt.itoa z = Decimal.intText z
  double : ∀ v, isFinite64 v = true →
    Decode.isInteger (fmt.zmij64 v) = false ∧ float (fmt.zmij64 v) = some v
  single : ∀ v, isFinite32 v = true →
    Decode.isInteger (fmt.zmij32 v) = false ∧ (float (fmt.zmij32 v)).isSome

lemma Formats.fractions_readBy : Formats.fractions.ReadBy fractionBits where
  itoa := Formats.writeNumbers_plain.itoa
  zmij64 v _ := (Formats.fractions_zmij64 v).1
  zmij32 := Formats.writeNumbers_plain.zmij32
  decimal _ hz := Formats.plain_itoa hz
  double v _ := (Formats.fractions_zmij64 v).2
  single _ _ := ⟨rfl, rfl⟩

/-- **The numbers that are written can be read**, all but integers that are beyond the range of doubles. -/
lemma Formats.Writes.isSome_numberTree {fmt : Formats} {float : Bytes → Option UInt64} {t : Bytes}
    (h : fmt.Writes t) (hfmt : fmt.ReadBy float)
    (hwide : ∀ z, ¬ Within64Bits z → Decimal.intText z = t → (float t).isSome) :
    (Decode.numberTree float t).isSome := by
  have hfloat : ∀ {u : Bytes}, Decode.isInteger u = false → (float u).isSome →
      (Decode.numberTree float u).isSome := by
    intro u hu hsome
    obtain ⟨bits, hbits⟩ := Option.isSome_iff_exists.mp hsome
    rw [Decode.numberTree_float hu hbits]
    rfl
  cases h with
  | @itoa z hz =>
      obtain ⟨tree, htree, -⟩ : ∃ tree, Decode.numberTree float (Decimal.intText z) = some tree ∧
          tree.value = .int z := Decode.numberTree_intText hz
      rw [hfmt.decimal z hz, htree]
      rfl
  | @digits z hz =>
      unfold Decode.numberTree
      rw [Decimal.readInt_intText]
      dsimp only
      rw [if_neg fun h => hz h.2, Option.isSome_map]
      exact hwide z hz rfl
  | @zmij64 v hv =>
      obtain ⟨hno, hbits⟩ := hfmt.double v hv
      exact hfloat hno (by rw [hbits]; rfl)
  | @zmij32 v hv => exact hfloat (hfmt.single v hv).1 (hfmt.single v hv).2

/-- All numbers in a text are readable then. -/
lemma Formats.ReadBy.numbers {fmt : Formats} {float : Bytes → Option UInt64} (hfmt : fmt.ReadBy float)
    {bytes : Bytes} {n : Json.Node} (htext : Json.IsText bytes n) (hwide : Decode.FitsWide float bytes)
    (h : ∀ t ∈ n.numbers, fmt.Writes t) : ∀ t ∈ n.numbers, (Decode.numberTree float t).isSome :=
  fun t ht => (h t ht).isSome_numberTree hfmt fun z hz heq => heq ▸ hwide n htext z hz (heq ▸ ht)

namespace Host

variable [DecidableEq Obj] {h : Host Obj H} {s s' : St Obj H a} {args : List Obj}
  {kw : List (String × Obj)} {hint fuel : ℕ} {bytes : Bytes}

/-- A text that was returned is that of a document that was read. -/
lemma exists_doc_of_dumps (hstill : h.Still a) (hs : h.Ready s)
    (hdumps : h.dumps hint fuel args kw s = .ok bytes s') :
    ∃ (A : Arguments Obj) (sc : Scene Obj H) (doc : Doc), h.arguments s.world.heap args kw = .ok A ∧
      sc.heap = s.world.heap ∧ (((h.env A sc.dt).reader sc).read 0 0 A.obj).result = some doc ∧
      bytes = dumpedText A.opts doc := by
  have hresult := meaning_of_dumps hstill hs hdumps
  unfold meaning at hresult
  cases hargs : h.arguments s.world.heap args kw with
  | error msg =>
      rw [hargs] at hresult
      exact absurd hresult (by simp [Reading.fail])
  | ok A =>
      rw [hargs] at hresult
      dsimp only [meaningOf] at hresult
      cases hscene : h.scene s.world with
      | none =>
          rw [hscene] at hresult
          exact absurd hresult (by simp [Reading.fail])
      | some sc =>
          rw [hscene] at hresult
          obtain ⟨doc, hdoc, hbytes⟩ := Reading.result_bind hresult
          exact ⟨A, sc, doc, rfl, heap_of_scene hscene, hdoc, (Option.some.inj hbytes).symm⟩

/-- It is the text of a document that is nested no deeper than the encoder allows, with numbers that the
encoder writes. -/
lemma exists_text_of_dumps {rank : ℕ} (hstill : h.Still a) (hs : h.Ready s) (hfmt : h.fmt.WriteNumbers)
    (hrank : ∀ o iface, (h.rt.view s.world.heap o).body = .capsule (some iface) →
      iface.shape.length ≤ rank)
    (hdumps : h.dumps hint fuel args kw s = .ok bytes s') :
    ∃ (A : Arguments Obj) (doc : Doc) (n : Node), h.arguments s.world.heap args kw = .ok A ∧
      bytes = dumpedText A.opts doc ∧ doc.Stands n ∧ n.depth ≤ MAX_DEPTH + rank ∧
      ∀ t ∈ n.numbers, h.fmt.Writes t := by
  obtain ⟨A, sc, doc, hargs, hheap, hdoc, hbytes⟩ := exists_doc_of_dumps hstill hs hdumps
  obtain ⟨n, hn, hnested, hnumbers⟩ := Reader.standsWithin_read
    (Env.grounds_shape (e := h.env A sc.dt) hfmt (hheap ▸ hrank)) hdoc
  exact ⟨A, doc, n, hargs, hbytes, hn, hnested, hnumbers⟩

/-- **`loads` reads whatever `dumps` returns.**  Take any call that returned: of any document, with
datetimes, with arrays and with objects that `default` replaced, and under any options.  Then `loads`
reads the bytes, in any of the forms that they can be given in, and on any thread between two calls, if
they are below 4 GiB and no integer in them is beyond the range of doubles.  The parser has to read JSON
texts that are nested as deep as the encoder nests containers, with an array at the bottom. -/
theorem loads_reads_dumps {B : Type} {float : Bytes → Option UInt64} {maxDepth rank : ℕ}
    (hstill : h.Still a) (hs : h.Ready s) (hfmt : h.fmt.ReadBy float)
    (hrank : ∀ o iface, (h.rt.view s.world.heap o).body = .capsule (some iface) →
      iface.shape.length ≤ rank)
    (hdumps : h.dumps hint fuel args kw s = .ok bytes s') (hsize : bytes.length < 2 ^ 32)
    (hwide : Decode.FitsWide float bytes) {p : Decode.Parser B}
    {parse : Bytes → Except (Decode.ErrorType × ℕ) Decode.Tree} (hp : p.Reads parse)
    (hjson : Decode.ReadsJson parse float maxDepth) (hdepth : MAX_DEPTH + rank ≤ maxDepth) :
    ∃ v, ∀ arg, Decode.Carries bytes arg → ∀ (during : List Decode.Act) (t : Decode.Thread B), t.Sound →
      Decode.Answers (.ok v) (Decode.loads p (Decode.runAll p during) arg) t := by
  obtain ⟨A, doc, n, -, rfl, hn, hnested, hnumbers⟩ :=
    exists_text_of_dumps hstill hs hfmt.toWriteNumbers hrank hdumps
  have htext : Json.IsText (dumpedText A.opts doc) n := isText_dumped hn
  have hread := hfmt.numbers htext hwide hnumbers
  obtain ⟨v, hv⟩ := Decode.exists_loads_isText hp hjson htext hread (hnested.trans hdepth)
  exact ⟨v, hv _ htext hsize⟩

/-- The list in which `default` replaces two objects, and formatters that tell all doubles apart. -/
def twiceHost : Host ℕ Unit := { occursTwice.host with fmt := Formats.fractions }

lemma twiceHost_still : twiceHost.Still Allocator.plain := occursTwice.still _

lemma twiceHost_ready : twiceHost.Ready (occursTwice.state ⟨none, none⟩) :=
  occursTwice.ready _

/-- The list is loaded. -/
theorem loads_reads_dumps_twice : ∃ fuel bytes t v,
    twiceHost.dumps 0 fuel [0, 4] [] (occursTwice.state ⟨none, none⟩) = .ok bytes t ∧
    Decode.Answers (.ok v)
      (Decode.loads Decode.readerParser (Decode.runAll Decode.readerParser []) (.bytes bytes))
      Decode.freshThread := by
  obtain ⟨bytes, hsize, hmeaning⟩ : ∃ bytes : Bytes, bytes.length = 11 ∧
      twiceHost.meaning (occursTwice.state ⟨none, none⟩).world [0, 4] [] = ⟨[1, 1], some bytes⟩ :=
    ⟨Bytes.ascii "[null,null]", rfl, rfl⟩
  obtain ⟨N, t, -, hrun⟩ := dumps_called twiceHost_still twiceHost_ready 0 [0, 4] []
  rw [hmeaning] at hrun
  have hrank : ∀ o iface, (twiceHost.rt.view () o).body = .capsule (some iface) →
      iface.shape.length ≤ 0 := by
    intro o iface hiface
    rcases o with _ | _ | _ | _ | o <;> cases hiface
  obtain ⟨v, hloads⟩ := loads_reads_dumps twiceHost_still twiceHost_ready Formats.fractions_readBy hrank
    (hrun N le_rfl) (by rw [hsize]; norm_num) (fun _ _ _ _ _ => rfl) Decode.readerParser_reads
    (Decode.readTree_readsJson MAX_DEPTH) le_rfl
  exact ⟨N, bytes, t, v, hrun N le_rfl, hloads _ .bytes [] Decode.freshThread
    Decode.fresh_freshThread.sound⟩

end Host

/-! ## Arrays -/

section Arrays

variable (float : Bytes → Option UInt64)

/-- What a single comes back as: the double that its digits stand for. -/
def Formats.singleValue (fmt : Formats) (v : UInt32) : Value :=
  if isFinite32 v then ((float (fmt.zmij32 v)).map Value.float).getD .none else .none

/-- What an element comes back as, if it is no datetime. -/
def Leaves.value (l : Leaves) (n : ℕ) : Value :=
  match l.elem with
  | .bool => .bool (decide (n ≠ 0))
  | .f16 => l.fmt.singleValue float (f16ToF32 (UInt16.ofNat n))
  | .f32 => l.fmt.singleValue float (UInt32.ofNat n)
  | .f64 => if isFinite64 (UInt64.ofNat n) then .float (UInt64.ofNat n) else .none
  | elem =>
      match elem.intValue n with
      | some z => .int z
      | none => .none

/-- The nested list of what is at the addresses of an array. -/
def nestedValue (leaf : ℤ → Value) : List (ℕ × ℤ) → ℤ → Value
  | [], p => leaf p
  | (n, stride) :: rest, p => .list ((rowAddresses p n stride).map (nestedValue leaf rest))

/-- The item of a nested list at an index. -/
def Value.item : List ℕ → Value → Option Value
  | [], v => some v
  | i :: index, .list vs => vs[i]?.bind (Value.item index)
  | _ :: _, _ => none

/-- The item at an index is the element at the address `data + sum(i_k * stride_k)`. -/
lemma item_nestedValue (leaf : ℤ → Value) {index shape : List ℕ} {strides : List ℤ}
    (hlen : shape.length = strides.length) (hindex : List.Forall₂ (· < ·) index shape) (p : ℤ) :
    (nestedValue leaf (shape.zip strides) p).item index =
      some (leaf (elementAddress p strides index)) := by
  induction hindex generalizing strides p with
  | nil =>
      rw [List.zip_nil_left, nestedValue, Value.item]
      simp [elementAddress]
  | @cons i n index shape hi _ ih =>
      obtain ⟨stride, strides, rfl⟩ := List.exists_cons_of_length_eq_add_one hlen.symm
      rw [List.zip_cons_cons, nestedValue, Value.item, elementAddress_cons, List.getElem?_map,
        rowAddresses, List.getElem?_map, List.getElem?_range hi]
      exact ih (Nat.succ.inj hlen) _

/-- A text that the parser reads as a value. -/
def ReadsAs (t : Bytes) (v : Value) : Prop :=
  ∃ n tree, Scalar t n ∧ Decode.treeOf float n = some tree ∧ tree.value = v

variable {float}

lemma readsAs_null : ReadsAs float (Bytes.ascii "null") .none := ⟨_, _, .null, rfl, rfl⟩

lemma readsAs_bool (b : Bool) :
    ReadsAs float (if b then Bytes.ascii "true" else Bytes.ascii "false") (.bool b) := by
  cases b with
  | false => exact ⟨_, _, .false, rfl, rfl⟩
  | true => exact ⟨_, _, .true, rfl, rfl⟩

lemma readsAs_int {z : ℤ} (hz : Within64Bits z) : ReadsAs float (Decimal.intText z) (.int z) := by
  obtain ⟨tree, htree, hvalue⟩ : ∃ tree, Decode.numberTree float (Decimal.intText z) = some tree ∧
      tree.value = .int z := Decode.numberTree_intText hz
  exact ⟨_, tree, .number (isNumber_intText z), htree, hvalue⟩

lemma readsAs_float {t : Bytes} {bits : UInt64} (hnumber : IsNumber t)
    (hno : Decode.isInteger t = false) (hbits : float t = some bits) : ReadsAs float t (.float bits) :=
  ⟨_, _, .number hnumber, Decode.numberTree_float hno hbits, rfl⟩

lemma readsAs_single {fmt : Formats} (hfmt : fmt.ReadBy float) (v : UInt32) :
    ReadsAs float (Buffer.f32Text fmt v) (fmt.singleValue float v) := by
  unfold Buffer.f32Text Formats.singleValue
  split
  · next hfin =>
      obtain ⟨hno, hsome⟩ := hfmt.single v hfin
      obtain ⟨bits, hbits⟩ := Option.isSome_iff_exists.mp hsome
      rw [hbits]
      exact readsAs_float (hfmt.zmij32 v hfin) hno hbits
  · exact readsAs_null

/-- What is written of an element is read back. -/
lemma readsAs_element {l : Leaves} (hfmt : l.fmt.ReadBy float) (hdt : l.elem ≠ .dt64) {n : ℕ}
    (hn : n < 256 ^ l.elem.size) : ∃ t, l.text n = .ok t ∧ ReadsAs float t (l.value float n) := by
  have hint : ∀ z, l.elem.intValue n = some z → ReadsAs float (l.fmt.itoa z) (.int z) := by
    intro z hz
    have hrange : Within64Bits z := ElementType.intValue_bounds hn hz
    rw [hfmt.decimal z hrange]
    exact readsAs_int hrange
  obtain ⟨fmt, opts, elem, unit⟩ := l
  cases elem with
  | bool =>
      have hbool : ReadsAs float _ (.bool (decide (n ≠ 0))) := readsAs_bool _
      exact ⟨_, rfl, by simpa [Leaves.value] using hbool⟩
  | f16 => exact ⟨_, rfl, readsAs_single hfmt _⟩
  | f32 => exact ⟨_, rfl, readsAs_single hfmt _⟩
  | f64 =>
      refine ⟨_, rfl, ?_⟩
      unfold Buffer.f64Text Leaves.value
      dsimp only
      split
      · next hfin =>
          obtain ⟨hno, hbits⟩ := hfmt.double _ hfin
          exact readsAs_float (hfmt.zmij64 _ hfin) hno hbits
      · exact readsAs_null
  | dt64 => exact absurd rfl hdt
  | i64 | i32 | i16 | i8 | u64 | u32 | u16 | u8 => exact ⟨_, rfl, hint _ rfl⟩

section Nested

variable {text : ℤ → Except Decline Bytes} {leaf : ℤ → Value}

/-- The document at an address is one of the value there, at most `k` deep. -/
def DocAt (float : Bytes → Option UInt64) (k : ℕ) (d : Except Decline Doc) (v : Value) : Prop :=
  ∃ doc n tree, d = .ok doc ∧ doc.Stands n ∧ n.depth ≤ k ∧ Decode.treeOf float n = some tree ∧
    tree.value = v

lemma docAt_row {k : ℕ} {f : ℤ → Except Decline Doc} {g : ℤ → Value} {ps : List ℤ}
    (h : ∀ p ∈ ps, DocAt float k (f p) (g p)) :
    DocAt float (k + 1) ((ps.mapM f).map .arr) (.list (ps.map g)) := by
  obtain ⟨docs, ns, trees, hdocs, hns, hdepths, htrees, hvalues⟩ : ∃ docs ns trees,
      ps.mapM f = .ok docs ∧ ItemsStand docs ns ∧ itemsDepth ns ≤ k ∧
      Decode.treesOf float ns = some trees ∧ Decode.itemsValue trees = ps.map g := by
    induction ps with
    | nil => exact ⟨[], [], [], rfl, .nil, Nat.zero_le k, rfl, rfl⟩
    | cons q ps ih =>
        obtain ⟨hq, hps⟩ := List.forall_mem_cons.mp h
        obtain ⟨doc, n, tree, hdoc, hn, hdepth, htree, hvalue⟩ := hq
        obtain ⟨docs, ns, trees, hdocs, hns, hdepths, htrees, hvalues⟩ := ih hps
        refine ⟨doc :: docs, n :: ns, tree :: trees, ?_, .cons hn hns, max_le hdepth hdepths, ?_, ?_⟩
        · rw [List.mapM_cons, hdoc, hdocs]
          rfl
        · rw [Decode.treesOf, htree, htrees]
          rfl
        · rw [Decode.itemsValue, hvalue, hvalues, List.map_cons]
  refine ⟨.arr docs, .array ns, .array trees, ?_, .arr hns, Nat.succ_le_succ hdepths, ?_, ?_⟩
  · rw [hdocs]
    rfl
  · rw [Decode.treeOf, htrees]
    rfl
  · rw [Decode.Tree.value, hvalues]

/-- The document of an array is that of the nested list. -/
lemma docAt_array {dims : List (ℕ × ℤ)} {p : ℤ}
    (hleaf : ∀ q ∈ elementAddresses dims p, ∃ t, text q = .ok t ∧ ReadsAs float t (leaf q)) :
    DocAt float dims.length (arrayDoc text dims p) (nestedValue leaf dims p) := by
  induction dims generalizing p with
  | nil =>
      obtain ⟨t, ht, n, tree, hn, htree, hvalue⟩ := hleaf p List.mem_cons_self
      have hdepth : n.depth ≤ 0 := by cases hn <;> exact le_rfl
      exact ⟨.leaf t, n, tree, by rw [arrayDoc, ht]; rfl, .leaf hn, hdepth, htree, hvalue⟩
  | cons dim dims ih =>
      apply docAt_row
      intro q hq
      exact ih fun r hr => hleaf r (List.mem_flatMap.mpr ⟨q, hq, hr⟩)

end Nested

end Arrays

namespace Env

variable {e : Env Obj H} {sc : Scene Obj H} {obj capsule : Obj} {iface : PyArrayInterface}
  {elem : ElementType} {doc : Doc}

/-- The shape of an accepted array, once the unit of its elements is read. -/
lemma arrayShape_whole {unit : Option Dt64Unit}
    (hcapsule : e.rt.answer sc.heap (.getAttr obj "__array_struct__") = .ok capsule)
    (hiface : (e.rt.view sc.heap capsule).body = .capsule (some iface)) (htwo : iface.two = 2)
    (hclass : classify iface.flags iface.nd iface.typekind iface.itemsize = .ok elem)
    (hunit : ∀ k, e.unitShape sc.heap obj (decide (elem = .dt64 ∧ 0 ∉ iface.shape)) k = k unit)
    (hdoc : e.documentOf iface elem unit sc.heap = .ok doc) :
    e.arrayShape sc.heap obj = .whole doc := by
  unfold arrayShape
  rw [hcapsule]
  dsimp only
  rw [hiface]
  dsimp only
  rw [if_pos htwo, heldShape, hclass]
  dsimp only
  rw [hunit, hdoc]
  rfl

/-- Elements that are no datetimes have no unit. -/
lemma unitShape_none (hdt : elem ≠ .dt64) {h : H} (k : Option Dt64Unit → Shape Obj) :
    e.unitShape h obj (decide (elem = .dt64 ∧ 0 ∉ iface.shape)) k = k none := by
  have hneeded : decide (elem = .dt64 ∧ 0 ∉ iface.shape) = false := decide_eq_false fun h => hdt h.1
  rw [hneeded, unitShape, if_neg Bool.false_ne_true]

/-- An object of numpy's array type goes to the array writer. -/
lemma shape_of_ndarray [DecidableEq Obj] {np : NumpyTypes Obj}
    (hnumpy : hasOpt e.opts optSerializeNumpy = true)
    (hnp : sc.np = .ok (some np)) (hcls : (e.rt.view sc.heap obj).cls = some np.ndarray)
    (hother : ∀ dt ∈ sc.dt, np.ndarray ≠ dt.datetime ∧ np.ndarray ≠ dt.date ∧ np.ndarray ≠ dt.time)
    (hbody : (e.rt.view sc.heap obj).body = .other) : e.shape sc obj = e.arrayShape sc.heap obj := by
  have hcontains : np.contains (some np.ndarray) = true := by simp [NumpyTypes.contains]
  have hlike : sc.dt.bind (e.datetimeLikeShape sc.heap obj (e.rt.view sc.heap obj)) = none := by
    cases hsc : sc.dt with
    | none => rfl
    | some dt =>
        obtain ⟨hdatetime, hdate, htime⟩ := hother dt hsc
        rw [Option.bind_some, datetimeLikeShape, hcls]
        simp [hdatetime, hdate, htime]
  have hsub : e.subclassShape sc.heap obj (e.rt.view sc.heap obj) = none := by
    rw [subclassShape, hbody]
    exact ite_self _
  have hshape : e.shape sc obj = e.otherShape sc obj (e.rt.view sc.heap obj) := by
    unfold shape
    dsimp only
    rw [hcls]
  rw [hshape, otherShape, hlike, hsub]
  dsimp only
  unfold numpyShape
  rw [if_pos hnumpy, hnp]
  dsimp only
  rw [hcls, Option.filter_some, if_pos hcontains, Option.bind_some, numpyWriterShape, if_pos hcls]

end Env

namespace Host

variable [DecidableEq Obj] {h : Host Obj H} {s : St Obj H a} {args : List Obj}
  {kw : List (String × Obj)} {A : Arguments Obj} {iface : PyArrayInterface} {elem : ElementType}

/-- The call asks for an `ndarray` with an interface that is accepted, with `OPT_SERIALIZE_NUMPY`. -/
structure CallsForArray (h : Host Obj H) (w : World Obj H) (args : List Obj) (kw : List (String × Obj))
    (A : Arguments Obj) (iface : PyArrayInterface) (elem : ElementType) : Prop where
  asks : h.arguments w.heap args kw = .ok A
  numpy : hasOpt A.opts optSerializeNumpy = true
  ndarray : ∃ sc np, h.scene w = some sc ∧ sc.np = .ok (some np) ∧
    (h.rt.view w.heap A.obj).cls = some np.ndarray ∧
    ∀ dt ∈ sc.dt, np.ndarray ≠ dt.datetime ∧ np.ndarray ≠ dt.date ∧ np.ndarray ≠ dt.time
  body : (h.rt.view w.heap A.obj).body = .other
  interface : ∃ capsule, h.rt.answer w.heap (.getAttr A.obj "__array_struct__") = .ok capsule ∧
    (h.rt.view w.heap capsule).body = .capsule (some iface)
  version : iface.two = 2
  accepted : classify iface.flags iface.nd iface.typekind iface.itemsize = .ok elem

/-- What a call for an array means, once the unit of its elements is read. -/
lemma meaning_array_unit {w : World Obj H} (hcall : h.CallsForArray w args kw A iface elem)
    {unit : Option Dt64Unit}
    (hunit : ∀ k,
      (h.env A none).unitShape w.heap A.obj (decide (elem = .dt64 ∧ 0 ∉ iface.shape)) k = k unit)
    {doc : Doc} (hdoc : arrayDoc (Leaves.textAt ⟨h.fmt, A.opts, elem, unit⟩ (h.rt.memory w.heap))
      (iface.shape.zip iface.strides) iface.data = .ok doc) :
    h.meaning w args kw = .pure (dumpedText A.opts doc) := by
  obtain ⟨sc, np, hscene, hnp, hcls, hother⟩ := hcall.ndarray
  obtain ⟨capsule, hcapsule, hiface⟩ := hcall.interface
  have hbody := hcall.body
  rw [← heap_of_scene hscene] at hcls hcapsule hiface hdoc hbody hunit
  have hshape : ((h.env A sc.dt).reader sc).shape A.obj = .whole doc :=
    (Env.shape_of_ndarray (e := h.env A sc.dt) hcall.numpy hnp hcls hother hbody).trans
      (Env.arrayShape_whole hcapsule hiface hcall.version hcall.accepted hunit hdoc)
  rw [meaning, hcall.asks]
  dsimp only
  rw [meaningOf, hscene]
  dsimp only
  rw [Reader.read_eq, Reader.step, hshape]
  rfl

/-- What a call for an array means, if its elements are no datetimes. -/
lemma meaning_array {w : World Obj H} (hcall : h.CallsForArray w args kw A iface elem)
    (hdt : elem ≠ .dt64) {doc : Doc}
    (hdoc : arrayDoc (Leaves.textAt ⟨h.fmt, A.opts, elem, none⟩ (h.rt.memory w.heap))
      (iface.shape.zip iface.strides) iface.data = .ok doc) :
    h.meaning w args kw = .pure (dumpedText A.opts doc) :=
  meaning_array_unit hcall (Env.unitShape_none hdt) hdoc

/-- What the element at an address comes back as. -/
def elementValue (h : Host Obj H) (float : Bytes → Option UInt64) (w : H) (opts : UInt32) (elem : ElementType)
    (p : ℤ) : Value :=
  Leaves.value float ⟨h.fmt, opts, elem, none⟩ (readNumber (h.rt.memory w) p elem.size)

omit [DecidableEq Obj] in
lemma readsAs_elementValue {float : Bytes → Option UInt64} (hfmt : h.fmt.ReadBy float) (w : H) (opts : UInt32)
    (hdt : elem ≠ .dt64) (p : ℤ) :
    ∃ t, Leaves.textAt ⟨h.fmt, opts, elem, none⟩ (h.rt.memory w) p = .ok t ∧
      ReadsAs float t (h.elementValue float w opts elem p) := by
  have hlt := Words.wordOf_lt ((List.range elem.size).map fun i : ℕ => h.rt.memory w (p + i))
  rw [List.length_map, List.length_range] at hlt
  exact readsAs_element (l := ⟨h.fmt, opts, elem, none⟩) hfmt hdt hlt

/-- The rows of an array go as deep as it has dimensions. -/
lemma length_dims (iface : PyArrayInterface) :
    (iface.shape.zip iface.strides).length = iface.shape.length := by
  rw [List.length_zip, iface.length_strides, iface.length_shape, Nat.min_self]

/-- **An array comes back as its nested list.**  `dumps` returns the text of any accepted array of
booleans, integers or floats, with as many dimensions and whatever strides.  `loads` reads it as the
nested list of its elements, in which the item at an index is the element at the address of the index, if
it is below 4 GiB. -/
theorem loads_dumps_array {B : Type} {float : Bytes → Option UInt64} {maxDepth : ℕ} (hstill : h.Still a)
    (hs : h.Ready s) (hfmt : h.fmt.ReadBy float) (hcall : h.CallsForArray s.world args kw A iface elem)
    (hdt : elem ≠ .dt64) (hint : ℕ) {p : Decode.Parser B}
    {parse : Bytes → Except (Decode.ErrorType × ℕ) Decode.Tree} (hp : p.Reads parse)
    (hjson : Decode.ReadsJson parse float maxDepth) (hdepth : iface.shape.length ≤ maxDepth) :
    ∃ N bytes t v, (∀ fuel, N ≤ fuel → h.dumps hint fuel args kw s = .ok bytes t) ∧
      (bytes.length < 2 ^ 32 → ∀ arg, Decode.Carries bytes arg →
        ∀ (during : List Decode.Act) (t : Decode.Thread B), t.Sound →
        Decode.Answers (.ok v) (Decode.loads p (Decode.runAll p during) arg) t) ∧
      v = nestedValue (h.elementValue float s.world.heap A.opts elem) (iface.shape.zip iface.strides)
        iface.data ∧
      ∀ index, List.Forall₂ (· < ·) index iface.shape → v.item index =
        some (h.elementValue float s.world.heap A.opts elem
          (elementAddress iface.data iface.strides index)) := by
  have hlen : iface.shape.length = iface.strides.length :=
    iface.length_shape.trans iface.length_strides.symm
  have hleaf := readsAs_elementValue hfmt s.world.heap A.opts hdt
  obtain ⟨doc, n, tree, hdoc, hn, hdims, htree, hvalue⟩ : DocAt float _
      (arrayDoc _ (iface.shape.zip iface.strides) iface.data) _ := docAt_array fun q _ => hleaf q
  obtain ⟨N, t, -, hrun⟩ := dumps_called hstill hs hint args kw
  have hnested : n.depth ≤ maxDepth := (hdims.trans_eq (length_dims iface)).trans hdepth
  refine ⟨N, dumpedText A.opts doc, t, tree.value, fun fuel hfuel => ?_, ?_, hvalue, ?_⟩
  · rw [hrun fuel hfuel, meaning_array hcall hdt hdoc]
    rfl
  · intro hsize arg harg during t ht
    exact Decode.loads_isText hp hjson (isText_dumped hn) hsize hnested htree harg during ht
  · intro index hindex
    rw [hvalue]
    exact item_nestedValue _ hlen hindex _

end Host

/-! ### An array of four bytes -/

/-- The interface of four bytes in two columns. -/
def twoColumns : PyArrayInterface where
  two := 2
  nd := 2
  typekind := 105
  itemsize := 1
  flags := 0x201
  shape := [2, 2]
  strides := [2, 1]
  data := 0
  length_shape := rfl
  length_strides := rfl

/-- The array, and the option to serialize it. -/
def columnsArray : Snapshot ℕ where
  view
    | 1 => ⟨none, "PyCapsule", .capsule (some twoColumns)⟩
    | 4 => ⟨none, "int", .int 16⟩
    | _ => ⟨some 2, "numpy.ndarray", .other⟩
  tupleItems _ := []
  pyNone := 3
  memory p := if p < 3 then 6 else 254
  answer _ := .ok 1

lemma columnsArray_cls (o : ℕ) : (columnsArray.view o).cls = none ∨ (columnsArray.view o).cls = some 2 := by
  unfold columnsArray
  dsimp only
  split
  · exact .inl rfl
  · exact .inl rfl
  · exact .inr rfl

/-- An interpreter with the objects of a snapshot, in which numpy is imported. -/
def numpyHost (t : Snapshot ℕ) (fmt : Formats) : Host ℕ Unit :=
  { t.host with
    rt := { t.runtime with
      getItem := fun _ _ => numpyItem
      moduleDict := fun _ o => if o = 9 then some 8 else none }
    fmt := fmt }

def numpyState (t : Snapshot ℕ) : St ℕ Unit Allocator.plain := t.state ⟨none, some (9, numpyGroup)⟩

section NumpyHost

variable {t : Snapshot ℕ} (fmt : Formats)
  (hcls : ∀ o, (t.view o).cls = none ∨ (t.view o).cls = some 2)

include hcls

/-- The snapshot has no numpy scalars. -/
lemma numpyGroup_fits : numpyGroup.Fits (numpyHost t fmt).rt := by
  intro _ o elem h
  have hview : ((numpyHost t fmt).rt.view () o).cls = (t.view o).cls := rfl
  rw [hview] at h
  obtain hc | hc := hcls o
  · rw [hc, show numpyGroup.scalar none = none from rfl] at h
    cases h
  · rw [hc, show numpyGroup.scalar (some 2) = none from rfl] at h
    cases h

lemma numpyHost_still : (numpyHost t fmt).Still Allocator.plain := by
  refine ⟨⟨fun _ _ => rfl, fun _ _ _ _ => rfl⟩, ⟨fun _ _ _ => rfl, ?_, ?_, fun _ _ h => h⟩, fun _ => rfl⟩
  · exact fun _ _ _ h => absurd h (Option.not_mem_none _)
  · intro w d np h
    have hread : (numpyHost t fmt).rt.readNumpy w d = .ok (some numpyGroup) := rfl
    rw [hread] at h
    obtain rfl := Option.some.inj (Except.ok.inj h)
    exact numpyGroup_fits fmt hcls

lemma numpyHost_ready : (numpyHost t fmt).Ready (numpyState t) := by
  refine ⟨rfl, ⟨fun _ h => absurd h (Option.not_mem_none _), ?_⟩, ?_⟩
  · rintro _ ⟨⟩
    exact numpyGroup_fits fmt hcls
  · rintro _ ⟨⟩
    rfl

end NumpyHost

def columnsHost : Host ℕ Unit := numpyHost columnsArray Formats.fractions

def columnsState : St ℕ Unit Allocator.plain := numpyState columnsArray

/-- The array is asked for with `OPT_SERIALIZE_NUMPY`. -/
lemma columnsHost_calls : columnsHost.CallsForArray columnsState.world [0] [("option", 4)] ⟨0, none, 16⟩
    twoColumns .i8 :=
  ⟨rfl, rfl, ⟨⟨(), none, .ok (some numpyGroup)⟩, numpyGroup, rfl, rfl, rfl,
    fun _ h => absurd h (Option.not_mem_none _)⟩, rfl, ⟨1, rfl, rfl⟩, rfl, rfl⟩

/-- The length of a text, by the meaning of the call. -/
lemma Host.length_of_dumps {Obj H : Type} [DecidableEq Obj] {h : Host Obj H} {a : Allocator}
    (hstill : h.Still a) {s s' : St Obj H a} (hs : h.Ready s) {hint fuel n : ℕ} {args : List Obj}
    {kw : List (String × Obj)} {bytes : Bytes}
    (hlength : (h.meaning s.world args kw).result.map List.length = some n)
    (hdumps : h.dumps hint fuel args kw s = .ok bytes s') : bytes.length = n := by
  rw [meaning_of_dumps hstill hs hdumps] at hlength
  exact Option.some.inj hlength

/-- The item in the second row and the second column. -/
theorem Host.loads_dumps_array_columns : ∃ N bytes t v,
    (∀ fuel, N ≤ fuel → columnsHost.dumps 0 fuel [0] [("option", 4)] columnsState = .ok bytes t) ∧
    Decode.Answers (.ok v)
      (Decode.loads Decode.readerParser (Decode.runAll Decode.readerParser []) (.bytes bytes))
      Decode.freshThread ∧
    v.item [1, 1] = some (.int (-2)) := by
  have hstill := numpyHost_still Formats.fractions columnsArray_cls
  have hready := numpyHost_ready Formats.fractions columnsArray_cls
  obtain ⟨N, bytes, t, v, hrun, hloads, -, hitem⟩ := Host.loads_dumps_array hstill hready
    Formats.fractions_readBy columnsHost_calls (by decide) 0 Decode.readerParser_reads
    (Decode.readTree_readsJson 2) le_rfl
  have hlength : (columnsHost.meaning columnsState.world [0] [("option", 4)]).result.map List.length =
      some 14 := by decide +kernel
  have hsize : bytes.length = 14 := Host.length_of_dumps hstill hready hlength (hrun N le_rfl)
  refine ⟨N, bytes, t, v, hrun, hloads (by rw [hsize]; norm_num) _ .bytes [] _
    Decode.fresh_freshThread.sound, ?_⟩
  rw [hitem [1, 1] (.cons (by decide) (.cons (by decide) .nil))]
  have haddress : elementAddress twoColumns.data twoColumns.strides [1, 1] = 3 := rfl
  have hword : readNumber (columnsHost.rt.memory ()) 3 1 = 254 := rfl
  have hsigned : signed 1 254 = -2 := by decide
  rw [haddress]
  show some (Value.int (signed 1 (readNumber (columnsHost.rt.memory ()) 3 1))) = _
  rw [hword, hsigned]

end Isojson
