import Isojson.History
import Isojson.Trees

/-!
# What comes back

The value that `loads` finds in what `dumps` wrote (`Value.restored`): tuples come back as lists, and
floats that are not finite as `None`.  Of the parser it is only used that it reads the JSON texts of its
size and depth, as far as it has nodes for their numbers (`ReadsJson`).
-/

namespace Isojson

open Json Run

/-! ## The parser -/

namespace Decode

/-- A number without a fraction and an exponent. -/
def isInteger (t : Bytes) : Bool := t.all fun b => b != 46 && b != 101 && b != 69

/-- simd-json's node of a number: an integer in 64 bits, signed only behind a minus, or else the double
that `float` says.  A number that is too large for a double has none. -/
def numberTree (float : Bytes → Option UInt64) (t : Bytes) : Option Tree :=
  let z := Decimal.readInt t
  if isInteger t ∧ Within64Bits z then
    some (if t.head? = some 45 then .i64 (Int64.ofInt z) else .u64 (UInt64.ofNat z.toNat))
  else (float t).map .f64

def textOf (s : List ℕ) : Option Utf8.Text :=
  if h : ∀ c ∈ s, Utf8.IsScalar c then some ⟨s, h⟩ else none

section Trees

variable (float : Bytes → Option UInt64)

mutual

/-- simd-json's tree of a tree of the grammar. -/
def treeOf : Json.Node → Option Tree
  | .null => some .null
  | .bool b => some (.bool b)
  | .number t => numberTree float t
  | .string s => (textOf s).map .string
  | .array ns => (treesOf ns).map .array
  | .object ms => (memberTrees ms).map .object

def treesOf : List Json.Node → Option (List Tree)
  | [] => some []
  | n :: ns => do
      let t ← treeOf n
      let ts ← treesOf ns
      some (t :: ts)

def memberTrees : List (List ℕ × Json.Node) → Option (List (Utf8.Text × Tree))
  | [] => some []
  | (s, n) :: ms => do
      let k ← textOf s
      let t ← treeOf n
      let ts ← memberTrees ms
      some ((k, t) :: ts)

end

end Trees

/-- The parser reads every JSON text below 4 GiB that is nested at most `limit` deep, and whose numbers
it has nodes for, as its tree. -/
def ReadsJson (parse : Bytes → Except (ErrorType × ℕ) Tree) (float : Bytes → Option UInt64)
    (limit : ℕ) : Prop :=
  ∀ t n, Json.IsText t n → t.length < 2 ^ 32 → n.depth ≤ limit →
    ∀ tree ∈ treeOf float n, parse t = .ok tree

end Decode

/-! ## What comes back -/

mutual

/-- The value that `loads` finds in what `dumps` wrote. -/
def Value.restored (sorted : Bool) : Value → Value
  | .none => .none
  | .bool b => .bool b
  | .int z => .int z
  | .float bits => if isFinite64 bits then .float bits else .none
  | .str s => .str s
  | .list vs => .list (itemsRestored sorted vs)
  | .tuple vs => .list (itemsRestored sorted vs)
  | .dict es => .dict (inOrder sorted (entriesRestored sorted es))

def itemsRestored (sorted : Bool) : List Value → List Value
  | [] => []
  | v :: vs => v.restored sorted :: itemsRestored sorted vs

def entriesRestored (sorted : Bool) : List (Value × Value) → List (Value × Value)
  | [] => []
  | (k, v) :: es => (k, v.restored sorted) :: entriesRestored sorted es

end

mutual

/-- Integers are in 64 bits, and no dict has a key twice. -/
def Value.Restorable : Value → Prop
  | .int z => Within64Bits z
  | .list vs => itemsRestorable vs
  | .tuple vs => itemsRestorable vs
  | .dict es => (es.map Prod.fst).Nodup ∧ entriesRestorable es
  | _ => True

def itemsRestorable : List Value → Prop
  | [] => True
  | v :: vs => v.Restorable ∧ itemsRestorable vs

def entriesRestorable : List (Value × Value) → Prop
  | [] => True
  | (_, v) :: es => v.Restorable ∧ entriesRestorable es

end

mutual

/-- No tuples, and no floats but finite ones. -/
def Value.IsPlain : Value → Prop
  | .float bits => isFinite64 bits = true
  | .list vs => itemsPlain vs
  | .tuple _ => False
  | .dict es => entriesPlain es
  | _ => True

def itemsPlain : List Value → Prop
  | [] => True
  | v :: vs => v.IsPlain ∧ itemsPlain vs

def entriesPlain : List (Value × Value) → Prop
  | [] => True
  | (_, v) :: es => v.IsPlain ∧ entriesPlain es

end

mutual

/-- Plain values come back as they are. -/
lemma Value.restored_of_isPlain : ∀ {v : Value}, v.IsPlain → v.restored false = v
  | .none, _ => rfl
  | .bool _, _ => rfl
  | .int _, _ => rfl
  | .float _, h => if_pos h
  | .str _, _ => rfl
  | .list _, h => congrArg Value.list (itemsRestored_of_plain h)
  | .tuple _, h => h.elim
  | .dict _, h => congrArg Value.dict (entriesRestored_of_plain h)

lemma itemsRestored_of_plain : ∀ {vs : List Value}, itemsPlain vs → itemsRestored false vs = vs
  | [], _ => rfl
  | _ :: _, h => congrArg₂ List.cons (Value.restored_of_isPlain h.1) (itemsRestored_of_plain h.2)

lemma entriesRestored_of_plain : ∀ {es : List (Value × Value)}, entriesPlain es →
    entriesRestored false es = es
  | [], _ => rfl
  | (k, _) :: _, h =>
      congrArg₂ List.cons (congrArg (Prod.mk k) (Value.restored_of_isPlain h.1))
        (entriesRestored_of_plain h.2)

end

lemma entriesRestored_eq (sorted : Bool) (es : List (Value × Value)) :
    entriesRestored sorted es = es.map fun e => (e.1, e.2.restored sorted) := by
  induction es with
  | nil => rfl
  | cons e es ih => rw [entriesRestored, ih, List.map_cons]

lemma entriesRestorable_iff {es : List (Value × Value)} :
    entriesRestorable es ↔ ∀ e ∈ es, e.2.Restorable := by
  induction es with
  | nil => exact iff_of_true trivial fun e he => absurd he List.not_mem_nil
  | cons e es ih => rw [entriesRestorable, ih, List.forall_mem_cons]

lemma inOrder_perm (sorted : Bool) (es : List (Value × Value)) : (inOrder sorted es).Perm es := by
  unfold inOrder
  split
  · exact List.mergeSort_perm ..
  · exact .refl es

/-- The order goes by the keys, which come back as they are. -/
lemma entriesRestored_inOrder (sorted : Bool) (es : List (Value × Value)) :
    entriesRestored sorted (inOrder sorted es) = inOrder sorted (entriesRestored sorted es) := by
  rw [entriesRestored_eq, entriesRestored_eq]
  unfold inOrder
  cases sorted with
  | false => rfl
  | true => exact List.map_mergeSort fun _ _ _ _ => rfl

/-! ## The tree of what was written -/

section Depth

variable {float : Bytes → UInt64 → Prop} {sorted strict : Bool} {limit : ℕ}

mutual

/-- Nothing that was written is nested deeper than the encoder lets it be. -/
lemma Denotes.depth : ∀ {n : Json.Node} {v : Value} {d : ℕ}, Denotes float sorted n v → d ≤ MAX_DEPTH →
    v.Fits strict limit d → n.depth + d ≤ MAX_DEPTH
  | _, _, _, .none, hd, _ => by rwa [Node.depth, Nat.zero_add]
  | _, _, _, .bool _, hd, _ => by rwa [Node.depth, Nat.zero_add]
  | _, _, _, .int _, hd, _ => by rwa [Node.depth, Nat.zero_add]
  | _, _, _, .float _ _, hd, _ => by rwa [Node.depth, Nat.zero_add]
  | _, _, _, .notFinite _, hd, _ => by rwa [Node.depth, Nat.zero_add]
  | _, _, _, .str _, hd, _ => by rwa [Node.depth, Nat.zero_add]
  | _, _, d, .list h, _, hfit => by
      have hbelow := AllDenote.depth h hfit.1 hfit.2
      rw [Node.depth]
      omega
  | _, _, d, .tuple h, _, hfit => by
      have hbelow := AllDenote.depth h hfit.1 hfit.2
      rw [Node.depth]
      omega
  | _, _, d, @Denotes.dict _ _ _ es h, _, hfit => by
      have hordered : entriesFit strict limit (d + 1) (inOrder sorted es) :=
        (entriesFit_iff strict limit).mpr fun e he =>
          (entriesFit_iff strict limit).mp hfit.2 e ((inOrder_perm sorted es).mem_iff.mp he)
      have hbelow := MembersDenote.depth h hfit.1 hordered
      rw [Node.depth]
      omega

lemma AllDenote.depth : ∀ {ns : List Json.Node} {vs : List Value} {d : ℕ}, AllDenote float sorted ns vs →
    d ≤ MAX_DEPTH → itemsFit strict limit d vs → itemsDepth ns + d ≤ MAX_DEPTH
  | _, _, _, .nil, hd, _ => by rwa [itemsDepth, Nat.zero_add]
  | _, _, d, .cons h hs, hd, hfit => by
      have hitem := Denotes.depth h hd hfit.1
      have hitems := AllDenote.depth hs hd hfit.2
      rw [itemsDepth]
      omega

lemma MembersDenote.depth : ∀ {ms : List (List ℕ × Json.Node)} {es : List (Value × Value)} {d : ℕ},
    MembersDenote float sorted ms es → d ≤ MAX_DEPTH → entriesFit strict limit d es →
    membersDepth ms + d ≤ MAX_DEPTH
  | _, _, _, .nil, hd, _ => by rwa [membersDepth, Nat.zero_add]
  | _, _, d, .cons h hs, hd, hfit => by
      have hvalue := Denotes.depth h hd hfit.2.1
      have hmembers := MembersDenote.depth hs hd hfit.2.2
      rw [membersDepth]
      omega

end

end Depth

namespace Decode

section Trees

variable {float : Bytes → Option UInt64} {sorted : Bool}

lemma textOf_eq {s : List ℕ} (hs : ∀ c ∈ s, Utf8.IsScalar c) : textOf s = some ⟨s, hs⟩ := dif_pos hs

lemma isInteger_intText (z : ℤ) : isInteger (Decimal.intText z) = true := by
  have hdigit : ∀ b : UInt8, Decimal.IsDigit b → (b != 46 && b != 101 && b != 69) = true := by
    intro b hb
    have hne : ∀ c : UInt8, ¬ Decimal.IsDigit c → (b != c) = true := by
      intro c hc
      rw [bne_iff_ne]
      rintro rfl
      exact hc hb
    rw [hne 46 (by decide), hne 101 (by decide), hne 69 (by decide)]
    rfl
  unfold isInteger
  rw [List.all_eq_true]
  intro b hb
  unfold Decimal.intText at hb
  split at hb
  · rcases List.mem_cons.mp hb with rfl | hb
    · decide
    · exact hdigit b (Decimal.isDigit_natText _ b hb)
  · exact hdigit b (Decimal.isDigit_natText _ b hb)

lemma head_intText (z : ℤ) : (Decimal.intText z).head? = some 45 ↔ z < 0 := by
  unfold Decimal.intText
  split
  · next hneg => exact iff_of_true rfl hneg
  · next hnonneg =>
    refine iff_of_false (fun hhead => ?_) hnonneg
    have hdigit := Decimal.isDigit_natText _ 45 (List.mem_of_mem_head? (Option.mem_def.mpr hhead))
    exact absurd hdigit (by decide)

/-- An integer in 64 bits comes back. -/
lemma numberTree_intText {z : ℤ} (hz : Within64Bits z) :
    ∃ tree, numberTree float (Decimal.intText z) = some tree ∧ tree.value = .int z := by
  unfold numberTree
  rw [Decimal.readInt_intText]
  dsimp only
  rw [if_pos ⟨isInteger_intText z, hz⟩]
  refine ⟨_, rfl, ?_⟩
  obtain ⟨hlo, hhi⟩ := hz
  unfold i64Min at hlo
  unfold Env.u64Max at hhi
  by_cases hneg : z < 0
  · rw [if_pos ((head_intText z).mpr hneg), Tree.value,
      Int64.toInt_ofInt_of_le (by omega) (by omega)]
  · rw [if_neg (mt (head_intText z).mp hneg), Tree.value, UInt64.toNat_ofNat',
      Nat.mod_eq_of_lt (by omega)]
    congr 1
    omega

lemma numberTree_float {t : Bytes} {bits : UInt64} (ht : isInteger t = false)
    (hbits : float t = some bits) : numberTree float t = some (.f64 bits) := by
  unfold numberTree
  dsimp only
  rw [if_neg fun h => absurd h.1 (by rw [ht]; exact Bool.false_ne_true), hbits]
  rfl

mutual

/-- **The tree of what was written** has the value that comes back. -/
theorem treeOf_denotes : ∀ {n : Json.Node} {v : Value},
    Denotes (fun t bits => isInteger t = false ∧ float t = some bits) sorted n v → n.IsTexts →
    v.Restorable → ∃ tree, treeOf float n = some tree ∧ tree.value = v.restored sorted
  | _, _, .none, _, _ => ⟨.null, rfl, rfl⟩
  | _, _, .bool b, _, _ => ⟨.bool b, rfl, rfl⟩
  | _, _, .int _, _, hz => numberTree_intText hz
  | _, _, .float hfin h, _, _ =>
      ⟨_, numberTree_float h.1 h.2, by rw [Value.restored, if_pos hfin]; rfl⟩
  | _, _, .notFinite hfin, _, _ =>
      ⟨.null, rfl, by rw [Value.restored, if_neg (by rw [hfin]; exact Bool.false_ne_true)]; rfl⟩
  | _, _, .str s, hs, _ => ⟨.string ⟨s, hs⟩, by rw [treeOf, textOf_eq hs]; rfl, rfl⟩
  | _, _, .list h, hs, hv => by
      obtain ⟨ts, hts, hvalue⟩ := treesOf_denotes h hs hv
      refine ⟨.array ts, by rw [treeOf, hts]; rfl, ?_⟩
      rw [Tree.value, hvalue, Value.restored]
  | _, _, .tuple h, hs, hv => by
      obtain ⟨ts, hts, hvalue⟩ := treesOf_denotes h hs hv
      refine ⟨.array ts, by rw [treeOf, hts]; rfl, ?_⟩
      rw [Tree.value, hvalue, Value.restored]
  | _, _, @Denotes.dict _ _ _ es h, hs, hv => by
      have hperm := inOrder_perm sorted es
      have hordered : entriesRestorable (inOrder sorted es) :=
        entriesRestorable_iff.mpr fun e he => entriesRestorable_iff.mp hv.2 e (hperm.mem_iff.mp he)
      obtain ⟨ts, hts, hvalue⟩ := memberTrees_denotes h hs hordered
      refine ⟨.object ts, by rw [treeOf, hts]; rfl, ?_⟩
      -- no key is there twice
      have hkeys : ((membersValue ts).map fun m => (Value.str m.1, m.2)).map Prod.fst =
          (inOrder sorted es).map Prod.fst := by
        rw [hvalue, entriesRestored_eq, List.map_map]
        rfl
      have hnodup : ((membersValue ts).map Prod.fst).Nodup := by
        have h := (hperm.map Prod.fst).nodup_iff.mpr hv.1
        rw [← hkeys, List.map_map] at h
        refine List.Nodup.of_map (fun k : Utf8.Text => Value.str k) ?_
        rw [List.map_map]
        exact h
      rw [Tree.value, Assoc.collapse_of_nodup hnodup, hvalue, entriesRestored_inOrder, Value.restored]

theorem treesOf_denotes : ∀ {ns : List Json.Node} {vs : List Value},
    AllDenote (fun t bits => isInteger t = false ∧ float t = some bits) sorted ns vs → itemsTexts ns →
    itemsRestorable vs →
    ∃ ts, treesOf float ns = some ts ∧ itemsValue ts = itemsRestored sorted vs
  | _, _, .nil, _, _ => ⟨[], rfl, rfl⟩
  | _, _, .cons h hs, hn, hv => by
      obtain ⟨t, ht, hvalue⟩ := treeOf_denotes h hn.1 hv.1
      obtain ⟨ts, hts, hvalues⟩ := treesOf_denotes hs hn.2 hv.2
      refine ⟨t :: ts, by rw [treesOf, ht, hts]; rfl, ?_⟩
      rw [itemsValue, hvalue, hvalues, itemsRestored]

theorem memberTrees_denotes : ∀ {ms : List (List ℕ × Json.Node)} {es : List (Value × Value)},
    MembersDenote (fun t bits => isInteger t = false ∧ float t = some bits) sorted ms es →
    membersTexts ms → entriesRestorable es →
    ∃ ts, memberTrees float ms = some ts ∧
      (membersValue ts).map (fun m => (Value.str m.1, m.2)) = entriesRestored sorted es
  | _, _, .nil, _, _ => ⟨[], rfl, rfl⟩
  | _, _, .cons (s := s) h hs, hn, hv => by
      obtain ⟨t, ht, hvalue⟩ := treeOf_denotes h hn.2.1 hv.1
      obtain ⟨ts, hts, hvalues⟩ := memberTrees_denotes hs hn.2.2 hv.2
      refine ⟨(⟨s, hn.1⟩, t) :: ts, by rw [memberTrees, textOf_eq hn.1, ht, hts]; rfl, ?_⟩
      rw [membersValue, List.map_cons, hvalue, hvalues, entriesRestored]

end

end Trees

/-! ## What `loads` answers -/

/-- The arguments that a text may be given to `loads` as. -/
inductive Carries (bytes : Bytes) : Arg → Prop
  | bytes : Carries bytes (.bytes bytes)
  | byteArray : Carries bytes (.byteArray bytes)
  | memoryView : Carries bytes (.memoryView (some bytes))
  | str {s : StrObj} (hs : ∀ c ∈ s.chars, Utf8.IsScalar c) (h : Utf8.encodeAll s.chars = bytes) :
      Carries bytes (.str s)

variable {parse : Bytes → Except (ErrorType × ℕ) Tree} {float : Bytes → Option UInt64}
  {maxDepth : ℕ}

lemma not_blank {t : Bytes} {n : Json.Node} (h : Json.IsText t n) : t.all isBlank = false := by
  obtain ⟨w, u, w', -, hu, -, rfl⟩ := h
  obtain ⟨b, u, rfl, hb, -⟩ := Json.head_of_derives hu
  have hmem : b ∈ w ++ b :: u ++ w' :=
    List.mem_append_left _ (List.mem_append_right _ List.mem_cons_self)
  rw [List.all_eq_false]
  refine ⟨b, hmem, ?_⟩
  rw [Bool.not_eq_true]
  exact hb

/-- The text that the `doc` of an error is. -/
def Document.Shows (bytes : Bytes) : Document → Prop
  | .str s => Utf8.encodeAll s.chars = bytes
  | .replaced input => input = bytes

/-- A text is answered alike, whatever argument it is given as. -/
lemma answer_carries (parse : Bytes → Except (ErrorType × ℕ) Tree) {bytes : Bytes} {arg : Arg}
    (harg : Carries bytes arg) :
    ∃ doc, (document bytes doc).Shows bytes ∧ answer parse arg = answerOf parse bytes doc := by
  cases harg with
  | bytes => exact ⟨none, rfl, rfl⟩
  | byteArray => exact ⟨none, rfl, rfl⟩
  | memoryView => exact ⟨none, rfl, rfl⟩
  | @str s hs henc =>
      have hno : ¬ (s.chars.any fun c => decide (Utf8.IsSurrogate c)) = true := by
        simp only [List.any_eq_true, decide_eq_true_eq, not_exists, not_and]
        exact fun c hc => (hs c hc).2
      refine ⟨some s, henc, ?_⟩
      unfold answer
      dsimp only
      rw [if_neg hno, henc]

/-- What `loads` answers for a text that the parser reads. -/
lemma answer_isText (hjson : ReadsJson parse float maxDepth) {bytes : Bytes} {n : Json.Node}
    (htext : Json.IsText bytes n) (hsize : bytes.length < 2 ^ 32) (hdepth : n.depth ≤ maxDepth)
    {tree : Tree} (htree : treeOf float n = some tree) {arg : Arg} (harg : Carries bytes arg) :
    answer parse arg = .ok tree.value := by
  obtain ⟨doc, -, hanswer⟩ := answer_carries parse harg
  have hparse : parse bytes = .ok tree := hjson bytes n htext hsize hdepth tree htree
  rw [hanswer]
  unfold answerOf
  rw [not_blank htext, if_neg Bool.false_ne_true, hparse]

/-- What `loads` answers for a text that holds a value. -/
lemma answer_readsBack (hjson : ReadsJson parse float maxDepth) (hdepth : MAX_DEPTH ≤ maxDepth)
    {sorted strict : Bool} {limit : ℕ} {v : Value} {bytes : Bytes} (hfits : v.Fits strict limit 0)
    (hv : v.Restorable) (hsize : bytes.length < 2 ^ 32)
    (hback : ReadsBack (fun t bits => isInteger t = false ∧ float t = some bits) sorted v bytes)
    {arg : Arg} (harg : Carries bytes arg) : answer parse arg = .ok (v.restored sorted) := by
  obtain ⟨-, n, htext, -, hdenotes⟩ := hback
  have hnested := Denotes.depth hdenotes (Nat.zero_le _) hfits
  have htexts : n.IsTexts := by
    obtain ⟨w, u, w', -, hu, -, -⟩ := htext
    exact hu.isTexts
  obtain ⟨tree, htree, hvalue⟩ := treeOf_denotes hdenotes htexts hv
  rw [← hvalue]
  exact answer_isText hjson htext hsize (by omega) htree harg

end Decode

/-! ## A parser that reads JSON -/

/-- Formatters that write the bits of a double as the digits of a fraction. -/
def Formats.fractions : Formats where
  itoa := Formats.plain.itoa
  length_itoa := Formats.plain.length_itoa
  zmijBuffer := 22
  zmij64 v := [48, 46] ++ Decimal.natText v.toNat
  length_zmij64 v := by
    have hlength := Decimal.length_natText_le 19 (lt_trans v.toNat_lt (by norm_num))
    rw [List.length_append, List.length_cons, List.length_singleton]
    omega
  zmij32 := Formats.plain.zmij32
  length_zmij32 v := (Formats.plain.length_zmij32 v).trans (by decide)

/-- The bits that such a fraction stands for. -/
def fractionBits (t : Bytes) : Option UInt64 := some (UInt64.ofNat (Decimal.value (t.drop 2)))

lemma Formats.fractions_zmij64 (bits : UInt64) :
    IsNumber (Formats.fractions.zmij64 bits) ∧
      Decode.isInteger (Formats.fractions.zmij64 bits) = false ∧
      fractionBits (Formats.fractions.zmij64 bits) = some bits := by
  refine ⟨⟨[], [48], 46 :: Decimal.natText bits.toNat, [], .inl rfl, .inl rfl, .inr ⟨_, ?_, rfl⟩, .inl rfl,
    ?_⟩, rfl, ?_⟩
  · exact ⟨Decimal.natText_ne_nil _, Decimal.isDigit_natText _⟩
  · rw [List.append_nil]
    rfl
  · have hdrop : (Formats.fractions.zmij64 bits).drop 2 = Decimal.natText bits.toNat := rfl
    rw [fractionBits, hdrop, Decimal.value_natText, UInt64.ofNat_toNat]

namespace Decode

/-- The reader of the grammar as a parser of trees. -/
def readTree (t : Bytes) : Except (ErrorType × ℕ) Tree :=
  match (Json.read t).bind (treeOf fractionBits) with
  | some tree => .ok tree
  | none => .error (.syntaxError, 0)

def readerParser : Parser Unit where
  fillTape input _ _ :=
    match readTree input with
    | .ok tree => (.ok (), input, (), tree.tape)
    | .error e => (.error e, input, (), [])

lemma readerParser_reads : readerParser.Reads readTree where
  result input b := by
    unfold readerParser
    dsimp only
    cases readTree input <;> rfl
  tape input b t ht := by
    unfold readerParser
    dsimp only
    rw [ht]

lemma readTree_readsJson (limit : ℕ) : ReadsJson readTree fractionBits limit := by
  intro t n htext _ _ tree htree
  unfold readTree
  rw [Json.read_isText htext, Option.bind_some, Option.mem_def.mp htree]

end Decode

end Isojson
