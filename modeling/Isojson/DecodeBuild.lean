import Isojson.DecodeStr
import Isojson.Library.Assoc
import Isojson.Value

/-!
# `decode.rs`: building the value of a tape

`build` turns a tape into Python objects with a loop and an explicit stack of the containers
being filled.  A read past the end of the tape, a key that is not a string, a slot that does not
exist and a null pointer are faults.

The tape of a tree (`Tree.tape`) is simd-json's.  The proof goes by induction on the tree: a loop
that stands at a value's first node reaches, with the value's nodes read, the point where that
value is inserted into its parent (`build_value`).
-/

namespace Isojson.Decode

/-! ## The code -/

inductive StaticNode
  | null
  | bool (b : Bool)
  | i64 (v : Int64)
  | u64 (v : UInt64)
  /-- A float, by its bits. -/
  | f64 (v : UInt64)

/-- A tape node, as far as `build` reads it. -/
inductive Node
  | string (s : Bytes)
  | static (n : StaticNode)
  | array (len : ℕ)
  | object (len : ℕ)

/-- An object reference that `build` holds; `null` is the null pointer of an unfilled slot. -/
inductive PyValue
  | null
  | none
  | bool (b : Bool)
  | int (id : ObjId) (z : ℤ)
  | float (id : ObjId) (bits : UInt64)
  | str (s : PyStr)
  | list (id : ObjId) (slots : List PyValue)
  | dict (id : ObjId) (entries : List (PyStr × PyValue))

def PyValue.id? : PyValue → Option ObjId
  | .null => Option.none
  | .none => some .none
  | .bool b => some (.bool b)
  | .int id _ => some id
  | .float id _ => some id
  | .str s => some s.id
  | .list id _ => some id
  | .dict id _ => some id

mutual

/-- The references given back when the last one to a value is: its own, and those of the items
it owns. -/
def PyValue.refs : PyValue → List ObjId
  | .null => []
  | .none => [.none]
  | .bool b => [.bool b]
  | .int id _ => [id]
  | .float id _ => [id]
  | .str s => [s.id]
  | .list id slots => id :: slotRefs slots
  | .dict id entries => id :: entryRefs entries

def slotRefs : List PyValue → List ObjId
  | [] => []
  | v :: slots => v.refs ++ slotRefs slots

def entryRefs : List (PyStr × PyValue) → List ObjId
  | [] => []
  | (k, v) :: entries => k.id :: v.refs ++ entryRefs entries

end

/-- A list or dict being filled. -/
structure PartialContainer where
  obj : PyValue
  isList : Bool
  filled : ℕ
  len : ℕ
  /-- The dict key awaiting its value. -/
  key : Option PyStr

def acquire (refs : List ObjId) (w : World) : World := { w with acquired := refs ++ w.acquired }

def release (refs : List ObjId) (w : World) : World := { w with released := refs ++ w.released }

/-- `PartialContainers::drop`, which every `?` in `build` goes through. -/
def dropStack (stack : List PartialContainer) (w : World) : World :=
  stack.foldl (fun w o => release ((o.key.map PyStr.id).toList ++ o.obj.refs) w) w

/-- A node read with `get_unchecked`. -/
def readNode (nodes : List Node) (i : ℕ) : Build Node := do
  let n ← Run.unchecked nodes[i]?
  Run.modify fun w => { w with reads := w.reads ++ [i] }
  pure n

/-- In an object, the next node is a key. -/
def nextKey (nodes : List Node) (stack : List PartialContainer) (i : ℕ) :
    Build (List PartialContainer × ℕ) :=
  match stack with
  | [] => pure ([], i)
  | top :: rest =>
      if !top.isList && top.key.isNone then do
        match ← readNode nodes i with
        | .string k =>
            let key ← (keyStr k).onError (dropStack stack)
            pure ({ top with key := some key } :: rest, i + 1)
        | _ => Run.fault
      else pure (stack, i)

/-- What a node is: a finished value, or a container that has to be filled. -/
inductive Opened
  | value (v : PyValue)
  | container (c : PartialContainer)

def openNode : Node → Build Opened
  | .string s => do
      let o ← makeStr s
      pure (.value (.str o))
  | .static .null => do
      incref .none
      pure (.value .none)
  | .static (.bool b) => do
      incref (.bool b)
      pure (.value (.bool b))
  | .static (.i64 v) => do
      let id ← newObject
      pure (.value (.int id v.toInt))
  | .static (.u64 v) => do
      let id ← newObject
      pure (.value (.int id v.toNat))
  | .static (.f64 v) => do
      let id ← newObject
      pure (.value (.float id v))
  | .array len => do
      let id ← newObject
      if 0 < len then
        pure (.container ⟨.list id (List.replicate len .null), true, 0, len, none⟩)
      else pure (.value (.list id []))
  | .object len => do
      let id ← newObject
      if 0 < len then pure (.container ⟨.dict id [], false, 0, len, none⟩)
      else pure (.value (.dict id []))

/-- `unicode_eq`: strings of one length and kind are compared by their bytes. -/
def PyStr.eq (a b : PyStr) : Bool :=
  a.text.length == b.text.length && a.text.kind == b.text.kind && a.text.data == b.text.data

/-- The entries after `PyDict_SetItem`, and the value it replaced. -/
def setEntry (entries : List (PyStr × PyValue)) (k : PyStr) (v : PyValue) :
    List (PyStr × PyValue) × Option PyValue :=
  match entries with
  | [] => ([(k, v)], none)
  | e :: entries =>
      if e.1.eq k then ((e.1, v) :: entries, some e.2)
      else
        let (entries, old) := setEntry entries k v
        (e :: entries, old)

/-- Inserts a finished value into the container on top, taking over its reference. -/
def insert (top : PartialContainer) (rest : List PartialContainer) (val : PyValue) :
    Build PartialContainer :=
  match top.obj with
  | .list id slots =>
      if top.isList then
        if top.filled < slots.length then
          pure { top with obj := .list id (slots.set top.filled val) }
        else Run.fault
      else Run.fault
  | .dict id entries =>
      if top.isList then Run.fault
      else do
        let key ← Run.unchecked top.key
        -- a failing `PyDict_SetItem` takes no reference; both are given back here
        request.onError (dropStack ({ top with key := none } :: rest) ∘ release (key.id :: val.refs))
        let (entries', old) := setEntry entries key val
        match old with
        | none => do
            incref key.id
            Run.modify (acquire val.id?.toList)
        | some old => do
            Run.modify (acquire val.id?.toList)
            Run.modify (release old.refs)
        Run.modify (release (val.id?.toList ++ [key.id]))
        pure { top with obj := .dict id entries', key := none }
  | _ => Run.fault

/-- Where the inner loop ends: at the value of the document, or in an open container. -/
inductive Closed
  | done (v : PyValue)
  | more (stack : List PartialContainer)

/-- Inserts the finished value into its parent, closing every container this completes. -/
def close (val : PyValue) : List PartialContainer → Build Closed
  | [] => pure (.done val)
  | top :: rest => do
      let top ← insert top rest val
      let top := { top with filled := top.filled + 1 }
      if top.filled < top.len then pure (.more (top :: rest))
      else close top.obj rest

/-- A finished value, and then the next round of the outer loop. -/
def resume (again : List PartialContainer → ℕ → Build PyValue) (val : PyValue)
    (stack : List PartialContainer) (i : ℕ) : Build PyValue := do
  match ← close val stack with
  | .done v => pure v
  | .more stack => again stack i

/-- The outer loop's body behind the key. -/
def atValue (nodes : List Node) (again : List PartialContainer → ℕ → Build PyValue)
    (stack : List PartialContainer) (i : ℕ) : Build PyValue := do
  let node ← readNode nodes i
  match ← (openNode node).onError (dropStack stack) with
  | .value v => resume again v stack (i + 1)
  | .container c => again (c :: stack) (i + 1)

/-- The outer loop.  Each round reads a node, so that `nodes.length` rounds are enough. -/
def loop (nodes : List Node) : ℕ → List PartialContainer → ℕ → Build PyValue
  | 0, _, _ => Run.starve
  | fuel + 1, stack, i => do
      let (stack, i) ← nextKey nodes stack i
      atValue nodes (loop nodes fuel) stack i

def build (nodes : List Node) : Build PyValue := loop nodes nodes.length [] 0

/-! ## Trees and their tapes -/

/-- A JSON value as simd-json tells values apart. -/
inductive Tree
  | null
  | bool (b : Bool)
  | i64 (v : Int64)
  | u64 (v : UInt64)
  | f64 (v : UInt64)
  | string (s : Utf8.Text)
  | array (items : List Tree)
  | object (members : List (Utf8.Text × Tree))

mutual

/-- The tape: nodes in document order, containers with their number of items or members. -/
def Tree.tape : Tree → List Node
  | .null => [.static .null]
  | .bool b => [.static (.bool b)]
  | .i64 v => [.static (.i64 v)]
  | .u64 v => [.static (.u64 v)]
  | .f64 v => [.static (.f64 v)]
  | .string s => [.string (Utf8.encodeAll s)]
  | .array ts => .array ts.length :: itemsTape ts
  | .object ms => .object ms.length :: membersTape ms

def itemsTape : List Tree → List Node
  | [] => []
  | t :: ts => t.tape ++ itemsTape ts

def membersTape : List (Utf8.Text × Tree) → List Node
  | [] => []
  | (k, t) :: ms => .string (Utf8.encodeAll k) :: (t.tape ++ membersTape ms)

end

mutual

/-- The Python value of a tree: for a repeated key, the last value at the first place. -/
def Tree.value : Tree → Value
  | .null => .none
  | .bool b => .bool b
  | .i64 v => .int v.toInt
  | .u64 v => .int v.toNat
  | .f64 v => .float v
  | .string s => .str s
  | .array ts => .list (itemsValue ts)
  | .object ms => .dict ((Assoc.collapse (membersValue ms)).map fun m => (.str m.1, m.2))

def itemsValue : List Tree → List Value
  | [] => []
  | t :: ts => t.value :: itemsValue ts

def membersValue : List (Utf8.Text × Tree) → List (Utf8.Text × Value)
  | [] => []
  | (k, t) :: ms => (k, t.value) :: membersValue ms

end

mutual

/-- The Python object is the value: lists with every slot filled, strings in CPython's own
form. -/
inductive IsValue : PyValue → Value → Prop
  | none : IsValue .none .none
  | bool (b : Bool) : IsValue (.bool b) (.bool b)
  | int (id : ObjId) (z : ℤ) : IsValue (.int id z) (.int z)
  | float (id : ObjId) (bits : UInt64) : IsValue (.float id bits) (.float bits)
  | str {o : PyStr} {s : List ℕ} (h : o.text = canonical s) : IsValue (.str o) (.str s)
  | list (id : ObjId) {slots : List PyValue} {vs : List Value} (h : AreValues slots vs) :
      IsValue (.list id slots) (.list vs)
  | dict (id : ObjId) {entries : List (PyStr × PyValue)} {ms : List (Utf8.Text × Value)}
      (h : AreMembers entries ms) :
      IsValue (.dict id entries) (.dict (ms.map fun m => (.str m.1, m.2)))

inductive AreValues : List PyValue → List Value → Prop
  | nil : AreValues [] []
  | cons {v : PyValue} {x : Value} {vs : List PyValue} {xs : List Value} (hv : IsValue v x)
      (hvs : AreValues vs xs) : AreValues (v :: vs) (x :: xs)

inductive AreMembers : List (PyStr × PyValue) → List (Utf8.Text × Value) → Prop
  | nil : AreMembers [] []
  | cons {k : PyStr} {s : Utf8.Text} {v : PyValue} {x : Value} {es : List (PyStr × PyValue)}
      {ms : List (Utf8.Text × Value)} (hk : k.text = canonical s) (hv : IsValue v x)
      (hes : AreMembers es ms) : AreMembers ((k, v) :: es) ((s, x) :: ms)

end

/-! ## One step -/

variable {al : ℕ → Bool} {α : Type} {r r' : List ℕ}

lemma gives_onError {m : Build α} {f : World → World} {P : α → Prop} (h : Gives al m r r' P) :
    Gives al (m.onError f) r r' P := by
  intro w hw
  rw [Run.wp_onError]
  exact h w hw

lemma gives_acquire (refs : List ObjId) :
    Gives al (Run.modify (acquire refs) : Build Unit) r r fun _ => True :=
  fun _ hw => ⟨trivial, hw.alloc, hw.keys, hw.reads_eq⟩

lemma gives_release (refs : List ObjId) :
    Gives al (Run.modify (release refs) : Build Unit) r r fun _ => True :=
  fun _ hw => ⟨trivial, hw.alloc, hw.keys, hw.reads_eq⟩

/-- The nodes are read in order: with `i` nodes read, the next one is node `i`. -/
lemma gives_readNode {nodes : List Node} {i : ℕ} {n : Node} {rest : List Node}
    (h : nodes.drop i = n :: rest) :
    Gives al (readNode nodes i) (List.range i) (List.range (i + 1)) (· = n) := by
  have hn : nodes[i]? = some n := by
    rw [← List.head?_drop, h]
    rfl
  rw [readNode, hn, Run.unchecked_some, pure_bind]
  intro w hw
  exact ⟨rfl, hw.alloc, hw.keys, by rw [List.range_succ, ← hw.reads_eq]⟩

lemma drop_succ_of_drop {nodes rest : List Node} {i : ℕ} {n : Node}
    (h : nodes.drop i = n :: rest) : nodes.drop (i + 1) = rest := by
  rw [← List.drop_drop, h, List.drop_one, List.tail_cons]

lemma AreValues.length_eq {vs : List PyValue} {xs : List Value} (h : AreValues vs xs) :
    vs.length = xs.length := by
  induction vs generalizing xs with
  | nil => cases h; rfl
  | cons v vs ih => cases h with | cons hv hvs => rw [List.length_cons, List.length_cons, ih hvs]

lemma AreValues.snoc {vs : List PyValue} {xs : List Value} (h : AreValues vs xs) {v : PyValue}
    {x : Value} (hv : IsValue v x) : AreValues (vs ++ [v]) (xs ++ [x]) := by
  induction vs generalizing xs with
  | nil => cases h; exact .cons hv .nil
  | cons v' vs ih => cases h with | cons hv' hvs => exact .cons hv' (ih hvs)

/-- Keys in canonical form are equal exactly when their texts are. -/
lemma eq_iff {a b : PyStr} {s s' : Utf8.Text} (ha : a.text = canonical s)
    (hb : b.text = canonical s') : a.eq b = true ↔ s = s' := by
  have hlt : ∀ x : Utf8.Text, ∀ c ∈ x.1, c < 0x110000 := fun x c hc => (x.2 c hc).1
  rw [PyStr.eq, Bool.and_eq_true, Bool.and_eq_true, beq_iff_eq, beq_iff_eq, beq_iff_eq, ha, hb]
  constructor
  · rintro ⟨⟨hlen, hkind⟩, hdata⟩
    exact Subtype.ext (canonical_inj (hlt s) (hlt s') hlen hkind hdata)
  · rintro rfl
    exact ⟨⟨rfl, rfl⟩, rfl⟩

lemma set_cons {d : List (Utf8.Text × Value)} {s s' : Utf8.Text} {x x' : Value} (hne : s' ≠ s) :
    Assoc.set ((s', x') :: d) s x = (s', x') :: Assoc.set d s x := by
  unfold Assoc.set
  have hmem : s ∈ ((s', x') :: d).map Prod.fst ↔ s ∈ d.map Prod.fst := by
    simp [Ne.symm hne]
  simp only [hmem]
  split
  · simp [hne]
  · rfl

/-- The keys of an insertion-ordered map are different, so that `setEntry`, which stops at the
first match, is the insertion into it. -/
lemma AreMembers.setEntry {entries : List (PyStr × PyValue)} {d : List (Utf8.Text × Value)}
    (h : AreMembers entries d) (hnd : (d.map Prod.fst).Nodup) {k : PyStr} {s : Utf8.Text}
    {v : PyValue} {x : Value} (hk : k.text = canonical s) (hv : IsValue v x) :
    AreMembers (setEntry entries k v).1 (Assoc.set d s x) := by
  induction entries generalizing d with
  | nil =>
      cases h
      exact .cons hk hv .nil
  | cons e entries ih =>
      cases h with
      | @cons k' s' v' x' _ d hk' hv' hes =>
          rw [List.map_cons, List.nodup_cons] at hnd
          rw [Decode.setEntry]
          by_cases heq : s' = s
          · rw [if_pos ((eq_iff hk' hk).mpr heq)]
            subst heq
            have hset : Assoc.set ((s', x') :: d) s' x = (s', x) :: d := by
              unfold Assoc.set
              rw [if_pos (by simp), List.map_cons, if_pos rfl]
              congr 1
              refine (List.map_congr_left fun p hp => ?_).trans (List.map_id d)
              rw [if_neg]
              · rfl
              · intro hp'
                exact hnd.1 (List.mem_map.mpr ⟨p, hp, hp'⟩)
            rw [hset]
            exact .cons hk' hv hes
          · rw [if_neg fun h => heq ((eq_iff hk' hk).mp h), set_cons heq]
            exact .cons hk' hv' (ih hes hnd.2)

lemma gives_insert_list {id : ObjId} {slots : List PyValue} {filled len : ℕ} {key : Option PyStr}
    {rest : List PartialContainer} {v : PyValue} (hfilled : filled < slots.length) :
    Gives al (insert ⟨.list id slots, true, filled, len, key⟩ rest v) r r
      (· = ⟨.list id (slots.set filled v), true, filled, len, key⟩) := by
  simp only [insert, if_true, if_pos hfilled]
  exact Gives.pure rfl

lemma gives_insert_dict {id : ObjId} {entries : List (PyStr × PyValue)} {filled len : ℕ}
    {key : PyStr} {rest : List PartialContainer} {v : PyValue} :
    Gives al (insert ⟨.dict id entries, false, filled, len, some key⟩ rest v) r r
      (· = ⟨.dict id (setEntry entries key v).1, false, filled, len, none⟩) := by
  simp only [insert, Bool.false_eq_true, if_false, Run.unchecked_some, pure_bind]
  refine (gives_onError gives_request).bind fun _ _ => ?_
  have htail : Gives al (do
      Run.modify (release (v.id?.toList ++ [key.id]))
      pure ⟨.dict id (setEntry entries key v).1, false, filled, len, none⟩ :
        Build PartialContainer) r r
      (· = ⟨.dict id (setEntry entries key v).1, false, filled, len, none⟩) :=
    (gives_release _).bind fun _ _ => Gives.pure rfl
  split
  · exact (gives_incref _).bind fun _ _ => (gives_acquire _).bind fun _ _ => htail
  · exact (gives_acquire _).bind fun _ _ => (gives_release _).bind fun _ _ => htail

/-! ## The induction -/

mutual

/-- The rounds of the loop that a tree takes beyond the one for its first node. -/
def Tree.inner : Tree → ℕ
  | .array ts => itemsInner ts
  | .object ms => membersInner ms
  | _ => 0

def itemsInner : List Tree → ℕ
  | [] => 0
  | t :: ts => itemsInner ts + t.inner + 1

def membersInner : List (Utf8.Text × Tree) → ℕ
  | [] => 0
  | (_, t) :: ms => membersInner ms + t.inner + 1

end

lemma drop_append_length {nodes a b : List Node} {i : ℕ} (h : nodes.drop i = a ++ b) :
    nodes.drop (i + a.length) = b := by
  rw [← List.drop_drop, h, List.drop_left]

/-- A node that is a value by itself. -/
lemma atValue_leaf {nodes rest : List Node} {again : List PartialContainer → ℕ → Build PyValue}
    {stack : List PartialContainer} {i : ℕ} {n : Node} {x : Value} {P : PyValue → Prop}
    (h : nodes.drop i = n :: rest)
    (hopen : Gives al (openNode n) (List.range (i + 1)) (List.range (i + 1))
      fun o => ∃ v, o = .value v ∧ IsValue v x)
    (hnext : ∀ v, IsValue v x → Gives al (resume again v stack (i + 1)) (List.range (i + 1)) r' P) :
    Gives al (atValue nodes again stack i) (List.range i) r' P := by
  refine (gives_readNode h).bind ?_
  rintro _ rfl
  refine (gives_onError hopen).bind ?_
  rintro _ ⟨v, rfl, hv⟩
  exact hnext v hv

/-- A node that opens a container. -/
lemma atValue_open {nodes rest : List Node} {again : List PartialContainer → ℕ → Build PyValue}
    {stack : List PartialContainer} {i : ℕ} {n : Node} {c : ObjId → PartialContainer}
    {P : PyValue → Prop} (h : nodes.drop i = n :: rest)
    (hopen : Gives al (openNode n) (List.range (i + 1)) (List.range (i + 1))
      fun o => ∃ id, o = .container (c id))
    (hnext : ∀ id, Gives al (again (c id :: stack) (i + 1)) (List.range (i + 1)) r' P) :
    Gives al (atValue nodes again stack i) (List.range i) r' P := by
  refine (gives_readNode h).bind ?_
  rintro _ rfl
  refine (gives_onError hopen).bind ?_
  rintro _ ⟨id, rfl⟩
  exact hnext id

/-- A finished value goes into the container on top, which stays open or is finished itself. -/
lemma resume_cons {again : List PartialContainer → ℕ → Build PyValue} {top top' : PartialContainer}
    {stack : List PartialContainer} {v : PyValue} {i : ℕ} {P : PyValue → Prop}
    (hins : Gives al (insert top stack v) r r (· = top'))
    (hmore : top'.filled + 1 < top'.len →
      Gives al (again ({ top' with filled := top'.filled + 1 } :: stack) i) r r' P)
    (hdone : ¬ top'.filled + 1 < top'.len → Gives al (resume again top'.obj stack i) r r' P) :
    Gives al (resume again v (top :: stack) i) r r' P := by
  simp only [resume, close, bind_assoc]
  refine hins.bind ?_
  rintro a rfl
  by_cases h : a.filled + 1 < a.len
  · simp only [if_pos h, pure_bind]
    exact hmore h
  · simp only [if_neg h]
    exact hdone h

lemma nextKey_list {nodes : List Node} {obj : PyValue} {filled len i : ℕ}
    {stack : List PartialContainer} :
    nextKey nodes (⟨obj, true, filled, len, none⟩ :: stack) i =
      pure (⟨obj, true, filled, len, none⟩ :: stack, i) := rfl

lemma gives_nextKey_dict {nodes rest : List Node} {obj : PyValue} {filled len i : ℕ}
    {stack : List PartialContainer} {k : Utf8.Text}
    (h : nodes.drop i = .string (Utf8.encodeAll k) :: rest) :
    Gives al (nextKey nodes (⟨obj, false, filled, len, none⟩ :: stack) i) (List.range i)
      (List.range (i + 1)) fun p => ∃ key : PyStr, key.text = canonical k ∧
        p = (⟨obj, false, filled, len, some key⟩ :: stack, i + 1) := by
  simp only [nextKey, Bool.not_false, Option.isNone_none, Bool.and_self, if_true]
  refine (gives_readNode h).bind ?_
  rintro _ rfl
  exact (gives_onError (gives_keyStr k.2)).bind fun key hkey => Gives.pure ⟨key, hkey, rfl⟩

mutual

/-- **A value.**  With the loop at a value's first node, the value is built, its nodes are read,
and the loop is about to insert it into its parent. -/
theorem build_value (nodes : List Node) : ∀ (t : Tree) {fuel i : ℕ} {stack : List PartialContainer}
    {rest : List Node} {P : PyValue → Prop}, nodes.drop i = t.tape ++ rest →
    (∀ v, IsValue v t.value → Gives al (resume (loop nodes fuel) v stack (i + t.tape.length))
      (List.range (i + t.tape.length)) r' P) →
    Gives al (atValue nodes (loop nodes (fuel + t.inner)) stack i) (List.range i) r' P
  | .null, _, _, _, _, _, h, hnext =>
      atValue_leaf h ((gives_incref _).bind fun _ _ => Gives.pure ⟨_, rfl, .none⟩) hnext
  | .bool b, _, _, _, _, _, h, hnext =>
      atValue_leaf h ((gives_incref _).bind fun _ _ => Gives.pure ⟨_, rfl, .bool b⟩) hnext
  | .i64 v, _, _, _, _, _, h, hnext =>
      atValue_leaf h (gives_newObject.bind fun id _ => Gives.pure ⟨_, rfl, .int id v.toInt⟩) hnext
  | .u64 v, _, _, _, _, _, h, hnext =>
      atValue_leaf h (gives_newObject.bind fun id _ => Gives.pure ⟨_, rfl, .int id v.toNat⟩) hnext
  | .f64 v, _, _, _, _, _, h, hnext =>
      atValue_leaf h (gives_newObject.bind fun id _ => Gives.pure ⟨_, rfl, .float id v⟩) hnext
  | .string s, _, _, _, _, _, h, hnext =>
      atValue_leaf h ((gives_makeStr s.2).bind fun _ ho => Gives.pure ⟨_, rfl, .str ho⟩) hnext
  | .array [], _, _, _, _, _, h, hnext =>
      atValue_leaf h (gives_newObject.bind fun id _ => Gives.pure ⟨_, rfl, .list id .nil⟩) hnext
  | .array (t :: ts), fuel, i, stack, rest, P, h, hnext => by
      have hdrop := drop_succ_of_drop h
      refine atValue_open (c := fun id => ⟨.list id (List.replicate (t :: ts).length .null), true, 0,
        (t :: ts).length, none⟩) h (gives_newObject.bind fun id _ => ?_) fun id => ?_
      · rw [if_pos (by simp)]
        exact Gives.pure ⟨id, rfl⟩
      · have hitems := @build_items nodes (t :: ts) fuel (i + 1) stack _ id [] [] P (by simp) hdrop
          .nil
        simp only [List.nil_append, List.length_nil, Nat.zero_add] at hitems
        refine hitems fun slots' hs => ?_
        have hn := hnext (.list id slots') (.list id hs)
        rwa [Tree.tape, List.length_cons, Nat.add_comm (itemsTape _).length, ← Nat.add_assoc] at hn
  | .object [], _, _, _, _, _, h, hnext =>
      atValue_leaf h (gives_newObject.bind fun id _ => Gives.pure ⟨_, rfl, .dict id .nil⟩) hnext
  | .object (m :: ms), fuel, i, stack, rest, P, h, hnext => by
      have hdrop := drop_succ_of_drop h
      refine atValue_open (c := fun id => ⟨.dict id [], false, 0, (m :: ms).length, none⟩) h
        (gives_newObject.bind fun id _ => ?_) fun id => ?_
      · rw [if_pos (by simp)]
        exact Gives.pure ⟨id, rfl⟩
      · have hmembers := @build_members nodes (m :: ms) fuel (i + 1) stack _ id [] [] P (by simp)
          hdrop .nil
        simp only [List.nil_append, List.length_nil, Nat.zero_add] at hmembers
        refine hmembers fun entries' hs => ?_
        have hn := hnext (.dict id entries') (.dict id hs)
        rwa [Tree.tape, List.length_cons, Nat.add_comm (membersTape _).length, ← Nat.add_assoc] at hn

/-- **The rest of a list** whose first slots are filled. -/
theorem build_items (nodes : List Node) : ∀ (ts : List Tree) {fuel i : ℕ}
    {stack : List PartialContainer} {rest : List Node} {id : ObjId} {slots : List PyValue}
    {vs : List Value} {P : PyValue → Prop}, ts ≠ [] → nodes.drop i = itemsTape ts ++ rest →
    AreValues slots vs →
    (∀ slots', AreValues slots' (vs ++ itemsValue ts) →
      Gives al (resume (loop nodes fuel) (.list id slots') stack (i + (itemsTape ts).length))
        (List.range (i + (itemsTape ts).length)) r' P) →
    Gives al (loop nodes (fuel + itemsInner ts) (⟨.list id (slots ++ List.replicate ts.length .null),
      true, slots.length, slots.length + ts.length, none⟩ :: stack) i) (List.range i) r' P
  | [], _, _, _, _, _, _, _, _, hne, _, _, _ => absurd rfl hne
  | t :: ts, fuel, i, stack, rest, id, slots, vs, P, _, h, hs, hnext => by
      rw [itemsTape, List.append_assoc] at h
      have hdrop := drop_append_length h
      rw [itemsInner, ← Nat.add_assoc, ← Nat.add_assoc, loop, nextKey_list, pure_bind]
      refine build_value nodes t h fun v hv => ?_
      have hlen : (itemsTape (t :: ts)).length = t.tape.length + (itemsTape ts).length := by
        rw [itemsTape, List.length_append]
      have hset : (slots ++ List.replicate (t :: ts).length PyValue.null).set slots.length v =
          slots ++ [v] ++ List.replicate ts.length .null := by
        rw [List.length_cons, List.replicate_succ, List.set_append_right _ _ le_rfl, Nat.sub_self,
          List.set_cons_zero, List.append_assoc]
        rfl
      have hs' := hs.snoc hv
      have hcount : (slots ++ [v]).length = slots.length + 1 := by simp
      refine resume_cons (gives_insert_list (by simp)) (fun hmore => ?_) fun hdone => ?_
      · simp only [List.length_cons] at hmore
        have hne : ts ≠ [] := by
          rintro rfl
          simp at hmore
        have hitems := @build_items nodes ts fuel _ stack _ id _ _ P hne hdrop hs'
        rw [hcount] at hitems
        rw [hset, List.length_cons, Nat.add_comm ts.length 1, ← Nat.add_assoc]
        refine hitems fun slots' hs => ?_
        have hn := hnext slots' (by rwa [itemsValue, List.append_cons])
        rwa [hlen, ← Nat.add_assoc] at hn
      · simp only [List.length_cons, not_lt] at hdone
        obtain rfl : ts = [] := List.length_eq_zero_iff.mp (by omega)
        have hn := hnext (slots ++ [v]) hs'
        rw [hset]
        simpa [itemsTape, itemsInner] using hn

/-- **The rest of a dict** in which some members are inserted. -/
theorem build_members (nodes : List Node) : ∀ (ms : List (Utf8.Text × Tree)) {fuel i : ℕ}
    {stack : List PartialContainer} {rest : List Node} {id : ObjId}
    {entries : List (PyStr × PyValue)} {ps : List (Utf8.Text × Value)} {P : PyValue → Prop},
    ms ≠ [] → nodes.drop i = membersTape ms ++ rest → AreMembers entries (Assoc.collapse ps) →
    (∀ entries', AreMembers entries' (Assoc.collapse (ps ++ membersValue ms)) →
      Gives al (resume (loop nodes fuel) (.dict id entries') stack (i + (membersTape ms).length))
        (List.range (i + (membersTape ms).length)) r' P) →
    Gives al (loop nodes (fuel + membersInner ms) (⟨.dict id entries, false, ps.length,
      ps.length + ms.length, none⟩ :: stack) i) (List.range i) r' P
  | [], _, _, _, _, _, _, _, _, hne, _, _, _ => absurd rfl hne
  | (k, t) :: ms, fuel, i, stack, rest, id, entries, ps, P, _, h, hs, hnext => by
      rw [membersTape, List.cons_append, List.append_assoc] at h
      have hdrop1 := drop_succ_of_drop h
      have hdrop := drop_append_length hdrop1
      rw [membersInner, ← Nat.add_assoc, ← Nat.add_assoc, loop]
      refine (gives_nextKey_dict h).bind ?_
      rintro _ ⟨key, hkey, rfl⟩
      refine build_value nodes t hdrop1 fun v hv => ?_
      have hlen : i + 1 + t.tape.length + (membersTape ms).length =
          i + (membersTape ((k, t) :: ms)).length := by
        rw [membersTape, List.length_cons, List.length_append]
        omega
      have hs' := hs.setEntry (Assoc.nodup_collapse ps) hkey hv
      rw [← Assoc.collapse_append] at hs'
      have hcount : (ps ++ [(k, t.value)]).length = ps.length + 1 := by simp
      refine resume_cons gives_insert_dict (fun hmore => ?_) fun hdone => ?_
      · simp only [List.length_cons] at hmore
        have hne : ms ≠ [] := by
          rintro rfl
          simp at hmore
        have hmembers := @build_members nodes ms fuel _ stack _ id _ _ P hne hdrop hs'
        rw [hcount] at hmembers
        rw [List.length_cons, Nat.add_comm ms.length 1, ← Nat.add_assoc]
        refine hmembers fun entries' hs => ?_
        rw [hlen]
        exact hnext entries' (by rwa [membersValue, List.append_cons])
      · simp only [List.length_cons, not_lt] at hdone
        obtain rfl : ms = [] := List.length_eq_zero_iff.mp (by omega)
        have hn := hnext _ hs'
        rw [← hlen] at hn
        simpa [membersTape, membersInner] using hn

end

mutual

/-- The rounds a tree takes are at most its nodes. -/
lemma inner_lt_length_tape : ∀ t : Tree, t.inner < t.tape.length
  | .null | .bool _ | .i64 _ | .u64 _ | .f64 _ | .string _ => by simp [Tree.inner, Tree.tape]
  | .array ts => by
      have := itemsInner_le ts
      simp only [Tree.inner, Tree.tape, List.length_cons]
      omega
  | .object ms => by
      have := membersInner_le ms
      simp only [Tree.inner, Tree.tape, List.length_cons]
      omega

lemma itemsInner_le : ∀ ts : List Tree, itemsInner ts ≤ (itemsTape ts).length
  | [] => by simp [itemsInner]
  | t :: ts => by
      have := inner_lt_length_tape t
      have := itemsInner_le ts
      simp only [itemsInner, itemsTape, List.length_append]
      omega

lemma membersInner_le : ∀ ms : List (Utf8.Text × Tree), membersInner ms ≤ (membersTape ms).length
  | [] => by simp [membersInner]
  | (_, t) :: ms => by
      have := inner_lt_length_tape t
      have := membersInner_le ms
      simp only [membersInner, membersTape, List.length_cons, List.length_append]
      omega

end

/-- From a ready world, the tape of a tree is read to its end and gives the tree's value. -/
lemma gives_build (t : Tree) : Gives al (build t.tape) (List.range 0) (List.range t.tape.length)
    (IsValue · t.value) := by
  have hlt := inner_lt_length_tape t
  obtain ⟨fuel, hfuel⟩ : ∃ fuel, t.tape.length = fuel + t.inner + 1 :=
    ⟨t.tape.length - t.inner - 1, by omega⟩
  rw [build, hfuel, loop, ← hfuel]
  have hdrop : t.tape.drop 0 = t.tape ++ [] := by simp
  refine build_value t.tape t hdrop fun v hv => ?_
  rw [Nat.zero_add]
  exact Gives.pure hv

/-- **`build` gives the tree back.**  Over the tape of any JSON tree and any valid key cache, no
read is past the end, no key is other than a string and no slot is missing.  Unless CPython fails
a request, `build` returns; the nodes have then been read once each, in order, and the value is
the tree's. -/
theorem build_tape (t : Tree) (w : World) (hkeys : ∀ slots ∈ w.keys, ValidCache slots)
    (hreads : w.reads = []) :
    (∃ v w', build t.tape w = .ok v w' ∧ w'.reads = List.range t.tape.length ∧
      IsValue v t.value) ∨
    (∃ e w', build t.tape w = .error e w' ∧ ∃ k, w.alloc k = false) := by
  rcases (gives_build t w ⟨rfl, hkeys, hreads⟩).cases with ⟨v, w', hrun, hv, hw'⟩ | ⟨e, w', hrun, hfail⟩
  · exact Or.inl ⟨v, w', hrun, hw'.reads_eq, hv⟩
  · exact Or.inr ⟨e, w', hrun, hfail⟩

/-- A repeated key and an empty list: `{"a": [], "b": 1, "a": true}`. -/
def sampleTree : Tree :=
  .object [(⟨[97], by decide⟩, .array []), (⟨[98], by decide⟩, .i64 1),
    (⟨[97], by decide⟩, .bool true)]

/-- Its value keeps the first place and the last value of the repeated key. -/
theorem build_tape_repeated_key :
    ∃ v w', build sampleTree.tape ⟨fun _ => true, 0, 0, none, [], [], []⟩ = .ok v w' ∧
      w'.reads = [0, 1, 2, 3, 4, 5, 6] ∧
      IsValue v (.dict [(.str [97], .bool true), (.str [98], .int 1)]) :=
  (build_tape sampleTree ⟨fun _ => true, 0, 0, none, [], [], []⟩ (by simp) rfl).resolve_right
    (by simp)

end Isojson.Decode
