import Isojson.Containers
import Isojson.Library.JsonReader
import Isojson.Value

/-!
# `dumps` of a tree of builtin values

An object of one of the builtin types, with all that it holds, shows a value (`Shows`), and a reader of
a JSON text finds a tree that denotes a value (`Denotes`).  Without a `default` and with enough memory,
`dumps` ends for every value that an object shows: it succeeds for those that fit (`Value.Fits`), and
the reader gets the value back (`dumps_reads_back`).
-/

namespace Isojson

open Json Run

variable {Obj H : Type} {a : Allocator}

/-! ## Builtin objects -/

/-- What an object of a builtin type shows, one level deep. -/
inductive Builtin (Obj : Type)
  | none
  | bool (b : Bool)
  | int (z : ℤ)
  | float (bits : UInt64)
  | str (s : List ℕ)
  | list (items : List Obj)
  | tuple (items : List Obj)
  | dict (slots : List (Option (Entry Obj)))

/-- An object of exactly a builtin type. -/
def Runtime.builtin (rt : Runtime Obj H) (h : H) (o : Obj) : Option (Builtin Obj) :=
  match (rt.view h o).cls, (rt.view h o).body with
  | none, .none => some .none
  | none, .bool b => some (.bool b)
  | none, .int z => some (.int z)
  | none, .float bits => some (.float bits)
  | none, .str t => some (.str t.chars)
  | none, .list items => some (.list items)
  | none, .tuple => some (.tuple (rt.tupleItems o))
  | none, .dict slots => some (.dict slots)
  | _, _ => none

/-- The layout that shows it. -/
def Builtin.LaidOut (items : List Obj) (body : Body Obj) : Builtin Obj → Prop
  | .none => body = .none
  | .bool b => body = .bool b
  | .int z => body = .int z
  | .float bits => body = .float bits
  | .str s => ∃ t, body = .str t ∧ t.chars = s
  | .list l => body = .list l
  | .tuple l => body = .tuple ∧ items = l
  | .dict slots => body = .dict slots

lemma Runtime.builtin_laidOut {rt : Runtime Obj H} {h : H} {o : Obj} {b : Builtin Obj}
    (hb : rt.builtin h o = some b) :
    (rt.view h o).cls = none ∧ b.LaidOut (rt.tupleItems o) (rt.view h o).body := by
  unfold builtin at hb
  split at hb
  case h_9 => exact absurd hb (by simp)
  case h_5 t hcls hbody =>
    obtain rfl := Option.some.inj hb
    exact ⟨hcls, t, hbody, rfl⟩
  all_goals
    next hcls hbody =>
      obtain rfl := Option.some.inj hb
      exact ⟨hcls, by simpa [Builtin.LaidOut] using hbody⟩

/-! ## Values that objects show -/

section Shows

variable (rt : Runtime Obj H) (W : H → Prop)

mutual

/-- Over all the heaps of `W`, the object shows the value, down to its leaves. -/
inductive Shows : Obj → Value → Prop
  | intro {o : Obj} {b : Builtin Obj} {v : Value} (hb : ∀ h, W h → rt.builtin h o = some b)
      (hv : Holds b v) : Shows o v

inductive Holds : Builtin Obj → Value → Prop
  | none : Holds .none .none
  | bool (b : Bool) : Holds (.bool b) (.bool b)
  | int (z : ℤ) : Holds (.int z) (.int z)
  | float (bits : UInt64) : Holds (.float bits) (.float bits)
  | str (s : List ℕ) : Holds (.str s) (.str s)
  | list {items : List Obj} {vs : List Value} (h : ShowAll items vs) : Holds (.list items) (.list vs)
  | tuple {items : List Obj} {vs : List Value} (h : ShowAll items vs) :
      Holds (.tuple items) (.tuple vs)
  | dict {slots : List (Option (Entry Obj))} {es : List (Value × Value)}
      (h : ShowEntries slots.reduceOption es) : Holds (.dict slots) (.dict es)

inductive ShowAll : List Obj → List Value → Prop
  | nil : ShowAll [] []
  | cons {o : Obj} {v : Value} {os : List Obj} {vs : List Value} (h : Shows o v)
      (hs : ShowAll os vs) : ShowAll (o :: os) (v :: vs)

inductive ShowEntries : List (Entry Obj) → List (Value × Value) → Prop
  | nil : ShowEntries [] []
  | cons {key value : Obj} {k v : Value} {kvs : List (Entry Obj)} {es : List (Value × Value)}
      (hk : Shows key k) (hv : Shows value v) (hs : ShowEntries kvs es) :
      ShowEntries ((key, value) :: kvs) ((k, v) :: es)

end

variable {rt W}

mutual

/-- **An object shows one value** at most. -/
theorem Shows.unique {h : H} (hW : W h) : ∀ {o : Obj} {v v' : Value}, Shows rt W o v →
    Shows rt W o v' → v = v'
  | _, _, _, .intro hb hv, .intro hb' hv' => by
      obtain rfl := Option.some.inj ((hb h hW).symm.trans (hb' h hW))
      exact hv.unique hW hv'

theorem Holds.unique {h : H} (hW : W h) : ∀ {b : Builtin Obj} {v v' : Value}, Holds rt W b v →
    Holds rt W b v' → v = v'
  | _, _, _, .none, .none => rfl
  | _, _, _, .bool _, .bool _ => rfl
  | _, _, _, .int _, .int _ => rfl
  | _, _, _, .float _, .float _ => rfl
  | _, _, _, .str _, .str _ => rfl
  | _, _, _, .list h, .list h' => congrArg Value.list (h.unique hW h')
  | _, _, _, .tuple h, .tuple h' => congrArg Value.tuple (h.unique hW h')
  | _, _, _, .dict h, .dict h' => congrArg Value.dict (h.unique hW h')

theorem ShowAll.unique {h : H} (hW : W h) : ∀ {os : List Obj} {vs vs' : List Value},
    ShowAll rt W os vs → ShowAll rt W os vs' → vs = vs'
  | _, _, _, .nil, .nil => rfl
  | _, _, _, .cons h hs, .cons h' hs' => congrArg₂ List.cons (h.unique hW h') (hs.unique hW hs')

theorem ShowEntries.unique {h : H} (hW : W h) : ∀ {kvs : List (Entry Obj)}
    {es es' : List (Value × Value)}, ShowEntries rt W kvs es → ShowEntries rt W kvs es' → es = es'
  | _, _, _, .nil, .nil => rfl
  | _, _, _, .cons hk hv hs, .cons hk' hv' hs' => by
      rw [hk.unique hW hk', hv.unique hW hv', hs.unique hW hs']

end

end Shows

/-! ## Values that fit -/

/-- The interpreter converts the integer to decimal: its digits are within the limit, where there is
one. -/
def WithinDigits (limit : ℕ) (z : ℤ) : Prop :=
  limit = 0 ∨ (Decimal.natText z.natAbs).length ≤ limit

/-- An integer that the options let through and that can be converted. -/
def IntFits (strict : Bool) (limit : ℕ) (z : ℤ) : Prop :=
  if strict then Within53Bits z else Within64Bits z ∨ WithinDigits limit z

/-- The code points of a string. -/
def Value.chars? : Value → Option (List ℕ)
  | .str s => some s
  | _ => Option.none

/-- A string without surrogates. -/
def Value.IsText (v : Value) : Prop := ∃ s, Writable v.chars? s

section Fits

variable (strict : Bool) (limit : ℕ)

mutual

/-- A value inside `d` open containers: every string in it is without surrogates, as is every key of a
dict, which is a string; every integer fits, and no container is nested deeper than allowed. -/
def Value.Fits (d : ℕ) : Value → Prop
  | .none => True
  | .bool _ => True
  | .int z => IntFits strict limit z
  | .float _ => True
  | .str s => (Value.str s).IsText
  | .list vs => d + 1 ≤ MAX_DEPTH ∧ itemsFit (d + 1) vs
  | .tuple vs => d + 1 ≤ MAX_DEPTH ∧ itemsFit (d + 1) vs
  | .dict es => d + 1 ≤ MAX_DEPTH ∧ entriesFit (d + 1) es

def itemsFit (d : ℕ) : List Value → Prop
  | [] => True
  | v :: vs => v.Fits d ∧ itemsFit d vs

def entriesFit (d : ℕ) : List (Value × Value) → Prop
  | [] => True
  | (k, v) :: es => k.IsText ∧ v.Fits d ∧ entriesFit d es

end

lemma itemsFit_iff {d : ℕ} {vs : List Value} :
    itemsFit strict limit d vs ↔ ∀ v ∈ vs, v.Fits strict limit d := by
  induction vs with
  | nil => simp [itemsFit]
  | cons v vs ih => rw [itemsFit, ih, List.forall_mem_cons]

lemma entriesFit_iff {d : ℕ} {es : List (Value × Value)} :
    entriesFit strict limit d es ↔ ∀ e ∈ es, e.1.IsText ∧ e.2.Fits strict limit d := by
  induction es with
  | nil => simp [entriesFit]
  | cons e es ih => rw [entriesFit, ih, List.forall_mem_cons, and_assoc]

end Fits

/-! ## What a reader gets back -/

/-- The entries of a dict in the order they are written in. -/
def inOrder (sorted : Bool) (es : List (Value × Value)) : List (Value × Value) :=
  if sorted then es.mergeSort fun x y => decide (x.1.chars?.getD [] ≤ y.1.chars?.getD []) else es

section Denotes

variable (float : Bytes → UInt64 → Prop) (sorted : Bool)

mutual

/-- The tree that a reader found stands for the value; `float` says which number texts the reader takes
for a double.  Tuples come back as arrays, and floats that are not finite as `null`. -/
inductive Denotes : Node → Value → Prop
  | none : Denotes .null .none
  | bool (b : Bool) : Denotes (.bool b) (.bool b)
  | int (z : ℤ) : Denotes (.number (Decimal.intText z)) (.int z)
  | float {t : Bytes} {bits : UInt64} (hfin : isFinite64 bits = true) (h : float t bits) :
      Denotes (.number t) (.float bits)
  | notFinite {bits : UInt64} (hfin : isFinite64 bits = false) : Denotes .null (.float bits)
  | str (s : List ℕ) : Denotes (.string s) (.str s)
  | list {ns : List Node} {vs : List Value} (h : AllDenote ns vs) : Denotes (.array ns) (.list vs)
  | tuple {ns : List Node} {vs : List Value} (h : AllDenote ns vs) : Denotes (.array ns) (.tuple vs)
  | dict {ms : List (List ℕ × Node)} {es : List (Value × Value)}
      (h : MembersDenote ms (inOrder sorted es)) : Denotes (.object ms) (.dict es)

inductive AllDenote : List Node → List Value → Prop
  | nil : AllDenote [] []
  | cons {n : Node} {v : Value} {ns : List Node} {vs : List Value} (h : Denotes n v)
      (hs : AllDenote ns vs) : AllDenote (n :: ns) (v :: vs)

inductive MembersDenote : List (List ℕ × Node) → List (Value × Value) → Prop
  | nil : MembersDenote [] []
  | cons {s : List ℕ} {n : Node} {v : Value} {ms : List (List ℕ × Node)} {es : List (Value × Value)}
      (h : Denotes n v) (hs : MembersDenote ms es) :
      MembersDenote ((s, n) :: ms) ((.str s, v) :: es)

end

end Denotes

/-! ## Lists of related items -/

section Related

variable {rt : Runtime Obj H} {W : H → Prop}

/-- An entry that shows a key and a value. -/
def ShowsEntry (rt : Runtime Obj H) (W : H → Prop) (kv : Entry Obj) (e : Value × Value) : Prop :=
  Shows rt W kv.1 e.1 ∧ Shows rt W kv.2 e.2

lemma ShowAll.forall₂ : ∀ {os : List Obj} {vs : List Value}, ShowAll rt W os vs →
    List.Forall₂ (Shows rt W) os vs
  | _, _, .nil => .nil
  | _, _, .cons h hs => .cons h hs.forall₂

lemma ShowEntries.forall₂ : ∀ {kvs : List (Entry Obj)} {es : List (Value × Value)},
    ShowEntries rt W kvs es → List.Forall₂ (ShowsEntry rt W) kvs es
  | _, _, .nil => .nil
  | _, _, .cons hk hv hs => .cons ⟨hk, hv⟩ hs.forall₂

/-- An item has a partner. -/
lemma forall₂_exists {α β : Type} {R : α → β → Prop} {l : List α} {l' : List β}
    (h : List.Forall₂ R l l') : ∀ x ∈ l, ∃ y ∈ l', R x y := by
  induction h with
  | nil => simp
  | cons hxy _ ih =>
      rw [List.forall_mem_cons]
      refine ⟨⟨_, List.mem_cons_self, hxy⟩, fun x hx => ?_⟩
      obtain ⟨y, hy, hxy⟩ := ih x hx
      exact ⟨y, List.mem_cons_of_mem _ hy, hxy⟩

/-- Related lists stay related when each is sorted, if related items compare alike. -/
lemma forall₂_mergeSort {α β : Type} {R : α → β → Prop} {r : α → α → Bool} {s : β → β → Bool}
    {l : List α} {l' : List β} (h : List.Forall₂ R l l')
    (hle : ∀ x y x' y', R x x' → R y y' → r x y = s x' y') :
    List.Forall₂ R (l.mergeSort r) (l'.mergeSort s) := by
  -- both lists are images of one list of pairs
  obtain ⟨ps, hfst, hsnd, hps⟩ : ∃ ps : List (α × β), ps.map Prod.fst = l ∧ ps.map Prod.snd = l' ∧
      ∀ p ∈ ps, R p.1 p.2 := by
    induction h with
    | nil => exact ⟨[], rfl, rfl, by simp⟩
    | cons hxy _ ih =>
        obtain ⟨ps, rfl, rfl, hps⟩ := ih
        exact ⟨(_, _) :: ps, rfl, rfl, List.forall_mem_cons.mpr ⟨hxy, hps⟩⟩
  subst hfst hsnd
  have hleft := List.map_mergeSort (r := fun p q : α × β => r p.1 q.1) (s := r) (f := Prod.fst)
    (l := ps) fun _ _ _ _ => rfl
  have hright := List.map_mergeSort (r := fun p q : α × β => r p.1 q.1) (s := s) (f := Prod.snd)
    (l := ps) fun p hp q hq => hle _ _ _ _ (hps p hp) (hps q hq)
  rw [← hleft, ← hright, List.forall₂_map_left_iff, List.forall₂_map_right_iff, List.forall₂_same]
  exact fun p hp => hps p ((List.mergeSort_perm ..).mem_iff.mp hp)

/-- The code points of an object that shows a value. -/
lemma Shows.strChars {o : Obj} {v : Value} {h : H} (hs : Shows rt W o v) (hW : W h) :
    rt.strChars h o = v.chars? := by
  obtain ⟨hb, hv⟩ := hs
  have hlaid := (Runtime.builtin_laidOut (hb h hW)).2
  cases hv with
  | str s =>
      obtain ⟨t, ht, rfl⟩ := hlaid
      exact Runtime.strChars_of_str ht
  | tuple h =>
      refine Runtime.strChars_eq_none fun t ht => ?_
      exact absurd (hlaid.1.symm.trans ht) (by simp)
  | _ =>
      refine Runtime.strChars_eq_none fun t ht => ?_
      exact absurd ((Eq.symm hlaid).trans ht) (by simp)

end Related

/-! ## The writers -/

/-- What the encoder relies on when it writes a tree over the heaps of `W`: conversions of CPython keep
the heap in `W`, and they fail only for an integer beyond the digit limit; `itoa` writes decimal
digits, and `zmij` a number that a reader takes for the float. -/
structure Host.WritesTrees (h : Host Obj H) (W : H → Prop) (float : Bytes → UInt64 → Prop)
    (limit : ℕ) : Prop where
  toBase : ∀ obj w, W w.heap → W (h.rt.reply (.toBase obj 10) w).2.heap
  utf8 : ∀ obj w, W w.heap → W (h.rt.reply (.utf8 obj) w).2.heap
  converts : ∀ obj w z, W w.heap → (h.rt.view w.heap obj).body = .int z → ¬ Within64Bits z →
    ((∃ text w1, h.rt.reply (.toBase obj 10) w = (.ok text, w1)) ↔ WithinDigits limit z)
  digits : ∀ obj w text w1, h.rt.reply (.toBase obj 10) w = (.ok text, w1) →
    ∃ o w2, h.rt.reply (.utf8 text) w1 = (.ok o, w2)
  itoa : ∀ z, Within64Bits z → h.fmt.itoa z = Decimal.intText z
  zmij : ∀ bits, isFinite64 bits = true → IsNumber (h.fmt.zmij64 bits) ∧ float (h.fmt.zmij64 bits) bits

namespace Env

def strict (e : Env Obj H) : Bool := hasOpt e.opts optStrictInteger

def sorted (e : Env Obj H) : Bool := hasOpt e.opts optSortKeys

variable {e : Env Obj H} {W : H → Prop} {float : Bytes → UInt64 → Prop} {limit : ℕ} {obj : Obj}
  {d : ℕ}

/-! ### Integers -/

section Int

variable {z : ℤ} (htrees : e.WritesTrees W float limit)
  (hobj : ∀ h, W h → (e.rt.view h obj).body = .int z)

include htrees

lemma puts_writeInt {E : Prop} {R : Doc → Prop} (hz : Within64Bits z)
    (hR : R (.leaf (Decimal.intText z))) :
    Puts W d e.indent False E R (emit (·.writeInt e.fmt z) : Encode Obj H a Unit) :=
  .emit (fun b => by rw [b.content_writeInt, htrees.itoa z hz]) hR

include hobj

/-- Integers outside of 64 bits are written in CPython's digits, as far as it makes them. -/
lemma puts_intOutside64Bits {E : Prop} {R : Doc → Prop} (hz : ¬ Within64Bits z)
    (hstrict : e.strict = false) (hE : ¬ WithinDigits limit z → E)
    (hR : WithinDigits limit z → R (.leaf (Decimal.intText z))) :
    Puts W d e.indent False E R (e.intOutside64Bits obj z : Encode Obj H a Unit) := by
  intro c s hs
  have hconverts := htrees.converts obj s.world z hs.heap (hobj _ hs.heap) hz
  have hheap := htrees.toBase obj s.world hs.heap
  obtain ⟨log, hrun⟩ := intOutside64Bits_eq (hobj _ hs.heap) hstrict
  unfold wp
  rw [hrun]
  rcases hreply : e.rt.reply (.toBase obj 10) s.world with ⟨text | exc, w⟩
  · obtain ⟨o, w1, hutf8⟩ := htrees.digits _ _ _ _ hreply
    rw [hreply] at hheap
    have hheap1 := htrees.utf8 text w hheap
    dsimp only
    rw [hutf8] at hheap1 ⊢
    refine ⟨_, hR (hconverts.mp ⟨_, _, hreply⟩), ?_⟩
    rw [Doc.render]
    have hput : At W d c { s with world := w1, log := log } :=
      ⟨hs.content, hs.depth, hs.calm, hheap1⟩
    exact hput.written fun b => b.content_extend _
  · refine hE fun hdigits => ?_
    obtain ⟨text, w', hok⟩ := hconverts.mpr hdigits
    exact absurd (hok.symm.trans hreply) (by simp)

/-- **An integer that fits** is written in decimal, and any other raises. -/
lemma puts_int {E : Prop} {R : Doc → Prop} (hE : ¬ IntFits e.strict limit z → E)
    (hR : IntFits e.strict limit z → R (.leaf (Decimal.intText z))) :
    Puts W d e.indent False E R (e.int obj : Encode Obj H a Unit) := by
  intro c s hs
  have hview := hobj _ hs.heap
  have hlooked : At W d c (looked s obj) := hs.logged _
  have hi64 : i64Max ≤ u64Max := by decide
  unfold IntFits at hE hR
  by_cases hstrict : e.strict = true
  · rw [if_pos hstrict] at hE hR
    by_cases hz : Within53Bits z
    · refine wp_int_i64 hview hs.calm hz.within64.1 hz.within64.2 ?_
      rw [if_neg fun h => h.2 hz]
      have h64 : Within64Bits z := ⟨hz.within64.1, hz.within64.2.trans hi64⟩
      exact puts_writeInt htrees h64 (hR hz) _ _ hlooked
    · by_cases h64 : i64Min ≤ z ∧ z ≤ i64Max
      · refine wp_int_i64 hview hs.calm h64.1 h64.2 ?_
        rw [if_pos ⟨hstrict, hz⟩]
        exact Puts.fail (hE hz) _ _ hlooked
      · refine wp_int_outside hview hs.calm h64 (Or.inl hstrict) ?_
        unfold intOutside64Bits
        rw [if_pos (show hasOpt e.opts optStrictInteger = true from hstrict)]
        exact Puts.fail (hE hz) _ _ hlooked
  · rw [if_neg hstrict] at hE hR
    rw [Bool.not_eq_true] at hstrict
    by_cases hz : Within64Bits z
    · have hput := puts_writeInt (d := d) (a := a) (E := E) htrees hz (hR (Or.inl hz)) _ _ hlooked
      by_cases hle : z ≤ i64Max
      · refine wp_int_i64 hview hs.calm hz.1 hle ?_
        rw [if_neg fun h => by rw [show hasOpt e.opts optStrictInteger = false from hstrict] at h; simp at h]
        exact hput
      · exact wp_int_u64 hview hs.calm (not_le.mp hle) hz.2 hstrict hput
    · have h64 : ¬ (i64Min ≤ z ∧ z ≤ i64Max) := fun h => hz ⟨h.1, h.2.trans hi64⟩
      refine wp_int_outside hview hs.calm h64 (Or.inr hz) ?_
      have hput := puts_intOutside64Bits (d := d) (a := a) htrees hobj hz hstrict
        (fun h => hE (not_or.mpr ⟨hz, h⟩)) fun h => hR (Or.inr h)
      exact hput _ _ hlooked

end Int

/-! ### Documents of values -/

section Documents

variable (e W float limit)

/-- The document is one of the value, which fits inside `d` open containers. -/
def Renders (d : ℕ) (v : Value) (doc : Doc) : Prop :=
  v.Fits e.strict limit d ∧ ∃ n, doc.Stands n ∧ Denotes float e.sorted n v

/-- A document of the value that the object shows. -/
def ShownDoc (d : ℕ) (o : Obj) (doc : Doc) : Prop :=
  ∃ v, Shows e.rt W o v ∧ e.Renders float limit d v doc

/-- The object shows a value that does not fit. -/
def ShownUnfit (d : ℕ) (o : Obj) : Prop := ∃ v, Shows e.rt W o v ∧ ¬ v.Fits e.strict limit d

variable {e W float limit} {h : H} (hW : W h)

include hW

lemma not_itemsFit {items : List Obj} {vs : List Value} (hs : List.Forall₂ (Shows e.rt W) items vs)
    (hraises : ∃ item ∈ items, e.ShownUnfit W limit d item) : ¬ itemsFit e.strict limit d vs := by
  obtain ⟨item, hitem, v, hv, hunfit⟩ := hraises
  obtain ⟨v', hmem, hv'⟩ := forall₂_exists hs item hitem
  obtain rfl := hv.unique hW hv'
  exact fun hfit => hunfit ((itemsFit_iff ..).mp hfit _ hmem)

/-- Documents of all the items of a sequence. -/
lemma renders_items {items : List Obj} {vs : List Value} {docs : List Doc}
    (hs : List.Forall₂ (Shows e.rt W) items vs)
    (hdocs : List.Forall₂ (e.ShownDoc W float limit d) items docs) :
    itemsFit e.strict limit d vs ∧ ∃ ns, ItemsStand docs ns ∧ AllDenote float e.sorted ns vs := by
  induction hs generalizing docs with
  | nil =>
      cases hdocs
      exact ⟨trivial, [], .nil, .nil⟩
  | cons hv _ ih =>
      cases hdocs with
      | cons hdoc hdocs =>
          obtain ⟨v', hv', hfit, n, hn, hden⟩ := hdoc
          obtain rfl := hv.unique hW hv'
          obtain ⟨hfits, ns, hns, hdens⟩ := ih hdocs
          exact ⟨⟨hfit, hfits⟩, n :: ns, .cons hn hns, .cons hden hdens⟩

variable {entries : List (Entry Obj)} {es : List (Value × Value)}

lemma not_entriesFit (hs : List.Forall₂ (ShowsEntry e.rt W) entries es)
    (hraises : ∃ kv ∈ entries, EntryRaises (e.rt.strChars h) (e.ShownUnfit W limit d) kv) :
    ¬ entriesFit e.strict limit d es := by
  obtain ⟨kv, hkv, hraises⟩ := hraises
  obtain ⟨x, hmem, hk, hv⟩ := forall₂_exists hs kv hkv
  intro hfit
  obtain ⟨hkey, hvalue⟩ := (entriesFit_iff ..).mp hfit x hmem
  rcases hraises with hbad | ⟨v, hv', hunfit⟩
  · rw [hk.strChars hW] at hbad
    exact hbad hkey
  · obtain rfl := hv.unique hW hv'
    exact hunfit hvalue

omit hW in
/-- The code points of an object are those of Unicode. -/
lemma isString_of_writable {o : Obj} {cs : List ℕ} (hcs : Writable (e.rt.strChars h o) cs) :
    IsString (quoted cs) cs := by
  obtain ⟨t, -, rfl⟩ := Runtime.body_of_strChars hcs.1
  exact isString_quoted fun c hc => ⟨t.holds.code_points c hc, hcs.2 c hc⟩

/-- Members of all the entries of a dict. -/
lemma renders_members {ms : List Member} (hs : List.Forall₂ (ShowsEntry e.rt W) entries es)
    (hms : List.Forall₂ (MemberOf (e.rt.strChars h) (e.ShownDoc W float limit d)) entries ms) :
    entriesFit e.strict limit d es ∧
      ∃ ns, MembersStand (memberTexts ms) ns ∧ MembersDenote float e.sorted ns es := by
  induction hs generalizing ms with
  | nil =>
      cases hms
      exact ⟨trivial, [], .nil, .nil⟩
  | @cons kv x _ _ hkv _ ih =>
      cases hms with
      | @cons _ m _ _ hm hms =>
          obtain ⟨hchars, v', hv', hfit, n, hn, hden⟩ := hm
          obtain rfl := hkv.2.unique hW hv'
          obtain ⟨hfits, ns, hns, hdens⟩ := ih hms
          have hstring := isString_of_writable hchars
          rw [hkv.1.strChars hW] at hchars
          obtain ⟨k, v⟩ := x
          obtain rfl : k = .str m.1 := by
            cases k with
            | str s => exact congrArg Value.str (Option.some.inj hchars.1)
            | _ => exact absurd hchars.1 (by simp [Value.chars?])
          exact ⟨⟨⟨_, hchars⟩, hfit, hfits⟩, _, .cons hstring hn hns, .cons hden hdens⟩

/-- The entries as they are written, and the values in that order. -/
lemma shows_inOrder (hs : List.Forall₂ (ShowsEntry e.rt W) entries es) :
    List.Forall₂ (ShowsEntry e.rt W) (e.writtenOrder (e.rt.strChars h) entries)
      (inOrder e.sorted es) := by
  unfold writtenOrder inOrder sorted
  by_cases hsort : hasOpt e.opts optSortKeys = true
  · rw [if_pos hsort, if_pos hsort]
    refine forall₂_mergeSort hs fun x y x' y' hx hy => ?_
    rw [hx.1.strChars hW, hy.1.strChars hW]
  · rw [if_neg hsort, if_neg hsort]
    exact hs

omit hW in
lemma entriesFit_inOrder (sorted : Bool) :
    entriesFit e.strict limit d (inOrder sorted es) ↔ entriesFit e.strict limit d es := by
  have hperm : (inOrder sorted es).Perm es := by
    unfold inOrder
    split
    · exact List.mergeSort_perm ..
    · exact .refl es
  rw [entriesFit_iff, entriesFit_iff]
  exact forall_congr' fun x => imp_congr_left hperm.mem_iff

/-- **A sequence** is written as its items are. -/
lemma puts_sequence {items : List Obj} {vs : List Value} (hmax : e.maxDepth = MAX_DEPTH)
    (hs : List.Forall₂ (Shows e.rt W) items vs) {v : Value}
    (hfit : ∀ d, v.Fits e.strict limit d ↔ d + 1 ≤ MAX_DEPTH ∧ itemsFit e.strict limit (d + 1) vs)
    (hden : ∀ ns, AllDenote float e.sorted ns vs → Denotes float e.sorted (.array ns) v)
    {m : Encode Obj H a Unit}
    (hm : Puts W d e.indent False (e.SequenceRaises (e.ShownUnfit W limit (d + 1)) d items)
      (e.ArrayOf (e.ShownDoc W float limit (d + 1)) d items) m) :
    Puts W d e.indent False (¬ v.Fits e.strict limit d) (e.Renders float limit d v) m := by
  refine hm.mono ?_ ?_
  · rintro (hdeep | hraises) hv
    · rw [hmax] at hdeep
      exact absurd ((hfit d).mp hv).1 (by omega)
    · exact not_itemsFit hW hs hraises ((hfit d).mp hv).2
  · rintro doc ⟨hlt, docs, hdocs, rfl⟩
    rw [hmax] at hlt
    obtain ⟨hfits, ns, hns, hdens⟩ := renders_items hW hs hdocs
    exact ⟨(hfit d).mpr ⟨hlt, hfits⟩, .array ns, .arr hns, hden ns hdens⟩

/-- **A dict** is written as its entries are. -/
lemma puts_entries {slots : List (Option (Entry Obj))} {es : List (Value × Value)}
    (hmax : e.maxDepth = MAX_DEPTH)
    (hs : List.Forall₂ (ShowsEntry e.rt W) slots.reduceOption es) {m : Encode Obj H a Unit}
    (hm : Puts W d e.indent False
      (e.DictRaises (e.rt.strChars h) (e.ShownUnfit W limit (d + 1)) d slots.reduceOption)
      (e.ObjectOf (e.rt.strChars h) (e.ShownDoc W float limit (d + 1)) d slots.reduceOption) m) :
    Puts W d e.indent False (¬ (Value.dict es).Fits e.strict limit d)
      (e.Renders float limit d (.dict es)) m := by
  refine hm.mono ?_ ?_
  · rintro (hdeep | hraises) ⟨hroom, hfit⟩
    · rw [hmax] at hdeep
      exact absurd hroom (by omega)
    · exact not_entriesFit hW hs hraises hfit
  · rintro doc ⟨hlt, ms, hms, rfl⟩
    rw [hmax] at hlt
    obtain ⟨hfits, ns, hns, hdens⟩ := renders_members hW (shows_inOrder hW hs) hms
    exact ⟨⟨hlt, (entriesFit_inOrder _).mp hfits⟩, .object ns, .obj hns, .dict hdens⟩

end Documents

/-! ### Leaves -/

/-- A text without its own errors. -/
lemma puts_scalar {f : Buffer a → Buffer a} {t : Bytes} {n : Node} {v : Value} {E : Prop}
    (hf : ∀ b, (f b).content = b.content ++ t) (hfit : v.Fits e.strict limit d) (hn : Scalar t n)
    (hden : Denotes float e.sorted n v) :
    Puts W d e.indent False E (e.Renders float limit d v) (emit f : Encode Obj H a Unit) :=
  .emit hf ⟨hfit, n, .leaf hn, hden⟩

lemma puts_float (htrees : e.WritesTrees W float limit) (bits : UInt64) {E : Prop} :
    Puts W d e.indent False E (e.Renders float limit d (.float bits))
      (emit (·.writeF64 e.fmt bits) : Encode Obj H a Unit) := by
  by_cases hfin : isFinite64 bits = true
  · obtain ⟨hnumber, hfloat⟩ := htrees.zmij bits hfin
    refine puts_scalar (fun b => ?_) trivial (.number hnumber) (.float hfin hfloat)
    rw [b.content_writeF64, Buffer.f64Text, if_pos hfin]
  · refine puts_scalar (fun b => ?_) trivial .null (.notFinite (Bool.not_eq_true _ ▸ hfin))
    rw [b.content_writeF64, Buffer.f64Text, if_neg hfin]

lemma puts_text {s : List ℕ} (hb : ∀ h, W h → e.rt.builtin h obj = some (.str s)) :
    Puts W d e.indent False (¬ (Value.str s).Fits e.strict limit d)
      (e.Renders float limit d (.str s)) (e.str obj : Encode Obj H a Unit) := by
  have hchars : ∀ h, W h → e.rt.strChars h obj = some s := fun h hW =>
    (Shows.intro hb (.str s) : Shows e.rt W obj (.str s)).strChars hW
  intro c st hs
  have hstring : Writable (some s) s → IsString (quoted s) s := fun hw =>
    isString_of_writable (e := e) (h := st.world.heap) ⟨hchars _ hs.heap, hw.2⟩
  refine e.puts_str hchars (R := e.Renders float limit d (.str s)) (fun hw => ?_) (fun hw => ?_) c st hs
  · exact ⟨⟨s, hw⟩, .string s, .leaf (.string (hstring hw)), .str s⟩
  · rintro ⟨s', hs'⟩
    obtain rfl : s = s' := Option.some.inj hs'.1
    exact hw hs'

/-! ### Serialization -/

section Serialize

variable [DecidableEq Obj]

/-- The writer of an object of a builtin type. -/
def writeBuiltin (e : Env Obj H) (self : Obj → Encode Obj H a Unit) (fuel : ℕ) (obj : Obj) :
    Builtin Obj → Encode Obj H a Unit
  | .none => emit (·.extend (Bytes.ascii "null"))
  | .bool true => emit (·.extend (Bytes.ascii "true"))
  | .bool false => emit (·.extend (Bytes.ascii "false"))
  | .int _ => e.int obj
  | .float bits => emit (·.writeF64 e.fmt bits)
  | .str _ => e.str obj
  | .list _ => e.list self fuel obj
  | .tuple _ => e.tuple self obj
  | .dict _ => e.dict self fuel obj

/-- The dispatch finds the writer. -/
lemma puts_serializeBody {self : Obj → Encode Obj H a Unit} {fuel : ℕ} {b : Builtin Obj} {C E : Prop}
    {R : Doc → Prop} (hb : ∀ h, W h → e.rt.builtin h obj = some b)
    (h : Puts W d e.indent C E R (e.writeBuiltin self fuel obj b)) :
    Puts W d e.indent C E R (e.serializeBody self fuel obj) := by
  intro c s hs
  have hput := h c _ (hs.logged (s.log ++ [.read (.obj obj)]))
  obtain ⟨hcls, hbody⟩ := Runtime.builtin_laidOut (hb _ hs.heap)
  unfold serializeBody
  rw [wp_bind, Host.wp_look, hcls]
  cases b with
  | str s =>
      obtain ⟨t, ht, -⟩ := hbody
      rw [ht]
      exact hput
  | bool b =>
      rw [show (e.rt.view s.world.heap obj).body = .bool b from hbody]
      cases b <;> exact hput
  | tuple items =>
      rw [hbody.1]
      exact hput
  | _ =>
      rw [show (e.rt.view s.world.heap obj).body = _ from hbody]
      exact hput

variable (e W float limit) in
/-- With at least `N` fuel, an object is written as the value. -/
def Serializes (a : Allocator) (N : ℕ) (o : Obj) (v : Value) : Prop :=
  ∀ fuel ≥ N, ∀ d, Puts W d e.indent False (¬ v.Fits e.strict limit d) (e.Renders float limit d v)
    (e.serialize fuel o : Encode Obj H a Unit)

lemma Serializes.mono {N N' : ℕ} {o : Obj} {v : Value}
    (h : Serializes e W float limit a N o v) (hle : N ≤ N') :
    Serializes e W float limit a N' o v := fun fuel hfuel => h fuel (hle.trans hfuel)

/-- An object whose writer puts out the value. -/
lemma serializes_of_puts {N : ℕ} {b : Builtin Obj} {v : Value}
    (hb : ∀ h, W h → e.rt.builtin h obj = some b)
    (h : ∀ fuel ≥ N, ∀ d, Puts W d e.indent False (¬ v.Fits e.strict limit d)
      (e.Renders float limit d v)
      (e.writeBuiltin (e.serialize fuel) fuel obj b : Encode Obj H a Unit)) :
    Serializes e W float limit a (N + 1) obj v := by
  intro fuel hfuel d
  obtain ⟨fuel, rfl⟩ := Nat.exists_eq_add_of_le' (Nat.one_le_of_lt hfuel)
  exact puts_serializeBody hb (h fuel (Nat.le_of_succ_le_succ hfuel) d)

/-- What is written of an item, whatever value it shows. -/
lemma puts_item {N : ℕ} {item : Obj} {v : Value} (hv : Shows e.rt W item v)
    (hs : Serializes e W float limit a N item v) {fuel : ℕ} (hfuel : N ≤ fuel) (d : ℕ) :
    Puts W d e.indent False (e.ShownUnfit W limit d item) (e.ShownDoc W float limit d item)
      (e.serialize fuel item : Encode Obj H a Unit) :=
  (hs fuel hfuel d).mono (fun hunfit => ⟨v, hv, hunfit⟩) fun _ hdoc => ⟨v, hv, hdoc⟩

/-- An object that is written by itself. -/
lemma serializes_leaf {o : Obj} {b : Builtin Obj} {v : Value}
    (hb : ∀ h, W h → e.rt.builtin h o = some b)
    (h : ∀ self fuel d, Puts W d e.indent False (¬ v.Fits e.strict limit d)
      (e.Renders float limit d v) (e.writeBuiltin self fuel o b : Encode Obj H a Unit)) :
    ∃ N, Serializes e W float limit a N o v :=
  ⟨1, serializes_of_puts hb fun _ _ d => h _ _ d⟩

mutual

/-- **An object is written as the value that it shows**, with enough fuel. -/
theorem serializes_shown (htrees : e.WritesTrees W float limit) (hmax : e.maxDepth = MAX_DEPTH)
    {h : H} (hW : W h) : ∀ {o : Obj} {v : Value}, Shows e.rt W o v →
    ∃ N, Serializes e W float limit a N o v
  | _, _, .intro hb hv => serializes_holds htrees hmax hW hv hb

theorem serializes_holds (htrees : e.WritesTrees W float limit) (hmax : e.maxDepth = MAX_DEPTH)
    {h : H} (hW : W h) : ∀ {b : Builtin Obj} {v : Value}, Holds e.rt W b v →
    ∀ {o : Obj}, (∀ h, W h → e.rt.builtin h o = some b) → ∃ N, Serializes e W float limit a N o v
  | _, _, .none, _, hb => serializes_leaf hb fun _ _ _ =>
      puts_scalar (fun _ => Buffer.content_extend ..) trivial .null .none
  | _, _, .bool true, _, hb => serializes_leaf hb fun _ _ _ =>
      puts_scalar (fun _ => Buffer.content_extend ..) trivial .true (.bool true)
  | _, _, .bool false, _, hb => serializes_leaf hb fun _ _ _ =>
      puts_scalar (fun _ => Buffer.content_extend ..) trivial .false (.bool false)
  | _, _, .int z, _, hb => serializes_leaf hb fun _ _ _ => by
      have hobj := fun h hh => (Runtime.builtin_laidOut (hb h hh)).2
      exact puts_int htrees hobj id fun hfit => ⟨hfit, _, .leaf (.number (isNumber_intText z)), .int z⟩
  | _, _, .float bits, _, hb => serializes_leaf hb fun _ _ _ => puts_float htrees bits
  | _, _, .str s, _, hb => serializes_leaf hb fun _ _ _ => puts_text hb
  | .list items, _, .list hs, o, hb => by
      obtain ⟨N, hN⟩ := serializes_all htrees hmax hW hs
      refine ⟨_, serializes_of_puts (N := max N (items.length + 1)) hb fun fuel hfuel d => ?_⟩
      refine puts_sequence hW hmax hs.forall₂ (fun d => Iff.rfl) (fun ns => .list) ?_
      refine e.puts_list (fun h hh => (Runtime.builtin_laidOut (hb h hh)).2) (fun item hitem => ?_)
        (Or.inr (lt_of_lt_of_le (Nat.lt_succ_self _) (le_trans (le_max_right ..) hfuel)))
      obtain ⟨v, hv, hput⟩ := hN item hitem
      exact puts_item hv hput (le_trans (le_max_left ..) hfuel) _
  | .tuple items, _, .tuple hs, o, hb => by
      obtain ⟨N, hN⟩ := serializes_all htrees hmax hW hs
      refine ⟨_, serializes_of_puts (N := N) hb fun fuel hfuel d => ?_⟩
      refine puts_sequence hW hmax hs.forall₂ (fun d => Iff.rfl) (fun ns => .tuple) ?_
      have hitems : e.rt.tupleItems o = items := (Runtime.builtin_laidOut (hb h hW)).2.2
      rw [← hitems] at hN ⊢
      refine e.puts_tuple fun item hitem => ?_
      obtain ⟨v, hv, hput⟩ := hN item hitem
      exact puts_item hv hput hfuel _
  | .dict slots, _, .dict hs, o, hb => by
      obtain ⟨N, hN⟩ := serializes_entries htrees hmax hW hs
      refine ⟨_, serializes_of_puts (N := max N (slots.length + 1)) hb fun fuel hfuel d => ?_⟩
      refine puts_entries hW hmax hs.forall₂ ?_
      refine e.puts_dict (fun h hh => (Runtime.builtin_laidOut (hb h hh)).2) (fun kv hkv h' hh' => ?_)
        (fun kv hkv => ?_)
        (Or.inr (Or.inr (lt_of_lt_of_le (Nat.lt_succ_self _) (le_trans (le_max_right ..) hfuel))))
      · obtain ⟨x, -, hkey, -⟩ := forall₂_exists hs.forall₂ kv hkv
        rw [hkey.strChars hh', hkey.strChars hW]
      · obtain ⟨v, hv, hput⟩ := hN kv hkv
        exact puts_item hv hput (le_trans (le_max_left ..) hfuel) _

theorem serializes_all (htrees : e.WritesTrees W float limit) (hmax : e.maxDepth = MAX_DEPTH)
    {h : H} (hW : W h) : ∀ {os : List Obj} {vs : List Value}, ShowAll e.rt W os vs →
    ∃ N, ∀ o ∈ os, ∃ v, Shows e.rt W o v ∧ Serializes e W float limit a N o v
  | _, _, .nil => ⟨0, by simp⟩
  | _, v :: _, .cons hv hs => by
      obtain ⟨N, hN⟩ := serializes_shown htrees hmax hW hv
      obtain ⟨N', hN'⟩ := serializes_all htrees hmax hW hs
      refine ⟨max N N', List.forall_mem_cons.mpr ⟨⟨v, hv, hN.mono (le_max_left ..)⟩, fun o ho => ?_⟩⟩
      obtain ⟨v', hv', hput⟩ := hN' o ho
      exact ⟨v', hv', hput.mono (le_max_right ..)⟩

theorem serializes_entries (htrees : e.WritesTrees W float limit) (hmax : e.maxDepth = MAX_DEPTH)
    {h : H} (hW : W h) : ∀ {kvs : List (Entry Obj)} {es : List (Value × Value)},
    ShowEntries e.rt W kvs es →
    ∃ N, ∀ kv ∈ kvs, ∃ v, Shows e.rt W kv.2 v ∧ Serializes e W float limit a N kv.2 v
  | _, _, .nil => ⟨0, by simp⟩
  | _, (_, v) :: _, .cons _ hv hs => by
      obtain ⟨N, hN⟩ := serializes_shown htrees hmax hW hv
      obtain ⟨N', hN'⟩ := serializes_entries htrees hmax hW hs
      refine ⟨max N N', List.forall_mem_cons.mpr ⟨⟨v, hv, hN.mono (le_max_left ..)⟩, fun kv hkv => ?_⟩⟩
      obtain ⟨v', hv', hput⟩ := hN' kv hkv
      exact ⟨v', hv', hput.mono (le_max_right ..)⟩

end

end Serialize

end Env

/-! ## `dumps` -/

/-- The options that say how builtin values are written. -/
def treeOpts : UInt32 := optIndent2 ||| optSortKeys ||| optStrictInteger ||| optAppendNewline

/-- A reader finds in the text a tree that denotes the value. -/
def ReadsBack (float : Bytes → UInt64 → Prop) (sorted : Bool) (v : Value) (bytes : Bytes) : Prop :=
  Utf8.WellFormed bytes ∧
    ∃ n, Json.IsText bytes n ∧ Json.read bytes = some n ∧ Denotes float sorted n v

lemma readsBack_of_isText {float : Bytes → UInt64 → Prop} {sorted : Bool} {v : Value} {bytes : Bytes}
    {n : Node} (h : Json.IsText bytes n) (hden : Denotes float sorted n v) :
    ReadsBack float sorted v bytes := by
  refine ⟨?_, n, h, read_isText h, hden⟩
  obtain ⟨w, u, w', hw, hu, hw', rfl⟩ := h
  exact (hw.wellFormed.append hu.wellFormed).append hw'.wellFormed

namespace Host

variable (h : Host Obj H) {W : H → Prop} {float : Bytes → UInt64 → Prop} {limit : ℕ}
  {obj option : Obj} {opts : UInt32} {v : Value} {s : St Obj H a}

/-- The encoder without a `default`, once the datetime types are looked up. -/
def treeEnv (opts : UInt32) (dt : Option (DtTypes Obj)) : Env Obj H :=
  { toHost := h, default := none, opts := opts,
    guard := (none : Option Obj).isSome || hasOpt opts optSerializeNumpy || dt.isSome,
    maxDepth := MAX_DEPTH }

lemma new_isSome (halloc : ∀ k, a.bytesNew k = true) (hint : ℕ) : ∃ b, Buffer.new a hint = some b := by
  unfold Buffer.new
  split
  · exact ⟨_, rfl⟩
  · next hnone => exact absurd hnone (by simp [OutputBuffer.new, halloc])

/-- The end of the output, with enough memory. -/
lemma finish_returns (halloc : ∀ k, a.bytesNew k = true) (s : St Obj H a) :
    wp (fun _ => False) finish (fun bytes _ => bytes = s.out.content) (fun _ _ => False) s := by
  obtain ⟨f, hf, -, hres, hnone⟩ := s.out.raw.finish_spec s.out.wf
  unfold finish
  rw [wp_bind, wp_get, wp_bind, wp_unchecked hf]
  cases hresult : f.result with
  | none =>
      have hfailed := (hnone hresult).2
      rw [s.out.alloc_eq, halloc] at hfailed
      exact absurd hfailed (by simp)
  | some o => exact (hres o hresult).1

variable [DecidableEq Obj]

/-- The start of the encoder, with enough memory. -/
lemma start_ready (halloc : ∀ k, a.bytesNew k = true) {dt : Option (DtTypes Obj)}
    (hdt : (s.world.types.datetime h.rt s.world.heap).1 = .ok dt) (hcalm : s.exc = none)
    (hW : W s.world.heap) (hint : ℕ) :
    wp (fun _ => False) (h.start hint none opts)
      (fun e s' => e = h.treeEnv opts dt ∧ At W 0 [] s') (fun _ _ => False) s := by
  obtain ⟨b, hb⟩ := new_isSome halloc hint
  have hcached : ∀ s1 : St Obj H a, s1.world = s.world → s1.exc = none →
      wp (fun _ => False) (Env.cached fun h' c => c.datetime h.rt h')
        (fun r s' => r = dt ∧ s'.exc = none ∧ s'.world.heap = s.world.heap) (fun _ _ => False) s1 := by
    intro s1 hworld hexc
    unfold Env.cached
    rw [wp_bind, wp_get, hworld]
    dsimp only
    rw [wp_bind, wp_modify, hdt]
    exact ⟨rfl, hexc, congrArg (fun w => w.heap) hworld⟩
  unfold start
  rw [wp_bind]
  have hgroup : wp (fun _ => False) (Env.datetimeGroup h.rt)
      (fun r s' => r = dt ∧ s'.exc = none ∧ s'.world.heap = s.world.heap) (fun _ _ => False) s := by
    unfold Env.datetimeGroup
    rw [wp_bind, wp_get]
    split
    · rw [wp_bind, wp_setExc, wp_bind, wp_clearExc]
      exact hcached _ rfl rfl
    · exact hcached s rfl hcalm
  refine hgroup.mono ?_ (fun _ _ h => h) fun _ h => h
  rintro _ s1 ⟨rfl, hexc, hheap⟩
  rw [hb]
  refine ⟨rfl, Buffer.content_of_new hb, rfl, hexc, ?_⟩
  show W s1.world.heap
  rwa [hheap]

/-- **`dumps` of a value that an object shows**, once the arguments are read. -/
lemma dumpsObject_tree (halloc : ∀ k, a.bytesNew k = true) (hcalm : s.exc = none)
    {dt : Option (DtTypes Obj)} (hdt : (s.world.types.datetime h.rt s.world.heap).1 = .ok dt)
    (hW : W s.world.heap) {N : ℕ}
    (hshown : Env.Serializes (h.treeEnv opts dt) W float limit a N obj v) {fuel : ℕ} (hfuel : N ≤ fuel)
    (hint : ℕ) :
    wp (fun _ => False) (h.dumpsObject hint fuel obj none opts)
      (fun bytes _ => v.Fits (hasOpt opts optStrictInteger) limit 0 ∧
        ReadsBack float (hasOpt opts optSortKeys) v bytes)
      (fun _ _ => ¬ v.Fits (hasOpt opts optStrictInteger) limit 0) s := by
  unfold dumpsObject
  rw [wp_bind]
  refine (h.start_ready halloc hdt hcalm hW hint).mono ?_ (fun _ _ h => h.elim) fun _ h => h
  rintro _ s1 ⟨rfl, hs1⟩
  rw [wp_bind]
  refine (hshown fuel hfuel 0 _ _ hs1).mono ?_ (fun _ _ h => h) fun _ h => h
  rintro _ s2 ⟨doc, ⟨hfit, n, hn, hden⟩, hs2⟩
  have hderives := hn.derives (h.treeEnv opts dt).indent 0
  split
  · rw [wp_bind, wp_emit]
    refine (finish_returns halloc _).mono ?_ (fun _ _ h => h.elim) fun _ h => h
    rintro _ _ rfl
    have htext := (hs2.written fun b => b.content_push 10).content
    refine ⟨hfit, readsBack_of_isText ⟨[], _, [10], isWs_nil, hderives, by simp [IsWs, isWs], ?_⟩ hden⟩
    simpa using htext
  · refine (finish_returns halloc s2).mono ?_ (fun _ _ h => h.elim) fun _ h => h
    rintro _ _ rfl
    refine ⟨hfit, readsBack_of_isText ⟨[], _, [], isWs_nil, hderives, isWs_nil, ?_⟩ hden⟩
    simpa using hs2.content

omit [DecidableEq Obj] in
/-- The options of a tree pass the check. -/
lemma wp_parseOpts (hopts : opts &&& treeOpts = opts)
    (hoption : (h.rt.view s.world.heap option).body = .int opts.toNat) {C : St Obj H a → Prop}
    {Q : UInt32 → St Obj H a → Prop} {E : PendingPyErr → St Obj H a → Prop}
    (hrun : Q opts { s with log := s.log ++ [.read (.obj option)] }) :
    wp C (h.parseOpts (some option)) Q E s := by
  have hsmall : (opts.toNat : ℤ) ≤ ALL_OPTS := by
    have hle : opts.toNat ≤ treeOpts.toNat := by
      rw [← hopts, UInt32.toNat_and]
      exact Nat.and_le_right
    exact le_trans (Int.ofNat_le.mpr hle) (by decide)
  have hsupported : hasOpt opts optNonStrKeys = false := by
    rw [← hopts]
    exact hasOpt_and_of_drop (by decide)
  unfold parseOpts
  dsimp only
  rw [wp_bind, wp_look]
  unfold optionValue
  rw [hoption]
  dsimp only
  unfold asLongLong
  rw [if_pos ⟨by unfold i64Min; omega, hsmall.trans (by decide)⟩, wp_bind, wp_pure,
    if_pos ⟨by omega, hsmall⟩]
  simp only [unsupportedOpts, rejectUnsupported, Int.toNat_natCast, UInt32.ofNat_toNat, hsupported,
    Bool.false_eq_true, if_false, wp_bind, wp_pure]
  exact hrun

/-- `dumps` of an object with options and no `default`. -/
lemma wp_dumps_option (hopts : opts &&& treeOpts = opts)
    (hoption : (h.rt.view s.world.heap option).body = .int opts.toNat) {C : St Obj H a → Prop}
    {Q : Bytes → St Obj H a → Prop} {E : PendingPyErr → St Obj H a → Prop} {hint fuel : ℕ}
    (hrun : ∀ log, wp C (h.dumpsObject hint fuel obj none opts) Q E { s with log := log }) :
    wp C (h.dumps hint fuel [obj] [("option", option)]) Q E s := by
  have hkw : h.keywordArgs 1 [("option", option)] (none, none) s = .ok (none, some option) s := by
    simp [keywordArgs]
  show wp C (h.keywordArgs 1 [("option", option)] (none, none) >>= _) Q E s
  rw [wp_bind_of_ok hkw]
  show wp C (h.dropNone (some option) >>= _) Q E s
  unfold dropNone
  dsimp only
  rw [wp_bind, wp_bind, wp_look, hoption, wp_pure, wp_bind]
  exact h.wp_parseOpts (s := { s with log := s.log ++ [.read (.obj option)] })
    (Q := fun opts s' => wp C (h.dumpsObject hint fuel obj none opts) Q E s') hopts hoption (hrun _)

end Host

/-- **`dumps` writes a tree of builtin values so that a reader gets it back**, and fails exactly for the
values that do not fit: with a key that is no string, a surrogate in a string, a container nested
deeper than 254, or an integer out of range. -/
theorem dumps_reads_back [DecidableEq Obj] (h : Host Obj H) {W : H → Prop}
    {float : Bytes → UInt64 → Prop} {limit : ℕ} (htrees : h.WritesTrees W float limit)
    (halloc : ∀ k, a.bytesNew k = true) {s : St Obj H a} (hcalm : s.exc = none)
    (htypes : ∀ exc, (s.world.types.datetime h.rt s.world.heap).1 ≠ .error exc)
    (hW : W s.world.heap) {obj : Obj} {v : Value} (hshows : Shows h.rt W obj v) {option : Obj}
    {opts : UInt32} (hopts : opts &&& treeOpts = opts)
    (hoption : (h.rt.view s.world.heap option).body = .int opts.toNat) (hint : ℕ) :
    ∃ N, ∀ fuel ≥ N,
      (v.Fits (hasOpt opts optStrictInteger) limit 0 →
        ∃ bytes s', h.dumps hint fuel [obj] [("option", option)] s = .ok bytes s' ∧
          ReadsBack float (hasOpt opts optSortKeys) v bytes) ∧
      (¬ v.Fits (hasOpt opts optStrictInteger) limit 0 →
        ∃ exc s', h.dumps hint fuel [obj] [("option", option)] s = .error exc s') := by
  obtain ⟨dt, hdt⟩ : ∃ dt, (s.world.types.datetime h.rt s.world.heap).1 = .ok dt := by
    cases hr : (s.world.types.datetime h.rt s.world.heap).1 with
    | ok dt => exact ⟨dt, rfl⟩
    | error exc => exact absurd hr (htypes exc)
  obtain ⟨N, hN⟩ := Env.serializes_shown (e := h.treeEnv opts dt) (a := a) htrees rfl hW hshows
  refine ⟨N, fun fuel hfuel => ?_⟩
  have hrun := h.wp_dumps_option hopts hoption fun log =>
    h.dumpsObject_tree (s := { s with log := log }) halloc hcalm hdt hW hN hfuel hint
  rcases hrun.cases with ⟨bytes, s', hok, hfit, hback⟩ | ⟨exc, s', herr, hunfit⟩
  · exact ⟨fun _ => ⟨bytes, s', hok, hback⟩, fun hunfit => absurd hfit hunfit⟩
  · exact ⟨fun hfit => absurd hfit hunfit, fun _ => ⟨exc, s', herr⟩⟩

/-- In a snapshot whose integers all fit in 64 bits, nothing depends on CPython's digits. -/
lemma Snapshot.writesTrees {Obj : Type} (t : Snapshot Obj) {fmt : Formats} {W : Unit → Prop}
    {float : Bytes → UInt64 → Prop} {limit : ℕ}
    (hsmall : ∀ o z, (t.view o).body = .int z → Within64Bits z)
    (hitoa : ∀ z, Within64Bits z → fmt.itoa z = Decimal.intText z)
    (hzmij : ∀ bits, isFinite64 bits = true →
      IsNumber (fmt.zmij64 bits) ∧ float (fmt.zmij64 bits) bits) :
    ({ t.host with fmt := fmt } : Host Obj Unit).WritesTrees W float limit where
  toBase _ _ h := h
  utf8 _ _ h := h
  converts o _ z _ hobj hz := absurd (hsmall o z hobj) hz
  digits _ _ _ _ h := absurd (congrArg Prod.fst h) (by simp [host, runtime, reply])
  itoa := hitoa
  zmij := hzmij

/-- A dict of a list of an integer, a float and a tuple. -/
def nestedDict : Snapshot ℕ where
  view
    | 0 => ⟨none, "dict", .dict [none, some (1, 2)]⟩
    | 1 => ⟨none, "str", .str genericDtype⟩
    | 2 => ⟨none, "list", .list [3, 4, 5]⟩
    | 3 => ⟨none, "int", .int 7⟩
    | 4 => ⟨none, "float", .float 0⟩
    | 5 => ⟨none, "tuple", .tuple⟩
    | 6 => ⟨none, "int", .int 33⟩
    | _ => ⟨none, "NoneType", .none⟩
  tupleItems _ := [7]
  pyNone := 7
  memory _ := 0
  answer _ := .ok 8

lemma nestedDict_small {o : ℕ} {z : ℤ} (h : (nestedDict.view o).body = .int z) : Within64Bits z := by
  unfold nestedDict at h
  dsimp only at h
  split at h <;> cases h <;> decide

theorem dumps_reads_back_nested :
    ∃ fuel bytes s', nestedDict.host.dumps 0 fuel [0] [("option", 6)] (nestedDict.state ⟨none, none⟩) =
      .ok bytes s' ∧
      ReadsBack (fun t bits => t = Formats.plain.zmij64 bits) true
        (.dict [(.str [60, 77, 56], .list [.int 7, .float 0, .tuple [.none]])]) bytes := by
  have htrees : nestedDict.host.WritesTrees (fun _ => True)
      (fun t bits => t = Formats.plain.zmij64 bits) 0 :=
    nestedDict.writesTrees (fun _ _ h => nestedDict_small h) (fun _ hz => Formats.plain_itoa hz)
      fun bits _ => ⟨isNumber_zero, rfl⟩
  have hnone : Shows nestedDict.host.rt (fun _ => True) 7 .none := .intro (fun _ _ => rfl) .none
  have htuple : Shows nestedDict.host.rt (fun _ => True) 5 (.tuple [.none]) :=
    .intro (fun _ _ => rfl) (.tuple (.cons hnone .nil))
  have hlist : Shows nestedDict.host.rt (fun _ => True) 2 (.list [.int 7, .float 0, .tuple [.none]]) :=
    .intro (fun _ _ => rfl) (.list (.cons (.intro (fun _ _ => rfl) (.int 7))
      (.cons (.intro (fun _ _ => rfl) (.float 0)) (.cons htuple .nil))))
  have hdict : Shows nestedDict.host.rt (fun _ => True) 0
      (.dict [(.str [60, 77, 56], .list [.int 7, .float 0, .tuple [.none]])]) :=
    .intro (fun _ _ => rfl) (.dict (.cons (.intro (fun _ _ => rfl) (.str _)) hlist .nil))
  have htypes : ((nestedDict.state ⟨none, none⟩).world.types.datetime nestedDict.host.rt ()).1 =
      .ok none := rfl
  have hopts : (33 : UInt32) &&& treeOpts = 33 := by decide
  have hoption : (nestedDict.host.rt.view () 6).body = .int (33 : UInt32).toNat := rfl
  obtain ⟨N, hN⟩ := dumps_reads_back nestedDict.host htrees (fun _ => rfl)
    (s := nestedDict.state ⟨none, none⟩) rfl (fun _ h => absurd (htypes.symm.trans h) (by simp)) trivial
    hdict hopts hoption 0
  have hkey : (Value.str [60, 77, 56]).IsText := ⟨_, rfl, by decide⟩
  have hint : IntFits (hasOpt 33 optStrictInteger) 0 7 := Or.inr (Or.inl rfl)
  refine ⟨N, (hN N le_rfl).1 ?_⟩
  simp [Value.Fits, entriesFit, itemsFit, hkey, hint, MAX_DEPTH]

end Isojson
