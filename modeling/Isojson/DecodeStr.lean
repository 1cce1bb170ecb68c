import Isojson.Library.Run
import Isojson.Strfast

/-!
# `decode.rs`: making strings

The CPython objects that `loads` makes, the ledger of the references it takes and gives back,
and the two ways to a `str`: `make_str`, which picks CPython's kind from the bytes of the text,
and the per-interpreter `KeyCache` of recently seen ASCII keys.

Every request to CPython that can fail asks `World.alloc`, which is any pattern of success and
failure.  A write outside an object's data is a fault.
-/

namespace Isojson.Decode

open Words

/-! ## Objects and the world -/

/-- Which object a reference is to: CPython's own singletons, or one made in this call. -/
inductive ObjId
  | none
  | bool (b : Bool)
  /-- The shared one-character string of a Latin-1 character. -/
  | latin1 (c : ℕ)
  | made (n : ℕ)
  deriving DecidableEq

structure PyStr where
  id : ObjId
  text : PyUnicode

def CACHE_SLOTS : ℕ := 2048
def CACHE_MAX_KEY : ℕ := 64

/-- The slots of the key cache: the hash a key was stored under, and the key. -/
abbrev KeyCache := Fin CACHE_SLOTS → UInt64 × Option PyStr

structure World where
  /-- Whether request `k` to CPython succeeds. -/
  alloc : ℕ → Bool
  asked : ℕ
  made : ℕ
  /-- The interpreter's key cache; `none` for the null pointer. -/
  keys : Option KeyCache
  /-- References taken and given back, latest first. -/
  acquired : List ObjId
  released : List ObjId
  /-- The tape indices read so far, in order. -/
  reads : List ℕ

/-- The Python error lives in the thread state. -/
structure PendingPyErr

abbrev Build := Run World PendingPyErr

def incref (o : ObjId) : Build Unit := Run.modify fun w => { w with acquired := o :: w.acquired }

def decref (o : ObjId) : Build Unit := Run.modify fun w => { w with released := o :: w.released }

/-- A request to CPython that succeeds or raises. -/
def request : Build Unit := fun w =>
  if w.alloc w.asked then .ok () { w with asked := w.asked + 1 }
  else .error ⟨⟩ { w with asked := w.asked + 1 }

/-- `new_ref` of a call that makes an object: its owned reference. -/
def newObject : Build ObjId := do
  request
  let w ← Run.get
  Run.modify fun w => { w with made := w.made + 1 }
  incref (.made w.made)
  pure (.made w.made)

/-! ## `make_str` -/

/-- The kind `PyUnicode_New` picks. -/
def kindOf (maxchar : ℕ) : UInt32 := if maxchar < 0x100 then 1 else if maxchar < 0x10000 then 2 else 4

def stateOf (maxchar : ℕ) : UInt32 :=
  COMPACT ||| (kindOf maxchar <<< KIND_SHIFT) ||| if maxchar < 0x80 then ASCII else 0

/-- `PyUnicode_New`: a string of `n` characters with its data still to be written. -/
def unicodeNew (n maxchar : ℕ) : Build PyStr := do
  let id ← newObject
  pure ⟨id, ⟨n, stateOf maxchar, none, List.replicate (n * (kindOf maxchar).toNat) 0⟩⟩

/-- `PyUnicode_FromOrdinal`: the shared string of a Latin-1 character, else a new one. -/
def unicodeFromOrdinal (c : ℕ) : Build PyStr := do
  if c < 0x100 then
    request
    incref (.latin1 c)
    pure ⟨.latin1 c, ⟨1, stateOf c, none, leBytes 1 c⟩⟩
  else
    let o ← unicodeNew 1 c
    pure { o with text := { o.text with data := leBytes (kindOf c).toNat c } }

def newAscii (b : Bytes) : Build PyStr := do
  let o ← unicodeNew b.length 127
  if b.length ≤ o.text.data.length then
    pure { o with text := { o.text with data := Bytes.store o.text.data 0 b } }
  else Run.fault

/-- The writes `dst.add(i).write(narrow(c))` of units of `size` bytes. -/
def writeUnits (size : ℕ) (data : Bytes) (i : ℕ) : List ℕ → Option Bytes
  | [] => some data
  | c :: cs =>
      if i * size + size ≤ data.length then
        writeUnits size (Bytes.store data (i * size) (leBytes size c)) (i + 1) cs
      else none

/-- `new_of_kind` for units of `size` bytes; storing the low bytes is the narrowing cast. -/
def newOfKind (size : ℕ) (s : Bytes) (chars maxchar : ℕ) : Build PyStr := do
  let o ← unicodeNew chars maxchar
  let data ← Run.unchecked (writeUnits size o.text.data 0 (Utf8.chars s))
  pure { o with text := { o.text with data := data } }

def newNonAscii (s : Bytes) : Build PyStr := do
  let chars := s.countP Utf8.isLead
  let highest := s.foldl max 0
  match (if chars = 1 ∧ highest < 0xC4 then (Utf8.chars s).head? else none) with
  | some c => unicodeFromOrdinal c
  | none =>
      if 0xF0 ≤ highest then newOfKind 4 s chars 0x10FFFF
      else if 0xC4 ≤ highest then newOfKind 2 s chars 0xFFFF
      else newOfKind 1 s chars 0xFF

def makeStr (s : Bytes) : Build PyStr := if isAscii s then newAscii s else newNonAscii s

/-! ## `KeyCache` -/

namespace KeyCache

def rotateLeft5 (h : UInt64) : UInt64 := (h <<< 5) ||| (h >>> 59)

def mix (h w : UInt64) : UInt64 := (rotateLeft5 h ^^^ w) * 0x517cc1b727220a95

def hashFrom (b : Bytes) (h : UInt64) (i : ℕ) : Option UInt64 :=
  if i + 8 ≤ b.length then do hashFrom b (mix h (← load b i)) (i + 8)
  else
    let tail := b.drop i ++ List.replicate (8 - (b.length - i)) 0
    some (mix h (UInt64.ofNat (wordOf tail)))
termination_by b.length - i

def hash (b : Bytes) : Option UInt64 := hashFrom b (UInt64.ofNat b.length) 0

/-- The slot of a hash. -/
def index (h : UInt64) : Fin CACHE_SLOTS :=
  ⟨(h &&& 2047).toNat, by
    rw [UInt64.toNat_and]
    exact Nat.lt_succ_of_le Nat.and_le_right⟩

/-- The cached key of a slot, if it was stored under the hash and its bytes are `b`. -/
def hit (slot : UInt64 × Option PyStr) (h : UInt64) (b : Bytes) : Option PyStr :=
  slot.2.filter fun o =>
    decide (slot.1 = h ∧ o.text.length = b.length ∧ o.text.data.take o.text.length = b)

/-- A new key, stored in the place of what its slot held. -/
def replace (slots : KeyCache) (h : UInt64) (b : Bytes) : Build PyStr := do
  let o ← newAscii b
  incref o.id -- one for the cache, one for the caller
  match (slots (index h)).2 with
  | some old => decref old.id
  | none => pure ()
  Run.modify fun w => { w with keys := some (Function.update slots (index h) (h, some o)) }
  pure o

/-- `KeyCache::get` on the interpreter's cache. -/
def get (b : Bytes) : Build PyStr := do
  let h ← Run.unchecked (hash b)
  let w ← Run.get
  let slots ← Run.unchecked w.keys
  match hit (slots (index h)) h b with
  | some o =>
      incref o.id
      pure o
  | none => replace slots h b

end KeyCache

/-- The text of an object key: through the cache if it is short ASCII and there is a cache. -/
def keyStr (k : Bytes) : Build PyStr := do
  let w ← Run.get
  if k.length ≤ CACHE_MAX_KEY ∧ w.keys.isSome ∧ isAscii k then KeyCache.get k else makeStr k

/-! ## Canonical strings -/

/-- The `maxchar` that CPython's own strings of `s` are made for. -/
def maxcharOf (s : List ℕ) : ℕ :=
  if ∀ c ∈ s, c < 0x80 then 127
  else if ∀ c ∈ s, c < 0x100 then 0xFF
  else if ∀ c ∈ s, c < 0x10000 then 0xFFFF
  else 0x10FFFF

/-- CPython's own form of a string: the narrowest kind that holds its characters. -/
def canonical (s : List ℕ) : PyUnicode :=
  ⟨s.length, stateOf (maxcharOf s), none, s.flatMap (leBytes (kindOf (maxcharOf s)).toNat)⟩

lemma kindOf_narrow {s : List ℕ} (hs : ∀ c ∈ s, c < 0x110000) :
    ∀ c ∈ s, c < 256 ^ (kindOf (maxcharOf s)).toNat := by
  intro c hc
  have := hs c hc
  unfold maxcharOf
  split_ifs with h1 h2 h3
  · exact (h1 c hc).trans (by decide)
  · exact h2 c hc
  · exact h3 c hc
  · exact this.trans (by decide)

lemma kind_stateOf : ∀ m ∈ [127, 0xFF, 0xFFFF, 0x10FFFF],
    (stateOf m >>> KIND_SHIFT) &&& KIND_MASK = kindOf m := by decide

lemma maxcharOf_mem (s : List ℕ) : maxcharOf s ∈ [127, 0xFF, 0xFFFF, 0x10FFFF] := by
  unfold maxcharOf
  split_ifs <;> decide

lemma canonical_kind (s : List ℕ) : (canonical s).kind = kindOf (maxcharOf s) :=
  kind_stateOf _ (maxcharOf_mem s)

lemma kindOf_cases (m : ℕ) : kindOf m = 1 ∨ kindOf m = 2 ∨ kindOf m = 4 := by
  unfold kindOf
  split_ifs <;> simp

/-- The kind is the narrowest that holds the characters. -/
lemma fits_iff_kindOf_le {s : List ℕ} (hs : ∀ c ∈ s, c < 0x110000) {k : UInt32}
    (hk : k = 1 ∨ k = 2 ∨ k = 4) :
    (∀ c ∈ s, c < 256 ^ k.toNat) ↔ kindOf (maxcharOf s) ≤ k := by
  constructor
  · intro h
    unfold maxcharOf
    rcases hk with rfl | rfl | rfl
    · have h' : ∀ c ∈ s, c < 0x100 := h
      split_ifs <;> decide
    · have h' : ∀ c ∈ s, c < 0x10000 := h
      split_ifs <;> decide
    · split_ifs <;> decide
  · intro h c hc
    refine (kindOf_narrow hs c hc).trans_le (Nat.pow_le_pow_right (by decide) ?_)
    exact UInt32.le_iff_toNat_le.mp h

lemma maxcharOf_ascii {s : List ℕ} (hs : ∀ c ∈ s, c < 0x80) : maxcharOf s = 127 := if_pos hs

lemma ascii_maxcharOf (s : List ℕ) :
    (canonical s).state &&& ASCII ≠ 0 ↔ ∀ c ∈ s, c < 0x80 := by
  show stateOf (maxcharOf s) &&& ASCII ≠ 0 ↔ _
  by_cases h : ∀ c ∈ s, c < 0x80
  · rw [maxcharOf_ascii h]
    exact iff_of_true (by decide) h
  · refine iff_of_false ?_ h
    unfold maxcharOf
    rw [if_neg h]
    split_ifs <;> decide

lemma canonical_ascii {s : List ℕ} (hs : ∀ c ∈ s, c < 0x80) :
    canonical s = ⟨s.length, stateOf 127, none, Utf8.encodeAll s⟩ := by
  rw [canonical, maxcharOf_ascii hs, PyUnicode.encodeAll_of_ascii hs]
  rfl

lemma length_encodeAll_ascii {s : List ℕ} (hs : ∀ c ∈ s, c < 0x80) :
    (Utf8.encodeAll s).length = s.length := by
  rw [PyUnicode.encodeAll_of_ascii hs]
  simp

/-- Canonical strings are equal exactly when their characters are. -/
lemma canonical_inj {s s' : List ℕ} (hs : ∀ c ∈ s, c < 0x110000) (hs' : ∀ c ∈ s', c < 0x110000)
    (hlen : s.length = s'.length) (hkind : (canonical s).kind = (canonical s').kind)
    (hdata : (canonical s).data = (canonical s').data) : s = s' := by
  rw [canonical_kind, canonical_kind] at hkind
  simp only [canonical, hkind] at hdata
  have hread := readWords_flatMap (kindOf_narrow hs)
  have hread' := readWords_flatMap (kindOf_narrow hs')
  rw [hkind, hdata, hlen] at hread
  exact hread.symm.trans hread'

/-! ## The invariant -/

/-- Every occupied slot holds an ASCII string in canonical form. -/
def ValidCache (slots : KeyCache) : Prop :=
  ∀ ix o, (slots ix).2 = some o → ∃ s : List ℕ, (∀ c ∈ s, c < 0x80) ∧ o.text = canonical s

/-- A world with a valid cache, after the given reads of the tape; `al` answers its requests. -/
structure Ready (al : ℕ → Bool) (reads : List ℕ) (w : World) : Prop where
  alloc : w.alloc = al
  keys : ∀ slots ∈ w.keys, ValidCache slots
  reads_eq : w.reads = reads

/-- From a ready world the code returns, with a result that meets `P`, in a ready world, unless
a request failed. -/
def Gives (al : ℕ → Bool) {α : Type} (m : Build α) (reads reads' : List ℕ) (P : α → Prop) : Prop :=
  ∀ w, Ready al reads w →
    m.wp (fun _ => False) (fun a w' => P a ∧ Ready al reads' w') (fun _ _ => ∃ k, al k = false) w

variable {al : ℕ → Bool} {α β : Type} {r r' r'' : List ℕ}

lemma Gives.bind {m : Build α} {f : α → Build β} {P : α → Prop} {Q : β → Prop}
    (h : Gives al m r r' P) (hf : ∀ a, P a → Gives al (f a) r' r'' Q) : Gives al (m >>= f) r r'' Q := by
  intro w hw
  rw [Run.wp_bind]
  exact (h w hw).mono (fun a w' ⟨ha, hw'⟩ => hf a ha w' hw') (fun _ _ h => h) fun _ h => h

lemma Gives.pure {a : α} {P : α → Prop} (h : P a) : Gives al (pure a) r r P :=
  fun _ hw => ⟨h, hw⟩

lemma gives_incref (o : ObjId) : Gives al (incref o) r r fun _ => True :=
  fun _ hw => ⟨trivial, hw.alloc, hw.keys, hw.reads_eq⟩

lemma gives_decref (o : ObjId) : Gives al (decref o) r r fun _ => True :=
  fun _ hw => ⟨trivial, hw.alloc, hw.keys, hw.reads_eq⟩

/-- A request succeeds or raises as the allocator says. -/
lemma request_spec {C : World → Prop} {Q : Unit → World → Prop} {E : PendingPyErr → World → Prop}
    {w : World} (hok : Q () { w with asked := w.asked + 1 })
    (hfail : w.alloc w.asked = false → E ⟨⟩ { w with asked := w.asked + 1 }) :
    Run.wp C request Q E w := by
  unfold request Run.wp
  cases hk : w.alloc w.asked with
  | true =>
      simp only [hk, if_true]
      exact hok
  | false =>
      simp only [hk, Bool.false_eq_true, if_false]
      exact hfail hk

lemma gives_request : Gives al request r r fun _ => True :=
  fun w hw => request_spec ⟨trivial, hw.alloc, hw.keys, hw.reads_eq⟩ fun hk => ⟨w.asked, hw.alloc ▸ hk⟩

/-! ## Making an object -/

/-- The code took the references `refs`, and left the rest of the ledger, the cache and the tape
alone. -/
structure Took (refs : List ObjId) (w w' : World) : Prop where
  alloc : w'.alloc = w.alloc
  keys : w'.keys = w.keys
  reads_eq : w'.reads = w.reads
  acquired : w'.acquired = refs ++ w.acquired
  released : w'.released = w.released

/-- From every world, the code makes a result that meets `P` and owns one new reference, the one
that `ref` names; or a request fails, and it owns nothing. -/
def Makes (ref : α → ObjId) (m : Build α) (P : α → Prop) : Prop :=
  ∀ w, m.wp (fun _ => False) (fun a w' => P a ∧ Took [ref a] w w')
    (fun _ w' => Took [] w w' ∧ ∃ k, w.alloc k = false) w

variable {ref : α → ObjId}

lemma Makes.gives {m : Build α} {P : α → Prop} (h : Makes ref m P) : Gives al m r r P := by
  intro w hw
  refine (h w).mono ?_ ?_ fun _ h => h
  · rintro a w' ⟨ha, ht⟩
    exact ⟨ha, ht.alloc.trans hw.alloc, ht.keys ▸ hw.keys, ht.reads_eq.trans hw.reads_eq⟩
  · rintro _ w' ⟨-, k, hk⟩
    exact ⟨k, hw.alloc ▸ hk⟩

/-- What was made may be changed in place. -/
lemma Makes.bind_pure {m : Build α} {k : α → Build β} {ref' : β → ObjId} {P : α → Prop}
    {Q : β → Prop} (h : Makes ref m P)
    (hk : ∀ a, P a → ∃ b, k a = Pure.pure b ∧ Q b ∧ ref' b = ref a) : Makes ref' (m >>= k) Q := by
  intro w
  rw [Run.wp_bind]
  refine (h w).mono ?_ (fun _ _ h => h) fun _ h => h
  rintro a w' ⟨ha, ht⟩
  obtain ⟨b, hb, hq, hid⟩ := hk a ha
  rw [hb, Run.wp_pure, hid]
  exact ⟨hq, ht⟩

lemma Makes.mono {m : Build α} {P Q : α → Prop} (h : Makes ref m P) (hPQ : ∀ a, P a → Q a) :
    Makes ref m Q :=
  fun w => (h w).mono (fun _ _ ⟨ha, ht⟩ => ⟨hPQ _ ha, ht⟩) (fun _ _ h => h) fun _ h => h

lemma makes_newObject : Makes id newObject fun _ => True := by
  intro w
  unfold newObject
  rw [Run.wp_bind]
  exact request_spec ⟨trivial, rfl, rfl, rfl, rfl, rfl⟩
    fun hk => ⟨⟨rfl, rfl, rfl, rfl, rfl⟩, w.asked, hk⟩

lemma gives_newObject : Gives al newObject r r fun _ => True := makes_newObject.gives

lemma makes_unicodeNew (n maxchar : ℕ) : Makes PyStr.id (unicodeNew n maxchar) fun o => o.text =
    ⟨n, stateOf maxchar, none, List.replicate (n * (kindOf maxchar).toNat) 0⟩ :=
  makes_newObject.bind_pure fun _ _ => ⟨_, rfl, rfl, rfl⟩

lemma makes_newAscii {s : List ℕ} (hs : ∀ c ∈ s, c < 0x80) :
    Makes PyStr.id (newAscii (Utf8.encodeAll s)) fun o => o.text = canonical s := by
  refine (makes_unicodeNew _ _).bind_pure fun o ho => ?_
  have hlen := length_encodeAll_ascii hs
  have hdata : o.text.data.length = s.length := by
    rw [ho, ← hlen, List.length_replicate]
    exact Nat.mul_one _
  rw [if_pos (by omega)]
  refine ⟨_, rfl, ?_, rfl⟩
  have hstore : Bytes.store o.text.data 0 (Utf8.encodeAll s) = Utf8.encodeAll s := by
    rw [Bytes.store, List.take_zero, List.nil_append, List.drop_eq_nil_of_le (by omega),
      List.append_nil]
  rw [canonical_ascii hs, hstore, ho, hlen]

/-- Units written one after the other fill the data. -/
lemma writeUnits_eq {size : ℕ} (cs : List ℕ) (pre rest : Bytes) {i : ℕ} (hpre : pre.length = i * size)
    (hrest : rest.length = cs.length * size) :
    writeUnits size (pre ++ rest) i cs = some (pre ++ cs.flatMap (leBytes size)) := by
  induction cs generalizing pre rest i with
  | nil =>
      rw [List.length_nil, Nat.zero_mul] at hrest
      rw [writeUnits, List.length_eq_zero_iff.mp hrest]
      rfl
  | cons c cs ih =>
      rw [List.length_cons, Nat.succ_mul] at hrest
      have hstore : Bytes.store (pre ++ rest) (i * size) (leBytes size c) =
          (pre ++ leBytes size c) ++ rest.drop size := by
        rw [Bytes.store, length_leBytes, ← hpre, List.take_left, List.drop_append]
        simp
      rw [writeUnits, if_pos (by rw [List.length_append]; omega), hstore,
        ih _ _ (by rw [List.length_append, length_leBytes, hpre, Nat.succ_mul])
          (by rw [List.length_drop]; omega), List.flatMap_cons, List.append_assoc]

lemma makes_newOfKind {s : List ℕ} (hs : ∀ c ∈ s, Utf8.IsScalar c) {size maxchar : ℕ}
    (hsize : size = (kindOf maxchar).toNat) (hmax : maxcharOf s = maxchar) :
    Makes PyStr.id (newOfKind size (Utf8.encodeAll s) s.length maxchar) fun o =>
      o.text = canonical s := by
  refine (makes_unicodeNew _ _).bind_pure fun o ho => ?_
  have hw := @writeUnits_eq size s [] (List.replicate (s.length * size) 0) 0
    (by simp) (by simp)
  rw [List.nil_append, List.nil_append] at hw
  rw [Utf8.chars_encodeAll hs, ho, ← hsize, hw, Run.unchecked_some, pure_bind]
  refine ⟨_, rfl, ?_, rfl⟩
  simp only
  rw [canonical, hmax, ← hsize]

lemma le_foldl_max {k : UInt8} (l : Bytes) (a : UInt8) :
    k ≤ l.foldl max a ↔ k ≤ a ∨ ∃ b ∈ l, k ≤ b := by
  induction l generalizing a with
  | nil => simp
  | cons b l ih =>
      have hmax : k ≤ max a b ↔ k ≤ a ∨ k ≤ b := by
        show k ≤ (if a ≤ b then b else a) ↔ _
        simp only [UInt8.le_iff_toNat_le]
        split_ifs <;> omega
      rw [List.foldl_cons, ih, hmax, List.exists_mem_cons_iff, or_assoc]

/-- The highest byte tells which code points occur. -/
lemma le_highest_iff {s : List ℕ} (hs : ∀ c ∈ s, c < 0x110000) {k : UInt8} {m : ℕ}
    (h : (k = 0x80 ∧ m = 0x80) ∨ (k = 0xC4 ∧ m = 0x100) ∨ (k = 0xF0 ∧ m = 0x10000)) :
    k ≤ (Utf8.encodeAll s).foldl max 0 ↔ ∃ c ∈ s, m ≤ c := by
  have hk : ¬ k ≤ 0 := by rcases h with ⟨rfl, -⟩ | ⟨rfl, -⟩ | ⟨rfl, -⟩ <;> decide
  have hth := Utf8.exists_byte_ge_encodeAll_iff (k := k.toNat) (m := m) hs (by
    rcases h with ⟨rfl, rfl⟩ | ⟨rfl, rfl⟩ | ⟨rfl, rfl⟩ <;> decide)
  rw [le_foldl_max, ← hth]
  simp only [hk, false_or, UInt8.le_iff_toNat_le]

/-- A string of one character outside ASCII that Latin-1 holds is CPython's shared one. -/
def SharedLatin1 (s : List ℕ) (o : PyStr) : Prop :=
  ∀ c, s = [c] → 0x80 ≤ c → c < 0x100 → o.id = .latin1 c

lemma makes_newNonAscii {s : List ℕ} (hs : ∀ c ∈ s, Utf8.IsScalar c) (hhigh : ∃ c ∈ s, 0x80 ≤ c) :
    Makes PyStr.id (newNonAscii (Utf8.encodeAll s)) fun o =>
      o.text = canonical s ∧ SharedLatin1 s o := by
  have hlt : ∀ c ∈ s, c < 0x110000 := fun c hc => (hs c hc).1
  have hC4 := le_highest_iff hlt (k := 0xC4) (m := 0x100) (by decide)
  have hF0 := le_highest_iff hlt (k := 0xF0) (m := 0x10000) (by decide)
  have hnot : ∀ {k m : ℕ}, k ≤ m → (∃ c ∈ s, m ≤ c) → ¬ ∀ c ∈ s, c < k := by
    rintro k m hkm ⟨c, hc, hm⟩ h
    have := h c hc
    omega
  have hlt_of : ∀ {m : ℕ}, ¬ (∃ c ∈ s, m ≤ c) → ∀ c ∈ s, c < m := by
    intro m h c hc
    by_contra hm
    exact h ⟨c, hc, not_lt.mp hm⟩
  simp only [newNonAscii, Utf8.countP_isLead_encodeAll hlt, Utf8.chars_encodeAll hs]
  by_cases hone : s.length = 1 ∧ (Utf8.encodeAll s).foldl max 0 < 0xC4
  · obtain ⟨c, rfl⟩ := List.length_eq_one_iff.mp hone.1
    have hc : 0x80 ≤ c := by simpa using hhigh
    have hc' : c < 0x100 := by
      have := mt hC4.mpr (UInt8.not_le.mpr hone.2)
      simpa using this
    simp only [if_pos hone, List.head?_cons, unicodeFromOrdinal, if_pos hc']
    intro w
    rw [Run.wp_bind]
    refine request_spec ⟨⟨?_, ?_⟩, rfl, rfl, rfl, rfl, rfl⟩
      fun hk => ⟨⟨rfl, rfl, rfl, rfl, rfl⟩, w.asked, hk⟩
    · have hmax : maxcharOf [c] = 0xFF := by
        rw [maxcharOf, if_neg (by simpa using hc), if_pos (by simpa using hc')]
      have hstate : stateOf c = stateOf 0xFF := by
        unfold stateOf kindOf
        rw [if_pos hc', if_neg (by omega)]
        rfl
      simp only [canonical, hmax, hstate]
      rfl
    · rintro c' heq - -
      rw [List.singleton_inj.mp heq]
  · rw [if_neg hone]
    -- one character in Latin-1 has taken the other branch
    have hshared : ∀ o : PyStr, SharedLatin1 s o := by
      rintro o c rfl - hc
      refine absurd ⟨rfl, UInt8.not_le.mp (mt hC4.mp ?_)⟩ hone
      simpa using hc
    simp only
    split
    · next h =>
      have hex := hF0.mp h
      refine (makes_newOfKind hs rfl ?_).mono fun o ho => ⟨ho, hshared o⟩
      rw [maxcharOf, if_neg (hnot (by decide) hex), if_neg (hnot (by decide) hex),
        if_neg (hnot le_rfl hex)]
    · next h =>
      have hbmp := hlt_of (mt hF0.mpr h)
      split
      · next h' =>
        have hex := hC4.mp h'
        refine (makes_newOfKind hs rfl ?_).mono fun o ho => ⟨ho, hshared o⟩
        rw [maxcharOf, if_neg (hnot (by decide) hex), if_neg (hnot le_rfl hex), if_pos hbmp]
      · next h' =>
        have hlatin := hlt_of (mt hC4.mpr h')
        refine (makes_newOfKind hs rfl ?_).mono fun o ho => ⟨ho, hshared o⟩
        rw [maxcharOf, if_neg (hnot le_rfl hhigh), if_pos hlatin]

lemma isAscii_encodeAll_iff {s : List ℕ} (hs : ∀ c ∈ s, c < 0x110000) :
    isAscii (Utf8.encodeAll s) = true ↔ ∀ c ∈ s, c < 0x80 := by
  have h := Utf8.exists_byte_ge_encodeAll_iff (k := 0x80) (m := 0x80) hs (by decide)
  rw [isAscii_iff]
  constructor
  · intro hb c hc
    by_contra hge
    obtain ⟨b, hb', hge'⟩ := h.mpr ⟨c, hc, not_lt.mp hge⟩
    exact absurd (hb b hb') (not_lt.mpr hge')
  · intro hc b hb
    by_contra hge
    obtain ⟨c, hc', hge'⟩ := h.mp ⟨b, hb, not_lt.mp hge⟩
    exact absurd (hc c hc') (not_lt.mpr hge')

/-- **`make_str`** makes CPython's own form of the text. -/
lemma makes_makeStr {s : List ℕ} (hs : ∀ c ∈ s, Utf8.IsScalar c) :
    Makes PyStr.id (makeStr (Utf8.encodeAll s)) fun o => o.text = canonical s ∧ SharedLatin1 s o := by
  have hascii := isAscii_encodeAll_iff fun c hc => (hs c hc).1
  rw [makeStr]
  split
  · next h =>
    refine (makes_newAscii (hascii.mp h)).mono fun o ho => ⟨ho, ?_⟩
    rintro c rfl hc -
    exact absurd (hascii.mp h c (List.mem_singleton_self c)) (not_lt.mpr hc)
  · next h =>
    refine makes_newNonAscii hs ?_
    by_contra hno
    exact h (hascii.mpr fun c hc => by
      by_contra hge
      exact hno ⟨c, hc, not_lt.mp hge⟩)

lemma gives_makeStr {s : List ℕ} (hs : ∀ c ∈ s, Utf8.IsScalar c) :
    Gives al (makeStr (Utf8.encodeAll s)) r r fun o => o.text = canonical s :=
  ((makes_makeStr hs).mono fun _ h => h.1).gives

/-- **`make_str` builds CPython's canonical string.**  For every valid UTF-8 text and in every
state of the interpreter, unless a request fails, the new string has as many characters as the
text and the kind of the highest one, the narrowest that holds them all; it is marked ASCII when
all of them are; its data are exactly the characters, none cut by the narrowing; and one character
of the upper half of Latin-1 is the shared string.  `is_ascii` is the test of every byte. -/
theorem makeStr_canonical (t : Bytes) (ht : Utf8.WellFormed t) (w : World) :
    (makeStr t).wp (fun _ => False)
      (fun o _ => o.text.length = (Utf8.chars t).length ∧
        (o.text.state &&& ASCII ≠ 0 ↔ ∀ c ∈ Utf8.chars t, c < 0x80) ∧
        (o.text.kind = 1 ∨ o.text.kind = 2 ∨ o.text.kind = 4) ∧
        (∀ k : UInt32, k = 1 ∨ k = 2 ∨ k = 4 →
          ((∀ c ∈ Utf8.chars t, c < 256 ^ k.toNat) ↔ o.text.kind ≤ k)) ∧
        o.text.data.length = (Utf8.chars t).length * o.text.kind.toNat ∧
        readWords o.text.kind.toNat (Utf8.chars t).length o.text.data = Utf8.chars t ∧
        ∀ c, Utf8.chars t = [c] → 0x80 ≤ c → c ≤ 0xFF → o.id = .latin1 c)
      (fun _ _ => ∃ k, w.alloc k = false) w ∧
    ∀ b : Bytes, isAscii b = true ↔ ∀ x ∈ b, x.toNat < 0x80 := by
  refine ⟨?_, fun b => isAscii_iff⟩
  obtain ⟨s, hs, rfl⟩ := ht
  rw [Utf8.chars_encodeAll hs]
  refine (makes_makeStr hs w).mono ?_ (fun _ _ h => h.2) fun _ h => h
  rintro o w' ⟨⟨ho, hshared⟩, -⟩
  have hlt : ∀ c ∈ s, c < 0x110000 := fun c hc => (hs c hc).1
  rw [ho, canonical_kind]
  refine ⟨rfl, ascii_maxcharOf s, kindOf_cases _, fun k hk => fits_iff_kindOf_le hlt hk, ?_,
    readWords_flatMap (kindOf_narrow hlt), fun c hc hlo hhi => hshared c hc hlo (by omega)⟩
  simp [canonical, List.length_flatMap]

/-- An accented letter and a letter of another plane need four bytes a character. -/
theorem makeStr_canonical_wide :
    (makeStr (Utf8.encodeAll [0xE9, 0x10000])).wp (fun _ => False)
      (fun o _ => o.text.kind = 4 ∧ readWords 4 2 o.text.data = [0xE9, 0x10000])
      (fun _ _ => False) ⟨fun _ => true, 0, 0, none, [], [], []⟩ := by
  have hs : ∀ c ∈ [0xE9, 0x10000], Utf8.IsScalar c := by decide
  refine (makeStr_canonical _ ⟨_, hs, rfl⟩ ⟨fun _ => true, 0, 0, none, [], [], []⟩).1.mono ?_
    (fun _ _ ⟨_, h⟩ => by simp at h) fun _ h => h
  rw [Utf8.chars_encodeAll hs]
  rintro o - ⟨-, -, hkind, hnarrow, -, hread, -⟩
  have hwide : o.text.kind = 4 := by
    have h1 := (hnarrow 1 (by decide)).not.mp (by decide)
    have h2 := (hnarrow 2 (by decide)).not.mp (by decide)
    rcases hkind with h | h | h
    · exact absurd (h ▸ UInt32.le_refl _) h1
    · exact absurd (h ▸ UInt32.le_refl _) h2
    · exact h
  rw [hwide] at hread
  exact ⟨hwide, hread⟩

/-! ## The key cache -/

lemma hashFrom_isSome (b : Bytes) (h : UInt64) (i : ℕ) : ∃ x, KeyCache.hashFrom b h i = some x := by
  induction hk : b.length - i using Nat.strong_induction_on generalizing h i with
  | _ k ih =>
      rw [KeyCache.hashFrom]
      split
      · next hle =>
        simp only [load, if_pos hle, Option.bind_eq_bind, Option.bind_some]
        exact ih _ (by omega) _ _ rfl
      · exact ⟨_, rfl⟩

lemma ValidCache.update {slots : KeyCache} (h : ValidCache slots) (ix : Fin CACHE_SLOTS) (x : UInt64)
    {o : PyStr} {s : List ℕ} (hs : ∀ c ∈ s, c < 0x80) (ho : o.text = canonical s) :
    ValidCache (Function.update slots ix (x, some o)) := by
  intro ix' o' ho'
  by_cases he : ix' = ix
  · subst he
    rw [Function.update_self] at ho'
    obtain rfl := Option.some.inj ho'
    exact ⟨s, hs, ho⟩
  · rw [Function.update_of_ne he] at ho'
    exact h ix' o' ho'

/-- A hit is the key itself: the bytes are compared, so the hash does not matter. -/
lemma hit_spec {slots : KeyCache} (hv : ValidCache slots) {ix : Fin CACHE_SLOTS} {h : UInt64}
    {s : List ℕ} (hs : ∀ c ∈ s, c < 0x80) {o : PyStr}
    (hhit : KeyCache.hit (slots ix) h (Utf8.encodeAll s) = some o) : o.text = canonical s := by
  obtain ⟨hslot, hcond⟩ := Option.filter_eq_some_iff.mp hhit
  obtain ⟨-, -, hdata⟩ := of_decide_eq_true hcond
  obtain ⟨s', hs', ho⟩ := hv ix o hslot
  have hscalar : ∀ {x : List ℕ}, (∀ c ∈ x, c < 0x80) → ∀ c ∈ x, Utf8.IsScalar c := by
    intro x hx c hc
    have := hx c hc
    exact ⟨by omega, fun h => by have := h.1; omega⟩
  rw [ho, canonical_ascii hs', List.take_of_length_le (length_encodeAll_ascii hs').le] at hdata
  have hss : s' = s := by
    rw [← Utf8.chars_encodeAll (hscalar hs'), hdata, Utf8.chars_encodeAll (hscalar hs)]
  rw [ho, hss]

lemma gives_replace {slots : KeyCache} (hv : ValidCache slots) (h : UInt64) {s : List ℕ}
    (hs : ∀ c ∈ s, c < 0x80) : Gives al (KeyCache.replace slots h (Utf8.encodeAll s)) r r fun o =>
      o.text = canonical s := by
  refine (makes_newAscii hs).gives.bind fun o ho => (gives_incref _).bind fun _ _ => ?_
  have hset : Gives al (do
      Run.modify fun w =>
        { w with keys := some (Function.update slots (KeyCache.index h) (h, some o)) }
      pure o : Build PyStr) r r fun o => o.text = canonical s := by
    intro w hw
    refine ⟨ho, hw.alloc, fun slots' hs' => ?_, hw.reads_eq⟩
    obtain rfl := Option.some.inj hs'
    exact hv.update _ _ hs ho
  split
  · exact (gives_decref _).bind fun _ _ => hset
  · exact hset

/-- **`KeyCache::get`** returns the key's own string, whatever the slot held and whatever
hashes coincide, and keeps the cache valid. -/
lemma gives_get {s : List ℕ} (hs : ∀ c ∈ s, c < 0x80) {w : World} (hw : Ready al r w)
    {slots : KeyCache} (hslots : w.keys = some slots) :
    (KeyCache.get (Utf8.encodeAll s)).wp (fun _ => False) (fun o w' => o.text = canonical s ∧ Ready al r w')
      (fun _ _ => ∃ k, al k = false) w := by
  obtain ⟨x, hx⟩ := hashFrom_isSome (Utf8.encodeAll s) (UInt64.ofNat (Utf8.encodeAll s).length) 0
  have hvalid := hw.keys slots hslots
  simp only [KeyCache.get, KeyCache.hash, Run.wp_bind, Run.wp_get, Run.wp_unchecked hx,
    Run.wp_unchecked hslots]
  split
  · next o ho =>
    rw [Run.wp_bind]
    exact ⟨hit_spec hvalid hs ho, hw.alloc, hw.keys, hw.reads_eq⟩
  · exact gives_replace hvalid x hs w hw

/-- **An object key** is the same string through the cache and without it. -/
lemma gives_keyStr {s : List ℕ} (hs : ∀ c ∈ s, Utf8.IsScalar c) :
    Gives al (keyStr (Utf8.encodeAll s)) r r fun o => o.text = canonical s := by
  intro w hw
  simp only [keyStr, Run.wp_bind, Run.wp_get]
  split
  · next h =>
    obtain ⟨slots, hslots⟩ := Option.isSome_iff_exists.mp h.2.1
    exact gives_get ((isAscii_encodeAll_iff fun c hc => (hs c hc).1).mp h.2.2) hw hslots
  · exact gives_makeStr hs w hw

end Isojson.Decode
