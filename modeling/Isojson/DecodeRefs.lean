import Isojson.DecodeBuild

/-!
# Who owns the references that `build` takes

Every reference that `build` takes is, at any time, held by the call (a value in hand, the
containers on the stack with what is inserted into them, a key that awaits its value), kept by a
slot of the key cache, or given back.  `Moves` states this for the time between two worlds, and
`Custody` for a piece of code: what it holds before, after a return and after an error.

The tape is arbitrary here: code that it takes beyond its end, or to a key that is no string, is
cut off, and the tape of a tree never does that.
-/

namespace Isojson.Decode

/-! ## The balance -/

/-- How many slots of the key cache hold an object. -/
def cacheCount (keys : Option KeyCache) (o : ObjId) : ℕ :=
  match keys with
  | none => 0
  | some slots => ∑ ix, if (slots ix).2.map PyStr.id = some o then 1 else 0

/-- Between two worlds, references were taken and given back such that the call, which held
`held`, now holds `held'`. -/
def Moves (held held' : List ObjId) (w w' : World) : Prop :=
  ∃ taken gone, w'.acquired = taken ++ w.acquired ∧ w'.released = gone ++ w.released ∧
    ∀ o, taken.count o + cacheCount w.keys o + held.count o =
      gone.count o + cacheCount w'.keys o + held'.count o

def World.Valid (w : World) : Prop := ∀ slots ∈ w.keys, ValidCache slots

lemma Moves.refl {held held' : List ObjId} (h : ∀ o, held.count o = held'.count o) (w : World) :
    Moves held held' w w :=
  ⟨[], [], rfl, rfl, fun o => by rw [h o]⟩

lemma Moves.trans {x y z : List ObjId} {w w1 w2 : World} (h : Moves x y w w1)
    (h' : Moves y z w1 w2) : Moves x z w w2 := by
  obtain ⟨taken, gone, ha, hr, hc⟩ := h
  obtain ⟨taken', gone', ha', hr', hc'⟩ := h'
  refine ⟨taken' ++ taken, gone' ++ gone, by rw [ha', ha, List.append_assoc],
    by rw [hr', hr, List.append_assoc], fun o => ?_⟩
  have h1 := hc o
  have h2 := hc' o
  simp only [List.count_append]
  omega

lemma moves_acquire (refs held : List ObjId) (w : World) :
    Moves held (refs ++ held) w (acquire refs w) :=
  ⟨refs, [], rfl, rfl, fun o => by
    simp only [acquire, List.count_append, List.count_nil]
    omega⟩

lemma moves_release (refs held : List ObjId) (w : World) :
    Moves (refs ++ held) held w (release refs w) :=
  ⟨[], refs, rfl, rfl, fun o => by
    simp only [release, List.count_append, List.count_nil]
    omega⟩

/-- Code that holds `held` to begin with, and if it returns `a`, then `ok a`, which meets `P`; if
it raises, `err`.  It keeps the cache valid. -/
def Custody {α : Type} (m : Build α) (held : List ObjId) (ok : α → List ObjId) (P : α → Prop)
    (err : List ObjId) : Prop :=
  ∀ w, w.Valid → m.wp (fun _ => True)
    (fun a w' => (Moves held (ok a) w w' ∧ P a) ∧ w'.Valid)
    (fun _ w' => Moves held err w w' ∧ w'.Valid) w

variable {α β : Type} {held err : List ObjId}

lemma Custody.pure {a : α} {ok : α → List ObjId} {P : α → Prop} (ha : P a)
    (h : ∀ o, held.count o = (ok a).count o) : Custody (Pure.pure a) held ok P err :=
  fun w hw => ⟨⟨.refl h w, ha⟩, hw⟩

lemma Custody.fault {ok : α → List ObjId} {P : α → Prop} :
    Custody (Run.fault : Build α) held ok P err := fun _ _ => trivial

lemma Custody.bind {m : Build α} {f : α → Build β} {mid : α → List ObjId} {ok : β → List ObjId}
    {P : α → Prop} {Q : β → Prop} (hm : Custody m held mid P err)
    (hf : ∀ a, P a → Custody (f a) (mid a) ok Q err) : Custody (m >>= f) held ok Q err := by
  intro w hw
  rw [Run.wp_bind]
  refine (hm w hw).mono ?_ (fun _ _ h => h) fun _ h => h
  rintro a w1 ⟨⟨hmv, ha⟩, hw1⟩
  refine (hf a ha w1 hw1).mono ?_ ?_ fun _ h => h
  · rintro b w2 ⟨⟨hmv', hb⟩, hw2⟩
    exact ⟨⟨hmv.trans hmv', hb⟩, hw2⟩
  · rintro _ w2 ⟨hmv', hw2⟩
    exact ⟨hmv.trans hmv', hw2⟩

/-- What is held may be listed in another order. -/
lemma Custody.regroup {m : Build α} {ok ok' : α → List ObjId} {P Q : α → Prop} {held' : List ObjId}
    (hm : Custody m held ok P err) (hheld : ∀ o, held'.count o = held.count o)
    (hok : ∀ a, P a → Q a ∧ ∀ o, (ok a).count o = (ok' a).count o) : Custody m held' ok' Q err := by
  intro w hw
  refine (hm w hw).mono ?_ ?_ fun _ h => h
  · rintro a w' ⟨⟨hmv, ha⟩, hw'⟩
    obtain ⟨hq, hcount⟩ := hok a ha
    exact ⟨⟨((Moves.refl hheld w).trans hmv).trans (.refl hcount w'), hq⟩, hw'⟩
  · rintro _ w' ⟨hmv, hw'⟩
    exact ⟨(Moves.refl hheld w).trans hmv, hw'⟩

/-- A cleanup that gives back all that an error leaves in hand. -/
lemma Custody.onError {m : Build α} {ok : α → List ObjId} {P : α → Prop} {f : World → World}
    {err' : List ObjId} (hm : Custody m held ok P err)
    (hf : ∀ w, Moves err err' w (f w)) (hkeys : ∀ w, (f w).keys = w.keys) :
    Custody (m.onError f) held ok P err' := by
  intro w hw
  rw [Run.wp_onError]
  refine (hm w hw).mono (fun _ _ h => h) ?_ fun _ h => h
  rintro _ w' ⟨hmv, hw'⟩
  refine ⟨hmv.trans (hf w'), ?_⟩
  rw [World.Valid, hkeys]
  exact hw'

/-- A step of the ledger alone. -/
lemma custody_modify {f : World → World} {held' : List ObjId} (hf : ∀ w, Moves held held' w (f w))
    (hkeys : ∀ w, (f w).keys = w.keys) :
    Custody (Run.modify f) held (fun _ => held') (fun _ => True) err := by
  intro w hw
  refine ⟨⟨hf w, trivial⟩, ?_⟩
  rw [World.Valid, hkeys]
  exact hw

lemma custody_incref (o : ObjId) :
    Custody (incref o) held (fun _ => o :: held) (fun _ => True) err :=
  custody_modify (fun w => moves_acquire [o] held w) fun _ => rfl

lemma custody_request : Custody request held (fun _ => held) (fun _ => True) held :=
  fun _ hw => request_spec ⟨⟨.refl (fun _ => rfl) _, trivial⟩, hw⟩
    fun _ => ⟨.refl (fun _ => rfl) _, hw⟩

/-- A lookup that may be a fault. -/
lemma custody_unchecked : ∀ x : Option α,
    Custody (Run.unchecked x) held (fun _ => held) (fun _ => True) err
  | some _ => .pure trivial fun _ => rfl
  | none => .fault

/-! ## Strings -/

lemma custody_newObject :
    Custody newObject held (fun id => id :: held) (fun _ => True) held := by
  refine custody_request.bind fun _ _ _ hw => ?_
  exact ⟨⟨moves_acquire [_] held _, trivial⟩, hw⟩

lemma custody_unicodeNew (n maxchar : ℕ) :
    Custody (unicodeNew n maxchar) held (fun o => o.id :: held) (fun _ => True) held :=
  custody_newObject.bind fun _ _ => .pure trivial fun _ => rfl

lemma custody_newAscii (b : Bytes) :
    Custody (newAscii b) held (fun o => o.id :: held) (fun _ => True) held := by
  refine (custody_unicodeNew _ _).bind fun o _ => ?_
  split
  · exact .pure trivial fun _ => rfl
  · exact .fault

lemma custody_newOfKind (size : ℕ) (s : Bytes) (chars maxchar : ℕ) :
    Custody (newOfKind size s chars maxchar) held (fun o => o.id :: held) (fun _ => True) held :=
  (custody_unicodeNew _ _).bind fun _ _ => (custody_unchecked _).bind fun _ _ =>
    .pure trivial fun _ => rfl

lemma custody_unicodeFromOrdinal (c : ℕ) :
    Custody (unicodeFromOrdinal c) held (fun o => o.id :: held) (fun _ => True) held := by
  unfold unicodeFromOrdinal
  split
  · exact custody_request.bind fun _ _ => (custody_incref _).bind fun _ _ =>
      .pure trivial fun _ => rfl
  · exact (custody_unicodeNew _ _).bind fun _ _ => .pure trivial fun _ => rfl

lemma custody_makeStr (s : Bytes) :
    Custody (makeStr s) held (fun o => o.id :: held) (fun _ => True) held := by
  unfold makeStr
  split
  · exact custody_newAscii s
  · unfold newNonAscii
    dsimp only
    split
    · exact custody_unicodeFromOrdinal _
    · split
      · exact custody_newOfKind _ _ _ _
      · split
        · exact custody_newOfKind _ _ _ _
        · exact custody_newOfKind _ _ _ _

/-! ## The key cache -/

/-- One slot is replaced. -/
lemma cacheCount_update (slots : KeyCache) (ix : Fin CACHE_SLOTS) (h : UInt64) (key : PyStr)
    (o : ObjId) :
    cacheCount (some (Function.update slots ix (h, some key))) o +
        ((slots ix).2.map PyStr.id).toList.count o =
      cacheCount (some slots) o + [key.id].count o := by
  have hrest : ∀ x ∈ Finset.univ.erase ix,
      (if (Function.update slots ix (h, some key) x).2.map PyStr.id = some o then 1 else 0) =
        if (slots x).2.map PyStr.id = some o then 1 else 0 := by
    intro x hx
    rw [Function.update_of_ne (Finset.ne_of_mem_erase hx)]
  have hold : ((slots ix).2.map PyStr.id).toList.count o =
      if (slots ix).2.map PyStr.id = some o then 1 else 0 := by
    cases (slots ix).2.map PyStr.id with
    | none => rfl
    | some id => simp [List.count_singleton]
  have hnew : [key.id].count o = if some key.id = some o then 1 else 0 := by
    simp [List.count_singleton]
  simp only [cacheCount]
  rw [← Finset.add_sum_erase _ _ (Finset.mem_univ ix), ← Finset.add_sum_erase _ _ (Finset.mem_univ ix),
    Finset.sum_congr rfl hrest, hold, hnew, Function.update_self, Option.map_some]
  omega

/-- An ASCII text is the encoding of its characters. -/
lemma exists_encodeAll_of_isAscii {b : Bytes} (h : isAscii b = true) :
    ∃ s : List ℕ, (∀ c ∈ s, c < 0x80) ∧ b = Utf8.encodeAll s := by
  have hb := isAscii_iff.mp h
  have hs : ∀ c ∈ b.map UInt8.toNat, c < 0x80 := by
    intro c hc
    obtain ⟨x, hx, rfl⟩ := List.mem_map.mp hc
    exact hb x hx
  refine ⟨b.map UInt8.toNat, hs, ?_⟩
  rw [PyUnicode.encodeAll_of_ascii hs, List.flatMap_map]
  simp [Words.leBytes]

/-- A new key goes to the caller and into its slot, whose old key is given back. -/
lemma custody_replace {slots : KeyCache} {h : UInt64} {b : Bytes} (hb : isAscii b = true) {w : World}
    (hw : w.Valid) (hslots : w.keys = some slots) :
    (KeyCache.replace slots h b).wp (fun _ => True)
      (fun o w' => (Moves held (o.id :: held) w w' ∧ True) ∧ w'.Valid)
      (fun _ w' => Moves held held w w' ∧ w'.Valid) w := by
  obtain ⟨s, hs, rfl⟩ := exists_encodeAll_of_isAscii hb
  have hvalid : ValidCache slots := hw slots hslots
  unfold KeyCache.replace
  rw [Run.wp_bind]
  refine (makes_newAscii hs w).mono ?_ ?_ fun _ _ => trivial
  · rintro key w1 ⟨hkey, ht⟩
    have hcount := cacheCount_update slots (KeyCache.index h) h key
    have hnew : ∀ w2 : World, { w2 with
        keys := some (Function.update slots (KeyCache.index h) (h, some key)) }.Valid := by
      rintro w2 slots' hslots'
      obtain rfl := Option.some.inj hslots'
      exact hvalid.update _ _ hs hkey
    have hkeys : w1.keys = some slots := ht.keys.trans hslots
    split
    · next old hold =>
      refine ⟨⟨⟨[key.id, key.id], [old.id], ?_, ?_, fun o => ?_⟩, trivial⟩, hnew _⟩
      · simp [ht.acquired]
      · simp [ht.released]
      · have := hcount o
        rw [hold] at this
        simp only [hslots, Option.map_some, Option.toList_some, List.count_cons, List.count_nil]
          at this ⊢
        omega
    · next hold =>
      refine ⟨⟨⟨[key.id, key.id], [], ?_, ?_, fun o => ?_⟩, trivial⟩, hnew _⟩
      · simp [ht.acquired]
      · simp [ht.released]
      · have := hcount o
        rw [hold] at this
        simp only [hslots, Option.map_none, Option.toList_none, List.count_cons, List.count_nil]
          at this ⊢
        omega
  · rintro _ w1 ⟨ht, -⟩
    refine ⟨⟨[], [], ht.acquired, ht.released, fun o => by rw [ht.keys]⟩, ?_⟩
    rw [World.Valid, ht.keys]
    exact hw

lemma custody_get {b : Bytes} (hb : isAscii b = true) :
    Custody (KeyCache.get b) held (fun o => o.id :: held) (fun _ => True) held := by
  refine (custody_unchecked _).bind fun h _ w hw => ?_
  rw [Run.wp_bind, Run.wp_get]
  cases hslots : w.keys with
  | none => trivial
  | some slots =>
      rw [Run.unchecked_some, pure_bind]
      split
      · next key _ =>
        have hhit : Custody (incref key.id >>= fun _ => Pure.pure key) held
            (fun o => o.id :: held) (fun _ => True) held :=
          (custody_incref _).bind fun _ _ => .pure trivial fun _ => rfl
        exact hhit w hw
      · exact custody_replace hb hw hslots

lemma custody_keyStr (k : Bytes) :
    Custody (keyStr k) held (fun o => o.id :: held) (fun _ => True) held := by
  intro w hw
  unfold keyStr
  rw [Run.wp_bind, Run.wp_get]
  split
  · next h => exact custody_get h.2.2 w hw
  · exact custody_makeStr k w hw

/-! ## Containers -/

/-- What a container being filled owns: itself with its items, and a key that awaits its value. -/
def PartialContainer.refs (c : PartialContainer) : List ObjId :=
  (c.key.map PyStr.id).toList ++ c.obj.refs

/-- The slots of a list from the next one on are not filled, and no key awaits a value in it. -/
structure PartialContainer.Unfilled (c : PartialContainer) : Prop where
  null : ∀ id slots, c.obj = .list id slots → ∀ j v, c.filled ≤ j → slots[j]? = some v → v = .null
  key : c.isList = true → c.key = none

/-- What the containers on the stack own. -/
def stackRefs (stack : List PartialContainer) : List ObjId := stack.flatMap PartialContainer.refs

def Unfilled (stack : List PartialContainer) : Prop := ∀ c ∈ stack, c.Unfilled

lemma keys_dropStack (stack : List PartialContainer) (w : World) :
    (dropStack stack w).keys = w.keys := by
  induction stack generalizing w with
  | nil => rfl
  | cons c stack ih => exact ih _

/-- `PartialContainers::drop` gives back everything that the stack owns. -/
lemma moves_dropStack (stack : List PartialContainer) (w : World) :
    Moves (stackRefs stack) [] w (dropStack stack w) := by
  induction stack generalizing w with
  | nil => exact .refl (fun _ => rfl) w
  | cons c stack ih => exact (moves_release c.refs (stackRefs stack) w).trans (ih _)

lemma custody_readNode (nodes : List Node) (i : ℕ) :
    Custody (readNode nodes i) held (fun _ => held) (fun _ => True) err := by
  refine (custody_unchecked _).bind fun n _ => ?_
  have hread : Custody (Run.modify fun w => { w with reads := w.reads ++ [i] }) held
      (fun _ => held) (fun _ => True) err :=
    custody_modify (fun _ => ⟨[], [], rfl, rfl, fun _ => rfl⟩) fun _ => rfl
  exact hread.bind fun _ _ => .pure trivial fun _ => rfl

lemma custody_nextKey (nodes : List Node) {stack : List PartialContainer} (hs : Unfilled stack)
    (i : ℕ) : Custody (nextKey nodes stack i) (stackRefs stack) (fun p => stackRefs p.1)
      (fun p => Unfilled p.1) [] := by
  cases stack with
  | nil => exact .pure hs fun _ => rfl
  | cons top rest =>
      unfold nextKey
      dsimp only
      split
      · next hkey =>
        refine (custody_readNode nodes i).bind fun n _ => ?_
        cases n with
        | string k =>
            refine ((custody_keyStr k).onError (moves_dropStack _) (keys_dropStack _)).bind
              fun key _ => ?_
            obtain ⟨htop, hrest⟩ := List.forall_mem_cons.mp hs
            rw [Bool.and_eq_true, Bool.not_eq_true', Option.isNone_iff_eq_none] at hkey
            have hlist : ¬ top.isList = true := by
              rw [hkey.1]
              exact Bool.false_ne_true
            refine .pure (List.forall_mem_cons.mpr
              ⟨⟨htop.null, fun h => absurd h hlist⟩, hrest⟩) fun o => ?_
            simp only [stackRefs, List.flatMap_cons, PartialContainer.refs, hkey.2, List.count_cons,
              List.count_append, Option.map_none, Option.map_some, Option.toList_none,
              Option.toList_some, List.count_nil]
            omega
        | _ => exact .fault
      · exact .pure hs fun _ => rfl

/-- What an opened node owns. -/
def Opened.refs : Opened → List ObjId
  | .value v => v.refs
  | .container c => c.refs

def Opened.Unfilled : Opened → Prop
  | .value _ => True
  | .container c => c.Unfilled

lemma slotRefs_replicate (n : ℕ) : slotRefs (List.replicate n .null) = [] := by
  induction n with
  | zero => rfl
  | succ n ih =>
      rw [List.replicate_succ, slotRefs, ih]
      rfl

lemma custody_openNode (n : Node) :
    Custody (openNode n) held (fun o => o.refs ++ held) Opened.Unfilled held := by
  have hobj : ∀ o : ObjId → Opened, (∀ id, (o id).refs = [id]) → (∀ id, (o id).Unfilled) →
      Custody (newObject >>= fun id => Pure.pure (o id)) held (fun o => o.refs ++ held)
        Opened.Unfilled held :=
    fun o ho hu => custody_newObject.bind fun id _ => .pure (hu id) fun _ => by rw [ho]; rfl
  cases n with
  | string s => exact (custody_makeStr s).bind fun _ _ => .pure trivial fun _ => rfl
  | static n =>
      cases n with
      | null => exact (custody_incref _).bind fun _ _ => .pure trivial fun _ => rfl
      | bool b => exact (custody_incref _).bind fun _ _ => .pure trivial fun _ => rfl
      | i64 v => exact hobj _ (fun _ => rfl) fun _ => trivial
      | u64 v => exact hobj _ (fun _ => rfl) fun _ => trivial
      | f64 v => exact hobj _ (fun _ => rfl) fun _ => trivial
  | array len =>
      unfold openNode
      refine custody_newObject.bind fun id _ => ?_
      split
      · refine .pure ⟨?_, fun _ => rfl⟩ fun o => ?_
        · rintro _ _ heq j v - hv
          obtain ⟨-, rfl⟩ := PyValue.list.inj heq
          exact List.eq_of_mem_replicate (List.mem_of_getElem? hv)
        · simp [Opened.refs, PartialContainer.refs, PyValue.refs, slotRefs_replicate]
      · exact .pure trivial fun _ => rfl
  | object len =>
      unfold openNode
      refine custody_newObject.bind fun id _ => ?_
      split
      · exact .pure ⟨fun _ _ heq => PyValue.noConfusion heq, fun _ => rfl⟩ fun _ => rfl
      · exact .pure trivial fun _ => rfl

/-! ## Inserting -/

/-- Filling an empty slot. -/
lemma count_slotRefs_set {slots : List PyValue} {j : ℕ} (h : slots[j]? = some .null) (v : PyValue)
    (o : ObjId) : (slotRefs (slots.set j v)).count o = (slotRefs slots).count o + v.refs.count o := by
  induction slots generalizing j with
  | nil => exact absurd h (by simp)
  | cons x slots ih =>
      cases j with
      | zero =>
          obtain rfl : x = .null := by simpa using h
          simp only [List.set_cons_zero, slotRefs, PyValue.refs, List.count_append, List.count_nil]
          omega
      | succ j =>
          rw [List.getElem?_cons_succ] at h
          simp only [List.set_cons_succ, slotRefs, List.count_append, ih h]
          omega

/-- Setting an entry: the value comes in, and the key if it is new or else the old value goes
out. -/
lemma count_entryRefs_setEntry (entries : List (PyStr × PyValue)) (k : PyStr) (v : PyValue)
    (o : ObjId) :
    (entryRefs (setEntry entries k v).1).count o +
        ((setEntry entries k v).2.elim [] PyValue.refs).count o =
      (entryRefs entries).count o + v.refs.count o +
        ((setEntry entries k v).2.elim [k.id] fun _ => []).count o := by
  induction entries with
  | nil =>
      simp only [setEntry, entryRefs, Option.elim_none, List.count_cons, List.count_append,
        List.count_nil]
      omega
  | cons e entries ih =>
      rw [setEntry]
      split
      · simp only [entryRefs, Option.elim_some, List.count_cons, List.count_append, List.count_nil]
        omega
      · simp only [entryRefs, List.count_cons, List.count_append] at ih ⊢
        omega

/-- Setting an entry of the dict on top.  Where that fails, the value and the key in hand are given
back, and then the stack. -/
lemma custody_insert_dict (id : ObjId) (entries : List (PyStr × PyValue)) (filled len : ℕ)
    (key : PyStr) (rest : List PartialContainer) (val : PyValue) :
    Custody (insert ⟨.dict id entries, false, filled, len, some key⟩ rest val)
      (val.refs ++ stackRefs (⟨.dict id entries, false, filled, len, some key⟩ :: rest))
      (fun top' => stackRefs (top' :: rest))
      (fun top' => top'.key = none ∧
        PartialContainer.Unfilled { top' with filled := top'.filled + 1 }) [] := by
  have hcount : ∀ o, (stackRefs
        (⟨.dict id (setEntry entries key val).1, false, filled, len, none⟩ :: rest)).count o +
          ((setEntry entries key val).2.elim [] PyValue.refs).count o + [key.id].count o =
        (val.refs ++ stackRefs
          (⟨.dict id entries, false, filled, len, some key⟩ :: rest)).count o +
          ((setEntry entries key val).2.elim [key.id] fun _ => []).count o := by
    intro o
    have := count_entryRefs_setEntry entries key val o
    simp only [stackRefs, List.flatMap_cons, PartialContainer.refs, PyValue.refs,
      Option.map_some, Option.map_none, Option.toList_some, Option.toList_none,
      List.count_append, List.count_cons, List.count_nil]
    omega
  have hdict : PartialContainer.Unfilled
      ⟨.dict id (setEntry entries key val).1, false, filled + 1, len, none⟩ :=
    ⟨fun _ _ heq => PyValue.noConfusion heq, fun _ => rfl⟩
  have hfail : ∀ w, Moves (val.refs ++ stackRefs
        (⟨.dict id entries, false, filled, len, some key⟩ :: rest)) [] w
      ((dropStack (⟨.dict id entries, false, filled, len, none⟩ :: rest) ∘
        release (key.id :: val.refs)) w) := by
    intro w
    refine Moves.trans (.refl (fun o => ?_) w) ((moves_release (key.id :: val.refs) _ w).trans
      (moves_dropStack (⟨.dict id entries, false, filled, len, none⟩ :: rest) _))
    simp only [stackRefs, List.flatMap_cons, PartialContainer.refs, Option.map_some,
      Option.map_none, Option.toList_some, Option.toList_none, List.count_append,
      List.count_cons, List.count_nil]
    omega
  simp only [insert, Bool.false_eq_true, if_false, Run.unchecked_some, pure_bind]
  refine (custody_request.onError hfail fun w => keys_dropStack _ _).bind fun _ _ w hw => ?_
  split
  · next hold =>
    refine ⟨⟨⟨val.id?.toList ++ [key.id], val.id?.toList ++ [key.id], ?_, rfl, fun o => ?_⟩,
      rfl, hdict⟩, hw⟩
    · simp [acquire, release]
    · have := hcount o
      rw [hold] at this
      simp only [Option.elim_none, acquire, release, List.count_append, List.count_nil] at this ⊢
      omega
  · next old hold =>
    refine ⟨⟨⟨val.id?.toList, val.id?.toList ++ [key.id] ++ old.refs, rfl, ?_, fun o => ?_⟩,
      rfl, hdict⟩, hw⟩
    · simp [acquire, release]
    · have := hcount o
      rw [hold] at this
      simp only [Option.elim_some, acquire, release, List.count_append, List.count_nil] at this ⊢
      omega

/-- The container on top with one more slot filled or entry set. -/
lemma custody_insert {top : PartialContainer} (htop : top.Unfilled) (rest : List PartialContainer)
    (val : PyValue) :
    Custody (insert top rest val) (val.refs ++ stackRefs (top :: rest))
      (fun top' => stackRefs (top' :: rest))
      (fun top' => top'.key = none ∧
        PartialContainer.Unfilled { top' with filled := top'.filled + 1 }) [] := by
  obtain ⟨obj, isList, filled, len, key⟩ := top
  unfold insert
  cases obj with
  | list id slots =>
      dsimp only
      split
      · next hlist =>
        have hkey : key = none := htop.key hlist
        split
        · next hlt =>
          have hslot : slots[filled]? = some .null := by
            rw [List.getElem?_eq_getElem hlt]
            exact congrArg some (htop.null id slots rfl filled _ le_rfl (List.getElem?_eq_getElem hlt))
          refine .pure ⟨hkey, ?_, fun _ => hkey⟩ fun o => ?_
          · rintro _ _ heq j v hj hv
            obtain ⟨-, rfl⟩ := PyValue.list.inj heq
            change filled + 1 ≤ j at hj
            rw [List.getElem?_set_ne (by omega)] at hv
            exact htop.null id slots rfl j v (Nat.le_of_succ_le hj) hv
          · simp only [stackRefs, List.flatMap_cons, PartialContainer.refs, PyValue.refs,
              List.count_append, List.count_cons, count_slotRefs_set hslot]
            omega
        · exact .fault
      · exact .fault
  | dict id entries =>
      dsimp only
      split
      · exact .fault
      · cases key with
        | none => exact .fault
        | some key =>
            rename_i hlist
            obtain rfl : isList = false := by simpa using hlist
            exact custody_insert_dict id entries filled len key rest val
  | _ => exact .fault

/-! ## The loops -/

/-- What is owned where the inner loop ends. -/
def Closed.refs : Closed → List ObjId
  | .done v => v.refs
  | .more stack => stackRefs stack

def Closed.Unfilled : Closed → Prop
  | .done _ => True
  | .more stack => Decode.Unfilled stack

lemma custody_close (val : PyValue) {stack : List PartialContainer} (hs : Unfilled stack) :
    Custody (close val stack) (val.refs ++ stackRefs stack) Closed.refs Closed.Unfilled [] := by
  induction stack generalizing val with
  | nil => exact .pure trivial fun _ => by rw [stackRefs, List.flatMap_nil, List.append_nil]; rfl
  | cons top rest ih =>
      obtain ⟨htop, hrest⟩ := List.forall_mem_cons.mp hs
      refine (custody_insert htop rest val).bind fun top' ⟨hkey, htop'⟩ => ?_
      dsimp only
      split
      · exact .pure (List.forall_mem_cons.mpr ⟨htop', hrest⟩) fun _ => rfl
      · -- the finished container leaves the stack
        refine (ih top'.obj hrest).regroup (fun o => ?_) fun c hc => ⟨hc, fun _ => rfl⟩
        simp only [stackRefs, List.flatMap_cons, PartialContainer.refs, hkey, Option.map_none,
          Option.toList_none, List.nil_append]

lemma custody_loop (nodes : List Node) (fuel i : ℕ) {stack : List PartialContainer}
    (hs : Unfilled stack) :
    Custody (loop nodes fuel stack i) (stackRefs stack) PyValue.refs (fun _ => True) [] := by
  induction fuel generalizing stack i with
  | zero => exact fun _ _ => trivial
  | succ fuel ih =>
      refine (custody_nextKey nodes hs i).bind fun p hp => ?_
      obtain ⟨stack, i⟩ := p
      refine (custody_readNode nodes i).bind fun node _ => ?_
      refine ((custody_openNode node).onError (moves_dropStack stack) (keys_dropStack stack)).bind
        fun o ho => ?_
      cases o with
      | value v =>
          refine (custody_close v hp).bind fun c hc => ?_
          cases c with
          | done v => exact .pure trivial fun _ => rfl
          | more stack => exact ih (i + 1) hc
      | container c => exact ih (i + 1) (List.forall_mem_cons.mpr ⟨ho, hp⟩)

/-- **Every reference that `build` takes is accounted for.**  Whichever requests to CPython fail,
an error leaves behind only what the cache has more than before: whatever else was taken in the
call has been given back, once.  After a return, the caller holds one reference to the root, and
through it one for each list slot and each dict entry below (`PyValue.refs`); the cache holds one
for each slot.  The cache stays valid.  Only a tape that is not the tape of a tree can be cut off
short of this. -/
theorem build_refs (nodes : List Node) (w : World) (hkeys : ∀ slots ∈ w.keys, ValidCache slots)
    (hreads : w.reads = []) :
    (build nodes).wp (fun _ => ¬ ∃ t : Tree, nodes = t.tape)
      (fun v w' => Moves [] v.refs w w' ∧ ∀ slots ∈ w'.keys, ValidCache slots)
      (fun _ w' => Moves [] [] w w' ∧ ∀ slots ∈ w'.keys, ValidCache slots) w := by
  have hcustody : Custody (build nodes) [] PyValue.refs (fun _ => True) [] :=
    custody_loop nodes nodes.length 0 fun _ hc => absurd hc List.not_mem_nil
  have hmoves := hcustody w hkeys
  by_cases htree : ∃ t : Tree, nodes = t.tape
  · obtain ⟨t, rfl⟩ := htree
    refine ((gives_build t w ⟨rfl, hkeys, hreads⟩).and hmoves).mono ?_ (fun _ _ h => h.2)
      fun _ h => h.elim
    rintro v w' ⟨-, ⟨hmv, -⟩, hvalid⟩
    exact ⟨hmv, hvalid⟩
  · refine hmoves.mono ?_ (fun _ _ h => h) fun _ _ => htree
    rintro v w' ⟨⟨hmv, -⟩, hvalid⟩
    exact ⟨hmv, hvalid⟩

/-- For `[[true], 1]` the number can't be made: the open list goes, and with it the one inside. -/
theorem build_refs_failing :
    ∃ w', build (Tree.array [.array [.bool true], .i64 1]).tape
        ⟨fun k => decide (k < 2), 0, 0, none, [], [], []⟩ = .error ⟨⟩ w' ∧
      w'.acquired = [.bool true, .made 1, .made 0] ∧
      ∀ o, w'.acquired.count o = w'.released.count o := by
  have hrun : build (Tree.array [.array [.bool true], .i64 1]).tape
      ⟨fun k => decide (k < 2), 0, 0, none, [], [], []⟩ = .error ⟨⟩ ⟨fun k => decide (k < 2), 3, 2,
        none, [.bool true, .made 1, .made 0], [.made 0, .made 1, .bool true], [0, 1, 2, 3]⟩ := rfl
  have h := build_refs (Tree.array [.array [.bool true], .i64 1]).tape
    ⟨fun k => decide (k < 2), 0, 0, none, [], [], []⟩ (by simp) rfl
  rw [Run.wp, hrun] at h
  obtain ⟨⟨taken, gone, htaken, hgone, hcount⟩, -⟩ := h
  refine ⟨_, hrun, rfl, fun o => ?_⟩
  have := hcount o
  rw [List.append_nil] at htaken hgone
  rw [htaken, hgone]
  simpa using this

end Isojson.Decode
