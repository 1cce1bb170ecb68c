import Isojson.Indent
import Isojson.Trees

/-!
# `OPT_SORT_KEYS`

The members of a dict are written in the order of their keys' code points, whatever Python code does
meanwhile, and a key that can't be written is refused before any of them (`Env.sort_keys`).  The keys
are compared in two ways, as bytes or by code points, which make one order.
-/

namespace Isojson

open Json Run

variable {Obj H : Type} {a : Allocator}

/-- A `str` never changes. -/
def Runtime.StrsFixed (rt : Runtime Obj H) : Prop :=
  ∀ h h' o cs, rt.strChars h o = some cs → rt.strChars h' o = some cs

/-- The code points of a `str`, and nothing for any other object. -/
def Runtime.chars (rt : Runtime Obj H) (h : H) (o : Obj) : List ℕ := (rt.strChars h o).getD []

/-! ## Steps without Python code -/

/-- The states differ in the record, by steps in which no Python code runs. -/
def Quiet (s s' : St Obj H a) : Prop :=
  ∃ log, s' = { s with log := s.log ++ log } ∧ ∀ guard c, Event.python guard c ∉ log

section Quiet

variable {s s1 s2 : St Obj H a}

lemma Quiet.refl (s : St Obj H a) : Quiet s s := ⟨[], by rw [List.append_nil], by simp⟩

lemma Quiet.event (s : St Obj H a) {ev : Event Obj} (hev : ∀ guard c, ev ≠ .python guard c) :
    Quiet s { s with log := s.log ++ [ev] } :=
  ⟨[ev], rfl, fun guard c hmem => hev guard c (List.mem_singleton.mp hmem).symm⟩

lemma Quiet.trans (h : Quiet s s1) (h' : Quiet s1 s2) : Quiet s s2 := by
  obtain ⟨log, rfl, hlog⟩ := h
  obtain ⟨log', rfl, hlog'⟩ := h'
  refine ⟨log ++ log', by rw [List.append_assoc], fun guard c hmem => ?_⟩
  rcases List.mem_append.mp hmem with hmem | hmem
  · exact hlog guard c hmem
  · exact hlog' guard c hmem

end Quiet

namespace Host

variable (e : Host Obj H)

/-- The exception of a `TypeError` raised here, or the one for which its message could not be made. -/
def raisedFor (msg : String) (w : World Obj H) : Exc Obj :=
  match e.rt.reply (.newText msg) w with
  | (.ok text, _) => .typeError text msg
  | (.raised exc, _) => .object exc

/-- A failure writes nothing and runs no Python code. -/
lemma fail_run {α : Type} (msg : String) (s : St Obj H a) :
    ∃ s', (e.fail msg : Encode Obj H a α) s = .error ⟨⟩ s' ∧ s'.out = s.out ∧
      s'.exc = some (e.raisedFor msg s.world) ∧
      ∃ log, s'.log = s.log ++ log ∧ ∀ guard c, Event.python guard c ∉ log := by
  have hwp : wp (fun _ => False) (e.fail msg : Encode Obj H a α) (fun _ _ => False)
      (fun _ s' => s'.out = s.out ∧ s'.exc = some (e.raisedFor msg s.world) ∧
        ∃ log, s'.log = s.log ++ log ∧ ∀ guard c, Event.python guard c ∉ log) s := by
    unfold fail raiseTypeError raisedFor
    rw [wp_bind, wp_bind]
    refine e.wp_request (fun text w hr => ?_) fun exc w hr => ?_
    · rw [hr]
      exact ⟨rfl, rfl, [.take (.obj text), .drop (.obj text)], by simp, by simp⟩
    · rw [hr]
      exact ⟨rfl, rfl, [], by simp, by simp⟩
  rcases hwp.cases with ⟨_, _, -, hno⟩ | ⟨err, s', hrun, hs'⟩
  · exact hno.elim
  · exact ⟨s', hrun, hs'⟩

end Host

namespace Env

lemma quiet_holdEntries (obj : Obj) (entries : List (Entry Obj)) (s : St Obj H a) :
    ∃ s', holdEntries obj entries s = .ok () s' ∧ Quiet s s' := by
  induction entries generalizing s with
  | nil => exact ⟨s, rfl, .refl s⟩
  | cons kv entries ih =>
      obtain ⟨key, value⟩ := kv
      obtain ⟨s', hrun, hquiet⟩ := ih
        { s with log := s.log ++ [.borrow obj key] ++ [.borrow obj value] ++ [.read (.obj key)] ++
          [.take (.obj key)] ++ [.read (.obj value)] ++ [.take (.obj value)] }
      refine ⟨s', hrun, Quiet.trans ?_ hquiet⟩
      refine ⟨[.borrow obj key, .borrow obj value, .read (.obj key), .take (.obj key),
        .read (.obj value), .take (.obj value)], by simp, by simp⟩

lemma quiet_release (entries : List (Entry Obj)) (s : St Obj H a) : Quiet s (release s entries) := by
  induction entries generalizing s with
  | nil => exact .refl s
  | cons kv entries ih =>
      obtain ⟨key, value⟩ := kv
      refine Quiet.trans ?_ (ih _)
      exact ⟨[.drop (.obj value), .drop (.obj key)], by simp [St.dropped], by simp⟩

lemma quiet_readKeys (entries : List (Entry Obj)) (s : St Obj H a) :
    Quiet s (entries.foldl (fun s kv => readKey s kv.1) s) := by
  induction entries generalizing s with
  | nil => exact .refl s
  | cons kv entries ih => exact Quiet.trans (.event s (by simp)) (ih _)

variable (e : Env Obj H)

/-! ## The comparison -/

/-- `key_text` reads this of the key of the entry. -/
def IsKeyed (h : H) (x : KeyText × Entry Obj) : Prop := e.keyCheck h x.2.1 = .ok x.1

/-- The comparison of keys is a total order, that of the code points. -/
structure OrdersKeys (h : H) : Prop where
  total : ∀ x y, e.IsKeyed h x → e.IsKeyed h y → keyLe x y = true ∨ keyLe y x = true
  trans : ∀ x y z, e.IsKeyed h x → e.IsKeyed h y → e.IsKeyed h z → keyLe x y = true →
    keyLe y z = true → keyLe x z = true
  antisymm : ∀ x y, e.IsKeyed h x → e.IsKeyed h y → keyLe x y = true → keyLe y x = true →
    e.rt.chars h x.2.1 = e.rt.chars h y.2.1
  order : ∀ x y, e.IsKeyed h x → e.IsKeyed h y →
    (keyLe x y = true ↔ e.rt.chars h x.2.1 ≤ e.rt.chars h y.2.1)

variable {e}

lemma IsKeyed.chars {h : H} {x : KeyText × Entry Obj} (hx : e.IsKeyed h x) :
    x.1.chars = e.rt.chars h x.2.1 := by
  obtain ⟨-, t, ht, hchars⟩ := e.keyCheck_valid hx
  rw [Runtime.chars, Runtime.strChars_of_str ht, hchars, Option.getD_some]

variable (e)

lemma ordersKeys (h : H) : e.OrdersKeys h := by
  have horder : ∀ x y, e.IsKeyed h x → e.IsKeyed h y →
      (keyLe x y = true ↔ e.rt.chars h x.2.1 ≤ e.rt.chars h y.2.1) := by
    intro x y hx hy
    rw [keyLe_iff (e.keyCheck_valid hx).1 (e.keyCheck_valid hy).1, hx.chars, hy.chars]
  refine ⟨?_, ?_, ?_, horder⟩
  · intro x y hx hy
    rw [horder x y hx hy, horder y x hy hx]
    exact le_total _ _
  · intro x y z hx hy hz
    rw [horder x y hx hy, horder y z hy hz, horder x z hx hz]
    exact le_trans
  · intro x y hx hy
    rw [horder x y hx hy, horder y x hy hx]
    exact le_antisymm

/-! ## A key that can't be written -/

section Refused

variable {self : Obj → Encode Obj H a Unit} {obj : Obj} {s : St Obj H a}
  {good rest : List (Entry Obj)} {kv : Entry Obj} {msg : String}

/-- The keys before `kv` pass the check, and `kv`'s does not. -/
def FirstBadKey (h : H) (good : List (Entry Obj)) (kv : Entry Obj) (msg : String) : Prop :=
  (∀ x ∈ good, keyError (e.rt.strChars h x.1) = none) ∧ keyError (e.rt.strChars h kv.1) = some msg

/-- The run raised for a key in front of the first member, and no Python code ran. -/
def RefusedFor (msg : String) (s s' : St Obj H a) : Prop :=
  s'.out.content = s.out.content ++ [123] ∧ s'.exc = some (e.raisedFor msg s.world) ∧
    ∃ log, s'.log = s.log ++ log ∧ ∀ guard c, Event.python guard c ∉ log

variable (s rest) in
lemma keyedEntries_refused (hbad : e.FirstBadKey s.world.heap good kv msg) :
    ∃ s', e.keyedEntries (good ++ kv :: rest) s = .error ⟨⟩ s' ∧ s'.out = s.out ∧
      s'.exc = some (e.raisedFor msg s.world) ∧
      ∃ log, s'.log = s.log ++ log ∧ ∀ guard c, Event.python guard c ∉ log := by
  have hgood : ∀ x ∈ good, e.GoodKey s.world.heap x.1 := fun x hx =>
    e.goodKey_iff.mpr (keyError_eq_none.mp (hbad.1 x hx))
  rw [e.keyedEntries_bad hgood (e.keyCheck_error_iff.mpr hbad.2)]
  obtain ⟨log, hlog, hquiet⟩ := quiet_readKeys (good ++ [kv]) s
  rw [hlog]
  obtain ⟨s', hrun, hout, hexc, log', hlog', hquiet'⟩ :=
    @Host.fail_run _ _ _ e.toHost (List (KeyText × Entry Obj)) msg { s with log := s.log ++ log }
  refine ⟨s', hrun, hout, hexc, log ++ log', ?_, fun guard c hmem => ?_⟩
  · rw [hlog', List.append_assoc]
  · rcases List.mem_append.mp hmem with hmem | hmem
    · exact hquiet guard c hmem
    · exact hquiet' guard c hmem

variable (s rest) in
lemma dictSorted_refused {slots : List (Option (Entry Obj))}
    (hobj : (e.rt.view s.world.heap obj).body = .dict slots)
    (hslots : slots.reduceOption = good ++ kv :: rest)
    (hbad : e.FirstBadKey s.world.heap good kv msg) :
    ∃ s', (∀ self : Obj → Encode Obj H a Unit, e.dictSorted self obj s = .error ⟨⟩ s') ∧
      s'.out = s.out ∧ s'.exc = some (e.raisedFor msg s.world) ∧
      ∃ log, s'.log = s.log ++ log ∧ ∀ guard c, Event.python guard c ∉ log := by
  have hlook : e.dictSlots obj s = .ok slots { s with log := s.log ++ [.read (.obj obj)] } := by
    have hrun : e.look obj s =
        .ok (e.rt.view s.world.heap obj) { s with log := s.log ++ [.read (.obj obj)] } := rfl
    unfold dictSlots
    rw [bind_of_ok hrun, hobj]
    rfl
  obtain ⟨s1, hhold, log1, rfl, hlog1⟩ := quiet_holdEntries obj (good ++ kv :: rest)
    { s with log := s.log ++ [.read (.obj obj)] }
  obtain ⟨s2, hkeys, hout, hexc, log2, hlog2, hquiet2⟩ := e.keyedEntries_refused
    { s with log := s.log ++ [.read (.obj obj)] ++ log1 } rest hbad
  obtain ⟨log3, hlog3, hquiet3⟩ := quiet_release (good ++ kv :: rest) s2
  refine ⟨release s2 (good ++ kv :: rest), fun self => ?_, ?_, ?_, ?_⟩
  · have hwrite : e.writeSorted self (good ++ kv :: rest)
        { s with log := s.log ++ [.read (.obj obj)] ++ log1 } = .error ⟨⟩ s2 := bind_of_error hkeys
    unfold dictSorted
    rw [bind_of_ok hlook, hslots, bind_of_ok hhold, onExit, hwrite]
  · rw [hlog3]
    exact hout
  · rw [hlog3]
    exact hexc
  · rw [hlog3]
    refine ⟨[.read (.obj obj)] ++ log1 ++ log2 ++ log3, ?_, fun guard c hmem => ?_⟩
    · dsimp only
      rw [hlog2]
      simp
    · simp only [List.mem_append, List.mem_singleton] at hmem
      rcases hmem with ((hmem | hmem) | hmem) | hmem
      · exact absurd hmem (by simp)
      · exact hlog1 guard c hmem
      · exact hquiet2 guard c hmem
      · exact hquiet3 guard c hmem

/-- **The first bad key** is the one that is reported.  The members are not begun, so nothing depends on
what the values would do. -/
lemma dict_refused (hsort : hasOpt e.opts optSortKeys = true) (hroom : s.depth < e.maxDepth)
    {slots : List (Option (Entry Obj))} (hobj : (e.rt.view s.world.heap obj).body = .dict slots)
    (hslots : slots.reduceOption = good ++ kv :: rest)
    (hbad : e.FirstBadKey s.world.heap good kv msg) :
    ∃ s', (∀ (self : Obj → Encode Obj H a Unit) fuel, e.dict self fuel obj s = .error ⟨⟩ s') ∧
      e.RefusedFor msg s s' := by
  have hlen : ¬ slots.reduceOption.length = 0 := by simp [hslots]
  -- the state in front of the members
  obtain ⟨s1, hs1⟩ : ∃ s1 : St Obj H a, s1 =
      { s with depth := s.depth + 1, log := s.log ++ [.read (.obj obj)] ++ [.read (.obj obj)] } :=
    ⟨_, rfl⟩
  obtain ⟨s2, hs2⟩ : ∃ s2 : St Obj H a, s2 = s1.written (s1.out.push 123) := ⟨_, rfl⟩
  have hworld : s2.world = s.world := by rw [hs2, hs1]; rfl
  obtain ⟨s', hrun, hout, hexc, log, hlog, hquiet⟩ := e.dictSorted_refused s2 rest
    (by rw [hworld]; exact hobj) hslots (by rw [hworld]; exact hbad)
  rw [hworld] at hexc
  refine ⟨s', fun self fuel => ?_, ?_, hexc, [.read (.obj obj)] ++ [.read (.obj obj)] ++ log, ?_, ?_⟩
  · have hevent : event (.read (.obj obj)) s = (.ok () { s with log := s.log ++ [.read (.obj obj)] } :
        Outcome (St Obj H a) PendingPyErr Unit) := rfl
    have henter : e.enter { s with log := s.log ++ [.read (.obj obj)] } =
        .ok () { s with depth := s.depth + 1, log := s.log ++ [.read (.obj obj)] } := by
      unfold enter
      rw [bind_of_ok (get_apply _), if_neg (Nat.not_le_of_lt hroom)]
      rfl
    have hlook : e.dictSlots obj { s with depth := s.depth + 1, log := s.log ++ [.read (.obj obj)] } =
        .ok slots s1 := by
      have hread : e.look obj { s with depth := s.depth + 1, log := s.log ++ [.read (.obj obj)] } =
          .ok (e.rt.view s.world.heap obj) s1 := by rw [hs1]; rfl
      unfold dictSlots
      rw [bind_of_ok hread, hobj]
      rfl
    have hpush : emit (·.push 123) s1 = .ok () s2 := by rw [hs2]; rfl
    unfold dict
    rw [bind_of_ok hevent, bind_of_ok henter, bind_of_ok hlook, if_neg hlen, bind_of_ok hpush,
      if_pos hsort]
    exact bind_of_error (hrun self)
  · rw [hout, hs2, hs1]
    exact Buffer.content_push ..
  · rw [hlog, hs2, hs1]
    simp [St.written]
  · intro guard c hmem
    simp only [List.mem_append, List.mem_singleton, reduceCtorEq, false_or] at hmem
    exact hquiet guard c hmem

end Refused

/-! ## The members -/

section Members

variable {self : Obj → Encode Obj H a Unit} {obj : Obj} {s : St Obj H a}

/-- The members of the entries were written one behind the other, with the key texts that `chars` says:
the comma and the line break, the key, the colon, and what `self` writes of the value. -/
inductive MembersWritten (self : Obj → Encode Obj H a Unit) (chars : Obj → List ℕ) :
    Bool → List (Entry Obj) → St Obj H a → St Obj H a → Prop
  | nil (first : Bool) (s : St Obj H a) : MembersWritten self chars first [] s s
  | cons {first : Bool} {key value : Obj} {entries : List (Entry Obj)} {s s1 s2 s3 : St Obj H a}
      (hkey : s1.out.content = s.out.content ++ ((if first then [] else [44]) ++ sep e.indent s.depth ++
        quoted (chars key) ++ colon e.indent))
      (hvalue : self value s1 = .ok () s2) (hrest : MembersWritten self chars false entries s2 s3) :
      MembersWritten self chars first ((key, value) :: entries) s s3

/-- A key that returns is written with its code points. -/
lemma writeKey_text {key : Obj} {chars : List ℕ} (hkey : e.rt.strChars s.world.heap key = some chars)
    (first : Bool) :
    wp (fun _ => True) (e.writeKey key first) (fun _ s' => s'.out.content = s.out.content ++
      ((if first then [] else [44]) ++ sep e.indent s.depth ++ quoted chars ++ colon e.indent))
      (fun _ _ => True) s := by
  have hrest : ∀ {u : Bytes} {s1 : St Obj H a}, Appended u s s1 →
      wp (fun _ => True) (e.str key >>= fun _ =>
        if e.indent then emit (·.extend [58, 32]) else emit (·.push 58))
        (fun _ s' => s'.out.content = s.out.content ++ (u ++ quoted chars ++ colon e.indent))
        (fun _ _ => True) s1 := by
    intro u s1 hs1
    obtain ⟨t, ht, rfl⟩ := Runtime.body_of_strChars hkey
    obtain ⟨f, hf, hcolon⟩ := e.exists_colon (a := a)
    unfold str
    rw [hf, wp_bind, wp_bind, Host.wp_look, hs1.world, ht]
    simp only [wp_bind, wp_get, wp_emit]
    split
    · next hok =>
      have henc := (s1.out.writeStr_ok_iff e.arch e.strfast t).mp hok
      rw [wp_pure]
      show (f (s1.out.writeStr e.arch e.strfast t).2).content = _
      rw [hcolon, s1.out.content_writeStr henc, hs1.content]
      simp only [List.append_assoc]
    · exact (e.fail_spec _ _).mono (fun _ _ h => h) (fun _ _ _ => trivial) fun _ h => h
  unfold writeKey
  cases first with
  | true =>
      simp only [if_true]
      rw [wp_bind]
      exact e.wp_breakLine fun s1 hs1 => hrest hs1
  | false =>
      simp only [Bool.false_eq_true, if_false]
      rw [wp_bind, wp_emit, wp_bind]
      have hcomma := Appended.written (t := [44]) (fun b => b.content_push 44) s
      refine e.wp_breakLine fun s1 hs1 => ?_
      exact hrest (hcomma.trans hs1)

/-- **The sorted loop** writes the entries as they come. -/
lemma sortedLoop_members {entries : List (Entry Obj)} {chars : Obj → List ℕ}
    (hchars : ∀ kv ∈ entries, ∀ h, e.rt.strChars h kv.1 = some (chars kv.1)) (first : Bool) :
    wp (fun _ => True) (e.sortedLoop self first entries)
      (fun _ s' => e.MembersWritten self chars first entries s s') (fun _ _ => True) s := by
  induction entries generalizing first s with
  | nil => exact .nil first s
  | cons kv entries ih =>
      obtain ⟨key, value⟩ := kv
      obtain ⟨hkey, hchars⟩ := List.forall_mem_cons.mp hchars
      rw [sortedLoop, wp_bind]
      refine (e.writeKey_text (hkey _) first).mono (fun _ s1 htext => ?_) (fun _ _ h => h) fun _ h => h
      rw [wp_bind]
      refine wp_of_returns fun _ s2 hvalue => ?_
      exact (ih hchars false).mono (fun _ s3 hrest => .cons htext hvalue hrest) (fun _ _ h => h)
        fun _ h => h

/-- The entries in the order of their keys' code points. -/
structure IsSorted (h : H) (entries sorted : List (Entry Obj)) : Prop where
  perm : sorted.Perm entries
  increasing : sorted.Pairwise fun x y => e.rt.chars h x.1 < e.rt.chars h y.1

/-- Keys that pass the check, pairwise different. -/
structure GoodKeys (h : H) (entries : List (Entry Obj)) : Prop where
  good : ∀ kv ∈ entries, keyError (e.rt.strChars h kv.1) = none
  distinct : DistinctKeys e.rt h entries

lemma isSorted_mergeSort {h : H} {entries : List (Entry Obj)} (hkeys : e.GoodKeys h entries) :
    e.IsSorted h entries (((entries.map (e.keyEntry h)).mergeSort keyLe).map Prod.snd) := by
  have hgood : ∀ kv ∈ entries, e.GoodKey h kv.1 := fun kv hkv =>
    e.goodKey_iff.mpr (keyError_eq_none.mp (hkeys.good kv hkv))
  have hsnd : (entries.map (e.keyEntry h)).map Prod.snd = entries := by
    rw [List.map_map, show Prod.snd ∘ e.keyEntry h = id from funext fun kv => e.keyEntry_snd h kv,
      List.map_id]
  have hvalid : ∀ x ∈ entries.map (e.keyEntry h), x.1.Valid ∧ x.1.chars = e.rt.chars h x.2.1 := by
    rw [List.forall_mem_map]
    intro kv hkv
    obtain ⟨hvalid, t, ht, hchars⟩ := e.keyEntry_valid (hgood kv hkv)
    refine ⟨hvalid, ?_⟩
    rw [e.keyEntry_snd, Runtime.chars, Runtime.strChars_of_str ht, hchars, Option.getD_some]
  constructor
  · have hperm := (List.mergeSort_perm (entries.map (e.keyEntry h)) keyLe).map Prod.snd
    rwa [hsnd] at hperm
  · have hdistinct : (entries.map (e.keyEntry h)).Pairwise fun x y => x.1.chars ≠ y.1.chars := by
      rw [List.pairwise_map]
      refine hkeys.distinct.imp_of_mem ?_
      intro kv kv' hkv hkv' hne
      obtain ⟨-, t, ht, hchars⟩ := e.keyEntry_valid (hgood kv hkv)
      obtain ⟨-, t', ht', hchars'⟩ := e.keyEntry_valid (hgood kv' hkv')
      rw [hchars, hchars']
      exact hne t t' ht ht'
    rw [List.pairwise_map]
    refine (sorted_strictly (fun x hx => (hvalid x hx).1) hdistinct).imp_of_mem ?_
    intro x y hx hy hlt
    have hperm := List.mergeSort_perm (entries.map (e.keyEntry h)) keyLe
    rwa [(hvalid x (hperm.mem_iff.mp hx)).2, (hvalid y (hperm.mem_iff.mp hy)).2] at hlt

/-- The slots of a dict, read. -/
lemma dictSlots_run {slots : List (Option (Entry Obj))}
    (hobj : (e.rt.view s.world.heap obj).body = .dict slots) :
    e.dictSlots obj s = .ok slots { s with log := s.log ++ [.read (.obj obj)] } := by
  have hread : e.look obj s =
      .ok (e.rt.view s.world.heap obj) { s with log := s.log ++ [.read (.obj obj)] } := rfl
  unfold dictSlots
  rw [bind_of_ok hread, hobj]
  rfl

/-- The members of the entries were written in the order of their keys, from `s` to `s'`. -/
def MembersSorted (self : Obj → Encode Obj H a Unit) (entries : List (Entry Obj)) (s s' : St Obj H a) :
    Prop :=
  ∃ sorted s1 s2, e.IsSorted s.world.heap entries sorted ∧ s1.out = s.out ∧ s1.depth = s.depth ∧
    s1.world = s.world ∧ e.MembersWritten self (e.rt.chars s.world.heap) true sorted s1 s2 ∧
    s'.out = s2.out ∧ s'.depth = s2.depth

lemma dictSorted_members (hstr : e.rt.StrsFixed) {slots : List (Option (Entry Obj))}
    (hobj : (e.rt.view s.world.heap obj).body = .dict slots)
    (hkeys : e.GoodKeys s.world.heap slots.reduceOption) :
    wp (fun _ => True) (e.dictSorted self obj)
      (fun _ s' => e.MembersSorted self slots.reduceOption s s') (fun _ _ => True) s := by
  have hgood : ∀ kv ∈ slots.reduceOption, e.GoodKey s.world.heap kv.1 := fun kv hkv =>
    e.goodKey_iff.mpr (keyError_eq_none.mp (hkeys.good kv hkv))
  have hsorted := e.isSorted_mergeSort hkeys
  obtain ⟨s1, hhold, log1, rfl, -⟩ := quiet_holdEntries obj slots.reduceOption
    { s with log := s.log ++ [.read (.obj obj)] }
  unfold dictSorted
  rw [wp_bind_of_ok (e.dictSlots_run hobj), wp_bind_of_ok hhold, wp_onExit]
  unfold writeSorted
  rw [wp_bind_of_ok (e.keyedEntries_good (s := { s with log := s.log ++ [.read (.obj obj)] ++ log1 })
    hgood)]
  obtain ⟨log2, hlog2⟩ := foldl_readKey (a := a) slots.reduceOption
    { s with log := s.log ++ [.read (.obj obj)] ++ log1 }
  rw [hlog2]
  have hchars : ∀ kv ∈ ((slots.reduceOption.map (e.keyEntry s.world.heap)).mergeSort keyLe).map Prod.snd,
      ∀ h, e.rt.strChars h kv.1 = some (e.rt.chars s.world.heap kv.1) := by
    intro kv hkv h
    obtain ⟨cs, hcs⟩ := keyError_eq_none.mp (hkeys.good kv (hsorted.perm.mem_iff.mp hkv))
    refine hstr s.world.heap h _ _ ?_
    rw [Runtime.chars, hcs.1, Option.getD_some]
  refine (e.sortedLoop_members hchars true).mono (fun _ s2 hmembers => ?_) (fun _ _ h => h)
    fun _ h => h
  obtain ⟨log3, hlog3⟩ := release_eq slots.reduceOption s2
  rw [hlog3]
  refine ⟨_, _, s2, hsorted, ?_, ?_, ?_, hmembers, rfl, rfl⟩ <;> rfl

/-- A dict was written between braces, its members in the order of their keys. -/
def WroteSorted (self : Obj → Encode Obj H a Unit) (entries : List (Entry Obj)) (s s' : St Obj H a) :
    Prop :=
  ∃ s1 s2, s1.out.content = s.out.content ++ [123] ∧ s1.depth = s.depth + 1 ∧ s1.world = s.world ∧
    e.MembersSorted self entries s1 s2 ∧ s'.depth = s2.depth - 1 ∧
    s'.out.content = s2.out.content ++
      ((if entries = [] then [] else sep e.indent (s2.depth - 1)) ++ [125])

/-- **A dict with good keys** is written in the order of its keys. -/
lemma dict_sorted (hstr : e.rt.StrsFixed) (hsort : hasOpt e.opts optSortKeys = true) (fuel : ℕ)
    {slots : List (Option (Entry Obj))} (hobj : (e.rt.view s.world.heap obj).body = .dict slots)
    (hkeys : e.GoodKeys s.world.heap slots.reduceOption) :
    wp (fun _ => True) (e.dict self fuel obj)
      (fun _ s' => e.WroteSorted self slots.reduceOption s s') (fun _ _ => True) s := by
  unfold dict
  rw [wp_bind, wp_event, wp_bind]
  refine e.wp_enter (fun _ => trivial) fun _ => ?_
  rw [wp_bind_of_ok (e.dictSlots_run (by exact hobj))]
  by_cases hnil : slots.reduceOption = []
  · rw [hnil, if_pos List.length_nil, wp_bind, wp_leave, wp_emit]
    obtain ⟨s1, hs1⟩ : ∃ s1 : St Obj H a, s1 =
        ({ s with depth := s.depth + 1 } : St Obj H a).written (s.out.push 123) := ⟨_, rfl⟩
    have hopen : s1.out.content = s.out.content ++ [123] := by
      rw [hs1]
      exact s.out.content_push 123
    have hmembers : e.MembersSorted self [] s1 s1 :=
      ⟨[], s1, s1, ⟨.nil, .nil⟩, rfl, rfl, rfl, .nil true s1, rfl, rfl⟩
    have hdepth : s1.depth = s.depth + 1 := by rw [hs1]; rfl
    refine ⟨s1, s1, hopen, hdepth, by rw [hs1]; rfl, hmembers, by rw [hdepth]; rfl, ?_⟩
    rw [if_pos rfl, List.nil_append, hopen]
    show (s.out.extend [123, 125]).content = _
    rw [Buffer.content_extend, List.append_assoc]
    rfl
  · rw [if_neg (mt List.length_eq_zero_iff.mp hnil), wp_bind, wp_emit, if_pos hsort, wp_bind]
    refine (e.dictSorted_members hstr (by exact hobj) (by exact hkeys)).mono (fun _ s2 hmembers => ?_)
      (fun _ _ h => h) fun _ h => h
    refine e.wp_close fun s3 hs3 => ⟨_, s2, ?_, ?_, ?_, hmembers, hs3.depth, ?_⟩
    · exact s.out.content_push 123
    · rfl
    · rfl
    · rw [if_neg hnil]
      exact hs3.content

end Members

end Env

/-- **`OPT_SORT_KEYS` sorts the members.**  The comparison of keys is a total order, that of their code
points.  A dict with good keys, pairwise different, is written with its members in strictly increasing
order of the keys, each entry once, its value behind its key.  A key that can't be written is refused:
the first such key of the dict is reported, no member is begun, and no value is looked at.  And calls
that differ only in the order of the entries of dicts, at any level, return the same bytes. -/
theorem Env.sort_keys [DecidableEq Obj] (e : Env Obj H) (hsort : hasOpt e.opts optSortKeys = true)
    (hstr : e.rt.StrsFixed) (hfmt : e.fmt.WriteNumbers) :
    (∀ h, e.OrdersKeys h) ∧
    (∀ (self : Obj → Encode Obj H a Unit) fuel obj s slots s',
      (e.rt.view s.world.heap obj).body = .dict slots → e.GoodKeys s.world.heap slots.reduceOption →
      e.dict self fuel obj s = .ok () s' → e.WroteSorted self slots.reduceOption s s') ∧
    (∀ obj (s : St Obj H a) slots good kv rest msg,
      (e.rt.view s.world.heap obj).body = .dict slots → slots.reduceOption = good ++ kv :: rest →
      e.FirstBadKey s.world.heap good kv msg → s.depth < e.maxDepth →
      ∃ s', (∀ (self : Obj → Encode Obj H a Unit) fuel, e.dict self fuel obj s = .error ⟨⟩ s') ∧
        e.RefusedFor msg s s') ∧
    (∀ B, e.rt.Twins e.opts B → ∀ (s t : St Obj H a), InStep B s t → ∀ hint hint' fuel obj default,
      UpToMemory (e.dumpsObject hint fuel obj default e.opts)
        (e.dumpsObject hint' fuel obj default e.opts) (fun b b' => b' = b) s t) := by
  refine ⟨e.ordersKeys, ?_, ?_, ?_⟩
  · intro self fuel obj s slots s' hobj hkeys hrun
    exact (e.dict_sorted hstr hsort fuel hobj hkeys).of_ok hrun
  · intro obj s slots good kv rest msg hobj hslots hbad hroom
    exact e.dict_refused hsort hroom hobj hslots hbad
  · intro B hB s t hst hint hint' fuel obj default
    refine (e.dumpsObject_upToMemory hfmt (Alike.refl e.opts) hB hint hint' fuel obj default hst).mono ?_
    rintro _ _ ⟨doc, n, -, rfl, rfl⟩
    rfl

/-- The text `"a"`. -/
def letterKey : StrObj where
  header := ⟨1, 0x64, none, Bytes.ascii "a"⟩
  chars := [97]
  holds := {
    code_points := by decide
    length_eq := rfl
    kind_eq := by decide
    narrow := by decide
    data_eq := by decide
    ascii := by decide
    cached := by decide }

/-- The entries of a dict, in one order or in the other. -/
def swappedSlots (swap : Bool) : List (Option (Entry ℕ)) :=
  if swap then [some (2, 4), some (1, 3)] else [some (1, 3), some (2, 4)]

/-- The answers of an interpreter in which methods raise. -/
def swappedReply : Call ℕ → Reply ℕ
  | .ownUtcoffset _ => .raised 4
  | .str _ => .raised 4
  | .toBase _ _ => .raised 4
  | _ => .ok 4

/-- A dict of two entries, and one with a key that is an integer; the first may have its entries in
either order, which nothing changes. -/
def swappedRuntime : Runtime ℕ Bool where
  view swap
    | 0 => ⟨none, "dict", .dict (swappedSlots swap)⟩
    | 1 => ⟨none, "str", .str genericDtype⟩
    | 2 => ⟨none, "str", .str letterKey⟩
    | 3 => ⟨none, "int", .int 1⟩
    | 5 => ⟨none, "dict", .dict [some (1, 0), none, some (3, 0)]⟩
    | _ => ⟨none, "NoneType", .none⟩
  tupleItems _ := []
  pyNone := 4
  memory _ _ := 0
  callable _ _ := true
  reply c w := (swappedReply c, w)
  pylong _ _ := false
  modules := 4
  getItem _ _ _ := .missing
  moduleDict _ _ := none
  datetimeApi _ _ := none
  ownUtcoffset_valid _ _ _ _ h := absurd (congrArg Prod.fst h) (by simp [swappedReply])
  str_valid _ _ _ _ h := absurd (congrArg Prod.fst h) (by simp [swappedReply])
  toBase_decimal _ _ _ _ _ _ h := absurd (congrArg Prod.fst h) (by simp [swappedReply])

def swappedEnv : Env ℕ Bool := ⟨⟨swappedRuntime, .portable, true, Formats.plain⟩, none, 32, true, MAX_DEPTH⟩

def swappedState (swap : Bool) : St ℕ Bool Allocator.plain :=
  ⟨Buffer.plain, 0, 0, none, false, ⟨swap, none, none⟩, none, []⟩

lemma strsFixed_swapped : swappedRuntime.StrsFixed := by
  intro h h' o cs hcs
  have hview : ∀ t, (swappedRuntime.view h o).body = .str t → (swappedRuntime.view h' o).body = .str t := by
    intro t ht
    match o with
    | 0 => exact absurd ht (by simp [swappedRuntime])
    | 1 | 2 | 3 | 4 | 5 | _ + 6 => exact ht
  obtain ⟨t, ht, rfl⟩ := Runtime.body_of_strChars hcs
  exact Runtime.strChars_of_str (hview t ht)

lemma distinctKeys_swapped (h swap : Bool) :
    DistinctKeys swappedRuntime h (swappedSlots swap).reduceOption := by
  have hne : ∀ t t', (swappedRuntime.view h 1).body = .str t → (swappedRuntime.view h 2).body = .str t' →
      t.chars ≠ t'.chars := by
    intro t t' ht ht'
    obtain rfl : genericDtype = t := Body.str.inj ht
    obtain rfl : letterKey = t' := Body.str.inj ht'
    decide
  cases swap with
  | false =>
      refine .cons (fun kv hkv t t' => ?_) (List.pairwise_singleton _ _)
      rw [List.mem_singleton.mp hkv]
      exact hne t t'
  | true =>
      refine .cons (fun kv hkv t t' ht ht' => ?_) (List.pairwise_singleton _ _)
      rw [List.mem_singleton.mp hkv] at ht'
      exact (hne t' t ht' ht).symm

lemma twins_swapped : swappedRuntime.Twins 32 fun _ _ => True where
  view {h h'} _ o := by
    match o with
    | 0 =>
        refine .dict (by decide) rfl ?_ (distinctKeys_swapped h h)
        cases h <;> cases h' <;> decide
    | 1 | 2 | 3 | 4 | 5 | _ + 6 => exact .same _
  memory _ := rfl
  callable _ := rfl
  getItem _ := rfl
  moduleDict _ := rfl
  datetimeApi _ := rfl
  reply _ _ _ _ ht := ⟨rfl, ht, trivial⟩

lemma swapped_small {h : Bool} {o : ℕ} {z : ℤ} (hobj : (swappedRuntime.view h o).body = .int z) :
    Within64Bits z := by
  unfold swappedRuntime at hobj
  dsimp only at hobj
  split at hobj <;> cases hobj
  decide

/-- The dict is written out, in whichever order it has its entries. -/
lemma exists_swapped (swap : Bool) : ∃ N, ∀ fuel ≥ N, ∃ bytes s,
    swappedEnv.dumpsObject 0 fuel 0 none 32 (swappedState swap) = .ok bytes s := by
  have htrees : swappedEnv.WritesTrees (· = swap) (fun t bits => t = Formats.plain.zmij64 bits) 0 :=
    ⟨fun _ _ h => h, fun _ _ h => h, fun _ _ _ _ hobj hz => absurd (swapped_small hobj) hz,
      fun _ _ _ _ h => absurd (congrArg Prod.fst h) (by simp [swappedEnv, swappedRuntime, swappedReply]),
      fun _ hz => Formats.plain_itoa hz, fun bits _ => ⟨isNumber_zero, rfl⟩⟩
  have hkey : Shows swappedRuntime (· = swap) 1 (.str [60, 77, 56]) := .intro (fun _ _ => rfl) (.str _)
  have hletter : Shows swappedRuntime (· = swap) 2 (.str [97]) := .intro (fun _ _ => rfl) (.str _)
  have hone : Shows swappedRuntime (· = swap) 3 (.int 1) := .intro (fun _ _ => rfl) (.int 1)
  have hnone : Shows swappedRuntime (· = swap) 4 .none := .intro (fun _ _ => rfl) .none
  have hfit : ∀ s ∈ [[60, 77, 56], [97]], (Value.str s).IsText := by
    intro s hs
    exact ⟨s, rfl, by revert s; decide⟩
  obtain ⟨v, hshows, hv⟩ : ∃ v, Shows swappedRuntime (· = swap) 0 v ∧ v.Fits false 0 0 := by
    have hone' : IntFits false 0 1 := Or.inr (Or.inl rfl)
    have hfit1 := hfit [60, 77, 56] (by simp)
    have hfit2 := hfit [97] (by simp)
    cases swap with
    | false =>
        refine ⟨.dict [(.str [60, 77, 56], .int 1), (.str [97], .none)],
          .intro (b := .dict (swappedSlots false)) (fun h hh => by rw [hh]; rfl)
            (.dict (.cons hkey hone (.cons hletter hnone .nil))), ?_⟩
        simp [Value.Fits, entriesFit, hfit1, hfit2, hone', MAX_DEPTH]
    | true =>
        refine ⟨.dict [(.str [97], .none), (.str [60, 77, 56], .int 1)],
          .intro (b := .dict (swappedSlots true)) (fun h hh => by rw [hh]; rfl)
            (.dict (.cons hletter hnone (.cons hkey hone .nil))), ?_⟩
        simp [Value.Fits, entriesFit, hfit1, hfit2, hone', MAX_DEPTH]
  have htypes : ((swappedState swap).world.types.datetime swappedRuntime swap).1 = .ok none := rfl
  obtain ⟨N, hN⟩ := Env.serializes_shown (e := swappedEnv.treeEnv 32 none) (a := Allocator.plain) htrees
    rfl rfl hshows
  refine ⟨N, fun fuel hfuel => ?_⟩
  have hrun := swappedEnv.dumpsObject_tree (W := (· = swap)) (s := swappedState swap) (fun _ => rfl) rfl
    htypes rfl hN hfuel 0
  rcases hrun.cases with ⟨bytes, s, hok, -⟩ | ⟨_, _, -, hno⟩
  · exact ⟨bytes, s, hok⟩
  · exact absurd hv hno

theorem Env.sort_keys_swapped :
    ∃ fuel bytes s t, swappedEnv.dumpsObject 0 fuel 0 none 32 (swappedState false) = .ok bytes s ∧
      swappedEnv.dumpsObject 0 fuel 0 none 32 (swappedState true) = .ok bytes t ∧
      ∃ s', (∀ (self : ℕ → Encode ℕ Bool Allocator.plain Unit) fuel,
          swappedEnv.dict self fuel 5 (swappedState false) = .error ⟨⟩ s') ∧
        swappedEnv.RefusedFor "Dict key must be str" (swappedState false) s' := by
  obtain ⟨-, -, hrefused, hsame⟩ := Env.sort_keys (a := Allocator.plain) swappedEnv (by decide)
    strsFixed_swapped Formats.writeNumbers_plain
  obtain ⟨N, hN⟩ := exists_swapped false
  obtain ⟨N', hN'⟩ := exists_swapped true
  obtain ⟨bytes, s, hs⟩ := hN (max N N') (le_max_left ..)
  obtain ⟨bytes', t, ht⟩ := hN' (max N N') (le_max_right ..)
  have hstep : InStep (fun _ _ => True) (swappedState false) (swappedState true) :=
    ⟨⟨rfl, rfl, rfl, rfl, rfl, trivial, rfl⟩, rfl⟩
  obtain rfl := (hsame _ twins_swapped _ _ hstep 0 0 (max N N') 0 none).of_ok hs ht
  have hbad : swappedEnv.FirstBadKey false [(1, 0)] (3, 0) "Dict key must be str" := by
    refine ⟨fun x hx => ?_, rfl⟩
    rw [List.mem_singleton.mp hx]
    decide
  exact ⟨_, _, s, t, hs, ht,
    hrefused 5 (swappedState false) _ [(1, 0)] (3, 0) [] _ rfl rfl hbad (by decide)⟩

end Isojson
