import Isojson.CacheOwner

/-!
# What a miss leaves of the numpy group

Without finalizers that call `dumps`, a miss of `TypeCache::numpy` ends in one of five ways
(`Interp.Missed`).  Four of them leave the group absent, or read from the module that
`sys.modules["numpy"]` holds.  The fifth, where nothing is registered under that name, leaves the
cache as it was, and with it the group of a numpy that is gone.
-/

namespace Isojson

open Run

variable {Obj H α β : Type}

/-! ## Frames -/

/-- Nothing of the state changed but the slots with `P`, and the log, which grew. -/
structure Framed (P : Slot → Prop) (s s' : CacheSt Obj H) : Prop where
  heap : s'.heap = s.heap
  cache : ∀ slot, ¬ P slot → s'.cache slot = s.cache slot
  log : ∀ ev ∈ s.log, ev ∈ s'.log

/-- Wherever a run of `m` ends, no slot changed but those with `P`. -/
def Touches (P : Slot → Prop) (m : Caching Obj H α) : Prop :=
  ∀ s, wp (Framed P s) m (fun _ => Framed P s) (fun _ => Framed P s) s

variable {P : Slot → Prop} {s s' s'' : CacheSt Obj H}

lemma Framed.refl (s : CacheSt Obj H) : Framed P s s := ⟨rfl, fun _ _ => rfl, fun _ h => h⟩

lemma Framed.trans (h : Framed P s s') (h' : Framed P s' s'') : Framed P s s'' :=
  ⟨h'.heap.trans h.heap, fun slot hslot => (h'.cache slot hslot).trans (h.cache slot hslot),
    fun ev hev => h'.log ev (h.log ev hev)⟩

namespace Touches

variable {m : Caching Obj H α} {k : α → Caching Obj H β}

lemma pure (a : α) : Touches P (Pure.pure a : Caching Obj H α) := fun s => .refl s

lemma throw (err : PendingPyErr) : Touches P (Run.throw err : Caching Obj H α) := fun s => .refl s

lemma bind (hm : Touches P m) (hk : ∀ a, Touches P (k a)) : Touches P (m >>= k) := by
  intro s
  rw [wp_bind]
  refine (hm s).mono (fun a s' h => ?_) (fun _ _ h => h) fun _ h => h
  exact (hk a s').mono (fun _ _ h' => h.trans h') (fun _ _ h' => h.trans h') fun _ h' => h.trans h'

lemma get_bind {k : CacheSt Obj H → Caching Obj H β} (hk : ∀ s, Touches P (k s)) :
    Touches P (Run.get >>= k) := fun s => hk s s

lemma attempt (hm : Touches P m) : Touches P (m.attempt : Caching Obj H (Except PendingPyErr α)) := by
  intro s
  rw [wp_attempt]
  exact hm s

lemma note (ev : CacheEvent Obj H) : Touches P (note ev) :=
  fun _ => ⟨rfl, fun _ _ => rfl, fun _ => List.mem_append_left _⟩

lemma write {slot : Slot} (hslot : P slot) (p : Option Obj) :
    Touches P (write slot p : Caching Obj H Unit) :=
  fun _ => ⟨rfl, fun _ h => Function.update_of_ne (fun heq => h (by rwa [heq])) ..,
    fun _ => List.mem_append_left _⟩

end Touches

namespace Interp

variable {i : Interp Obj H} {nested : Action Obj H → Caching Obj H Unit}

/-- No finalizer calls `dumps`, or changes anything. -/
def Silent (i : Interp Obj H) : Prop := ∀ o s, i.finalizer o s = []

lemma touches_decref (hs : i.Silent) (o : Obj) : Touches P (i.decref nested o) :=
  (Touches.note _).bind fun _ => .get_bind fun s => by
    rw [hs o s]
    exact .pure ()

lemma touches_lookup (d : Obj) (name : String) : Touches P (i.lookup d name) := by
  refine .get_bind fun s => ?_
  cases i.getItem s.heap d name with
  | found o => exact (Touches.note _).bind fun _ => .pure _
  | missing => exact .pure _
  | failed exc => exact .throw _

lemma touches_getNamed (d : Obj) (name : String) : Touches P (i.getNamed d name) := by
  refine .get_bind fun s => ?_
  cases i.intern s.heap name with
  | none => exact .throw _
  | some key =>
      refine (Touches.note _).bind fun _ s => ?_
      rw [wp_onExit]
      have hdropped : ∀ s', Framed P s s' → Framed P s (s'.dropped key) := fun s' h =>
        h.trans ⟨rfl, fun _ _ => rfl, fun _ => List.mem_append_left _⟩
      exact (touches_lookup d name s).mono (fun _ s' h => hdropped s' h) (fun _ s' h => hdropped s' h)
        fun _ h => h

lemma touches_dropEach (hs : i.Silent) (np : NumpySlot → Option Obj) (ts : List NumpySlot) :
    Touches P (i.dropEach nested np ts) := by
  induction ts with
  | nil => exact .pure ()
  | cons t ts ih =>
      rw [dropEach]
      cases np t with
      | none => exact ih
      | some o => exact (touches_decref hs o).bind fun _ => ih

lemma touches_readEach (hs : i.Silent) (d : Obj) (ts : List NumpySlot) (np : NumpySlot → Option Obj) :
    Touches P (i.readEach nested d ts np) := by
  induction ts generalizing np with
  | nil => exact .pure _
  | cons t ts ih =>
      rw [readEach]
      refine (touches_getNamed d t.name).attempt.bind fun r => ?_
      cases r with
      | error err => exact (touches_dropEach hs np _).bind fun _ => .throw _
      | ok o =>
          cases o with
          | none => exact (touches_dropEach hs np _).bind fun _ => .pure _
          | some o => exact ih _

lemma touches_datetime (hs : i.Silent) :
    Touches (fun slot => slot = .dtCapsule ∨ ∃ d, slot = .dt d) (i.datetime nested) := by
  have hload : ∀ cap, Touches (fun slot => slot = .dtCapsule ∨ ∃ d, slot = .dt d)
      (i.loadCapsule nested cap) := by
    intro cap
    refine .get_bind fun s => ?_
    cases i.api s.heap cap with
    | none => exact (touches_decref hs cap).bind fun _ => .pure _
    | some types =>
        have htake : ∀ ds, Touches (fun slot => slot = .dtCapsule ∨ ∃ d, slot = .dt d)
            (takeEach types ds : Caching Obj H Unit) := by
          intro ds
          induction ds with
          | nil => exact .pure ()
          | cons d ds ih => exact (Touches.note _).bind fun _ => ih
        have hwrite : ∀ ds, Touches (fun slot => slot = .dtCapsule ∨ ∃ d, slot = .dt d)
            (writeDt types ds : Caching Obj H Unit) := by
          intro ds
          induction ds with
          | nil => exact .pure ()
          | cons d ds ih => exact (Touches.write (Or.inr ⟨d, rfl⟩) _).bind fun _ => ih
        exact (htake _).bind fun _ => (hwrite _).bind fun _ =>
          (Touches.write (Or.inl rfl) _).bind fun _ => .pure _
  refine .get_bind fun s => ?_
  split
  · exact .pure _
  · refine .get_bind fun s => ?_
    split
    · exact .pure _
    · refine (touches_lookup _ _).bind fun r => ?_
      cases r with
      | none => exact .pure _
      | some module =>
          have hcap : Touches (fun slot => slot = .dtCapsule ∨ ∃ d, slot = .dt d)
              (i.capsuleOf module) := .get_bind fun s => by
            cases i.moduleDict s.heap module with
            | none => exact .pure _
            | some d => exact touches_lookup d _
          refine hcap.attempt.bind fun cap => (touches_decref hs module).bind fun _ => ?_
          match cap with
          | .error err => exact .throw _
          | .ok none => exact .pure _
          | .ok (some cap) => exact hload cap

/-! ## Clearing -/

/-- A release of the slots clears them and no others. -/
lemma releaseEach_clears (hs : i.Silent) (slots : List Slot) (s : CacheSt Obj H) :
    wp (fun _ => True) (i.releaseEach nested slots)
      (fun _ s' => Framed (· ∈ slots) s s' ∧ ∀ slot ∈ slots, s'.cache slot = none)
      (fun _ _ => False) s := by
  induction slots generalizing s with
  | nil => exact ⟨.refl s, fun _ h => absurd h List.not_mem_nil⟩
  | cons slot slots ih =>
      have hrelease : wp (fun _ => True) (i.release nested slot)
          (fun _ s' => Framed (· = slot) s s' ∧ s'.cache slot = none) (fun _ _ => False) s := by
        have hwritten : Framed (· = slot) s (s.written slot none) :=
          ⟨rfl, fun _ h => written_ne h, fun _ => List.mem_append_left _⟩
        unfold release
        rw [wp_bind, wp_get, wp_bind, wp_write]
        cases s.cache slot with
        | none => exact ⟨hwritten, written_self⟩
        | some p =>
            unfold decref
            dsimp only
            rw [wp_bind, wp_note, wp_bind, wp_get, hs]
            exact ⟨hwritten.trans ⟨rfl, fun _ _ => rfl, fun _ => List.mem_append_left _⟩, written_self⟩
      rw [releaseEach, wp_bind]
      refine hrelease.mono ?_ (fun _ _ h => h) fun _ h => h
      rintro _ s1 ⟨h1, hnone⟩
      refine (ih s1).mono ?_ (fun _ _ h => h) fun _ h => h
      rintro _ s2 ⟨h2, hnone2⟩
      refine ⟨⟨h2.heap.trans h1.heap, fun slot' hslot' => ?_, fun ev hev => h2.log _ (h1.log _ hev)⟩,
        fun slot' hslot' => ?_⟩
      · rw [List.mem_cons, not_or] at hslot'
        exact (h2.cache slot' hslot'.2).trans (h1.cache slot' hslot'.1)
      · by_cases hmem : slot' ∈ slots
        · exact hnone2 slot' hmem
        · rw [h2.cache slot' hmem, (List.mem_cons.mp hslot').resolve_right hmem]
          exact hnone

/-! ## A miss -/

/-- The slots of the numpy group. -/
def groupSlots : List Slot := .npModule :: NumpySlot.all.map .np

lemma np_mem_groupSlots (t : NumpySlot) : .np t ∈ groupSlots :=
  List.mem_cons_of_mem _ (List.mem_map_of_mem t.mem_all)

/-- There is no numpy group. -/
def Absent (s : CacheSt Obj H) : Prop := s.cache .npModule = none ∧ ∀ t, s.cache (.np t) = none

/-- What `sys.modules` has for `"numpy"`. -/
def registered (i : Interp Obj H) (s : CacheSt Obj H) : Lookup Obj :=
  i.getItem s.heap i.modules NameSlot.numpy.text

/-- The state is as it was, but for the log. -/
abbrev Kept (s s' : CacheSt Obj H) : Prop := Framed (fun _ => False) s s'

/-- How a miss of `numpy` ends, if it returns. -/
inductive Missed [DecidableEq Obj] (i : Interp Obj H) (s : CacheSt Obj H) (ty : Obj) :
    Option (NumpySlot → Option Obj) → CacheSt Obj H → Prop
  /-- before `init`, or after `clear` -/
  | unnamed {s' : CacheSt Obj H} (hname : s.cache (.name .numpy) = none) (hkept : Kept s s') :
      Missed i s ty none s'
  | unregistered {s' : CacheSt Obj H} (hlook : i.registered s = .missing) (hkept : Kept s s') :
      Missed i s ty none s'
  | same {s' : CacheSt Obj H} {module : Obj} (hlook : i.registered s = .found module)
      (howner : s.cache .npModule = some module) (hkept : Kept s s') : Missed i s ty none s'
  /-- no module, or a name is missing -/
  | unread {s' : CacheSt Obj H} {module : Obj} (hlook : i.registered s = .found module)
      (hno : ∀ d, i.moduleDict s.heap module = some d →
        ∃ t : NumpySlot, i.getItem s.heap d t.name = .missing) (habsent : Absent s') :
      Missed i s ty none s'
  | loaded {s' : CacheSt Obj H} {module d : Obj} {np : NumpySlot → Option Obj}
      (hlook : i.registered s = .found module) (hd : i.moduleDict s.heap module = some d)
      (hread : ∀ t, ∃ o, np t = some o ∧ i.Read s' s.heap d t o)
      (howner : s'.cache .npModule = some module) (hnp : ∀ t, s'.cache (.np t) = np t)
      (hheap : s'.heap = s.heap) (hname : s'.cache (.name .numpy) ≠ none) :
      Missed i s ty (if contains np ty then some np else none) s'

variable [DecidableEq Obj] {S : NumpySlot → Prop} {held : List Obj}

lemma loadNumpy_missed (hs : i.Silent) (hn : Nests i nested) {s0 : CacheSt Obj H} {ty module : Obj}
    (hlook : i.registered s0 = .found module) (hheap : s.heap = s0.heap) (habsent : Absent s)
    (hname : s.cache (.name .numpy) ≠ none) (h : i.Inv (fun _ => True) (module :: held) s) :
    wp (fun _ => True) (i.loadNumpy nested ty module)
      (fun r s' => i.Missed s0 ty r s') (fun _ s' => Absent s') s := by
  have hkept : ∀ {s'}, Kept s s' → Absent s' := fun hframe =>
    ⟨(hframe.cache _ id).trans habsent.1, fun t => (hframe.cache _ id).trans (habsent.2 t)⟩
  have hdecref : ∀ {s1 : CacheSt Obj H}, Kept s s1 →
      wp (fun _ => True) (i.decref nested module) (fun _ s' => Kept s s') (fun _ s' => Kept s s') s1 :=
    fun h1 => (touches_decref hs module _).mono (fun _ _ h => h1.trans h) (fun _ _ h => h1.trans h)
      fun _ _ => trivial
  unfold loadNumpy
  rw [wp_bind, wp_get]
  cases hd : i.moduleDict s.heap module with
  | none =>
      simp only [wp_bind]
      refine (hdecref (.refl s)).mono (fun _ s1 h1 => ?_) (fun _ _ h1 => hkept h1) fun _ h => h
      rw [hheap] at hd
      exact .unread hlook (fun d hd' => absurd (hd.symm.trans hd') (by simp)) (hkept h1)
  | some d =>
      simp only [wp_bind, wp_attempt]
      have hread := (readNumpy_spec hn d h).and
        (touches_readEach (P := fun _ => False) hs d NumpySlot.all (fun _ => none) s)
      refine hread.mono ?_ ?_ fun _ h => h
      · rintro r s1 ⟨h1, hframe⟩
        rw [hheap] at hd
        cases r with
        | none =>
            obtain ⟨-, t, hmissing⟩ := h1
            simp only [wp_bind]
            refine (hdecref hframe).mono (fun _ s2 h2 => ?_) (fun _ _ h2 => hkept h2) fun _ h => h
            refine .unread hlook (fun d' hd' => ⟨t, ?_⟩) (hkept h2)
            rw [← Option.some.inj (hd.symm.trans hd'), ← hheap]
            exact hmissing
        | some np =>
            obtain ⟨h1, -, hread⟩ := h1
            simp only [wp_bind]
            have hsome : ∀ t ∈ NumpySlot.all, (np t).isSome := by
              intro t _
              obtain ⟨o, ho, -⟩ := hread t List.not_mem_nil
              rw [ho]
              rfl
            refine (writeEach_spec NumpySlot.nodup_all hsome h1).mono ?_ (fun _ _ h => h.elim) fun _ h => h
            rintro _ s2 ⟨-, hstored, hother⟩
            have hwritten : ∀ {slot : Slot}, slot ≠ .npModule →
                (s2.written .npModule (some module)).cache slot = s2.cache slot := written_ne
            refine .loaded hlook hd (fun t => ?_) written_self (fun t => ?_)
              (hstored.heap.trans (hframe.heap.trans hheap)) ?_
            · obtain ⟨o, ho, hget, hmem⟩ := hread t List.not_mem_nil
              rw [hheap] at hget hmem
              exact ⟨o, ho, hget, List.mem_append_left _ (hstored.log _ hmem)⟩
            · exact (hwritten (by simp)).trans (hstored.loaded t t.mem_all)
            · have hsame := (hwritten (by simp)).trans
                ((hother (.name .numpy) (by simp)).trans (hframe.cache _ id))
              exact fun hnone => hname (hsame.symm.trans hnone)
      · rintro err s1 ⟨-, hframe⟩
        refine wp_bind.mpr ?_
        exact (hdecref hframe).mono (fun _ _ h2 => hkept h2) (fun _ _ h2 => hkept h2) fun _ h => h

/-- **A miss of `numpy`** ends in one of five ways, or with an error that leaves the cache as it was
or without a group. -/
lemma numpy_missed (hs : i.Silent) (hn : Nests i nested) {ty : Obj}
    (hmiss : numpyHit s.cache ty = none) (h : i.Inv S held s) :
    wp (fun _ => True) (i.numpy nested ty) (fun r s' => i.Missed s ty r s')
      (fun _ s' => Kept s s' ∨ Absent s') s := by
  unfold numpy
  rw [wp_bind, wp_get, hmiss]
  dsimp only
  by_cases hname : s.cache (.name .numpy) = none
  · rw [if_pos hname]
    exact .unnamed hname (.refl s)
  · rw [if_neg hname, wp_bind]
    have hlookup := (lookup_spec h i.modules NameSlot.numpy.text).and
      (touches_lookup (P := fun _ => False) _ _ s)
    refine hlookup.mono ?_ (fun _ _ h => Or.inl h.2) fun _ h => h
    rintro r s1 ⟨hs1, hkept⟩
    cases r with
    | none => exact .unregistered (hs1.missing rfl) hkept
    | some module =>
        have hlook := (hs1.found module rfl).1
        simp only [wp_bind, wp_get]
        by_cases hsame : s1.cache .npModule = some module
        · rw [if_pos hsame, wp_bind]
          rw [hs1.cache] at hsame
          exact (touches_decref (P := fun _ => False) hs module s1).mono
            (fun _ s2 h2 => .same hlook hsame (hkept.trans h2))
            (fun _ s2 h2 => Or.inl (hkept.trans h2)) fun _ _ => trivial
        · rw [if_neg hsame, wp_bind]
          have hclear := (clearNumpy_spec hn hs1.inv).and (releaseEach_clears hs groupSlots s1)
          refine hclear.mono ?_ (fun _ _ h => h.1.elim) fun _ h => h
          rintro _ s2 ⟨h2, hframe, hnone⟩
          have habsent : Absent s2 :=
            ⟨hnone _ List.mem_cons_self, fun t => hnone _ (np_mem_groupSlots t)⟩
          have hname2 : s2.cache (.name .numpy) ≠ none := by
            rw [hframe.cache _ (by decide), hs1.cache]
            exact hname
          exact (loadNumpy_missed hs hn hlook (hframe.heap.trans hs1.heap) habsent hname2 h2).mono
            (fun _ _ h => h) (fun _ _ h => Or.inr h) fun _ h => h

/-! ## Histories -/

variable (i) in
/-- The numpy group between two operations: it is absent, or was read from its owner, and without the
interned names it is absent. -/
structure GroupOk (s : CacheSt Obj H) : Prop where
  absent : s.cache .npModule = none → Absent s
  read : ∀ module, s.cache .npModule = some module → i.ReadFrom s module
  unnamed : s.cache (.name .numpy) = none → Absent s

omit [DecidableEq Obj] in
lemma GroupOk.of_absent (h : Absent s) : i.GroupOk s :=
  ⟨fun _ => h, fun _ hm => absurd (h.1.symm.trans hm) (by simp), fun _ => h⟩

omit [DecidableEq Obj] in
/-- What an operation keeps that changes other slots. -/
lemma GroupOk.of_framed (h : i.GroupOk s) (hframe : Framed P s s') (hmodule : ¬ P .npModule)
    (hnp : ∀ t, ¬ P (.np t)) (hname : ¬ P (.name .numpy)) : i.GroupOk s' := by
  have habsent : Absent s → Absent s' := fun h =>
    ⟨(hframe.cache _ hmodule).trans h.1, fun t => (hframe.cache _ (hnp t)).trans (h.2 t)⟩
  refine ⟨fun hnone => habsent (h.absent ?_), fun module hm => ?_, fun hnone => habsent (h.unnamed ?_)⟩
  · rwa [hframe.cache _ hmodule] at hnone
  · rw [hframe.cache _ hmodule] at hm
    exact (h.read module hm).of_log (fun t => hframe.cache _ (hnp t)) hframe.log
  · rwa [hframe.cache _ hname] at hnone

omit [DecidableEq Obj] in
lemma GroupOk.kept (h : i.GroupOk s) (hkept : Kept s s') : i.GroupOk s' :=
  h.of_framed hkept id (fun _ => id) id

lemma GroupOk.missed (h : i.GroupOk s) {ty : Obj} {r : Option (NumpySlot → Option Obj)}
    (hmissed : i.Missed s ty r s') : i.GroupOk s' := by
  cases hmissed with
  | unnamed _ hkept => exact h.kept hkept
  | unregistered _ hkept => exact h.kept hkept
  | same _ _ hkept => exact h.kept hkept
  | unread _ _ habsent => exact .of_absent habsent
  | @loaded _ module d np hlook hd hread howner hnp hheap hname =>
      refine ⟨fun hnone => absurd (hnone.symm.trans howner) (by simp), fun module' hm => ?_,
        fun hnone => absurd hnone hname⟩
      obtain rfl := Option.some.inj (howner.symm.trans hm)
      refine ⟨s.heap, d, hd, fun t => ?_⟩
      obtain ⟨o, ho, hread⟩ := hread t
      exact ⟨o, (hnp t).trans ho, hread⟩

lemma numpy_groupOk (hs : i.Silent) (hn : Nests i nested) (ty : Obj) (h : i.GroupOk s)
    (hinv : i.Inv S held s) :
    wp (fun _ => True) (i.numpy nested ty) (fun _ s' => i.GroupOk s') (fun _ s' => i.GroupOk s') s := by
  cases hhit : numpyHit s.cache ty with
  | some np =>
      unfold numpy
      rw [wp_bind, wp_get, hhit]
      exact h
  | none =>
      refine (numpy_missed hs hn hhit hinv).mono (fun _ _ hm => h.missed hm) ?_ fun _ h => h
      rintro _ s' (hkept | habsent)
      · exact h.kept hkept
      · exact .of_absent habsent

omit [DecidableEq Obj] in
lemma clear_groupOk (hs : i.Silent) (s : CacheSt Obj H) :
    wp (fun _ => True) (i.clear nested) (fun _ s' => i.GroupOk s') (fun _ _ => False) s := by
  unfold clear
  rw [wp_bind]
  refine (releaseEach_clears hs _ s).mono (fun _ s1 _ => ?_) (fun _ _ h => h) fun _ h => h
  rw [wp_bind]
  refine wp.mono (releaseEach_clears hs groupSlots s1) (fun _ s2 h2 => ?_) (fun _ _ h => h) fun _ h => h
  refine (releaseEach_clears hs _ s2).mono (fun _ s3 h3 => .of_absent ⟨?_, fun t => ?_⟩)
    (fun _ _ h => h) fun _ h => h
  · exact (h3.1.cache _ (by simp)).trans (h2.2 _ List.mem_cons_self)
  · exact (h3.1.cache _ (by simp)).trans (h2.2 _ (np_mem_groupSlots t))

omit [DecidableEq Obj] in
lemma init_groupOk (i : Interp Obj H) (hp : H) :
    wp (fun _ => True) i.init (fun _ s' => i.GroupOk s') (fun _ _ => False) (.zeroed hp) := by
  have heach : ∀ ns (s : CacheSt Obj H), Absent s →
      wp (fun _ => True) (i.initEach ns) (fun _ s' => Absent s') (fun _ _ => False) s := by
    intro ns
    induction ns with
    | nil => exact fun _ h => h
    | cons n ns ih =>
        intro s h
        rw [initEach, wp_bind, wp_get]
        cases i.intern s.heap n.text with
        | none => exact h
        | some key =>
            simp only [wp_bind, wp_note, wp_write]
            exact ih _ ⟨(written_ne (by simp)).trans h.1, fun t => (written_ne (by simp)).trans (h.2 t)⟩
  exact (heach _ _ ⟨rfl, fun _ => rfl⟩).mono (fun _ _ h => .of_absent h) (fun _ _ h => h) fun _ h => h

lemma operateAll_groupOk (hs : i.Silent) (fuel : ℕ) (ops : List (CacheOp Obj H)) (h : i.GroupOk s)
    (hinv : i.Inv (fun _ => True) [] s) :
    wp (fun _ => True) (i.operateAll fuel ops)
      (fun _ s' => i.GroupOk s' ∧ i.Inv (fun _ => True) [] s') (fun _ _ => False) s := by
  induction ops generalizing s with
  | nil => exact ⟨h, hinv⟩
  | cons op ops ih =>
      have hop : wp (fun _ => True) (i.operate fuel op) (fun _ s' => i.GroupOk s')
          (fun _ _ => False) s := by
        match op with
        | .action (.rebind hp) => exact ⟨h.absent, h.read, h.unnamed⟩
        | .action .datetime =>
            simp only [operate, perform, wp_bind, wp_attempt, wp_pure]
            exact (touches_datetime hs s).mono
              (fun _ _ h' => h.of_framed h' (by simp) (by simp) (by simp))
              (fun _ _ h' => h.of_framed h' (by simp) (by simp) (by simp)) fun _ _ => trivial
        | .action (.numpy ty) =>
            simp only [operate, perform, wp_bind, wp_attempt, wp_pure]
            exact numpy_groupOk hs (nests_perform i fuel) ty h hinv
        | .traverse _ => exact h
        | .clear => exact clear_groupOk hs s
      have hkeeps : wp (fun _ => True) (i.operate fuel op)
          (fun _ s' => i.Inv (fun _ => True) [] s') (fun _ _ => False) s := operate_spec fuel op hinv
      rw [operateAll, wp_bind]
      exact (hop.and hkeeps).mono (fun _ s1 h1 => ih h1.1 h1.2) (fun _ _ h => h.1) fun _ h => h

lemma history_groupOk (hs : i.Silent) (fuel : ℕ) (ops : List (CacheOp Obj H)) (hp : H) :
    wp (fun _ => True) (i.history fuel ops)
      (fun _ s' => i.GroupOk s' ∧ i.Inv (fun _ => True) [] s') (fun _ _ => False) (.zeroed hp) := by
  unfold history
  rw [wp_bind]
  exact ((init_groupOk i hp).and (initEach_spec _ (inv_zeroed i hp))).mono
    (fun _ s h => operateAll_groupOk hs fuel ops h.1 h.2) (fun _ _ h => h.1) fun _ h => h

/-! ## The law -/

/-- The law of a miss that returned `r`: the group is absent, or was read from the numpy that is
registered now; the call returns it if and only if `ty` is one of its types; and an absent group is
loaded if the registered numpy is complete. -/
structure MissLaw (i : Interp Obj H) (ty : Obj) (r : Option (NumpySlot → Option Obj))
    (s s' : CacheSt Obj H) : Prop where
  current : Absent s' ∨ ∃ module, i.registered s' = .found module ∧
    s'.cache .npModule = some module ∧ i.ReadFrom s' module
  returns : r = if contains (fun t => s'.cache (.np t)) ty then some fun t => s'.cache (.np t) else none
  loads : Absent s → s.cache (.name .numpy) ≠ none → ∀ module d, i.registered s = .found module →
    i.moduleDict s.heap module = some d → (∀ t : NumpySlot, ∃ o, i.getItem s.heap d t.name = .found o) →
    s'.cache .npModule = some module ∧ i.ReadFrom s' module

lemma not_contains_of_absent (h : Absent s) (ty : Obj) :
    contains (fun t => s.cache (.np t)) ty = false := by
  simp [contains, h.2]

lemma GroupOk.not_contains (h : i.GroupOk s) {ty : Obj} (hmiss : numpyHit s.cache ty = none) :
    contains (fun t => s.cache (.np t)) ty = false := by
  cases howner : s.cache .npModule with
  | none => exact not_contains_of_absent (h.absent howner) ty
  | some module =>
      unfold numpyHit at hmiss
      rw [howner] at hmiss
      by_contra hcontains
      rw [Bool.not_eq_false] at hcontains
      simp [hcontains] at hmiss

lemma GroupOk.law_iff (h : i.GroupOk s) {ty : Obj} {r : Option (NumpySlot → Option Obj)}
    (hmiss : numpyHit s.cache ty = none) (hmissed : i.Missed s ty r s') :
    i.MissLaw ty r s s' ↔ Absent s ∨ ∃ module, i.registered s = .found module := by
  have hregistered : s'.heap = s.heap → i.registered s' = i.registered s := fun hheap => by
    rw [registered, hheap]
    rfl
  have hsame : Kept s s' → (none : Option (NumpySlot → Option Obj)) =
      if contains (fun t => s'.cache (.np t)) ty then some fun t => s'.cache (.np t) else none := by
    intro hkept
    have hnp : (fun t => s'.cache (.np t)) = fun t => s.cache (.np t) :=
      funext fun t => hkept.cache _ id
    rw [hnp, h.not_contains hmiss]
    rfl
  have habsent : Kept s s' → Absent s → Absent s' := fun hkept h =>
    ⟨(hkept.cache _ id).trans h.1, fun t => (hkept.cache _ id).trans (h.2 t)⟩
  have habsent' : Kept s s' → Absent s' → Absent s := fun hkept h =>
    ⟨(hkept.cache _ id).symm.trans h.1, fun t => (hkept.cache _ id).symm.trans (h.2 t)⟩
  cases hmissed with
  | unnamed hname hkept =>
      refine ⟨fun _ => Or.inl (h.unnamed hname), fun _ => ⟨?_, hsame hkept, ?_⟩⟩
      · exact Or.inl (habsent hkept (h.unnamed hname))
      · exact fun _ hname' => absurd hname hname'
  | unregistered hlook hkept =>
      constructor
      · rintro ⟨hcurrent | ⟨module, hfound, -⟩, -, -⟩
        · exact Or.inl (habsent' hkept hcurrent)
        · rw [hregistered hkept.heap, hlook] at hfound
          exact absurd hfound (by simp)
      · rintro (h0 | ⟨module, hfound⟩)
        · refine ⟨Or.inl (habsent hkept h0), hsame hkept, fun _ _ module d hfound => ?_⟩
          exact absurd (hlook.symm.trans hfound) (by simp)
        · exact absurd (hlook.symm.trans hfound) (by simp)
  | @same _ module hlook howner hkept =>
      refine ⟨fun _ => Or.inr ⟨_, hlook⟩, fun _ => ⟨Or.inr ⟨module, ?_, ?_, ?_⟩, hsame hkept, ?_⟩⟩
      · exact (hregistered hkept.heap).trans hlook
      · exact (hkept.cache _ id).trans howner
      · exact (h.read module howner).of_log (fun t => hkept.cache _ id) hkept.log
      · exact fun h0 => absurd (h0.1.symm.trans howner) (by simp)
  | @unread _ module hlook hno h1 =>
      refine ⟨fun _ => Or.inr ⟨_, hlook⟩, fun _ => ⟨Or.inl h1, ?_, ?_⟩⟩
      · rw [not_contains_of_absent h1]
        rfl
      · intro _ _ module' d hfound hd hcomplete
        obtain rfl := Lookup.found.inj (hlook.symm.trans hfound)
        obtain ⟨t, hmissing⟩ := hno d hd
        obtain ⟨o, ho⟩ := hcomplete t
        exact absurd (hmissing.symm.trans ho) (by simp)
  | @loaded _ module d np hlook hd hread howner hnp hheap hname =>
      have hfrom : i.ReadFrom s' module := by
        refine ⟨s.heap, d, hd, fun t => ?_⟩
        obtain ⟨o, ho, hread⟩ := hread t
        exact ⟨o, (hnp t).trans ho, hread⟩
      have hgroup : (fun t => s'.cache (.np t)) = np := funext hnp
      refine ⟨fun _ => Or.inr ⟨_, hlook⟩, fun _ => ⟨Or.inr ⟨module, ?_, howner, hfrom⟩, ?_, ?_⟩⟩
      · exact (hregistered hheap).trans hlook
      · rw [hgroup]
      · intro _ _ module' _ hfound _ _
        obtain rfl := Lookup.found.inj (hlook.symm.trans hfound)
        exact ⟨howner, hfrom⟩

/-- **A miss obeys its law** if and only if the group was absent before, or something is registered as
`sys.modules["numpy"]`: in every history without finalizers that call `dumps`, whatever was bound under
that name in between. -/
theorem numpy_miss_law (hs : i.Silent) (fuel : ℕ) (ops : List (CacheOp Obj H)) (hp : H) (ty : Obj)
    {r : Option (NumpySlot → Option Obj)} (hrun : i.history fuel ops (.zeroed hp) = .ok () s)
    (hmiss : numpyHit s.cache ty = none) (hcall : i.numpy (i.perform fuel) ty s = .ok r s') :
    i.MissLaw ty r s s' ↔ Absent s ∨ ∃ module, i.registered s = .found module := by
  obtain ⟨hgroup, hinv⟩ := (history_groupOk hs fuel ops hp).of_ok hrun
  have hmissed := (numpy_missed hs (nests_perform i fuel) hmiss hinv).of_ok hcall
  exact hgroup.law_iff hmiss hmissed

end Interp

/-- numpy is replaced, and a miss of one of its new types returns the new group. -/
theorem numpy_miss_law_replaced :
    ∃ s r s', (twoModules []).history 0 [.action (.numpy 99), .action (.rebind true)] (.zeroed false) =
        .ok () s ∧
      (twoModules []).numpy ((twoModules []).perform 0) 22 s = .ok r s' ∧
      (twoModules []).MissLaw 22 r s s' ∧ r.isSome := by
  obtain ⟨_, s, hs, hbefore⟩ := Outcome.exists_of_endsWith
    (p := fun s : CacheSt ℕ Bool => s.heap && (Interp.numpyHit s.cache 22).isNone &&
      ((twoModules []).numpy ((twoModules []).perform 0) 22 s).endsWith fun s' =>
        Interp.contains (fun t => s'.cache (.np t)) 22)
    (o := (twoModules []).history 0 [.action (.numpy 99), .action (.rebind true)] (.zeroed false))
    (by decide +kernel)
  rw [Bool.and_eq_true, Bool.and_eq_true, Option.isNone_iff_eq_none] at hbefore
  obtain ⟨⟨hheap, hmiss⟩, hcall⟩ := hbefore
  obtain ⟨r, s', hr, hcontains⟩ := Outcome.exists_of_endsWith hcall
  have hfound : (twoModules []).registered s = .found 2 := by
    rw [Interp.registered, hheap]
    rfl
  have hlaw := (Interp.numpy_miss_law (fun _ _ => ite_self []) 0 _ false 22 hs hmiss hr).mpr
    (Or.inr ⟨2, hfound⟩)
  refine ⟨s, r, s', hs, hr, hlaw, ?_⟩
  rw [hlaw.returns, if_pos hcontains]
  rfl

/-- An interpreter in which `sys.modules["numpy"]` is the module 1, and once the heap is rebound is
deleted. -/
def deletedNumpy : Interp ℕ Bool :=
  { twoModules [] with
    getItem := fun h d _ => if d = 0 then (if h then .missing else .found 1) else .found (d + 10) }

/-- **The group of a deleted numpy survives a miss.** -/
theorem numpy_miss_unlawful :
    deletedNumpy.Silent ∧ ∃ s r s',
      deletedNumpy.history 0 [.action (.numpy 99), .action (.rebind true)] (.zeroed false) = .ok () s ∧
      Interp.numpyHit s.cache 99 = none ∧
      deletedNumpy.numpy (deletedNumpy.perform 0) 99 s = .ok r s' ∧
      ¬ deletedNumpy.MissLaw 99 r s s' := by
  refine ⟨fun _ _ => ite_self [], ?_⟩
  obtain ⟨_, s, hs, hbefore⟩ := Outcome.exists_of_endsWith
    (p := fun s : CacheSt ℕ Bool => (Interp.numpyHit s.cache 99).isNone &&
      (deletedNumpy.numpy (deletedNumpy.perform 0) 99 s).endsWith fun s' =>
        s'.heap && (s'.cache .npModule).isSome)
    (o := deletedNumpy.history 0 [.action (.numpy 99), .action (.rebind true)] (.zeroed false))
    (by decide +kernel)
  rw [Bool.and_eq_true, Option.isNone_iff_eq_none] at hbefore
  obtain ⟨r, s', hr, hafter⟩ := Outcome.exists_of_endsWith hbefore.2
  rw [Bool.and_eq_true] at hafter
  refine ⟨s, r, s', hs, hbefore.1, hr, fun hlaw => ?_⟩
  rcases hlaw.current with habsent | ⟨module, hfound, -⟩
  · rw [habsent.1] at hafter
    exact absurd hafter.2 (by simp)
  · have hmissing : deletedNumpy.registered s' = .missing := by
      rw [Interp.registered, hafter.1]
      rfl
    exact absurd (hmissing.symm.trans hfound) (by simp)

end Isojson
