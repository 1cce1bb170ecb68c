import Isojson.CachePointers

/-!
# Whom the pointers of the type cache belong to

Between two operations every pointer of the cache owns one reference, and the numpy group is either
absent or complete, together with the module it was read from.  That can fail only if a finalizer
loads a group while an operation further out is still clearing it or about to write its own: such a
load is overwritten, or cleared in part (`CacheEvent.Undisturbed`).

Inside of an operation less holds (`Interp.Owner`): the code owns `held` besides, and of an absent
group only the slots in `S` need be null.
-/

namespace Isojson

open Run

variable {Obj H : Type} [DecidableEq Obj]

/-! ## References -/

/-- The pointers that are not null. -/
def Pointers.held (c : Pointers Obj) : List Obj := Slot.all.filterMap c

namespace CacheEvent

def taken : CacheEvent Obj H → Option Obj
  | .found _ _ _ o => some o
  | .took o => some o
  | _ => none

def released : CacheEvent Obj H → Option Obj
  | .dropped o => some o
  | _ => none

/-- A pointer is loaded where there was none, and a numpy type changes only while the group has no
owner. -/
def Undisturbed : CacheEvent Obj H → Prop
  | .wrote before slot p =>
      (p ≠ none → before slot = none) ∧
        (slot.isType → before slot ≠ p → before .npModule = none)
  | _ => True

instance : DecidablePred (Undisturbed : CacheEvent Obj H → Prop)
  | .wrote .. => inferInstanceAs (Decidable (_ ∧ _))
  | .found .. => inferInstanceAs (Decidable True)
  | .took _ => inferInstanceAs (Decidable True)
  | .dropped _ => inferInstanceAs (Decidable True)

end CacheEvent

/-- A change of one slot, as it counts. -/
lemma count_filterMap_update {ι : Type} [DecidableEq ι] {l : List ι} (hnodup : l.Nodup) {k : ι}
    (hk : k ∈ l) (f : ι → Option Obj) (p : Option Obj) (o : Obj) :
    (l.filterMap (Function.update f k p)).count o + (f k).toList.count o =
      (l.filterMap f).count o + p.toList.count o := by
  induction l with
  | nil => exact absurd hk List.not_mem_nil
  | cons x l ih =>
      obtain ⟨hx, hl⟩ := List.nodup_cons.mp hnodup
      have hcons : ∀ g : ι → Option Obj,
          ((x :: l).filterMap g).count o = (g x).toList.count o + (l.filterMap g).count o := by
        intro g
        rw [List.filterMap_cons]
        cases g x with
        | none => simp
        | some y =>
            rw [List.count_cons, Option.toList_some, List.count_cons, List.count_nil]
            omega
      rw [hcons, hcons]
      by_cases hxk : x = k
      · subst hxk
        have hrest : l.filterMap (Function.update f x p) = l.filterMap f :=
          List.filterMap_congr fun y hy => Function.update_of_ne (ne_of_mem_of_not_mem hy hx) ..
        rw [hrest, Function.update_self]
        omega
      · have hmem : k ∈ l := (List.mem_cons.mp hk).resolve_left fun h => hxk h.symm
        have hstep := ih hl hmem
        rw [Function.update_of_ne hxk]
        omega

lemma Pointers.count_held_update (c : Pointers Obj) (slot : Slot) (p : Option Obj) (o : Obj) :
    (Pointers.held (Function.update c slot p)).count o + (c slot).toList.count o =
      c.held.count o + p.toList.count o :=
  count_filterMap_update Slot.nodup_all slot.mem_all c p o

namespace CacheSt

def written (s : CacheSt Obj H) (slot : Slot) (p : Option Obj) : CacheSt Obj H :=
  { s with cache := Function.update s.cache slot p, log := s.log ++ [.wrote s.cache slot p] }

omit [DecidableEq Obj] in
def noted (s : CacheSt Obj H) (ev : CacheEvent Obj H) : CacheSt Obj H := { s with log := s.log ++ [ev] }

end CacheSt

namespace Interp

variable (i : Interp Obj H)

/-! ## The invariant -/

/-- The dict `d`, in the heap `h`, had `o` under the name of `t` when that was looked up. -/
def Read (s : CacheSt Obj H) (h : H) (d : Obj) (t : NumpySlot) (o : Obj) : Prop :=
  i.getItem h d t.name = .found o ∧ .found h d t.name o ∈ s.log

/-- The group in the cache was read, complete, from the dict of `module`. -/
def ReadFrom (s : CacheSt Obj H) (module : Obj) : Prop :=
  ∃ h d, i.moduleDict h module = some d ∧ ∀ t, ∃ o, s.cache (.np t) = some o ∧ i.Read s h d t o

structure Owner (S : NumpySlot → Prop) (held : List Obj) (s : CacheSt Obj H) : Prop where
  owned : ∀ o, (s.log.filterMap CacheEvent.taken).count o =
    (s.log.filterMap CacheEvent.released).count o + s.cache.held.count o + held.count o
  read : ∀ module, s.cache .npModule = some module → i.ReadFrom s module
  cleared : s.cache .npModule = none → ∀ t, S t → s.cache (.np t) = none

/-- The invariant, so far as no load was disturbed. -/
def Inv (S : NumpySlot → Prop) (held : List Obj) (s : CacheSt Obj H) : Prop :=
  (∀ ev ∈ s.log, ev.Undisturbed) → i.Owner S held s

variable {i} {S S' : NumpySlot → Prop} {held held' : List Obj} {s s' : CacheSt Obj H}

omit [DecidableEq Obj] in
lemma ReadFrom.of_log {module : Obj} (h : i.ReadFrom s module) (hcache : ∀ t, s'.cache (.np t) = s.cache (.np t))
    (hlog : ∀ ev ∈ s.log, ev ∈ s'.log) : i.ReadFrom s' module := by
  obtain ⟨h, d, hd, hread⟩ := h
  refine ⟨h, d, hd, fun t => ?_⟩
  obtain ⟨o, ho, hget, hmem⟩ := hread t
  exact ⟨o, (hcache t).trans ho, hget, hlog _ hmem⟩

lemma Inv.mono (h : i.Inv S held s) (hS : ∀ t, S' t → S t)
    (hheld : ∀ o, held'.count o = held.count o) : i.Inv S' held' s := by
  intro hquiet
  obtain ⟨howned, hread, hcleared⟩ := h hquiet
  refine ⟨fun o => ?_, hread, fun hnone t ht => hcleared hnone t (hS t ht)⟩
  rw [hheld]
  exact howned o

lemma Inv.of_cons {o : Obj} {l : List Obj} (h : i.Inv S (l ++ o :: held) s) :
    i.Inv S (o :: (l ++ held)) s :=
  h.mono (fun _ h => h) fun _ => (List.perm_middle.count_eq _).symm

/-- A step that only concerns references. -/
lemma Inv.noted {ev : CacheEvent Obj H} (h : i.Inv S held s)
    (hev : ∀ o, held'.count o + ev.released.toList.count o =
      held.count o + ev.taken.toList.count o) : i.Inv S held' (s.noted ev) := by
  intro hquiet
  obtain ⟨howned, hread, hcleared⟩ := h fun ev' h' => hquiet ev' (List.mem_append_left _ h')
  refine ⟨fun o => ?_, fun module hm => (hread module hm).of_log (fun _ => rfl)
    fun _ => List.mem_append_left _, hcleared⟩
  have hbefore := howned o
  have hstep := hev o
  have htaken : (s.log ++ [ev]).filterMap CacheEvent.taken =
      s.log.filterMap CacheEvent.taken ++ ev.taken.toList := by
    rw [List.filterMap_append]
    cases hevt : ev.taken <;> simp [hevt]
  have hreleased : (s.log ++ [ev]).filterMap CacheEvent.released =
      s.log.filterMap CacheEvent.released ++ ev.released.toList := by
    rw [List.filterMap_append]
    cases hevr : ev.released <;> simp [hevr]
  rw [CacheSt.noted, htaken, hreleased, List.count_append, List.count_append]
  dsimp only
  omega

lemma Inv.took {o : Obj} (h : i.Inv S held s) : i.Inv S (o :: held) (s.noted (.took o)) :=
  h.noted fun x => by simp [CacheEvent.taken, CacheEvent.released, List.count_cons]

lemma Inv.found {hp : H} {d o : Obj} {name : String} (h : i.Inv S held s) :
    i.Inv S (o :: held) (s.noted (.found hp d name o)) :=
  h.noted fun x => by simp [CacheEvent.taken, CacheEvent.released, List.count_cons]

lemma Inv.dropped {o : Obj} (h : i.Inv S (o :: held) s) : i.Inv S held (s.noted (.dropped o)) :=
  h.noted fun x => by simp [CacheEvent.taken, CacheEvent.released, List.count_cons]

/-- A write of a slot, so far as it concerns references. -/
lemma owned_written {slot : Slot} {p : Option Obj}
    (howned : ∀ o, (s.log.filterMap CacheEvent.taken).count o =
      (s.log.filterMap CacheEvent.released).count o + s.cache.held.count o + held.count o)
    (hheld : ∀ o, held'.count o + p.toList.count o = held.count o + (s.cache slot).toList.count o)
    (o : Obj) : ((s.written slot p).log.filterMap CacheEvent.taken).count o =
      ((s.written slot p).log.filterMap CacheEvent.released).count o +
        (s.written slot p).cache.held.count o + held'.count o := by
  have hbefore := howned o
  have hslot := s.cache.count_held_update slot p o
  have hstep := hheld o
  have htaken : (s.written slot p).log.filterMap CacheEvent.taken =
      s.log.filterMap CacheEvent.taken := by
    simp [CacheSt.written, CacheEvent.taken]
  have hreleased : (s.written slot p).log.filterMap CacheEvent.released =
      s.log.filterMap CacheEvent.released := by
    simp [CacheSt.written, CacheEvent.released]
  rw [htaken, hreleased]
  show _ = _ + (Pointers.held (Function.update s.cache slot p)).count o + _
  omega

/-- What is known of a state before a write that disturbs nothing. -/
lemma Inv.before {slot : Slot} {p : Option Obj} (h : i.Inv S held s)
    (hquiet : ∀ ev ∈ (s.written slot p).log, ev.Undisturbed) :
    i.Owner S held s ∧ (p ≠ none → s.cache slot = none) ∧
      (slot.isType → s.cache slot ≠ p → s.cache .npModule = none) :=
  ⟨h fun ev hev => hquiet ev (List.mem_append_left _ hev),
    hquiet _ (List.mem_append_right _ List.mem_cons_self)⟩

omit [DecidableEq Obj] in
lemma written_ne {slot slot' : Slot} {p : Option Obj} (hne : slot' ≠ slot) :
    (s.written slot p).cache slot' = s.cache slot' :=
  Function.update_of_ne hne ..

omit [DecidableEq Obj] in
lemma written_self {slot : Slot} {p : Option Obj} : (s.written slot p).cache slot = p :=
  Function.update_self ..

/-- A write of a slot other than those of the numpy group. -/
lemma Inv.written {slot : Slot} {p : Option Obj} (h : i.Inv S held s) (hmodule : slot ≠ .npModule)
    (hnp : ∀ t, slot ≠ .np t)
    (hheld : s.cache slot = none ∨ p = none → ∀ o,
      held'.count o + p.toList.count o = held.count o + (s.cache slot).toList.count o) :
    i.Inv S held' (s.written slot p) := by
  intro hquiet
  obtain ⟨⟨howned, hread, hcleared⟩, hnull, -⟩ := h.before hquiet
  have hstep := hheld (or_iff_not_imp_right.mpr hnull)
  refine ⟨owned_written howned hstep, fun module hm => ?_, fun hnone t ht => ?_⟩
  · rw [written_ne hmodule.symm] at hm
    exact (hread module hm).of_log (fun t => written_ne (hnp t).symm)
      fun _ => List.mem_append_left _
  · rw [written_ne hmodule.symm] at hnone
    rw [written_ne (hnp t).symm]
    exact hcleared hnone t ht

/-- A type slot is cleared. -/
lemma Inv.cleared {t : NumpySlot} (h : i.Inv S held s) :
    i.Inv (fun t' => S t' ∨ t' = t) ((s.cache (.np t)).toList ++ held) (s.written (.np t) none) := by
  intro hquiet
  obtain ⟨⟨howned, hread, hcleared⟩, -, hchange⟩ := h.before hquiet
  refine ⟨owned_written howned fun o => ?_, fun module hm => ?_, fun hnone t' ht' => ?_⟩
  · rw [List.count_append, Option.toList_none, List.count_nil]
    omega
  · rw [written_ne (by simp)] at hm
    by_cases hslot : s.cache (.np t) = none
    · refine (hread module hm).of_log (fun t' => ?_) fun _ => List.mem_append_left _
      by_cases ht : t' = t
      · rw [ht, written_self, hslot]
      · exact written_ne (by simpa using ht)
    · rw [hchange rfl hslot] at hm
      exact absurd hm (by simp)
  · rw [written_ne (by simp)] at hnone
    by_cases ht : t' = t
    · rw [ht, written_self]
    · rw [written_ne (by simpa using ht)]
      exact hcleared hnone t' (ht'.resolve_right ht)

/-- The owner is cleared. -/
lemma Inv.disowned (h : i.Inv S held s) :
    i.Inv (fun _ => False) ((s.cache .npModule).toList ++ held) (s.written .npModule none) := by
  intro hquiet
  obtain ⟨⟨howned, -, -⟩, -, -⟩ := h.before hquiet
  refine ⟨owned_written howned fun o => ?_, fun module hm => ?_, fun _ _ h => h.elim⟩
  · rw [List.count_append, Option.toList_none, List.count_nil]
    omega
  · rw [written_self] at hm
    exact absurd hm (by simp)

/-- A type slot is loaded. -/
lemma Inv.loaded {t : NumpySlot} {o : Obj} (h : i.Inv S (o :: held) s) :
    i.Inv (fun _ => False) held (s.written (.np t) (some o)) := by
  intro hquiet
  obtain ⟨⟨howned, -, -⟩, hnull, hchange⟩ := h.before hquiet
  have hslot := hnull (by simp)
  refine ⟨owned_written howned fun x => ?_, fun module hm => ?_, fun _ _ h => h.elim⟩
  · rw [hslot, Option.toList_some, Option.toList_none, List.count_cons, List.count_cons]
    simp
  · rw [written_ne (by simp), hchange rfl (by simp [hslot])] at hm
    exact absurd hm (by simp)

/-- The owner is loaded, behind its group. -/
lemma Inv.adopted {module : Obj} (h : i.Inv S (module :: held) s) (hread : i.ReadFrom s module) :
    i.Inv (fun _ => True) held (s.written .npModule (some module)) := by
  intro hquiet
  obtain ⟨⟨howned, -, -⟩, hnull, -⟩ := h.before hquiet
  have hslot := hnull (by simp)
  refine ⟨owned_written howned fun x => ?_, fun module' hm => ?_, fun hnone => ?_⟩
  · rw [hslot, Option.toList_some, Option.toList_none, List.count_cons, List.count_cons]
    simp
  · rw [written_self, Option.some.injEq] at hm
    subst hm
    exact hread.of_log (fun t => written_ne (by simp)) fun _ => List.mem_append_left _
  · rw [written_self] at hnone
    exact absurd hnone (by simp)

/-! ## Lookups -/

omit [DecidableEq Obj] in
@[simp] lemma wp_note {C : CacheSt Obj H → Prop} {Q : Unit → CacheSt Obj H → Prop}
    {E : PendingPyErr → CacheSt Obj H → Prop} (ev : CacheEvent Obj H) :
    wp C (note ev) Q E s ↔ Q () (s.noted ev) := Iff.rfl

omit [DecidableEq Obj] in
@[simp] lemma wp_write {C : CacheSt Obj H → Prop} {Q : Unit → CacheSt Obj H → Prop}
    {E : PendingPyErr → CacheSt Obj H → Prop} (slot : Slot) (p : Option Obj) :
    wp C (write slot p) Q E s ↔ Q () (s.written slot p) := Iff.rfl

variable (i)

/-- What a lookup leaves: a reference to what it found, which the log says. -/
structure Looked (S : NumpySlot → Prop) (held : List Obj) (s : CacheSt Obj H) (d : Obj)
    (name : String) (r : Option Obj) (s' : CacheSt Obj H) : Prop where
  inv : i.Inv S (r.toList ++ held) s'
  heap : s'.heap = s.heap
  cache : s'.cache = s.cache
  log : ∀ ev ∈ s.log, ev ∈ s'.log
  found : ∀ o, r = some o → i.getItem s.heap d name = .found o ∧ .found s.heap d name o ∈ s'.log
  missing : r = none → i.getItem s.heap d name = .missing

variable {i}

lemma lookup_spec (h : i.Inv S held s) (d : Obj) (name : String) :
    wp (fun _ => True) (i.lookup d name) (i.Looked S held s d name) (fun _ s' => i.Inv S held s') s := by
  unfold lookup
  rw [wp_bind, wp_get]
  cases hget : i.getItem s.heap d name with
  | found o =>
      refine ⟨h.found, rfl, rfl, fun _ => List.mem_append_left _, ?_, fun h => absurd h (by simp)⟩
      rintro _ ⟨⟩
      exact ⟨hget, List.mem_append_right _ List.mem_cons_self⟩
  | missing => exact ⟨h, rfl, rfl, fun _ h => h, fun _ h => absurd h (by simp), fun _ => hget⟩
  | failed exc => exact h

lemma getNamed_spec (h : i.Inv S held s) (d : Obj) (name : String) :
    wp (fun _ => True) (i.getNamed d name) (i.Looked S held s d name) (fun _ s' => i.Inv S held s') s := by
  unfold getNamed
  rw [wp_bind, wp_get]
  cases i.intern s.heap name with
  | none => exact h
  | some key =>
      have hkey : i.Inv S (key :: held) (s.noted (.took key)) := h.took
      simp only [wp_bind, wp_note, wp_onExit]
      refine (lookup_spec hkey d name).mono ?_ (fun _ _ h => h.dropped) fun _ h => h
      intro r s' hs'
      refine ⟨hs'.inv.of_cons.dropped, hs'.heap, hs'.cache, fun ev hev => ?_, fun o ho => ?_, hs'.missing⟩
      · exact List.mem_append_left _ (hs'.log _ (List.mem_append_left _ hev))
      · exact (hs'.found o ho).imp id (List.mem_append_left _)

/-! ## Releases -/

section Nested

variable {nested : Action Obj H → Caching Obj H Unit}

/-- What a step of a finalizer keeps, at any point of the operations further out. -/
def Nests (i : Interp Obj H) (nested : Action Obj H → Caching Obj H Unit) : Prop :=
  ∀ action S held s, i.Inv S held s →
    wp (fun _ => True) (nested action) (fun _ s' => i.Inv S held s') (fun _ _ => False) s

lemma runEach_spec (hn : Nests i nested) (actions : List (Action Obj H)) (h : i.Inv S held s) :
    wp (fun _ => True) (runEach nested actions) (fun _ s' => i.Inv S held s') (fun _ _ => False) s := by
  induction actions generalizing s with
  | nil => exact h
  | cons action actions ih =>
      rw [runEach, wp_bind]
      exact (hn action S held s h).mono (fun _ _ h' => ih h') (fun _ _ h => h) fun _ h => h

lemma decref_spec (hn : Nests i nested) {o : Obj} (h : i.Inv S (o :: held) s) :
    wp (fun _ => True) (i.decref nested o) (fun _ s' => i.Inv S held s') (fun _ _ => False) s := by
  unfold decref
  rw [wp_bind, wp_note, wp_bind, wp_get]
  exact runEach_spec hn _ h.dropped

/-- The end of a release: the slot is null, and its reference is the code's. -/
lemma release_of_written (hn : Nests i nested) {slot : Slot}
    (h : i.Inv S ((s.cache slot).toList ++ held) (s.written slot none)) :
    wp (fun _ => True) (i.release nested slot) (fun _ s' => i.Inv S held s') (fun _ _ => False) s := by
  unfold release
  rw [wp_bind, wp_get, wp_bind, wp_write]
  cases hslot : s.cache slot with
  | none =>
      rw [hslot] at h
      exact h
  | some p =>
      rw [hslot] at h
      exact decref_spec hn h

lemma releaseNp_spec (hn : Nests i nested) (ts : List NumpySlot) (h : i.Inv S held s) :
    wp (fun _ => True) (i.releaseEach nested (ts.map .np))
      (fun _ s' => i.Inv (fun t => S t ∨ t ∈ ts) held s') (fun _ _ => False) s := by
  induction ts generalizing S s with
  | nil => exact h.mono (fun t ht => ht.resolve_right List.not_mem_nil) fun _ => rfl
  | cons t ts ih =>
      rw [List.map_cons, releaseEach, wp_bind]
      refine (release_of_written hn h.cleared).mono (fun _ s1 h1 => ?_) (fun _ _ h => h) fun _ h => h
      refine (ih h1).mono (fun _ s2 h2 => h2.mono (fun t' ht' => ?_) fun _ => rfl) (fun _ _ h => h)
        fun _ h => h
      rcases ht' with ht' | ht'
      · exact Or.inl (Or.inl ht')
      · exact (List.mem_cons.mp ht').imp Or.inr id

/-- Releases outside of the numpy group. -/
lemma releaseEach_spec (hn : Nests i nested) (slots : List Slot)
    (hslots : ∀ slot ∈ slots, slot ≠ .npModule ∧ ∀ t, slot ≠ .np t) (h : i.Inv S held s) :
    wp (fun _ => True) (i.releaseEach nested slots) (fun _ s' => i.Inv S held s')
      (fun _ _ => False) s := by
  induction slots generalizing s with
  | nil => exact h
  | cons slot slots ih =>
      obtain ⟨⟨hmodule, hnp⟩, hslots⟩ := List.forall_mem_cons.mp hslots
      have hwritten : i.Inv S ((s.cache slot).toList ++ held) (s.written slot none) :=
        h.written hmodule hnp fun _ o => by
          rw [List.count_append, Option.toList_none, List.count_nil]
          omega
      rw [releaseEach, wp_bind]
      exact (release_of_written hn hwritten).mono (fun _ _ h1 => ih hslots h1) (fun _ _ h => h)
        fun _ h => h

/-- **`clear_numpy`** leaves no pointer in an absent group, whatever finalizers do. -/
lemma clearNumpy_spec (hn : Nests i nested) (h : i.Inv S held s) :
    wp (fun _ => True) (i.clearNumpy nested) (fun _ s' => i.Inv (fun _ => True) held s')
      (fun _ _ => False) s := by
  unfold clearNumpy releaseAll
  rw [wp_bind]
  refine (release_of_written hn h.disowned).mono (fun _ s1 h1 => ?_) (fun _ _ h => h) fun _ h => h
  exact (releaseNp_spec hn _ h1).mono
    (fun _ _ h2 => h2.mono (fun t _ => Or.inr t.mem_all) fun _ => rfl) (fun _ _ h => h) fun _ h => h

lemma dropEach_spec (hn : Nests i nested) (np : NumpySlot → Option Obj) (ts : List NumpySlot)
    (h : i.Inv S (ts.filterMap np ++ held) s) :
    wp (fun _ => True) (i.dropEach nested np ts) (fun _ s' => i.Inv S held s') (fun _ _ => False) s := by
  induction ts generalizing s with
  | nil => exact h
  | cons t ts ih =>
      rw [dropEach]
      rw [List.filterMap_cons] at h
      cases ht : np t with
      | none =>
          rw [ht] at h
          exact ih h
      | some o =>
          rw [ht] at h
          rw [wp_bind]
          exact (decref_spec hn h).mono (fun _ _ h1 => ih h1) (fun _ _ h => h) fun _ h => h

/-! ## The numpy group -/

/-- The slots of `np` are read from `d`, but for those in `ts`. -/
def ReadBut (i : Interp Obj H) (s : CacheSt Obj H) (h : H) (d : Obj) (ts : List NumpySlot)
    (np : NumpySlot → Option Obj) : Prop :=
  (∀ t ∈ ts, np t = none) ∧ ∀ t, t ∉ ts → ∃ o, np t = some o ∧ i.Read s h d t o

lemma readEach_spec (hn : Nests i nested) {d : Obj} {ts : List NumpySlot}
    {np : NumpySlot → Option Obj} {hp : H} (hheap : s.heap = hp) (hnodup : ts.Nodup)
    (hread : i.ReadBut s hp d ts np) (h : i.Inv S (NumpySlot.all.filterMap np ++ held) s) :
    wp (fun _ => True) (i.readEach nested d ts np)
      (fun r s' => match r with
        | some np' => i.Inv S (NumpySlot.all.filterMap np' ++ held) s' ∧ i.ReadBut s' hp d [] np'
        | none => i.Inv S held s' ∧ ∃ t : NumpySlot, i.getItem hp d t.name = .missing)
      (fun _ s' => i.Inv S held s') s := by
  induction ts generalizing np s with
  | nil => exact ⟨h, hread⟩
  | cons t ts ih =>
      obtain ⟨ht, hts⟩ := List.nodup_cons.mp hnodup
      obtain ⟨hnull, hsome⟩ := hread
      have hdrop : ∀ {s1 : CacheSt Obj H}, i.Inv S (NumpySlot.all.filterMap np ++ held) s1 →
          wp (fun _ => True) (i.dropEach nested np NumpySlot.all) (fun _ s' => i.Inv S held s')
            (fun _ _ => False) s1 := fun h1 => dropEach_spec hn np _ h1
      rw [readEach, wp_bind, wp_attempt]
      refine (getNamed_spec h d t.name).mono ?_ ?_ fun _ h => h
      · intro r s1 hs1
        cases r with
        | none =>
            simp only [wp_bind]
            have hmissing := hs1.missing rfl
            rw [hheap] at hmissing
            exact (hdrop hs1.inv).mono (fun _ _ h2 => ⟨h2, t, hmissing⟩) (fun _ _ h => h.elim) fun _ h => h
        | some o =>
            refine ih (hs1.heap.trans hheap) hts ⟨fun t' ht' => ?_, fun t' ht' => ?_⟩ ?_
            · rw [Function.update_of_ne (ne_of_mem_of_not_mem ht' ht)]
              exact hnull t' (List.mem_cons_of_mem _ ht')
            · by_cases htt : t' = t
              · subst htt
                obtain ⟨hget, hmem⟩ := hs1.found o rfl
                rw [hheap] at hget hmem
                exact ⟨o, Function.update_self .., hget, hmem⟩
              · obtain ⟨o', ho', hget, hmem⟩ := hsome t' fun h => (List.mem_cons.mp h).elim htt ht'
                exact ⟨o', (Function.update_of_ne htt ..).trans ho', hget, hs1.log _ hmem⟩
            · refine hs1.inv.mono (fun _ h => h) fun x => ?_
              have hcount := count_filterMap_update NumpySlot.nodup_all t.mem_all np (some o) x
              rw [hnull t List.mem_cons_self] at hcount
              rw [List.count_append, List.count_append, List.count_append]
              simp only [Option.toList_none, List.count_nil] at hcount
              omega
      · intro err s1 hs1
        simp only [wp_bind]
        exact (hdrop hs1).mono (fun _ _ h2 => h2) (fun _ _ h => h.elim) fun _ h => h

lemma readNumpy_spec (hn : Nests i nested) (d : Obj) (h : i.Inv S held s) :
    wp (fun _ => True) (i.readNumpy nested d)
      (fun r s' => match r with
        | some np' => i.Inv S (NumpySlot.all.filterMap np' ++ held) s' ∧ i.ReadBut s' s.heap d [] np'
        | none => i.Inv S held s' ∧ ∃ t : NumpySlot, i.getItem s.heap d t.name = .missing)
      (fun _ s' => i.Inv S held s') s :=
  readEach_spec hn rfl NumpySlot.nodup_all ⟨fun _ _ => rfl, fun t ht => absurd t.mem_all ht⟩ h

omit [DecidableEq Obj] in
/-- What the writes of a whole group leave. -/
structure Stored (np : NumpySlot → Option Obj) (ts : List NumpySlot) (s s' : CacheSt Obj H) : Prop where
  loaded : ∀ t ∈ ts, s'.cache (.np t) = np t
  heap : s'.heap = s.heap
  log : ∀ ev ∈ s.log, ev ∈ s'.log

lemma writeEach_spec {np : NumpySlot → Option Obj} {ts : List NumpySlot} (hnodup : ts.Nodup)
    (hsome : ∀ t ∈ ts, (np t).isSome) (h : i.Inv S (ts.filterMap np ++ held) s) :
    wp (fun _ => True) (writeEach np ts)
      (fun _ s' => i.Inv (fun _ => False) held s' ∧ Stored np ts s s' ∧
        ∀ slot, (∀ t ∈ ts, slot ≠ .np t) → s'.cache slot = s.cache slot) (fun _ _ => False) s := by
  induction ts generalizing S s with
  | nil => exact ⟨h.mono (fun _ h => h.elim) fun _ => rfl, ⟨by simp, rfl, fun _ h => h⟩, fun _ _ => rfl⟩
  | cons t ts ih =>
      obtain ⟨ht, hts⟩ := List.nodup_cons.mp hnodup
      obtain ⟨hsome', hsome⟩ := List.forall_mem_cons.mp hsome
      obtain ⟨o, ho⟩ := Option.isSome_iff_exists.mp hsome'
      rw [List.filterMap_cons, ho] at h
      rw [writeEach, wp_bind, wp_write, ho]
      refine (ih hts hsome h.loaded).mono ?_ (fun _ _ h => h) fun _ h => h
      rintro _ s1 ⟨h1, hstored, hother⟩
      refine ⟨h1, ⟨fun t' ht' => ?_, hstored.heap, fun ev hev => hstored.log _ (List.mem_append_left _ hev)⟩,
        fun slot hslot => ?_⟩
      · rcases List.mem_cons.mp ht' with rfl | ht'
        · rw [hother _ fun t'' ht'' => by simpa using (ne_of_mem_of_not_mem ht'' ht).symm, written_self, ho]
        · exact hstored.loaded t' ht'
      · obtain ⟨hne, hslot⟩ := List.forall_mem_cons.mp hslot
        exact (hother slot hslot).trans (written_ne hne)

lemma loadNumpy_spec (hn : Nests i nested) (ty module : Obj)
    (h : i.Inv (fun _ => True) (module :: held) s) :
    wp (fun _ => True) (i.loadNumpy nested ty module) (fun _ s' => i.Inv (fun _ => True) held s')
      (fun _ s' => i.Inv (fun _ => True) held s') s := by
  unfold loadNumpy
  rw [wp_bind, wp_get]
  cases hd : i.moduleDict s.heap module with
  | none =>
      simp only [wp_bind]
      exact (decref_spec hn h).mono (fun _ _ h1 => h1) (fun _ _ h => h.elim) fun _ h => h
  | some d =>
      simp only [wp_bind, wp_attempt]
      refine (readNumpy_spec hn d h).mono ?_ ?_ fun _ h => h
      · intro r s1 h1
        cases r with
        | none =>
            simp only [wp_bind]
            exact (decref_spec hn h1.1).mono (fun _ _ h2 => h2) (fun _ _ h => h.elim) fun _ h => h
        | some np =>
            obtain ⟨h1, -, hread⟩ := h1
            simp only [wp_bind]
            have hsome : ∀ t ∈ NumpySlot.all, (np t).isSome := by
              intro t _
              obtain ⟨o, ho, -⟩ := hread t List.not_mem_nil
              rw [ho]
              rfl
            refine (writeEach_spec NumpySlot.nodup_all hsome h1).mono ?_ (fun _ _ h => h.elim) fun _ h => h
            rintro _ s2 ⟨h2, hstored, -⟩
            refine h2.adopted ⟨s.heap, d, hd, fun t => ?_⟩
            obtain ⟨o, ho, hget, hmem⟩ := hread t List.not_mem_nil
            exact ⟨o, (hstored.loaded t t.mem_all).trans ho, hget, hstored.log _ hmem⟩
      · intro err s1 h1
        refine wp_bind.mpr ?_
        exact (decref_spec hn h1).mono (fun _ _ h2 => h2) (fun _ _ h => h.elim) fun _ h => h

/-- **`numpy` keeps the invariant**, at any point of an operation further out. -/
lemma numpy_spec (hn : Nests i nested) (ty : Obj) (h : i.Inv S held s) :
    wp (fun _ => True) (i.numpy nested ty) (fun _ s' => i.Inv S held s') (fun _ s' => i.Inv S held s')
      s := by
  have hall : ∀ {s' : CacheSt Obj H}, i.Inv (fun _ => True) held s' → i.Inv S held s' :=
    fun h' => h'.mono (fun _ _ => trivial) fun _ => rfl
  unfold numpy
  rw [wp_bind, wp_get]
  cases numpyHit s.cache ty with
  | some np => exact h
  | none =>
      by_cases hname : s.cache (.name .numpy) = none
      · simp only [if_pos hname]
        exact h
      · simp only [if_neg hname, wp_bind]
        refine (lookup_spec h _ _).mono ?_ (fun _ _ h => h) fun _ h => h
        intro r s1 hs1
        cases r with
        | none => exact hs1.inv
        | some module =>
            simp only [wp_bind, wp_get]
            by_cases hsame : s1.cache .npModule = some module
            · rw [if_pos hsame, wp_bind]
              exact (decref_spec hn hs1.inv).mono (fun _ _ h2 => h2) (fun _ _ h => h.elim) fun _ h => h
            · rw [if_neg hsame, wp_bind]
              refine (clearNumpy_spec hn hs1.inv).mono (fun _ s2 h2 => ?_) (fun _ _ h => h.elim)
                fun _ h => h
              exact (loadNumpy_spec hn ty module h2).mono (fun _ _ h3 => hall h3) (fun _ _ h3 => hall h3)
                fun _ h => h

/-! ## The datetime group -/

lemma takeEach_spec (types : DtSlot → Obj) (ds : List DtSlot) (h : i.Inv S held s) :
    wp (fun _ => True) (takeEach types ds) (fun _ s' => i.Inv S (ds.map types ++ held) s')
      (fun _ _ => False) s := by
  induction ds generalizing held s with
  | nil => exact h
  | cons d ds ih =>
      rw [takeEach, wp_bind, wp_note]
      exact (ih h.took).mono (fun _ _ h1 => h1.of_cons) (fun _ _ h => h) fun _ h => h

/-- The load of a slot outside of the numpy group. -/
lemma Inv.kept {slot : Slot} {o : Obj} (h : i.Inv S (o :: held) s) (hmodule : slot ≠ .npModule)
    (hnp : ∀ t, slot ≠ .np t) : i.Inv S held (s.written slot (some o)) := by
  refine h.written hmodule hnp fun hnull x => ?_
  rw [hnull.resolve_right (by simp), Option.toList_some, Option.toList_none, List.count_cons,
    List.count_cons]
  simp

lemma writeDt_spec (types : DtSlot → Obj) (ds : List DtSlot) (h : i.Inv S (ds.map types ++ held) s) :
    wp (fun _ => True) (writeDt types ds) (fun _ s' => i.Inv S held s') (fun _ _ => False) s := by
  induction ds generalizing s with
  | nil => exact h
  | cons d ds ih =>
      rw [writeDt, wp_bind, wp_write]
      exact ih (h.kept (by simp) (by simp))

lemma loadCapsule_spec (hn : Nests i nested) (cap : Obj) (h : i.Inv S (cap :: held) s) :
    wp (fun _ => True) (i.loadCapsule nested cap) (fun _ s' => i.Inv S held s')
      (fun _ s' => i.Inv S held s') s := by
  unfold loadCapsule
  rw [wp_bind, wp_get]
  cases i.api s.heap cap with
  | none =>
      simp only [wp_bind]
      exact (decref_spec hn h).mono (fun _ _ h1 => h1) (fun _ _ h => h.elim) fun _ h => h
  | some types =>
      simp only [wp_bind]
      refine (takeEach_spec types DtSlot.all h).mono (fun _ s1 h1 => ?_) (fun _ _ h => h.elim)
        fun _ h => h
      refine (writeDt_spec types DtSlot.all h1).mono (fun _ s2 h2 => ?_) (fun _ _ h => h.elim)
        fun _ h => h
      exact h2.kept (by simp) (by simp)

lemma capsuleOf_spec (module : Obj) (h : i.Inv S held s) :
    wp (fun _ => True) (i.capsuleOf module) (fun r s' => i.Inv S (r.toList ++ held) s')
      (fun _ s' => i.Inv S held s') s := by
  unfold capsuleOf
  rw [wp_bind, wp_get]
  cases i.moduleDict s.heap module with
  | none => exact h
  | some d => exact (lookup_spec h d _).mono (fun _ _ h1 => h1.inv) (fun _ _ h => h) fun _ h => h

lemma datetime_spec (hn : Nests i nested) (h : i.Inv S held s) :
    wp (fun _ => True) (i.datetime nested) (fun _ s' => i.Inv S held s')
      (fun _ s' => i.Inv S held s') s := by
  unfold datetime loadDatetime
  rw [wp_bind, wp_get]
  by_cases hdt : (s.cache .dtCapsule).isSome = true
  · rw [if_pos hdt]
    exact h
  · rw [if_neg hdt, wp_bind, wp_get]
    by_cases hname : s.cache (.name .datetimeMod) = none
    · rw [if_pos hname]
      exact h
    · rw [if_neg hname, wp_bind]
      refine (lookup_spec h _ _).mono ?_ (fun _ _ h => h) fun _ h => h
      intro r s1 hs1
      cases r with
      | none => exact hs1.inv
      | some module =>
          simp only [wp_bind, wp_attempt]
          refine (capsuleOf_spec module hs1.inv).mono ?_ ?_ fun _ h => h
          · intro cap s2 h2
            have hmodule : i.Inv S (module :: (cap.toList ++ held)) s2 := h2.of_cons
            refine (decref_spec hn hmodule).mono (fun _ s3 h3 => ?_) (fun _ _ h => h.elim) fun _ h => h
            cases cap with
            | none => exact h3
            | some cap => exact loadCapsule_spec hn cap h3
          · intro err s2 h2
            refine (decref_spec hn h2).mono (fun _ s3 h3 => ?_) (fun _ _ h => h.elim) fun _ h => h
            exact h3

/-! ## The module state -/

lemma clear_spec (hn : Nests i nested) (h : i.Inv S held s) :
    wp (fun _ => True) (i.clear nested) (fun _ s' => i.Inv (fun _ => True) held s')
      (fun _ _ => False) s := by
  unfold clear
  rw [wp_bind]
  refine (releaseEach_spec hn _ (by simp) h).mono (fun _ s1 h1 => ?_) (fun _ _ h => h) fun _ h => h
  rw [wp_bind]
  refine (clearNumpy_spec hn h1).mono (fun _ s2 h2 => ?_) (fun _ _ h => h) fun _ h => h
  exact releaseEach_spec hn _ (by simp) h2

end Nested

lemma initEach_spec (ns : List NameSlot) (h : i.Inv S held s) :
    wp (fun _ => True) (i.initEach ns) (fun _ s' => i.Inv S held s') (fun _ _ => False) s := by
  induction ns generalizing s with
  | nil => exact h
  | cons n ns ih =>
      rw [initEach, wp_bind, wp_get]
      cases i.intern s.heap n.text with
      | none => exact h
      | some key =>
          simp only [wp_bind, wp_note, wp_write]
          exact ih (h.took.kept (by simp) (by simp))

/-- **A finalizer keeps the invariant**, however deep it nests. -/
lemma nests_perform (i : Interp Obj H) (fuel : ℕ) : Nests i (i.perform fuel) := by
  induction fuel with
  | zero => exact fun _ _ _ _ _ => trivial
  | succ fuel ih =>
      intro action S held s h
      cases action with
      | rebind hp =>
          exact fun hquiet => ⟨(h hquiet).owned, (h hquiet).read, (h hquiet).cleared⟩
      | datetime =>
          simp only [perform, wp_bind, wp_attempt, wp_pure]
          exact datetime_spec ih h
      | numpy ty =>
          simp only [perform, wp_bind, wp_attempt, wp_pure]
          exact numpy_spec ih ty h

lemma operate_spec (fuel : ℕ) (op : CacheOp Obj H) (h : i.Inv (fun _ => True) [] s) :
    wp (fun _ => True) (i.operate fuel op) (fun _ s' => i.Inv (fun _ => True) [] s')
      (fun _ _ => False) s := by
  cases op with
  | action action => exact nests_perform i (fuel + 1) action _ _ s h
  | traverse visit => exact h
  | clear => exact clear_spec (nests_perform i fuel) h

lemma operateAll_spec (fuel : ℕ) (ops : List (CacheOp Obj H)) (h : i.Inv (fun _ => True) [] s) :
    wp (fun _ => True) (i.operateAll fuel ops) (fun _ s' => i.Inv (fun _ => True) [] s')
      (fun _ _ => False) s := by
  induction ops generalizing s with
  | nil => exact h
  | cons op ops ih =>
      rw [operateAll, wp_bind]
      exact (operate_spec fuel op h).mono (fun _ _ h1 => ih h1) (fun _ _ h => h) fun _ h => h

lemma inv_zeroed (i : Interp Obj H) (hp : H) : i.Inv S [] (.zeroed hp) :=
  fun _ => ⟨fun _ => rfl, fun _ h => absurd h (by simp [CacheSt.zeroed]), fun _ _ _ => rfl⟩

lemma history_spec (i : Interp Obj H) (fuel : ℕ) (ops : List (CacheOp Obj H)) (hp : H) :
    wp (fun _ => True) (i.history fuel ops) (fun _ s' => i.Inv (fun _ => True) [] s')
      (fun _ _ => False) (.zeroed hp) := by
  unfold history init
  rw [wp_bind]
  exact (initEach_spec _ (inv_zeroed i hp)).mono (fun _ _ h => operateAll_spec fuel ops h)
    (fun _ _ h => h) fun _ h => h

/-! ## Between two operations -/

omit [DecidableEq Obj] in
lemma visitEach_eq (c : Pointers Obj) (slots : List Slot) :
    visitEach c (fun _ => 0) slots = (slots.filterMap c, 0) := by
  induction slots with
  | nil => rfl
  | cons slot slots ih =>
      rw [visitEach, List.filterMap_cons]
      cases c slot with
      | none => exact ih
      | some o => simp only [ih, if_true]

variable (i)

/-- The state of the cache between two operations: the numpy group is absent if and only if it has
no owner, what is there was read from the owner's dict, every pointer owns one reference and no other
is owned, and `traverse` visits the pointers. -/
structure Consistent (s : CacheSt Obj H) : Prop where
  absent : s.cache .npModule = none ↔ ∀ t, s.cache (.np t) = none
  read : ∀ t o, s.cache (.np t) = some o → ∃ module h d, s.cache .npModule = some module ∧
    i.moduleDict h module = some d ∧ i.Read s h d t o
  owned : ∀ o, (s.log.filterMap CacheEvent.taken).count o =
    (s.log.filterMap CacheEvent.released).count o + s.cache.held.count o
  traversed : traverse s.cache (fun _ => 0) = (s.cache.held, 0)

variable {i}

lemma Owner.consistent (h : i.Owner (fun _ => True) [] s) : i.Consistent s := by
  obtain ⟨howned, hread, hcleared⟩ := h
  have hnone : s.cache .npModule = none → ∀ t, s.cache (.np t) = none :=
    fun hnone t => hcleared hnone t trivial
  refine ⟨⟨hnone, fun hnull => ?_⟩, fun t o ho => ?_, fun o => ?_, visitEach_eq _ _⟩
  · cases hm : s.cache .npModule with
    | none => rfl
    | some module =>
        obtain ⟨h, d, -, hslots⟩ := hread module hm
        obtain ⟨o, ho, -⟩ := hslots .ndarray
        rw [hnull] at ho
        exact absurd ho (by simp)
  · cases hm : s.cache .npModule with
    | none =>
        rw [hnone hm t] at ho
        exact absurd ho (by simp)
    | some module =>
        obtain ⟨h, d, hd, hslots⟩ := hread module hm
        obtain ⟨o', ho', hread'⟩ := hslots t
        obtain rfl := Option.some.inj (ho.symm.trans ho')
        exact ⟨module, h, d, rfl, hd, hread'⟩
  · simpa using howned o

/-- **The cache is consistent between two operations**, in every history in which no load was
disturbed. -/
theorem history_consistent (i : Interp Obj H) (fuel : ℕ) (ops : List (CacheOp Obj H)) (hp : H)
    {s : CacheSt Obj H} (hrun : i.history fuel ops (.zeroed hp) = .ok () s)
    (hquiet : ∀ ev ∈ s.log, ev.Undisturbed) : i.Consistent s :=
  ((history_spec i fuel ops hp).of_ok hrun hquiet).consistent

end Interp

/-! ## Two modules -/

/-- An interpreter in which `sys.modules["numpy"]` is the module 1, and once it is rebound the module
2.  Every name of a module is bound to one type, and a release of the module 1 runs `actions`. -/
def twoModules (actions : List (Action ℕ Bool)) : Interp ℕ Bool where
  view _ _ := ⟨none, "type", .other⟩
  tupleItems _ := []
  pyNone := 0
  memory _ _ := 0
  callable _ _ := false
  reply _ w := (.raised 0, w)
  pylong _ _ := false
  modules := 0
  getItem h d _ := .found (if d = 0 then (if h then 2 else 1) else d + 10)
  moduleDict _ o := if o = 1 ∨ o = 2 then some (o + 10) else none
  datetimeApi _ _ := none
  ownUtcoffset_valid _ _ _ _ h := absurd (congrArg Prod.fst h) (by simp)
  str_valid _ _ _ _ h := absurd (congrArg Prod.fst h) (by simp)
  toBase_decimal _ _ _ _ _ _ h := absurd (congrArg Prod.fst h) (by simp)
  intern _ _ := some 5
  deltaType _ _ := 0
  finalizer o _ := if o = 1 then actions else []

/-- numpy is replaced, and the next miss reads the new group. -/
def replaceNumpy : List (CacheOp ℕ Bool) :=
  [.action (.numpy 99), .action (.rebind true), .action (.numpy 99)]

/-- A finalizer that looks the datetime group up is no disturbance. -/
theorem history_consistent_replaced :
    ∃ s, (twoModules [.datetime]).history 1 replaceNumpy (.zeroed false) = .ok () s ∧
      (twoModules [.datetime]).Consistent s := by
  obtain ⟨_, s, hs, hquiet⟩ := Outcome.exists_of_endsWith
    (p := fun s : CacheSt ℕ Bool => s.log.all fun ev => decide ev.Undisturbed)
    (o := (twoModules [.datetime]).history 1 replaceNumpy (.zeroed false)) (by decide +kernel)
  refine ⟨s, hs, Interp.history_consistent _ 1 replaceNumpy false hs fun ev hev => ?_⟩
  exact of_decide_eq_true (List.all_eq_true.mp hquiet ev hev)

/-- **A finalizer that calls `dumps`** when the old module goes loads the new group in the middle of
the clearing.  The outer call writes over it, and a reference to the new module is lost. -/
theorem history_inconsistent :
    ∃ s, (twoModules [.numpy 99]).history 2 replaceNumpy (.zeroed false) = .ok () s ∧
      ¬ (twoModules [.numpy 99]).Consistent s := by
  obtain ⟨_, s, hs, hlost⟩ := Outcome.exists_of_endsWith
    (p := fun s : CacheSt ℕ Bool => decide ((s.log.filterMap CacheEvent.taken).count 2 ≠
      (s.log.filterMap CacheEvent.released).count 2 + s.cache.held.count 2))
    (o := (twoModules [.numpy 99]).history 2 replaceNumpy (.zeroed false)) (by decide +kernel)
  exact ⟨s, hs, fun h => of_decide_eq_true hlost (h.owned 2)⟩

end Isojson
