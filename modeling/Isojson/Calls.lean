import Isojson.Meaning

/-!
# Calls of `dumps`

Where Python code has no side effects, a call of `dumps` comes to its meaning (`Host.dumps_called`).
Three things follow: builds of the extension agree, `default` is substitution, and nothing depends on
the calls that were made before.
-/

namespace Isojson

open Json Run

variable {Obj H : Type} [DecidableEq Obj] {a b : Allocator}

/-! ## A document and its `default` -/

/-- A list in which an object occurs twice that is for `default`, and the list in which it is replaced. -/
def occursTwice : Snapshot ℕ where
  view
    | 0 => ⟨none, "list", .list [1, 1]⟩
    | 2 => ⟨none, "list", .list [3, 3]⟩
    | 3 => ⟨none, "NoneType", .none⟩
    | _ => ⟨none, "object", .other⟩
  tupleItems _ := []
  pyNone := 3
  memory _ := 0
  answer
    | .default _ => .ok 3
    | _ => .raised 3

lemma occursTwice_still : occursTwice.host.Still Allocator.plain := occursTwice.still _

lemma occursTwice_ready : occursTwice.host.Ready (occursTwice.state ⟨none, none⟩) :=
  occursTwice.ready _

lemma occursTwice_meaning : occursTwice.host.meaning (occursTwice.state ⟨none, none⟩).world [0, 4] [] =
    ⟨[1, 1], some (Bytes.ascii "[null,null]")⟩ := by
  rfl

/-! ## An interpreter with numpy -/

/-- numpy's types: `ndarray`, and one scalar type for each element type. -/
def numpyGroup : NumpyTypes ℕ := ⟨2, ElementType.all.zip (List.range' 100 13)⟩

/-- What the module dicts hold: numpy, and in numpy its types. -/
def numpyItem (name : String) : Lookup ℕ :=
  if name = "numpy" then .found 9
  else if name = "ndarray" then .found 2
  else
    match ElementType.all.findIdx? (numpyName · = name) with
    | some i => .found (100 + i)
    | none => .missing

/-! ## Builds -/

namespace Host

variable {h h' : Host Obj H}

/-- The architecture, and how strings are read, do not bear on what a call means. -/
lemma meaning_congr (hrt : h'.rt = h.rt) (hfmt : h'.fmt = h.fmt) (w : World Obj H) (args : List Obj)
    (kw : List (String × Obj)) : h'.meaning w args kw = h.meaning w args kw := by
  obtain ⟨rt, arch, strfast, fmt⟩ := h
  obtain ⟨rt', arch', strfast', fmt'⟩ := h'
  obtain rfl : rt' = rt := hrt
  obtain rfl : fmt' = fmt := hfmt
  rfl

/-- **`dumps` computes its meaning**, on whatever build.  Take two builds for one interpreter: with the
instructions of other architectures, with strings read through their layout or through the public API,
with whatever size hints, and with allocators that place and grow buffers as they like.  A call comes to
the same bytes on both, or it raises on both.  Which of them, and which bytes, is what the object means
over the heap, the options and the types that are cached, and the objects that are passed to `default` are
those that its reading replaces, in order.  The heap is left as it was.  A numpy that is cached has to be
the one that is imported: one that was replaced would be read again in the middle of the call. -/
theorem dumps_same_on_builds (hstill : h.Still a) (hrt : h'.rt = h.rt) (hfmt : h'.fmt = h.fmt)
    (hmemory : ∀ k, b.bytesNew k = true) {s : St Obj H a} {s' : St Obj H b} (hs : h.Ready s)
    (hexc : s'.exc = none) (hworld : s'.world = s.world) (hint hint' : ℕ) (args : List Obj)
    (kw : List (String × Obj)) :
    ∃ N t t', h.Called s (h.meaning s.world args kw) t ∧ h'.Called s' (h.meaning s.world args kw) t' ∧
      ∀ fuel, N ≤ fuel → h.dumps hint fuel args kw s = outcome (h.meaning s.world args kw) t ∧
        h'.dumps hint' fuel args kw s' = outcome (h.meaning s.world args kw) t' := by
  have hstill' : h'.Still b := by
    refine ⟨?_, ?_, hmemory⟩
    · rw [hrt]
      exact hstill.sideEffectFree
    · rw [hrt]
      exact hstill.layouts
  have hs' : h'.Ready s' := by
    refine ⟨hexc, ?_, ?_⟩
    · rw [hrt, hworld]
      exact hs.types
    · rw [hrt, hworld]
      exact hs.current
  obtain ⟨N, t, hcalled, hrun⟩ := dumps_called hstill hs hint args kw
  obtain ⟨N', t', hcalled', hrun'⟩ := dumps_called hstill' hs' hint' args kw
  rw [hworld, meaning_congr hrt hfmt] at hcalled' hrun'
  refine ⟨max N N', t, t', hcalled, hcalled', fun fuel hfuel => ⟨?_, ?_⟩⟩
  · exact hrun fuel (le_of_max_le_left hfuel)
  · exact hrun' fuel (le_of_max_le_right hfuel)

/-- The list with its `default`, on two architectures. -/
theorem dumps_same_on_builds_twice : ∃ N t t', ∀ fuel, N ≤ fuel →
    occursTwice.host.dumps 0 fuel [0, 4] [] (occursTwice.state ⟨none, none⟩) =
      .ok (Bytes.ascii "[null,null]") t ∧
    ({ occursTwice.host with arch := .x86_64, strfast := false } : Host ℕ Unit).dumps 99 fuel [0, 4] []
      (occursTwice.state ⟨none, none⟩) = .ok (Bytes.ascii "[null,null]") t' := by
  obtain ⟨N, t, t', -, -, hrun⟩ := @dumps_same_on_builds ℕ Unit _ _ _ occursTwice.host
    { occursTwice.host with arch := .x86_64, strfast := false } occursTwice_still rfl rfl (fun _ => rfl) _
    (occursTwice.state ⟨none, none⟩) occursTwice_ready rfl rfl 0 99 [0, 4] []
  rw [occursTwice_meaning] at hrun
  exact ⟨N, t, t', hrun⟩

/-! ## `default` as substitution -/

lemma meaning_of_scene {w : World Obj H} {args : List Obj} {kw : List (String × Obj)} {A : Arguments Obj}
    {sc : Scene Obj H} (hargs : h.arguments w.heap args kw = .ok A) (hscene : h.scene w = some sc) :
    h.meaning w args kw =
      (((h.env A sc.dt).reader sc).read 0 0 A.obj).bind fun doc => .pure (dumpedText A.opts doc) := by
  unfold meaning
  rw [hargs]
  unfold meaningOf
  rw [hscene]

/-- Documents that are read alike are written alike. -/
lemma meaning_of_read {w w' : World Obj H} {args args' : List Obj} {kw kw' : List (String × Obj)}
    {A A' : Arguments Obj} {sc sc' : Scene Obj H} (hargs : h.arguments w.heap args kw = .ok A)
    (hargs' : h.arguments w'.heap args' kw' = .ok A') (hopts : A'.opts = A.opts)
    (hscene : h.scene w = some sc) (hscene' : h.scene w' = some sc')
    (hread : ((h.env A' sc'.dt).reader sc').read 0 0 A'.obj =
      (((h.env A sc.dt).reader sc).read 0 0 A.obj).plain) :
    h.meaning w' args' kw' = (h.meaning w args kw).plain := by
  rw [meaning_of_scene hargs hscene, meaning_of_scene hargs' hscene', hread, hopts, Reading.plain_bind]
  rfl

/-- **`default` is substitution.**  Let one call of `dumps` be asked for a document with a `default`, and
another for the same document with the objects that isojson does not write replaced by what `default`
answers for them, and again by what it answers for that, until none is left, along chains that keep the
limit.  Both calls return the same bytes, or both raise.  The first passes the objects that are replaced
to `default`, each once where it occurs, and the second passes none.  A numpy that is cached is the one
that is imported, since the objects that are replaced would make `dumps` look for another one. -/
theorem dumps_default_substitutes (hstill : h.Still a) {s s' : St Obj H a} (hs : h.Ready s)
    (hs' : h.Ready s') {args args' : List Obj} {kw kw' : List (String × Obj)} {A A' : Arguments Obj}
    (hargs : h.arguments s.world.heap args kw = .ok A)
    (hargs' : h.arguments s'.world.heap args' kw' = .ok A') (hopts : A'.opts = A.opts)
    {sc sc' : Scene Obj H} (hscene : h.scene s.world = some sc) (hscene' : h.scene s'.world = some sc')
    {R : ℕ → Obj → Obj → Prop}
    (hR : Reader.Inlines ((h.env A sc.dt).reader sc) ((h.env A' sc'.dt).reader sc') R)
    (hroot : R 0 A.obj A'.obj) (hint hint' : ℕ) :
    ∃ N t t', (∀ fuel, N ≤ fuel →
        h.dumps hint fuel args kw s = outcome (h.meaning s.world args kw) t ∧
        h.dumps hint' fuel args' kw' s' = outcome (h.meaning s.world args kw) t') ∧
      t.defaulted = s.defaulted ++ (h.meaning s.world args kw).replaced ∧
      t'.defaulted = s'.defaulted ∧
      ∀ x ∈ (h.meaning s.world args kw).replaced, (h.env A sc.dt).shape sc x = .foreign := by
  have hplain := meaning_of_read hargs hargs' hopts hscene hscene' (hR.read_eq hroot 0 0)
  obtain ⟨N, t, hcalled, hrun⟩ := dumps_called hstill hs hint args kw
  obtain ⟨N', t', hcalled', hrun'⟩ := dumps_called hstill hs' hint' args' kw'
  rw [hplain] at hcalled' hrun'
  refine ⟨max N N', t, t', fun fuel hfuel => ⟨?_, ?_⟩, hcalled.after.defaulted, ?_, fun x hx => ?_⟩
  · exact hrun fuel (le_of_max_le_left hfuel)
  · exact hrun' fuel (le_of_max_le_right hfuel)
  · rw [hcalled'.after.defaulted]
    exact List.append_nil _
  · rw [meaning_of_scene hargs hscene] at hx
    rcases Reading.mem_bind hx with hx | ⟨_, hx⟩
    · exact Reader.foreign_of_replaced hx
    · exact absurd hx List.not_mem_nil

/-- What each object of the list is replaced by, in it and behind one call of `default`. -/
def twiceInlined (k x y : ℕ) : Prop :=
  k = 0 ∧ x = 0 ∧ y = 2 ∨ k = 0 ∧ x = 1 ∧ y = 3 ∨ k = 1 ∧ x = 3 ∧ y = 3

/-- The list with its `default`, and the list in which the object is replaced. -/
theorem dumps_default_substitutes_twice : ∃ N t t', (∀ fuel, N ≤ fuel →
    occursTwice.host.dumps 0 fuel [0, 4] [] (occursTwice.state ⟨none, none⟩) =
      .ok (Bytes.ascii "[null,null]") t ∧
    occursTwice.host.dumps 0 fuel [2] [] (occursTwice.state ⟨none, none⟩) =
      .ok (Bytes.ascii "[null,null]") t') ∧
    t.defaulted = [1, 1] ∧ t'.defaulted = [] := by
  have hinlines : Reader.Inlines
      ((occursTwice.host.env ⟨0, some 4, 0⟩ none).reader ⟨(), none, .ok none⟩)
      ((occursTwice.host.env ⟨2, none, 0⟩ none).reader ⟨(), none, .ok none⟩) twiceInlined := by
    refine ⟨rfl, fun k x y hxy => ?_⟩
    rcases hxy with ⟨rfl, rfl, rfl⟩ | ⟨rfl, rfl, rfl⟩ | ⟨rfl, rfl, rfl⟩
    · have hitem : twiceInlined 0 1 3 := Or.inr (Or.inl ⟨rfl, rfl, rfl⟩)
      exact .array rfl rfl (.cons hitem (.cons hitem .nil))
    · exact .replaced rfl rfl rfl (by decide) (Or.inr (Or.inr ⟨rfl, rfl, rfl⟩))
    · exact .whole rfl rfl
  obtain ⟨N, t, t', hrun, hfirst, hsecond, -⟩ := @dumps_default_substitutes ℕ Unit _ _ _
    occursTwice_still _ _ occursTwice_ready occursTwice_ready [0, 4] [2] [] [] _ _ rfl rfl rfl _ _ rfl rfl
    twiceInlined hinlines (Or.inl ⟨rfl, rfl, rfl⟩) 0 0
  rw [occursTwice_meaning] at hrun hfirst
  exact ⟨N, t, t', hrun, hfirst, hsecond⟩

/-! ## Calls, one after the other -/

/-- One call of `dumps`, on a thread with a given size hint. -/
structure Invocation (Obj : Type) where
  hint : ℕ
  args : List Obj
  kw : List (String × Obj)

/-- What a run returned. -/
def returned {σ ε α : Type} : Outcome σ ε α → Option α
  | .ok x _ => some x
  | _ => none

/-- What a program sees of a call, which catches the exception if there is one. -/
def caught : Except PendingPyErr Bytes → Encode Obj H a (Option Bytes)
  | .ok bytes => Pure.pure (some bytes)
  | .error _ => do
      clearExc
      Pure.pure none

/-- Calls, one after the other, each over the heap that the program has made by then. -/
def callAll (h : Host Obj H) (fuel : ℕ) :
    List (H × Invocation Obj) → Encode Obj H a (List (Option Bytes))
  | [] => Pure.pure []
  | (w, c) :: calls => do
      Run.modify fun s => { s with world := { s.world with heap := w } }
      let r ← caught (← Run.attempt (h.dumps c.hint fuel c.args c.kw))
      let rs ← callAll h fuel calls
      Pure.pure (r :: rs)

/-- The same state over another heap, in an interpreter where no types are cached yet. -/
def afresh (s : St Obj H a) (w : H) : St Obj H a := { s with world := ⟨w, ⟨none, none⟩⟩ }

omit [DecidableEq Obj] in
/-- What a program may do between two calls: anything but to replace the datetime types or numpy.  They
may be imported only then. -/
structure KeepsTypes (h : Host Obj H) (w w' : H) : Prop where
  dt : ∀ dt, (h.rt.loadDatetime w ⟨none, none⟩).1 = .ok (some dt) →
    (h.rt.loadDatetime w' ⟨none, none⟩).1 = .ok (some dt)
  np : ∀ np, h.rt.loadNumpy w = .ok (some np) → h.rt.loadNumpy w' = .ok (some np)
  module : ∀ np, h.rt.loadNumpy w = .ok (some np) →
    h.rt.getItem w' h.rt.modules "numpy" = h.rt.getItem w h.rt.modules "numpy"

/-- The cache holds what would be loaded. -/
structure Faithful (h : Host Obj H) (w : World Obj H) : Prop where
  dt : ∀ p ∈ w.types.dt, (h.rt.loadDatetime w.heap ⟨none, none⟩).1 = .ok (some p.2)
  np : ∀ p ∈ w.types.np, h.rt.loadNumpy w.heap = .ok (some p.2)
  current : w.types.Current h.rt w.heap
  fits : w.types.Fits h.rt

section Faithful

variable {w : World Obj H}

lemma faithful_afresh (s : St Obj H a) (w : H) : h.Faithful (afresh s w).world :=
  ⟨fun p hp => absurd hp (Option.not_mem_none p), fun p hp => absurd hp (Option.not_mem_none p),
    fun p hp => absurd hp (Option.not_mem_none p), TypeCache.fits_empty _⟩

/-- Objects are told by the types that a fresh interpreter would load. -/
lemma Faithful.sameTypes (hw : h.Faithful w) : h.SameTypes ⟨w.heap, ⟨none, none⟩⟩ w := by
  constructor
  · cases hdt : w.types.dt with
    | none => exact TypeCache.datetime_congr hdt
    | some p =>
        have hcached : (w.types.datetime h.rt w.heap).1 = .ok (some p.2) := by
          rw [TypeCache.datetime, hdt]
        exact hcached.trans (hw.dt p hdt).symm
  · cases hnp : w.types.np with
    | none =>
        rw [TypeCache.numpyGroup, hnp]
        rfl
    | some p =>
        have hcached : w.types.numpyGroup h.rt w.heap = .ok (some p.2) := by
          rw [TypeCache.numpyGroup, hnp]
        exact hcached.trans (hw.np p hnp).symm

lemma Faithful.of_sameTypes (hfits : w.types.Fits h.rt) (hcurrent : w.types.Current h.rt w.heap)
    (htypes : h.SameTypes ⟨w.heap, ⟨none, none⟩⟩ w) : h.Faithful w := by
  refine ⟨fun p hp => ?_, fun p hp => ?_, hcurrent, hfits⟩
  · have hcached : (w.types.datetime h.rt w.heap).1 = .ok (some p.2) := by
      rw [TypeCache.datetime, hp]
    exact htypes.dt.symm.trans hcached
  · have hcached : w.types.numpyGroup h.rt w.heap = .ok (some p.2) := by
      rw [TypeCache.numpyGroup, hp]
    exact htypes.np.symm.trans hcached

/-- What a program does between two calls leaves the cache right. -/
lemma Faithful.changed (hw : h.Faithful w) {w' : H} (hkeeps : h.KeepsTypes w.heap w') :
    h.Faithful { w with heap := w' } := by
  refine ⟨fun p hp => hkeeps.dt _ (hw.dt p hp), fun p hp => hkeeps.np _ (hw.np p hp), fun p hp => ?_,
    hw.fits⟩
  exact (hkeeps.module _ (hw.np p hp)).trans (hw.current p hp)

lemma Faithful.meaning_eq (hw : h.Faithful w) (args : List Obj) (kw : List (String × Obj)) :
    h.meaning w args kw = h.meaning ⟨w.heap, ⟨none, none⟩⟩ args kw := by
  unfold meaning meaningOf
  rw [hw.sameTypes.scene rfl]

/-- A call leaves it right, too. -/
lemma Faithful.called {s s' : St Obj H a} (hs : h.Faithful s.world) {r : Reading Obj Bytes}
    (hcalled : h.Called s r s') : h.Faithful s'.world := by
  obtain ⟨-, hheap, htypes, hcurrent⟩ := hcalled.after
  refine .of_sameTypes hcalled.types hcurrent ?_
  have hsame := hs.sameTypes
  rw [hheap]
  exact ⟨htypes.dt.trans hsame.dt, htypes.np.trans hsame.np⟩

end Faithful

/-- One call over a heap, and its exception caught. -/
lemma callAll_cons (hstill : h.Still a) (w : H) (c : Invocation Obj) {s : St Obj H a}
    (hexc : s.exc = none) (hw : h.Faithful ⟨w, s.world.types⟩) :
    ∃ N s', s'.exc = none ∧ s'.world.heap = w ∧ h.Faithful s'.world ∧ ∀ fuel, N ≤ fuel → ∀ calls,
      h.callAll fuel ((w, c) :: calls) s = (h.callAll fuel calls >>= fun rs =>
        Pure.pure ((h.meaning ⟨w, ⟨none, none⟩⟩ c.args c.kw).result :: rs)) s' := by
  obtain ⟨s1, hs1⟩ : ∃ s1 : St Obj H a, s1 = { s with world := ⟨w, s.world.types⟩ } := ⟨_, rfl⟩
  have hworld1 : s1.world = ⟨w, s.world.types⟩ := by rw [hs1]
  have hexc1 : s1.exc = none := by
    rw [hs1]
    exact hexc
  rw [← hworld1] at hw
  obtain ⟨N, t, hcalled, hrun⟩ := dumps_called hstill ⟨hexc1, hw.fits, hw.current⟩ c.hint c.args c.kw
  have hheap : t.world.heap = w := hcalled.after.heap.trans (by rw [hworld1])
  have hfaithful : h.Faithful t.world := hw.called hcalled
  rw [hw.meaning_eq, hworld1] at hrun
  refine ⟨N, { t with exc := none }, rfl, hheap, hfaithful, fun fuel hfuel calls => ?_⟩
  have hdumps := hrun fuel hfuel
  have hattempt : (Run.attempt (h.dumps c.hint fuel c.args c.kw) : Encode Obj H a _) s1 =
      .ok ((h.meaning ⟨w, ⟨none, none⟩⟩ c.args c.kw).result.elim (Except.error (⟨⟩ : PendingPyErr))
        Except.ok) t := by
    unfold Run.attempt
    rw [hdumps]
    unfold outcome
    cases (h.meaning ⟨w, ⟨none, none⟩⟩ c.args c.kw).result <;> rfl
  have hset : (Run.modify fun s => { s with world := { s.world with heap := w } } :
      Encode Obj H a Unit) s = .ok () s1 := by
    rw [hs1]
    rfl
  -- a call that returned left no exception
  have hexc := hcalled.exc
  rw [hw.meaning_eq, hworld1] at hexc
  rw [callAll, bind_of_ok hset, bind_of_ok hattempt]
  cases hresult : (h.meaning ⟨w, ⟨none, none⟩⟩ c.args c.kw).result with
  | none => rfl
  | some bytes =>
      rw [hresult] at hexc
      have hnone : t.exc = none := by
        rw [← Option.not_isSome_iff_eq_none, hexc]
        exact Bool.false_ne_true
      have hcaught : (caught (Except.ok bytes) : Encode Obj H a _) t = .ok (some bytes) t := rfl
      have ht : ({ t with exc := none } : St Obj H a) = t := by rw [← hnone]
      rw [ht]
      exact bind_of_ok hcaught

/-- **Runs of calls**: each comes to what it means by itself. -/
lemma callAll_run (hstill : h.Still a) (calls : List (H × Invocation Obj)) {s : St Obj H a}
    (hexc : s.exc = none) (hfaithful : h.Faithful s.world)
    (hkeeps : List.IsChain h.KeepsTypes (s.world.heap :: calls.map Prod.fst)) :
    ∃ N s', s'.exc = none ∧ ∀ fuel, N ≤ fuel → h.callAll fuel calls s =
      .ok (calls.map fun c => (h.meaning ⟨c.1, ⟨none, none⟩⟩ c.2.args c.2.kw).result) s' := by
  induction calls generalizing s with
  | nil => exact ⟨0, s, hexc, fun fuel _ => rfl⟩
  | cons c calls ih =>
      obtain ⟨w, c⟩ := c
      rw [List.map_cons, List.isChain_cons_cons] at hkeeps
      obtain ⟨N, s1, hexc1, hheap1, hfaithful1, hcons⟩ :=
        callAll_cons hstill w c hexc (hfaithful.changed hkeeps.1)
      obtain ⟨N', s2, hexc2, hrun⟩ := ih hexc1 hfaithful1 (by rw [hheap1]; exact hkeeps.2)
      refine ⟨max N N', s2, hexc2, fun fuel hfuel => ?_⟩
      rw [hcons fuel (le_of_max_le_left hfuel), bind_of_ok (hrun fuel (le_of_max_le_right hfuel))]
      rfl

/-- The same calls, each made alone. -/
lemma returned_alone (hstill : h.Still a) (calls : List (H × Invocation Obj)) {s : St Obj H a}
    (hexc : s.exc = none) : ∃ N, ∀ fuel, N ≤ fuel → ∀ c ∈ calls,
      returned (h.dumps c.2.hint fuel c.2.args c.2.kw (afresh s c.1)) =
        (h.meaning ⟨c.1, ⟨none, none⟩⟩ c.2.args c.2.kw).result := by
  induction calls with
  | nil => exact ⟨0, fun _ _ c hc => absurd hc List.not_mem_nil⟩
  | cons c calls ih =>
      have hfresh := faithful_afresh (h := h) s c.1
      obtain ⟨N, t, -, hrun⟩ := dumps_called hstill (s := afresh s c.1)
        ⟨hexc, hfresh.fits, hfresh.current⟩ c.2.hint c.2.args c.2.kw
      obtain ⟨N', hrest⟩ := ih
      refine ⟨max N N', fun fuel hfuel => List.forall_mem_cons.mpr ⟨?_, ?_⟩⟩
      · rw [hrun fuel (le_of_max_le_left hfuel)]
        unfold outcome afresh
        cases (h.meaning ⟨c.1, ⟨none, none⟩⟩ c.2.args c.2.kw).result <;> rfl
      · exact hrest fuel (le_of_max_le_right hfuel)

/-- **History independence of `dumps`.**  Make any calls, one after the other, with any arguments, options
and size hints, and catch the exceptions.  Between two calls the program may change its objects, make and
drop them, and import datetime and numpy, but not replace these.  Then each call returns what it returns
when it is the only one in a fresh interpreter: the types that were cached, and the calls that raised in
the middle of a container or of `default`, leave nothing behind. -/
theorem dumps_history_independent (hstill : h.Still a) {s s1 : St Obj H a} (hexc : s.exc = none)
    (hfaithful : h.Faithful s.world) (hexc1 : s1.exc = none) (calls : List (H × Invocation Obj))
    (hkeeps : List.IsChain h.KeepsTypes (s.world.heap :: calls.map Prod.fst)) :
    ∃ N s', s'.exc = none ∧ ∀ fuel, N ≤ fuel → h.callAll fuel calls s =
      .ok (calls.map fun c => returned (h.dumps c.2.hint fuel c.2.args c.2.kw (afresh s1 c.1))) s' := by
  obtain ⟨N, s', hexc', hrun⟩ := callAll_run hstill calls hexc hfaithful hkeeps
  obtain ⟨N', halone⟩ := returned_alone hstill calls hexc1
  refine ⟨max N N', s', hexc', fun fuel hfuel => ?_⟩
  rw [hrun fuel (le_of_max_le_left hfuel)]
  congr 1
  exact List.map_congr_left fun c hc => (halone fuel (le_of_max_le_right hfuel) c hc).symm

/-- An interpreter with numpy.  Its list holds two numbers in one heap, and an object in the other. -/
def changingRuntime : Runtime ℕ Bool where
  view h
    | 0 => ⟨none, "list", .list (if h then [5, 5] else [1])⟩
    | 5 => ⟨some 103, "numpy.int64", .scalar [7, 0, 0, 0, 0, 0, 0, 0]⟩
    | 6 => ⟨none, "int", .int 16⟩
    | _ => ⟨none, "object", .other⟩
  tupleItems _ := []
  pyNone := 4
  memory _ _ := 0
  callable _ _ := true
  reply _ w := (.raised 4, w)
  pylong _ _ := false
  modules := 4
  getItem _ _ := numpyItem
  moduleDict _ o := if o = 9 then some 8 else none
  datetimeApi _ _ := none
  ownUtcoffset_valid _ _ _ _ h := absurd (congrArg Prod.fst h) (by simp)
  str_valid _ _ _ _ h := absurd (congrArg Prod.fst h) (by simp)
  toBase_decimal _ _ _ _ _ _ h := absurd (congrArg Prod.fst h) (by simp)

def changingHost : Host ℕ Bool := ⟨changingRuntime, .portable, true, Formats.plain⟩

def changingState (w : Bool) (types : TypeCache ℕ) : St ℕ Bool Allocator.plain :=
  ⟨Buffer.plain, 0, 0, none, false, ⟨w, types⟩, none, []⟩

lemma changingRuntime_readNumpy (w : Bool) (d : ℕ) :
    changingRuntime.readNumpy w d = .ok (some numpyGroup) := rfl

lemma changingRuntime_fits : numpyGroup.Fits changingRuntime := by
  intro w o elem h
  match o with
  | 5 => rfl
  | 0 | 1 | 2 | 3 | 4 | 6 | _ + 7 =>
      have hnone : numpyGroup.scalar none = none := rfl
      exact absurd (hnone.symm.trans h) (by simp)

lemma changingHost_still : changingHost.Still Allocator.plain := by
  refine ⟨⟨fun _ _ => rfl, fun _ _ _ _ => rfl⟩, ⟨fun w w' o => ?_, ?_, fun w d np h => ?_, fun _ _ h => h⟩,
    fun _ => rfl⟩
  · match o with
    | 0 | 1 | 2 | 3 | 4 | 5 | 6 | _ + 7 => rfl
  · exact fun _ _ _ h => absurd h (Option.not_mem_none _)
  · have hread : changingHost.rt.readNumpy w d = .ok (some numpyGroup) := changingRuntime_readNumpy w d
    rw [hread] at h
    obtain rfl := Option.some.inj (Except.ok.inj h)
    exact changingRuntime_fits

lemma changingHost_faithful :
    changingHost.Faithful (changingState false ⟨none, some (9, numpyGroup)⟩).world := by
  refine ⟨fun p hp => absurd hp (Option.not_mem_none p), ?_, ?_,
    ⟨fun p hp => absurd hp (Option.not_mem_none p), ?_⟩⟩
  · rintro _ ⟨⟩
    rfl
  · rintro _ ⟨⟩
    rfl
  · rintro _ ⟨⟩
    exact changingRuntime_fits

/-- The numbers are written, then the object is refused, and then the numbers are written again; numpy is
in the cache all the time. -/
theorem dumps_history_independent_numpy : ∃ N s', s'.exc = none ∧ ∀ fuel, N ≤ fuel →
    changingHost.callAll fuel [(true, ⟨0, [0], [("option", 6)]⟩), (false, ⟨0, [0], [("option", 6)]⟩),
        (true, ⟨0, [0], [("option", 6)]⟩)] (changingState false ⟨none, some (9, numpyGroup)⟩) =
      .ok [returned (changingHost.dumps 0 fuel [0] [("option", 6)] (changingState true ⟨none, none⟩)),
        returned (changingHost.dumps 0 fuel [0] [("option", 6)] (changingState false ⟨none, none⟩)),
        returned (changingHost.dumps 0 fuel [0] [("option", 6)] (changingState true ⟨none, none⟩))] s' := by
  have hkeeps : ∀ w w', changingHost.KeepsTypes w w' := fun _ _ =>
    ⟨fun _ h => h, fun _ h => h, fun _ _ => rfl⟩
  exact @dumps_history_independent ℕ Bool _ _ _ changingHost_still _ (changingState false ⟨none, none⟩) rfl
    changingHost_faithful rfl [(true, ⟨0, [0], [("option", 6)]⟩), (false, ⟨0, [0], [("option", 6)]⟩),
      (true, ⟨0, [0], [("option", 6)]⟩)]
    (.cons_cons (hkeeps _ _) (.cons_cons (hkeeps _ _) (.cons_cons (hkeeps _ _) (.singleton _))))

end Host

end Isojson
