import Isojson.Arguments
import Isojson.Dispatch
import Isojson.Termination

/-!
# The meaning of `dumps`

While Python code has no side effects, `dumps` returns the layout of the document that its object is
read as (`Host.meaning`), and asks `default` for the replacements of the reading, in its order.

The encoder follows the reading level by level.  That its run ends without a fault is termination and
the error protocol.
-/

namespace Isojson

open Json Run

variable {Obj H : Type} {a : Allocator}

/-! ## `dumps` -/

lemma Quiet.defaulted {s s' : St Obj H a} (hquiet : Quiet s s') : s'.defaulted = s.defaulted := by
  obtain ⟨log, rfl, hpython⟩ := hquiet
  have hnone : log.filterMap Event.defaulted = [] := by
    rw [List.filterMap_eq_nil_iff]
    intro ev hev
    unfold Event.defaulted
    split
    · next guard x => exact absurd hev (hpython guard _)
    · rfl
  unfold St.defaulted
  rw [List.filterMap_append, hnone, List.append_nil]

lemma Quiet.world {s s' : St Obj H a} (hquiet : Quiet s s') : s'.world = s.world := by
  obtain ⟨log, rfl, -⟩ := hquiet
  rfl

/-- The text of a document, as `dumps` returns it under the options. -/
def dumpedText (opts : UInt32) (doc : Doc) : Bytes :=
  doc.render (hasOpt opts optIndent2) 0 ++ if hasOpt opts optAppendNewline then [10] else []

namespace Host

variable [DecidableEq Obj] (h : Host Obj H)

/-- What the shapes go by in a call; there is nothing to go by if a lookup fails. -/
def scene (w : World Obj H) : Option (Scene Obj H) :=
  match (w.types.datetime h.rt w.heap).1 with
  | .error _ => none
  | .ok dt => some ⟨w.heap, dt, w.types.numpyGroup h.rt w.heap⟩

omit [DecidableEq Obj] in
lemma heap_of_scene {h : Host Obj H} {w : World Obj H} {sc : Scene Obj H}
    (hscene : h.scene w = some sc) : sc.heap = w.heap := by
  unfold scene at hscene
  split at hscene
  · exact absurd hscene (by simp)
  · obtain rfl := Option.some.inj hscene
    rfl

/-- What a call that asks for `A` comes to. -/
def meaningOf (w : World Obj H) (A : Arguments Obj) : Reading Obj Bytes :=
  match h.scene w with
  | none => .fail
  | some sc => (((h.env A sc.dt).reader sc).read 0 0 A.obj).bind fun doc => .pure (dumpedText A.opts doc)

/-- **The meaning of a call**: the objects that are passed to `default`, in order, and the text that is
returned, or none for an exception. -/
def meaning (w : World Obj H) (args : List Obj) (kw : List (String × Obj)) : Reading Obj Bytes :=
  match h.arguments w.heap args kw with
  | .error _ => .fail
  | .ok A => h.meaningOf w A

variable {h} {s : St Obj H a} {l : List Obj} {sc : Scene Obj H}

/-- The start of the encoder, with enough memory. -/
lemma wp_start (halloc : ∀ k, a.bytesNew k = true) (hcalm : s.exc = none)
    (hcached : sc.Cached h.rt s.world) (hdefaulted : s.defaulted = l) (hint : ℕ) (A : Arguments Obj) :
    wp (fun _ => True) (h.start hint A.default A.opts)
      (fun e s' => e = h.env A sc.dt ∧ (h.env A sc.dt).Stage sc 0 0 [] l s') (fun _ _ => False) s := by
  obtain ⟨b, hb⟩ := new_isSome halloc hint
  obtain ⟨hlate, hnp, -⟩ := TypeCache.datetime_spec hcached.late
  -- the lookup, whether an error was cleared before it or not
  have hlookup : ∀ s1 : St Obj H a, s1.world = s.world → s1.exc = none → s1.defaulted = l →
      wp (fun _ => True) (Env.cached fun h' c => c.datetime h.rt h')
        (fun dt s' => dt = sc.dt ∧ s'.exc = none ∧ s'.defaulted = l ∧
          s'.world = ⟨sc.heap, (s.world.types.datetime h.rt sc.heap).2⟩)
        (fun _ s' => False) s1 := by
    intro s1 hworld hexc hdef
    unfold Env.cached
    rw [wp_bind, wp_get, hworld, hcached.heap]
    dsimp only
    rw [wp_bind, wp_modify, hcached.late]
    exact ⟨rfl, hexc, hdef, by rw [hworld, hcached.heap]⟩
  have hgroup : wp (fun _ => True) (Env.datetimeGroup h.rt)
      (fun dt s' => dt = sc.dt ∧ s'.exc = none ∧ s'.defaulted = l ∧
        s'.world = ⟨sc.heap, (s.world.types.datetime h.rt sc.heap).2⟩)
      (fun _ s' => False) s := by
    unfold Env.datetimeGroup
    rw [wp_bind, wp_get]
    split
    · rw [wp_bind, wp_setExc, wp_bind, wp_clearExc]
      exact hlookup _ rfl rfl hdefaulted
    · exact hlookup s rfl hcalm hdefaulted
  unfold start
  rw [wp_bind]
  refine hgroup.mono ?_ (fun _ _ h => h) fun _ h => h
  rintro dt s1 ⟨rfl, hexc, hdef, hworld⟩
  rw [hb]
  refine ⟨rfl, ⟨Buffer.content_of_new hb, rfl, hexc, ?_⟩, ⟨⟨?_, ?_, ?_, ?_⟩, hdef⟩, rfl, ?_, rfl⟩
  · exact congrArg (fun w => w.heap) hworld
  · exact congrArg (fun w => w.heap) hworld
  · rw [hworld]
    exact hlate
  · rw [hworld, ← hcached.group]
    unfold TypeCache.numpyGroup
    rw [hnp]
    rfl
  · rw [hworld]
    unfold TypeCache.Current
    rw [hnp]
    exact hcached.current
  · exact fun hre => absurd hre Bool.false_ne_true

omit [DecidableEq Obj] in
lemma keeps_finish : Keeps (finish : Encode Obj H a Bytes) := by
  refine keeps_get_bind fun s => (Preserves.unchecked _).bind fun f => ?_
  split
  · exact .pure _
  · exact (keeps_setExc _).bind fun _ => .throw _

/-- Objects are told by the same types in both worlds. -/
structure SameTypes (h : Host Obj H) (w w' : World Obj H) : Prop where
  dt : (w'.types.datetime h.rt w'.heap).1 = (w.types.datetime h.rt w.heap).1
  np : w'.types.numpyGroup h.rt w'.heap = w.types.numpyGroup h.rt w.heap

/-- A call that has ended: it passed `l` to `default`, and it left the heap, and what objects are told by,
as they were. -/
structure After (h : Host Obj H) (s : St Obj H a) (l : List Obj) (s' : St Obj H a) : Prop where
  defaulted : s'.defaulted = s.defaulted ++ l
  heap : s'.world.heap = s.world.heap
  types : h.SameTypes s.world s'.world
  current : s'.world.types.Current h.rt s'.world.heap

omit [DecidableEq Obj] in
lemma SameTypes.refl {w w' : World Obj H} (hw : w' = w) : h.SameTypes w w' := by
  rw [hw]
  exact ⟨rfl, rfl⟩

omit [DecidableEq Obj] in
lemma SameTypes.scene {w w' : World Obj H} (htypes : h.SameTypes w w') (hheap : w'.heap = w.heap) :
    h.scene w' = h.scene w := by
  unfold Host.scene
  rw [htypes.dt, htypes.np, hheap]

omit [DecidableEq Obj] in
lemma cached_of_scene (hcurrent : s.world.types.Current h.rt s.world.heap)
    (hscene : h.scene s.world = some sc) : sc.Cached h.rt s.world := by
  unfold scene at hscene
  cases hdt : (s.world.types.datetime h.rt s.world.heap).1 with
  | error exc =>
      rw [hdt] at hscene
      exact absurd hscene (by simp)
  | ok dt =>
      rw [hdt] at hscene
      obtain rfl := Option.some.inj hscene
      exact ⟨rfl, hdt, rfl, hcurrent⟩

lemma After.of_past {s' : St Obj H a} (hcached : sc.Cached h.rt s.world) {e : Env Obj H}
    (hrt : e.rt = h.rt) (hpast : e.Past sc (s.defaulted ++ l) s') : h.After s l s' := by
  have hcached' := hpast.cached
  rw [hrt] at hcached'
  refine ⟨hpast.defaulted, hcached'.heap.trans hcached.heap.symm, ⟨?_, ?_⟩, ?_⟩
  · rw [hcached.heap, hcached'.heap, hcached.late, hcached'.late]
  · rw [hcached.heap, hcached'.heap, hcached.group, hcached'.group]
  · rw [hcached'.heap]
    exact hcached'.current

/-- The datetime types cannot be told where a lookup raises, and then no encoder is started. -/
lemma wp_start_failed (hcurrent : s.world.types.Current h.rt s.world.heap)
    (hscene : h.scene s.world = none) (hint : ℕ) (A : Arguments Obj) :
    wp (fun _ => True) (h.start hint A.default A.opts : Encode Obj H a (Env Obj H)) (fun _ _ => False)
      (fun _ s' => h.After s [] s') s := by
  obtain ⟨exc, hexc⟩ : ∃ exc, (s.world.types.datetime h.rt s.world.heap).1 = .error exc := by
    cases hdt : (s.world.types.datetime h.rt s.world.heap).1 with
    | error exc => exact ⟨exc, rfl⟩
    | ok dt =>
        unfold scene at hscene
        rw [hdt] at hscene
        exact absurd hscene (by simp)
  have hkept := TypeCache.datetime_error hexc
  have hafter : ∀ s1 : St Obj H a, s1.world = s.world → s1.defaulted = s.defaulted →
      h.After s [] s1 := by
    intro s1 hworld hdefaulted
    refine ⟨?_, by rw [hworld], .refl hworld, by rw [hworld]; exact hcurrent⟩
    rw [hdefaulted, List.append_nil]
  have hlookup : ∀ s1 : St Obj H a, s1.world = s.world → s1.defaulted = s.defaulted →
      wp (fun _ => True) (Env.cached fun h' c => c.datetime h.rt h') (fun _ _ => False)
        (fun _ s' => h.After s [] s') s1 := by
    intro s1 hworld hdefaulted
    unfold Env.cached
    rw [wp_bind, wp_get, hworld, wp_bind, wp_modify, hexc]
    dsimp only
    rw [wp_bind, wp_setExc, hkept]
    exact hafter _ (by rw [hworld]) hdefaulted
  unfold start Env.datetimeGroup
  rw [wp_bind, wp_bind, wp_get]
  split
  · rw [wp_bind, wp_setExc, wp_bind, wp_clearExc]
    refine (hlookup { s with exc := none } rfl rfl).mono ?_ (fun _ _ h => h) fun _ h => h
    exact fun _ _ h => h.elim
  · exact (hlookup s rfl rfl).mono (fun _ _ h => h.elim) (fun _ _ h => h) fun _ h => h

/-- **`dumps` once its arguments are read** comes to what they mean, if it ends. -/
lemma wp_dumpsObject (hrt : h.rt.SideEffectFree) (halloc : ∀ k, a.bytesNew k = true)
    (hcalm : s.exc = none) (hcurrent : s.world.types.Current h.rt s.world.heap) (hint fuel : ℕ)
    (A : Arguments Obj) :
    wp (fun _ => True) (h.dumpsObject hint fuel A.obj A.default A.opts)
      (fun bytes s' => (h.meaningOf s.world A).result = some bytes ∧
        h.After s (h.meaningOf s.world A).replaced s')
      (fun _ s' => (h.meaningOf s.world A).result = none ∧
        h.After s (h.meaningOf s.world A).replaced s') s := by
  unfold dumpsObject meaningOf
  rw [wp_bind]
  cases hscene : h.scene s.world with
  | none =>
      exact (wp_start_failed hcurrent hscene hint A).mono (fun _ _ h => h.elim)
        (fun _ _ h => ⟨rfl, h⟩) fun _ h => h
  | some sc =>
      have hcached := cached_of_scene hcurrent hscene
      have hafter : ∀ {l : List Obj} {s' : St Obj H a},
          (h.env A sc.dt).Past sc (s.defaulted ++ l) s' → h.After s l s' := fun hpast =>
        .of_past hcached rfl hpast
      refine (wp_start halloc hcalm hcached rfl hint A).mono ?_ (fun _ _ h => h.elim) fun _ h => h
      rintro _ s1 ⟨rfl, hs1⟩
      dsimp only
      have hread : (h.env A sc.dt).Yields sc 0 0 (Doc.render (h.env A sc.dt).indent 0)
          ((h.env A sc.dt).serialize fuel A.obj : Encode Obj H a Unit) _ :=
        Env.yields_serialize hrt fuel 0 0 A.obj
      rw [wp_bind]
      refine (hread _ _ s1 hs1).mono ?_ ?_ fun _ h => h
      · rintro _ s2 ⟨doc, hdoc, hs2⟩
        rw [Reading.bind_of_some hdoc]
        unfold Reading.pure
        dsimp only
        rw [List.append_nil]
        -- the end of the output, once the text is complete
        have hfinish : ∀ s3 : St Obj H a, s3.out.content = dumpedText A.opts doc →
            (h.env A sc.dt).Past sc (s.defaulted ++ (((h.env A sc.dt).reader sc).read 0 0 A.obj).replaced)
              s3 →
            wp (fun _ => True) finish
              (fun bytes s' => some (dumpedText A.opts doc) = some bytes ∧
                h.After s (((h.env A sc.dt).reader sc).read 0 0 A.obj).replaced s')
              (fun _ s' => some (dumpedText A.opts doc) = none ∧
                h.After s (((h.env A sc.dt).reader sc).read 0 0 A.obj).replaced s') s3 := by
          intro s3 hcontent hpast
          refine ((finish_returns halloc s3).frame keeps_finish).mono ?_ (fun _ _ h => h.1.elim)
            fun _ h => h.elim
          rintro bytes s4 ⟨rfl, hsetting⟩
          exact ⟨congrArg some hcontent.symm, hafter (hpast.of_setting hsetting)⟩
        by_cases hnewline : hasOpt A.opts optAppendNewline = true
        · rw [if_pos hnewline, wp_bind, wp_emit]
          have hnew := hs2.written fun b => b.content_push 10
          refine hfinish _ ?_ hnew.past
          rw [hnew.reached.content, dumpedText, if_pos hnewline]
          rfl
        · rw [if_neg hnewline]
          refine hfinish s2 ?_ hs2.past
          rw [hs2.reached.content, dumpedText, if_neg hnewline, List.append_nil]
          rfl
      · rintro _ s2 ⟨hnone, hpast⟩
        rw [Reading.bind_of_none hnone]
        exact ⟨rfl, hafter hpast⟩

/-- **A call** comes to what it means, if it ends. -/
lemma wp_dumps (hrt : h.rt.SideEffectFree) (halloc : ∀ k, a.bytesNew k = true) (hcalm : s.exc = none)
    (hcurrent : s.world.types.Current h.rt s.world.heap) (hint fuel : ℕ) (args : List Obj)
    (kw : List (String × Obj)) :
    wp (fun _ => True) (h.dumps hint fuel args kw)
      (fun bytes s' => (h.meaning s.world args kw).result = some bytes ∧
        h.After s (h.meaning s.world args kw).replaced s')
      (fun _ s' => (h.meaning s.world args kw).result = none ∧
        h.After s (h.meaning s.world args kw).replaced s') s := by
  obtain ⟨s1, hquiet, hrun⟩ := h.dumps_run hint fuel args kw hcalm
  have hworld := hquiet.world
  have hdefaulted := hquiet.defaulted
  unfold meaning
  cases hargs : h.arguments s.world.heap args kw with
  | error msg =>
      rw [hargs] at hrun
      unfold wp
      rw [hrun]
      have hfail : wp (fun _ => True) (h.fail msg : Encode Obj H a Bytes) (fun _ _ => False)
          (fun _ s' => s'.exc.isSome) s1 := h.fail_spec msg s1
      refine (hfail.frame (keeps_fail hrt msg)).mono (fun _ _ h => h.1.elim) ?_ fun _ h => h
      rintro _ s2 ⟨-, hsetting⟩
      obtain ⟨-, -, -, hworld2, hdefaulted2⟩ := Env.eq_of_setting hsetting
      rw [hworld] at hworld2
      refine ⟨rfl, ?_, by rw [hworld2], .refl hworld2, by rw [hworld2]; exact hcurrent⟩
      rw [hdefaulted2, hdefaulted]
      exact (List.append_nil _).symm
  | ok A =>
      rw [hargs] at hrun
      have hobject := wp_dumpsObject hrt halloc (hquiet.exc.trans hcalm)
        (show s1.world.types.Current h.rt s1.world.heap by rw [hworld]; exact hcurrent) hint fuel A
      have hafter : ∀ {l : List Obj} {s2 : St Obj H a}, h.After s1 l s2 → h.After s l s2 := by
        intro l s2 hs2
        obtain ⟨hdef, hheap, htypes, hcur⟩ := hs2
        rw [hdefaulted] at hdef
        rw [hworld] at hheap htypes
        exact ⟨hdef, hheap, htypes, hcur⟩
      rw [hworld] at hobject
      unfold wp
      rw [hrun]
      exact hobject.mono (fun _ _ h => ⟨h.1, hafter h.2⟩) (fun _ _ h => ⟨h.1, hafter h.2⟩) fun _ h => h

/-! ## Calls -/

/-- An interpreter that calls leave as it is, over objects with the layouts of CPython and numpy, with
enough memory. -/
structure Still (h : Host Obj H) (a : Allocator) : Prop where
  sideEffectFree : h.rt.SideEffectFree
  layouts : h.rt.Layouts
  memory : ∀ k, a.bytesNew k = true

/-- No exception is pending, the cached types are types that are there, and a cached numpy is the one that
is imported. -/
structure Ready (h : Host Obj H) (s : St Obj H a) : Prop where
  exc : s.exc = none
  types : s.world.types.Fits h.rt
  current : s.world.types.Current h.rt s.world.heap

/-- The outcome of a call that comes to `r`. -/
def outcome (r : Reading Obj Bytes) (s : St Obj H a) : Outcome (St Obj H a) PendingPyErr Bytes :=
  match r.result with
  | some bytes => .ok bytes s
  | none => .error ⟨⟩ s

/-- A call that has ended, and the exception that it raised unless it returned. -/
structure Called (h : Host Obj H) (s : St Obj H a) (r : Reading Obj Bytes) (s' : St Obj H a) : Prop where
  after : h.After s r.replaced s'
  exc : s'.exc.isSome = r.result.isNone
  types : s'.world.types.Fits h.rt

/-- What any call returns is its meaning. -/
lemma meaning_of_dumps (hstill : h.Still a) {s s' : St Obj H a} (hs : h.Ready s) {hint fuel : ℕ}
    {args : List Obj} {kw : List (String × Obj)} {bytes : Bytes}
    (hdumps : h.dumps hint fuel args kw s = .ok bytes s') :
    (h.meaning s.world args kw).result = some bytes := by
  have hrun := wp_dumps hstill.sideEffectFree hstill.memory hs.exc hs.current hint fuel args kw
  unfold wp at hrun
  rw [hdumps] at hrun
  exact hrun.1

/-- **`dumps` computes its meaning.** -/
lemma dumps_called (hstill : h.Still a) (hs : h.Ready s) (hint : ℕ) (args : List Obj)
    (kw : List (String × Obj)) : ∃ N s', h.Called s (h.meaning s.world args kw) s' ∧
      ∀ fuel, N ≤ fuel → h.dumps hint fuel args kw s = outcome (h.meaning s.world args kw) s' := by
  have hkeep : h.rt.KeepsContainers := fun c w => by
    rw [hstill.sideEffectFree.world]
    exact .refl _ _
  obtain ⟨N, o, hanswers, -, hrun⟩ := (h.settled_dumps hkeep hint args kw s trivial).answers
    fun n => h.dumps_protocol hstill.layouts hint n args kw hs.types hs.exc
  have hlast : h.dumps hint N args kw s = o := (hrun N le_rfl).1
  have hprotocol := h.dumps_protocol hstill.layouts hint N args kw hs.types hs.exc
  have hmeaning := wp_dumps hstill.sideEffectFree hstill.memory hs.exc hs.current hint N args kw
  unfold KeepsProtocol wlp at hprotocol
  unfold wp at hmeaning
  rw [hlast] at hprotocol hmeaning
  cases o with
  | ok bytes s' =>
      refine ⟨N, s', ⟨hmeaning.2, ?_, hprotocol.2⟩, fun fuel hfuel => ?_⟩
      · rw [hprotocol.1, hmeaning.1]
        rfl
      · rw [(hrun fuel hfuel).1, outcome, hmeaning.1]
  | error x s' =>
      refine ⟨N, s', ⟨hmeaning.2, ?_, hprotocol.2⟩, fun fuel hfuel => ?_⟩
      · rw [hprotocol.1, hmeaning.1]
        rfl
      · rw [(hrun fuel hfuel).1, outcome, hmeaning.1]
  | fault s' => exact hanswers.elim
  | starved s' => exact hanswers.elim

end Host

/-! ## Snapshots -/

section Snapshot

variable [DecidableEq Obj] (t : Snapshot Obj) (fmt : Formats)

lemma Snapshot.still : Host.Still { t.host with fmt := fmt } Allocator.plain :=
  ⟨⟨fun _ _ => rfl, fun _ _ _ _ => rfl⟩, t.layouts, fun _ => rfl⟩

lemma Snapshot.ready : Host.Ready { t.host with fmt := fmt } (t.state ⟨none, none⟩) :=
  ⟨rfl, TypeCache.fits_empty _, fun p hp => absurd hp (Option.not_mem_none p)⟩

end Snapshot

end Isojson
