import Isojson.Shapes

/-!
# What containers are read as

`Env.Yields` says of a writer that it puts out the text of what an object is read as, and that it asks
`default` for the replacements of the reading, in its order; where the reading fails, it raises.  The
rules for the containers are here.  A run keeps the types that it goes by (`Env.Knows`): a lookup that
is made late finds what the first one would have found.
-/

namespace Isojson

open Json Run

variable {Obj H : Type} {a : Allocator}

/-! ## What is cached -/

section Cache

variable [DecidableEq Obj] {rt : Runtime Obj H} {h : H} {c : TypeCache Obj}

namespace TypeCache

lemma numpyHit_eq (c : TypeCache Obj) (ty : Option Obj) :
    c.numpyHit ty = (c.np.map Prod.snd).filter (·.contains ty) := by
  unfold numpyHit
  cases c.np with
  | none => rfl
  | some p => rfl

/-- A hit finds the group. -/
lemma numpyGroup_of_hit {ty : Option Obj} {np : NumpyTypes Obj} (hhit : c.numpyHit ty = some np) :
    (∀ (rt : Runtime Obj H) h, c.numpyGroup rt h = .ok (some np)) ∧ np.contains ty = true := by
  rw [numpyHit_eq, Option.filter_eq_some_iff] at hhit
  obtain ⟨p, hp, rfl⟩ := Option.map_eq_some_iff.mp hhit.1
  refine ⟨fun rt h => ?_, hhit.2⟩
  rw [numpyGroup, hp]

/-- The cache after a lookup: the datetime group is as it was, and the numpy group is still the one that
objects are told by. -/
structure Rechecked (rt : Runtime Obj H) (h : H) (c c' : TypeCache Obj) : Prop where
  dt : c'.dt = c.dt
  group : c'.numpyGroup rt h = c.numpyGroup rt h
  current : c'.Current rt h

omit [DecidableEq Obj] in
/-- Without a group in the cache, one is looked up. -/
lemma rechecked_of_none {c' : TypeCache Obj} (hdt : c'.dt = c.dt) (hnp : c.np = none)
    (hnp' : c'.np = none) : Rechecked rt h c c' := by
  refine ⟨hdt, ?_, ?_⟩
  · rw [numpyGroup, numpyGroup, hnp, hnp']
  · unfold Current
    rw [hnp']
    exact fun p hp => absurd hp (Option.not_mem_none p)

/-- **A miss** finds the group that objects are told by, or raises what its lookup raises. -/
lemma numpy_spec (hc : c.Current rt h) (ty : Option Obj) (hmiss : c.numpyHit ty = none) :
    Rechecked rt h c (c.numpy rt h ty).2 ∧
    ((∃ np, c.numpyGroup rt h = .ok np ∧ (c.numpy rt h ty).1 = .ok (np.filter (·.contains ty)) ∧
      ((c.numpy rt h ty).2.np = none → np = none)) ∨
    ∃ exc, c.numpyGroup rt h = .error exc ∧ (c.numpy rt h ty).1 = .error exc) := by
  unfold numpy
  rw [hmiss]
  dsimp only
  cases hnp : c.np with
  | some p =>
      have hgroup : c.numpyGroup rt h = .ok (some p.2) := by rw [numpyGroup, hnp]
      have hno : (some p.2).filter (·.contains ty) = none := by
        rw [numpyHit_eq, hnp] at hmiss
        exact hmiss
      rw [hc p hnp]
      dsimp only
      rw [Option.map_some, if_pos rfl]
      refine ⟨⟨rfl, rfl, hc⟩, Or.inl ⟨some p.2, hgroup, by rw [hno], fun hnone => ?_⟩⟩
      exact absurd (hnp.symm.trans hnone) (Option.some_ne_none p)
  | none =>
      have hgroup : c.numpyGroup rt h = rt.loadNumpy h := by rw [numpyGroup, hnp]
      rw [hgroup]
      unfold Runtime.loadNumpy
      cases hitem : rt.getItem h rt.modules "numpy" with
      | failed exc => exact ⟨rechecked_of_none rfl hnp hnp, Or.inr ⟨exc, rfl, rfl⟩⟩
      | missing => exact ⟨rechecked_of_none rfl hnp hnp, Or.inl ⟨none, rfl, rfl, fun _ => rfl⟩⟩
      | found module =>
          dsimp only
          rw [Option.map_none, if_neg (by simp)]
          unfold reloadNumpy
          dsimp only
          cases hmodule : rt.moduleDict h module with
          | none => exact ⟨rechecked_of_none rfl hnp rfl, Or.inl ⟨none, rfl, rfl, fun _ => rfl⟩⟩
          | some d =>
              dsimp only
              cases hread : rt.readNumpy h d with
              | error exc => exact ⟨rechecked_of_none rfl hnp rfl, Or.inr ⟨exc, rfl, rfl⟩⟩
              | ok np =>
                  cases np with
                  | none => exact ⟨rechecked_of_none rfl hnp rfl, Or.inl ⟨none, rfl, rfl, fun _ => rfl⟩⟩
                  | some np =>
                      refine ⟨⟨rfl, ?_, ?_⟩, Or.inl ⟨some np, rfl, rfl, fun hnone => ?_⟩⟩
                      · rw [hgroup, Runtime.loadNumpy, hitem]
                        dsimp only
                        rw [hmodule]
                        exact hread.symm
                      · intro p hp
                        obtain rfl := Option.some.inj hp
                        exact hitem
                      · exact absurd hnone (Option.some_ne_none _)

omit [DecidableEq Obj] in
/-- A datetime group that was looked up is found again, and that of numpy is as it was. -/
lemma datetime_spec {dt : Option (DtTypes Obj)} (hdt : (c.datetime rt h).1 = .ok dt) :
    ((c.datetime rt h).2.datetime rt h).1 = .ok dt ∧ (c.datetime rt h).2.np = c.np ∧
      (dt = none → (c.datetime rt h).2 = c) := by
  cases hgroup : c.dt with
  | some p =>
      have hdatetime : c.datetime rt h = (.ok (some p.2), c) := by rw [datetime, hgroup]
      rw [hdatetime] at hdt ⊢
      exact ⟨by rw [hdatetime, hdt], rfl, fun _ => rfl⟩
  | none =>
      have hdatetime : c.datetime rt h = rt.loadDatetime h c := by rw [datetime, hgroup]
      rw [hdatetime] at hdt ⊢
      unfold Runtime.loadDatetime at hdt hdatetime ⊢
      cases hcap : rt.findCapsule h with
      | error exc =>
          rw [hcap] at hdt
          exact absurd hdt (by simp)
      | ok cap =>
          rw [hcap] at hdt hdatetime
          cases cap with
          | none => exact ⟨by rw [hdatetime]; exact hdt, rfl, fun _ => rfl⟩
          | some cap =>
              dsimp only at hdt hdatetime ⊢
              cases hapi : rt.datetimeApi h cap with
              | none =>
                  rw [hapi] at hdt hdatetime
                  exact ⟨by rw [hdatetime]; exact hdt, rfl, fun _ => rfl⟩
              | some types =>
                  rw [hapi] at hdt
                  obtain rfl := Except.ok.inj hdt
                  exact ⟨rfl, rfl, fun hnone => absurd hnone (Option.some_ne_none _)⟩

omit [DecidableEq Obj] in
/-- A lookup that fails leaves the cache as it is. -/
lemma datetime_error {exc : Obj} (hexc : (c.datetime rt h).1 = .error exc) : (c.datetime rt h).2 = c := by
  unfold datetime at hexc ⊢
  cases hgroup : c.dt with
  | some p => rfl
  | none =>
      rw [hgroup] at hexc
      unfold Runtime.loadDatetime at hexc ⊢
      cases hcap : rt.findCapsule h with
      | error exc => rfl
      | ok cap =>
          rw [hcap] at hexc
          cases cap with
          | none => rfl
          | some cap =>
              dsimp only at hexc ⊢
              cases hapi : rt.datetimeApi h cap with
              | none => rfl
              | some dt =>
                  rw [hapi] at hexc
                  exact absurd hexc (by simp)

omit [DecidableEq Obj] in
lemma datetime_congr {c' : TypeCache Obj} (hdt : c'.dt = c.dt) :
    (c'.datetime rt h).1 = (c.datetime rt h).1 := by
  unfold datetime Runtime.loadDatetime
  rw [hdt]
  cases c.dt with
  | some p => rfl
  | none =>
      cases rt.findCapsule h with
      | error exc => rfl
      | ok cap =>
          cases cap with
          | none => rfl
          | some cap =>
              dsimp only
              cases rt.datetimeApi h cap <;> rfl

end TypeCache

/-- The cache of an interpreter, as far as objects are told by it. -/
structure Scene.Cached (sc : Scene Obj H) (rt : Runtime Obj H) (w : World Obj H) : Prop where
  heap : w.heap = sc.heap
  late : (w.types.datetime rt sc.heap).1 = .ok sc.dt
  group : w.types.numpyGroup rt sc.heap = sc.np
  current : w.types.Current rt sc.heap

end Cache

/-! ## Stages of a run -/

namespace Env

/-- The encoder has passed `l` to `default`, and objects are told by the types of the scene. -/
structure Past [DecidableEq Obj] (e : Env Obj H) (sc : Scene Obj H) (l : List Obj) (s : St Obj H a) :
    Prop where
  cached : sc.Cached e.rt s.world
  defaulted : s.defaulted = l

/-- The encoder has written `c` besides; `d` containers are open, and `k` results of `default` are being
serialized. -/
structure Stage [DecidableEq Obj] (e : Env Obj H) (sc : Scene Obj H) (d k : ℕ) (c : Bytes) (l : List Obj)
    (s : St Obj H a) : Prop where
  reached : At (fun h => h = sc.heap) d c s
  past : e.Past sc l s
  dt : s.dt = sc.dt
  missing : s.npRechecked = true → s.world.types.np = none → sc.np = .ok none
  chain : s.defaultDepth = k

/-- The end of a run that put out `text` of what was read as `r`. -/
abbrev Yielded [DecidableEq Obj] {β : Type} (e : Env Obj H) (sc : Scene Obj H) (d k : ℕ)
    (text : β → Bytes) (c : Bytes) (l : List Obj) (r : Reading Obj β) (s : St Obj H a) : Prop :=
  ∃ y, r.result = some y ∧ e.Stage sc d k (c ++ text y) (l ++ r.replaced) s

/-- The end of a run that raised where the reading failed. -/
abbrev Failed [DecidableEq Obj] {β : Type} (e : Env Obj H) (sc : Scene Obj H) (l : List Obj)
    (r : Reading Obj β) (s : St Obj H a) : Prop := r.result = none ∧ e.Past sc (l ++ r.replaced) s

/-- A writer of what is read as `r`, which is put out as `text`. -/
def Yields [DecidableEq Obj] {β : Type} (e : Env Obj H) (sc : Scene Obj H) (d k : ℕ) (text : β → Bytes)
    (m : Encode Obj H a Unit) (r : Reading Obj β) : Prop :=
  ∀ c l s, e.Stage sc d k c l s →
    wp (fun _ => True) m (fun _ s' => e.Yielded sc d k text c l r s') (fun _ s' => e.Failed sc l r s') s

variable [DecidableEq Obj] {e : Env Obj H} {sc : Scene Obj H} {d k : ℕ} {c t : Bytes} {l : List Obj}
  {s s' : St Obj H a}

section Stage

lemma Past.of_eq (hs : e.Past sc l s) (hworld : s'.world = s.world) (hdefaulted : s'.defaulted = s.defaulted) :
    e.Past sc l s' := ⟨by rw [hworld]; exact hs.cached, hdefaulted.trans hs.defaulted⟩

omit [DecidableEq Obj] in
lemma eq_of_setting (h : s'.setting = s.setting) :
    s'.defaultDepth = s.defaultDepth ∧ s'.dt = s.dt ∧ s'.npRechecked = s.npRechecked ∧
      s'.world = s.world ∧ s'.defaulted = s.defaulted := by
  simp only [St.setting, Prod.mk.injEq] at h
  exact h.2

lemma Past.of_setting (hs : e.Past sc l s) (hsetting : s'.setting = s.setting) : e.Past sc l s' := by
  obtain ⟨-, -, -, hworld, hdefaulted⟩ := eq_of_setting hsetting
  exact hs.of_eq hworld hdefaulted

lemma Past.failed {β : Type} (hs : e.Past sc l s) : e.Failed sc l (.fail : Reading Obj β) s := by
  refine ⟨rfl, ?_⟩
  rw [Reading.fail, List.append_nil]
  exact hs

lemma Stage.of_setting (hs : e.Stage sc d k c l s) (hput : At (fun h => h = sc.heap) d t s')
    (hsetting : s'.setting = s.setting) : e.Stage sc d k t l s' := by
  obtain ⟨hchain, hdt, hre, hworld, -⟩ := eq_of_setting hsetting
  refine ⟨hput, hs.past.of_setting hsetting, hdt.trans hs.dt, ?_, hchain.trans hs.chain⟩
  rw [hworld, hre]
  exact hs.missing

lemma Stage.logged (hs : e.Stage sc d k c l s) {ev : Event Obj} (hev : ev.defaulted = none) :
    e.Stage sc d k c l { s with log := s.log ++ [ev] } := by
  refine hs.of_setting (hs.reached.logged _) ?_
  unfold St.setting
  rw [s.defaulted_logged hev]

lemma Stage.read (hs : e.Stage sc d k c l s) (o : Obj) :
    e.Stage sc d k c l { s with log := s.log ++ [.read (.obj o)] } := hs.logged rfl

lemma Stage.borrowed (hs : e.Stage sc d k c l s) (container item : Obj) :
    e.Stage sc d k c l { s with log := s.log ++ [.borrow container item] } := hs.logged rfl

lemma Stage.dropped (hs : e.Stage sc d k c l s) (o : Obj) : e.Stage sc d k c l (s.dropped o) :=
  hs.logged rfl

lemma Stage.appended (hs : e.Stage sc d k c l s) (h : Appended t s s') :
    e.Stage sc d k (c ++ t) l s' := by
  refine hs.of_setting (hs.reached.appended h) ?_
  have hrest := h.rest
  unfold St.rest at hrest
  unfold St.setting St.defaulted
  simp only [Prod.mk.injEq] at hrest ⊢
  obtain ⟨h1, h2, h3, h4, h5, h6⟩ := hrest
  exact ⟨h1, h2, h3, h4, h5, by rw [h6]⟩

lemma Stage.written (hs : e.Stage sc d k c l s) {f : Buffer a → Buffer a}
    (hf : ∀ b, (f b).content = b.content ++ t) : e.Stage sc d k (c ++ t) l (s.written (f s.out)) :=
  hs.appended (.written hf s)

lemma Stage.deeper (hs : e.Stage sc d k c l s) :
    e.Stage sc (d + 1) k c l { s with depth := s.depth + 1 } :=
  ⟨hs.reached.deeper, hs.past.of_eq rfl rfl, hs.dt, hs.missing, hs.chain⟩

lemma Stage.shallower (hs : e.Stage sc (d + 1) k c l s) :
    e.Stage sc d k c l { s with depth := s.depth - 1 } :=
  ⟨hs.reached.shallower, hs.past.of_eq rfl rfl, hs.dt, hs.missing, hs.chain⟩

/-- Code that keeps the setting, by what it appends. -/
lemma Stage.wp_keeps {α : Type} (hs : e.Stage sc d k c l s) {m : Encode Obj H a α} (hkeeps : Keeps m)
    {Q : α → St Obj H a → Prop} {E : Prop}
    (hm : wp (fun _ => True) m Q (fun _ _ => E) s) :
    wp (fun _ => True) m
      (fun x s' => Q x s' ∧ ∀ t, At (fun h => h = sc.heap) d t s' → e.Stage sc d k t l s')
      (fun _ s' => E ∧ e.Past sc l s') s := by
  refine (hm.frame hkeeps).mono ?_ ?_ fun _ h => h
  · rintro x s' ⟨hx, hsetting⟩
    exact ⟨hx, fun t ht => hs.of_setting ht hsetting⟩
  · rintro _ s' ⟨hE, hsetting⟩
    exact ⟨hE, hs.past.of_setting hsetting⟩

/-- Code that keeps the setting and always raises. -/
lemma Stage.wp_raises {α β : Type} (hs : e.Stage sc d k c l s) {m : Encode Obj H a α} (hkeeps : Keeps m)
    (hm : wp (fun _ => True) m (fun _ _ => False) (fun _ _ => True) s) {Q : α → St Obj H a → Prop} :
    wp (fun _ => True) m Q (fun _ s' => e.Failed sc l (.fail : Reading Obj β) s') s := by
  refine (hs.wp_keeps hkeeps hm).mono (fun _ _ h => h.1.elim) (fun _ _ h => h.2.failed) fun _ h => h

lemma Stage.wp_fail {α β : Type} (hs : e.Stage sc d k c l s) (hrt : e.rt.SideEffectFree) (msg : String)
    {Q : α → St Obj H a → Prop} :
    wp (fun _ => True) (e.fail msg) Q (fun _ s' => e.Failed sc l (.fail : Reading Obj β) s') s := by
  have hfail : wp (fun _ => True) (e.fail msg : Encode Obj H a α) (fun _ _ => False)
      (fun _ s' => s'.exc.isSome) s := e.fail_spec msg s
  exact hs.wp_raises (Host.keeps_fail hrt msg)
    (hfail.mono (fun _ _ h => h) (fun _ _ _ => trivial) fun _ h => h)

end Stage

/-! ## Writers -/

section Rules

variable {β : Type} {text : β → Bytes} {m : Encode Obj H a Unit} {r : Reading Obj β}

/-- A step that is only recorded. -/
lemma Yields.logs (h : e.Yields sc d k text m r) {ev : Event Obj} (hev : ev.defaulted = none) :
    e.Yields sc d k text (event ev >>= fun _ => m) r := fun c l _ hs => h c l _ (hs.logged hev)

/-- An object that is held meanwhile. -/
lemma Yields.holding (h : e.Yields sc d k text m r) (o : Obj) :
    e.Yields sc d k text (incref o >>= fun _ => Run.onExit m (·.dropped o)) r := by
  intro c l s hs
  rw [wp_bind, wp_incref, wp_onExit]
  refine (h c l _ ((hs.logged rfl).logged rfl)).mono ?_ ?_ fun _ h => h
  · rintro _ s1 ⟨y, hy, hs1⟩
    exact ⟨y, hy, hs1.dropped o⟩
  · rintro _ s1 ⟨hnone, hpast⟩
    exact ⟨hnone, hpast.of_eq rfl (s1.defaulted_logged rfl)⟩

/-- A leaf, by its shape. -/
lemma yields_of_puts {shape : Shape Obj} {m : Encode Obj H a Unit}
    (hputs : PutsShape sc.heap d e.indent shape m) (hkeeps : Keeps m)
    (rd : ℕ → ℕ → Obj → Reading Obj Doc) (obj : Obj) :
    e.Yields sc d k (Doc.render e.indent d) m ((e.reader sc).readShape rd d k obj shape) := by
  intro c l s hs
  refine (hs.wp_keeps hkeeps (hputs c s hs.reached)).mono ?_ ?_ fun _ h => h
  · rintro _ s1 ⟨⟨doc, hshape, hput⟩, hstage⟩
    rw [hshape]
    refine ⟨doc, rfl, ?_⟩
    rw [Reader.readShape, Reading.pure, List.append_nil]
    exact hstage _ hput
  · rintro _ s1 ⟨hshape, hpast⟩
    rw [hshape]
    exact hpast.failed

/-- Two writers in a row, behind a text of their own. -/
lemma wp_pair {γ δ : Type} {text' : γ → Bytes} {text'' : δ → Bytes} {m' : Encode Obj H a Unit}
    {r' : Reading Obj γ} {g : β → γ → δ} (hm : e.Yields sc d k text m r)
    (hm' : e.Yields sc d k text' m' r') (hs : e.Stage sc d k (c ++ t) l s)
    (htext : ∀ y z, text'' (g y z) = t ++ text y ++ text' z) :
    wp (fun _ => True) (m >>= fun _ => m')
      (fun _ s' => e.Yielded sc d k text'' c l (r.bind fun y => r'.bind fun z => .pure (g y z)) s')
      (fun _ s' => e.Failed sc l (r.bind fun y => r'.bind fun z => .pure (g y z)) s') s := by
  rw [wp_bind]
  refine (hm _ _ _ hs).mono ?_ ?_ fun _ h => h
  · rintro _ s1 ⟨y, hy, hs1⟩
    rw [Reading.bind_pair_of_some hy]
    refine (hm' _ _ _ hs1).mono ?_ ?_ fun _ h => h
    · rintro _ s2 ⟨z, hz, hs2⟩
      refine ⟨g y z, by rw [hz, Option.map_some], ?_⟩
      simp only [htext, ← List.append_assoc]
      exact hs2
    · rintro _ s2 ⟨hnone, hpast⟩
      refine ⟨by rw [hnone, Option.map_none], ?_⟩
      dsimp only
      rw [← List.append_assoc]
      exact hpast
  · rintro _ s1 ⟨hnone, hpast⟩
    rw [Reading.bind_of_none hnone]
    exact ⟨rfl, hpast⟩

end Rules

/-! ## Containers -/

section Containers

variable {self : Obj → Encode Obj H a Unit} {rd : ℕ → ℕ → Obj → Reading Obj Doc}

lemma yields_guarded {β : Type} {text : β → Bytes} {item : Obj} {r : Reading Obj β}
    (h : e.Yields sc d k text (self item) r) : e.Yields sc d k text (e.guarded self item) r := by
  unfold guarded
  split
  · intro c l s hs
    rw [wp_bind, Host.wp_look]
    split
    · exact h c l _ (hs.logged rfl)
    · exact h.holding item c l _ (hs.logged rfl)
  · exact h

lemma yields_entryValue {β : Type} {text : β → Bytes} {key value : Obj} {r : Reading Obj β}
    (h : e.Yields sc d k text (self value) r) :
    e.Yields sc d k text (e.entryValue self key value) r := by
  unfold entryValue
  split
  · intro c l s hs
    rw [wp_bind, Host.wp_look]
    split
    · exact h c l _ (hs.logged rfl)
    · exact (yields_guarded h).holding key c l _ (hs.logged rfl)
  · exact h

/-- A container is entered, or refused and read as a failure. -/
lemma yields_inside {β : Type} {text : β → Bytes} {m : Encode Obj H a Unit} {r : Reading Obj β}
    (hrt : e.rt.SideEffectFree)
    (h : ∀ c l s, e.Stage sc (d + 1) k c l s → wp (fun _ => True) m
      (fun _ s' => e.Yielded sc d k text c l r s') (fun _ s' => e.Failed sc l r s') s) :
    e.Yields sc d k text (e.enter >>= fun _ => m) ((e.reader sc).inside d r) := by
  intro c l s hs
  have hmax : (e.reader sc).maxDepth = e.maxDepth := rfl
  unfold enter Reader.inside
  rw [bind_assoc, wp_bind, wp_get, hs.reached.depth, hmax]
  by_cases hlt : d < e.maxDepth
  · rw [if_neg (Nat.not_le_of_lt hlt), if_pos hlt, wp_bind, wp_modify]
    exact h c l _ hs.deeper
  · rw [if_pos (Nat.le_of_not_lt hlt), if_neg hlt, wp_bind]
    exact hs.wp_fail hrt _

/-- The end of a container without items. -/
lemma wp_emptied (hs : e.Stage sc (d + 1) k c l s) {text : Bytes}
    {E : PendingPyErr → St Obj H a → Prop} {Q : Unit → St Obj H a → Prop}
    (h : ∀ s', e.Stage sc d k (c ++ text) l s' → Q () s') :
    wp (fun _ => True) (leave >>= fun _ => emit (·.extend text)) Q E s := by
  rw [wp_bind, wp_leave, wp_emit]
  exact h _ (hs.shallower.written fun b => b.content_extend text)

/-- The end of a container with items. -/
lemma wp_ended (hs : e.Stage sc (d + 1) k c l s) {b : UInt8}
    {E : PendingPyErr → St Obj H a → Prop} {Q : Unit → St Obj H a → Prop}
    (h : ∀ s', e.Stage sc d k (c ++ (sep e.indent d ++ [b])) l s' → Q () s') :
    wp (fun _ => True) (leave >>= fun _ => e.breakLine >>= fun _ => emit (·.push b)) Q E s := by
  have hlevel : s.depth - 1 = d := by rw [hs.reached.depth, Nat.add_sub_cancel]
  have hleft := hs.shallower
  rw [hlevel] at hleft
  refine e.wp_close fun s' hs' => h s' ?_
  rw [hlevel] at hs'
  exact hleft.appended hs'

/-- The comma and the line break in front of item `i`, and what follows. -/
lemma wp_spaced {i : ℕ} {m : Encode Obj H a Unit} (hs : e.Stage sc d k c l s)
    {Q : Unit → St Obj H a → Prop} {E : PendingPyErr → St Obj H a → Prop}
    (h : ∀ s', e.Stage sc d k (c ++ ((if i = 0 then [] else [44]) ++ sep e.indent d)) l s' →
      wp (fun _ => True) m Q E s') :
    wp (fun _ => True) (if 0 < i then emit (·.push 44) >>= fun _ => e.breakLine >>= fun _ => m
      else e.breakLine >>= fun _ => m) Q E s := by
  refine e.wp_separator fun s' hs' => h s' ?_
  rw [hs.reached.depth] at hs'
  exact hs.appended hs'

/-! ### Sequences -/

omit [DecidableEq Obj] in
lemma at_item {i : ℕ} (doc : Doc) (docs : List Doc) :
    itemsText e.indent d (i = 0) (doc :: docs) = ((if i = 0 then [] else [44]) ++ sep e.indent d) ++
      doc.render e.indent d ++ itemsText e.indent d (i + 1 = 0) docs := by
  rw [itemsText]
  by_cases hfirst : i = 0 <;> simp [hfirst]

lemma yields_no_items {f : Obj → Reading Obj Doc} {first : Bool} :
    e.Yields sc d k (itemsText e.indent d first) (Pure.pure () : Encode Obj H a Unit)
      (Reading.each f []) := by
  intro c l s hs
  refine ⟨[], rfl, ?_⟩
  rw [Reading.each, Reading.pure, itemsText, List.append_nil, List.append_nil]
  exact hs

variable {items : List Obj}

lemma yields_listLoop {obj : Obj} (hview : (e.rt.view sc.heap obj).body = .list items)
    {f : Obj → Reading Obj Doc}
    (hself : ∀ o, e.Yields sc d k (Doc.render e.indent d) (self o) (f o)) (fuel i : ℕ) :
    e.Yields sc d k (itemsText e.indent d (i = 0)) (e.listLoop self obj fuel i)
      (Reading.each f (items.drop i)) := by
  induction fuel generalizing i with
  | zero => exact fun _ _ _ _ => trivial
  | succ fuel ih =>
      intro c l s hs
      rw [listLoop]
      unfold listItems
      rw [wp_bind, wp_bind, Host.wp_look, hs.reached.heap, hview, wp_pure]
      have hread := hs.read obj
      cases hitem : items[i]? with
      | none =>
          rw [List.drop_eq_nil_of_le (List.getElem?_eq_none_iff.mp hitem)]
          exact yields_no_items c l _ hread
      | some item =>
          obtain ⟨hlt, rfl⟩ := List.getElem?_eq_some_iff.mp hitem
          rw [List.drop_eq_getElem_cons hlt]
          refine wp_spaced hread fun s1 hs1 => ?_
          rw [wp_bind, wp_event]
          exact wp_pair (yields_guarded (hself _)) (ih (i + 1)) (hs1.logged rfl) at_item

lemma yields_tupleLoop (obj : Obj) {f : Obj → Reading Obj Doc}
    (hself : ∀ o, e.Yields sc d k (Doc.render e.indent d) (self o) (f o)) (i : ℕ) :
    e.Yields sc d k (itemsText e.indent d (i = 0)) (e.tupleLoop self obj i items)
      (Reading.each f items) := by
  induction items generalizing i with
  | nil => exact yields_no_items
  | cons item items ih =>
      intro c l s hs
      rw [tupleLoop]
      refine wp_spaced hs fun s1 hs1 => ?_
      rw [wp_bind, wp_event, wp_bind, wp_event]
      exact wp_pair (hself item) (ih (i + 1)) ((hs1.logged rfl).logged rfl) at_item

/-- The brackets around the items. -/
lemma yields_array {m : Encode Obj H a Unit} {r : Reading Obj (List Doc)}
    (hne : ∀ docs, r.result = some docs → docs ≠ [])
    (hm : e.Yields sc (d + 1) k (itemsText e.indent (d + 1) true) m r) (hrt : e.rt.SideEffectFree) :
    e.Yields sc d k (Doc.render e.indent d) (do
      e.enter
      emit (·.push 91)
      m
      leave
      e.breakLine
      emit (·.push 93))
      ((e.reader sc).inside d (Reading.bind r fun docs => .pure (.arr docs))) := by
  refine yields_inside hrt fun c l s hs => ?_
  rw [wp_bind, wp_emit, wp_bind]
  refine (hm _ _ _ (hs.written fun b => b.content_push 91)).mono ?_ ?_ fun _ h => h
  · rintro _ s1 ⟨docs, hdocs, hs1⟩
    rw [Reading.bind_of_some hdocs]
    obtain ⟨doc, docs, rfl⟩ := List.exists_cons_of_ne_nil (hne docs hdocs)
    refine wp_ended hs1 fun s2 hs2 => ⟨_, rfl, ?_⟩
    rw [Doc.render, Reading.pure, List.append_nil]
    simpa [List.append_assoc] using hs2
  · rintro _ s1 ⟨hnone, hpast⟩
    rw [Reading.bind_of_none hnone]
    exact ⟨rfl, hpast⟩

lemma yields_emptyArray (hrt : e.rt.SideEffectFree) {f : Obj → Reading Obj Doc} :
    e.Yields sc d k (Doc.render e.indent d) (do
      e.enter
      leave
      emit (·.extend [91, 93]) : Encode Obj H a Unit)
      ((e.reader sc).inside d (Reading.bind (Reading.each f []) fun docs => .pure (.arr docs))) := by
  rw [Reading.each, Reading.pure_bind]
  refine yields_inside hrt fun c l s hs => wp_emptied hs fun s1 hs1 => ⟨.arr [], rfl, ?_⟩
  rw [Doc.render, Reading.pure, List.append_nil]
  exact hs1

omit [DecidableEq Obj] in
lemma each_ne_nil {f : Obj → Reading Obj Doc} (hne : items ≠ []) (docs : List Doc)
    (hdocs : (Reading.each f items).result = some docs) : docs ≠ [] := by
  rintro rfl
  have hlength := Reading.length_of_each hdocs
  exact hne (List.length_eq_zero_iff.mp hlength.symm)

lemma yields_list {obj : Obj} (hrt : e.rt.SideEffectFree)
    (hview : (e.rt.view sc.heap obj).body = .list items)
    (hself : ∀ d k o, e.Yields sc d k (Doc.render e.indent d) (self o) (rd d k o)) (fuel : ℕ) :
    e.Yields sc d k (Doc.render e.indent d) (e.list self fuel obj)
      ((e.reader sc).readShape rd d k obj (.array items)) := by
  intro c l s hs
  unfold list listItems
  rw [wp_bind, wp_bind, Host.wp_look, hs.reached.heap, hview, wp_pure]
  have hread := hs.read obj
  by_cases hnil : items = []
  · rw [hnil, if_pos List.length_nil]
    exact yields_emptyArray hrt c l _ hread
  · rw [if_neg (mt List.length_eq_zero_iff.mp hnil)]
    exact yields_array (each_ne_nil hnil) (yields_listLoop hview (hself (d + 1) k) fuel 0) hrt c l _ hread

lemma yields_tuple {obj : Obj} (hrt : e.rt.SideEffectFree)
    (hself : ∀ d k o, e.Yields sc d k (Doc.render e.indent d) (self o) (rd d k o)) :
    e.Yields sc d k (Doc.render e.indent d) (e.tuple self obj)
      ((e.reader sc).readShape rd d k obj (.array (e.rt.tupleItems obj))) := by
  refine Yields.logs ?_ rfl
  intro c l s hs
  generalize e.rt.tupleItems obj = items
  dsimp only
  by_cases hnil : items = []
  · rw [hnil, if_pos List.length_nil]
    exact yields_emptyArray hrt c l s hs
  · rw [if_neg (mt List.length_eq_zero_iff.mp hnil)]
    exact yields_array (each_ne_nil hnil) (yields_tupleLoop obj (hself (d + 1) k) 0) hrt c l s hs

/-! ### Dicts -/

/-- The members of a dict, one by one, up to the first bad key. -/
def readEntries (e : Env Obj H) (h : H) (f : Obj → Reading Obj Doc) :
    List (Entry Obj) → Reading Obj (List (Bytes × Doc))
  | [] => .pure []
  | kv :: entries =>
      if e.goodKey h kv.1 then
        .bind (f kv.2) fun doc => .bind (readEntries e h f entries) fun ms =>
          .pure (((e.member h kv).1, doc) :: ms)
      else .fail

omit [DecidableEq Obj] in
/-- Reading the members and then finding a bad key is reading them one by one. -/
lemma bind_readEntries {γ : Type} (h : H) (f : Obj → Reading Obj Doc) (entries : List (Entry Obj))
    (g : List (Bytes × Doc) → Reading Obj γ) :
    (Reading.bind (Reading.each (Reader.readMember f)
        ((entries.takeWhile fun kv => e.goodKey h kv.1).map (e.member h))) fun docs =>
      if entries.all fun kv => e.goodKey h kv.1 then g docs else .fail) =
    Reading.bind (e.readEntries h f entries) g := by
  induction entries generalizing g with
  | nil => rfl
  | cons kv entries ih =>
      rw [readEntries]
      by_cases hgood : e.goodKey h kv.1 = true
      · rw [List.takeWhile_cons, List.all_cons, hgood, if_pos rfl, if_pos rfl, List.map_cons,
          Reading.each, Reader.readMember]
        simp only [Reading.bind_assoc, Reading.pure_bind, Bool.true_and]
        congr 1
        funext doc
        exact ih fun ms => g (((e.member h kv).1, doc) :: ms)
      · rw [List.takeWhile_cons, List.all_cons, if_neg hgood, if_neg hgood, Bool.eq_false_iff.mpr hgood]
        rfl

omit [DecidableEq Obj] in
lemma keeps_breakLine : Keeps (e.breakLine : Encode Obj H a Unit) := by
  refine keeps_get_bind fun s => ?_
  split
  · exact keeps_emit _
  · exact .pure _

omit [DecidableEq Obj] in
lemma keeps_writeKey (hrt : e.rt.SideEffectFree) (key : Obj) (first : Bool) :
    Keeps (e.writeKey key first : Encode Obj H a Unit) := by
  have hrest : Keeps (do
      e.breakLine
      e.str key
      if e.indent then emit (·.extend [58, 32]) else emit (·.push 58) : Encode Obj H a Unit) := by
    refine keeps_breakLine.bind fun _ => (keeps_str hrt key).bind fun _ => ?_
    split
    · exact keeps_emit _
    · exact keeps_emit _
  cases first with
  | true => exact hrest
  | false => exact (keeps_emit _).bind fun _ => hrest

omit [DecidableEq Obj] in
lemma goodKey_of_writable {h : H} {key : Obj} {chars : List ℕ}
    (hchars : e.rt.strChars h key = some chars) :
    Writable (some chars) chars ↔ e.goodKey h key = true := by
  rw [goodKey, Option.isNone_iff_eq_none, keyError_eq_none, hchars]
  constructor
  · exact fun hw => ⟨chars, hw⟩
  · rintro ⟨cs, hcs⟩
    obtain rfl : chars = cs := Option.some.inj hcs.1
    exact hcs

/-- The key and the colon, where the key is good. -/
lemma wp_key (hrt : e.rt.SideEffectFree) {key : Obj} {chars : List ℕ} {first : Bool}
    (hchars : e.rt.strChars sc.heap key = some chars) (hs : e.Stage sc d k c l s)
    {Q : Unit → St Obj H a → Prop} {r : Prop}
    (hok : e.goodKey sc.heap key = true → ∀ s', e.Stage sc d k
      (c ++ ((if first then [] else [44]) ++ sep e.indent d ++ quoted chars ++ colon e.indent)) l s' →
        Q () s')
    (hbad : ¬ e.goodKey sc.heap key = true → r) :
    wp (fun _ => True) (e.writeKey key first) Q (fun _ s' => r ∧ e.Past sc l s') s := by
  have hwrite : wp (fun _ => True) (e.writeKey key first)
      (fun _ s' => e.goodKey sc.heap key = true ∧ At (fun h => h = sc.heap) d
        (c ++ ((if first then [] else [44]) ++ sep e.indent d ++ quoted chars ++ colon e.indent)) s')
      (fun _ _ => r) s :=
    e.wp_writeKey (fun h hh => hh ▸ hchars) hs.reached
      (fun hw s' hs' => ⟨(goodKey_of_writable hchars).mp hw, hs'⟩)
      (fun hw => hbad (mt (goodKey_of_writable hchars).mpr hw))
  refine (hs.wp_keeps (keeps_writeKey hrt key first) hwrite).mono ?_ (fun _ _ h => h) fun _ h => h
  rintro _ s' ⟨⟨hgood, hput⟩, hstage⟩
  exact hok hgood s' (hstage _ hput)

/-- A member, and the members behind it. -/
lemma wp_member {first : Bool} {key value : Obj} {chars : List ℕ} {entries : List (Entry Obj)}
    {f : Obj → Reading Obj Doc} {m m' : Encode Obj H a Unit} (hrt : e.rt.SideEffectFree)
    (hchars : e.rt.strChars sc.heap key = some chars)
    (hm : e.Yields sc d k (Doc.render e.indent d) m (f value))
    (hm' : e.Yields sc d k (membersText e.indent d false) m' (e.readEntries sc.heap f entries))
    (hs : e.Stage sc d k c l s) :
    wp (fun _ => True) (e.writeKey key first >>= fun _ => m >>= fun _ => m')
      (fun _ s' => e.Yielded sc d k (membersText e.indent d first) c l
        (e.readEntries sc.heap f ((key, value) :: entries)) s')
      (fun _ s' => e.Failed sc l (e.readEntries sc.heap f ((key, value) :: entries)) s') s := by
  rw [readEntries]
  dsimp only
  rw [wp_bind]
  by_cases hgood : e.goodKey sc.heap key = true
  · have hkey : wp (fun _ => True) (e.writeKey key first) (fun _ s' => e.Stage sc d k
        (c ++ ((if first then [] else [44]) ++ sep e.indent d ++ quoted chars ++ colon e.indent)) l s')
        (fun _ s' => False ∧ e.Past sc l s') s :=
      wp_key hrt hchars hs (fun _ _ hs1 => hs1) fun hbad => hbad hgood
    rw [if_pos hgood]
    refine hkey.mono ?_ (fun _ _ h => h.1.elim) fun _ h => h
    intro _ s1 hs1
    refine wp_pair hm hm' hs1 fun doc ms => ?_
    rw [membersText, member, hchars, Option.getD_some]
  · have hkey : wp (fun _ => True) (e.writeKey key first) (fun _ _ => False)
        (fun _ s' => True ∧ e.Past sc l s') s :=
      wp_key hrt hchars hs (fun h _ _ => hgood h) fun _ => trivial
    rw [if_neg hgood]
    exact hkey.mono (fun _ _ h => h.elim) (fun _ _ h => h.2.failed) fun _ h => h

lemma yields_no_entries {f : Obj → Reading Obj Doc} {first : Bool} :
    e.Yields sc d k (membersText e.indent d first) (Pure.pure () : Encode Obj H a Unit)
      (e.readEntries sc.heap f []) := by
  intro c l s hs
  refine ⟨[], rfl, ?_⟩
  rw [readEntries, Reading.pure, membersText, List.append_nil, List.append_nil]
  exact hs

section Dicts

variable {f : Obj → Reading Obj Doc} (hrt : e.rt.SideEffectFree)
  (hself : ∀ o, e.Yields sc d k (Doc.render e.indent d) (self o) (f o))

include hrt hself

lemma yields_dictLoop {obj : Obj} {slots : List (Option (Entry Obj))}
    (hview : (e.rt.view sc.heap obj).body = .dict slots) (fuel pos : ℕ) (first : Bool) :
    e.Yields sc d k (membersText e.indent d first) (e.dictLoop self obj fuel pos first)
      (e.readEntries sc.heap f (slots.drop pos).reduceOption) := by
  induction fuel generalizing pos first with
  | zero => exact fun _ _ _ _ => trivial
  | succ fuel ih =>
      intro c l s hs
      rw [dictLoop]
      unfold dictSlots
      rw [wp_bind, wp_bind, Host.wp_look, hs.reached.heap, hview, wp_pure]
      have hread := hs.read obj
      cases hnext : nextEntry slots pos with
      | none =>
          rw [firstEntry_none (Option.map_eq_none_iff.mp hnext)]
          exact yields_no_entries c l _ hread
      | some next =>
          obtain ⟨pos', key, value⟩ := next
          obtain ⟨⟨n, kv⟩, hn, heq⟩ := Option.map_eq_some_iff.mp hnext
          obtain ⟨rfl, rfl⟩ := Prod.mk.inj heq
          obtain ⟨hentries, -, -⟩ := firstEntry_some hn
          rw [List.drop_drop] at hentries
          rw [hentries]
          dsimp only
          rw [wp_bind, wp_event, wp_bind, wp_event, wp_bind, Host.wp_look]
          have hstage := ((hread.borrowed obj key).borrowed obj value).read key
          cases hchars : e.rt.strChars sc.heap key with
          | none =>
              have hbad : e.goodKey sc.heap key = false := by rw [goodKey, hchars]; rfl
              rw [readEntries, hbad, if_neg Bool.false_ne_true]
              unfold Runtime.strChars at hchars
              split
              · next t ht =>
                rw [hread.reached.heap] at ht
                rw [ht] at hchars
                exact absurd hchars (by simp)
              · exact hstage.wp_fail hrt _
          | some chars =>
              obtain ⟨t, ht, -⟩ := Runtime.body_of_strChars hchars
              split
              · exact wp_member hrt hchars (yields_entryValue (hself value)) (ih (pos + n) false) hstage
              · next hno =>
                rw [hread.reached.heap] at hno
                exact (hno t ht).elim

lemma yields_sortedLoop (entries : List (Entry Obj)) (first : Bool)
    (hgood : ∀ kv ∈ entries, e.goodKey sc.heap kv.1 = true) :
    e.Yields sc d k (membersText e.indent d first) (e.sortedLoop self first entries)
      (e.readEntries sc.heap f entries) := by
  induction entries generalizing first with
  | nil => exact yields_no_entries
  | cons kv entries ih =>
      obtain ⟨key, value⟩ := kv
      obtain ⟨hkey, hkeys⟩ := List.forall_mem_cons.mp hgood
      intro c l s hs
      rw [sortedLoop]
      cases hchars : e.rt.strChars sc.heap key with
      | none =>
          rw [goodKey, hchars] at hkey
          exact absurd hkey (by simp [keyError])
      | some chars => exact wp_member hrt hchars (hself value) (ih false hkeys) hs

end Dicts

omit [DecidableEq Obj] in
lemma length_of_readEntries {h : H} {f : Obj → Reading Obj Doc} {entries : List (Entry Obj)}
    {ms : List (Bytes × Doc)} (hms : (e.readEntries h f entries).result = some ms) :
    ms.length = entries.length := by
  induction entries generalizing ms with
  | nil =>
      obtain rfl := Option.some.inj hms
      rfl
  | cons kv entries ih =>
      rw [readEntries] at hms
      split at hms
      · cases hdoc : (f kv.2).result with
        | none =>
            rw [Reading.bind_of_none hdoc] at hms
            exact absurd hms (by simp)
        | some doc =>
            rw [Reading.bind_pair_of_some hdoc] at hms
            obtain ⟨rest, hrest, rfl⟩ := Option.map_eq_some_iff.mp hms
            rw [List.length_cons, List.length_cons, ih hrest]
      · exact absurd hms (by simp [Reading.fail])

omit [DecidableEq Obj] in
lemma goodKey_eq_true {h : H} {key : Obj} : e.goodKey h key = true ↔ e.GoodKey h key := by
  rw [e.goodKey_iff, ← keyError_eq_none, goodKey, Option.isNone_iff_eq_none]

/-- The members of a dict as they are written: in the order of the keys where that is asked for, and then
none before all keys were checked. -/
def readDict (e : Env Obj H) (h : H) (f : Obj → Reading Obj Doc) (entries : List (Entry Obj)) :
    Reading Obj (List (Bytes × Doc)) :=
  if hasOpt e.opts optSortKeys then
    if entries.all fun kv => e.goodKey h kv.1 then
      e.readEntries h f (sortByKey (e.rt.strChars h) entries)
    else .fail
  else e.readEntries h f entries

omit [DecidableEq Obj] in
lemma members_ne_nil {h : H} {f : Obj → Reading Obj Doc} {entries : List (Entry Obj)}
    {ms : List (Bytes × Doc)} (hne : entries ≠ []) (hms : (e.readDict h f entries).result = some ms) :
    ms ≠ [] := by
  rintro rfl
  unfold readDict at hms
  split at hms
  · split at hms
    · have hlength := length_of_readEntries hms
      unfold sortByKey at hlength
      rw [List.length_mergeSort] at hlength
      exact hne (List.length_eq_zero_iff.mp hlength.symm)
    · exact absurd hms (by simp [Reading.fail])
  · exact hne (List.length_eq_zero_iff.mp (length_of_readEntries hms).symm)

lemma readShape_dictShape (slots : List (Option (Entry Obj))) (obj : Obj) :
    (e.reader sc).readShape rd d k obj (e.dictShape sc.heap slots) =
      (e.reader sc).inside d (Reading.bind (e.readDict sc.heap (rd (d + 1) k) slots.reduceOption)
        fun ms => .pure (.obj ms)) := by
  unfold dictShape readDict
  dsimp only
  by_cases hsort : hasOpt e.opts optSortKeys = true
  · rw [if_pos hsort, if_pos hsort]
    by_cases hgood : (slots.reduceOption.all fun kv => e.goodKey sc.heap kv.1) = true
    · rw [if_pos hgood, if_pos hgood]
      have hperm : (sortByKey (e.rt.strChars sc.heap) slots.reduceOption).Perm slots.reduceOption :=
        List.mergeSort_perm ..
      have hall : ∀ kv ∈ sortByKey (e.rt.strChars sc.heap) slots.reduceOption,
          e.goodKey sc.heap kv.1 = true := fun kv hkv =>
        List.all_eq_true.mp hgood kv (hperm.mem_iff.mp hkv)
      have hread := bind_readEntries (e := e) sc.heap (rd (d + 1) k)
        (sortByKey (e.rt.strChars sc.heap) slots.reduceOption) fun ms => .pure (Doc.obj ms)
      rw [List.takeWhile_eq_self_iff.mpr hall, List.all_eq_true.mpr hall] at hread
      rw [← hread]
      rfl
    · rw [if_neg hgood, if_neg hgood]
      rfl
  · rw [if_neg hsort, if_neg hsort, ← bind_readEntries]
    rfl

omit [DecidableEq Obj] in
lemma keeps_holdEntries (obj : Obj) (entries : List (Entry Obj)) :
    Keeps (holdEntries obj entries : Encode Obj H a Unit) := by
  induction entries with
  | nil => exact .pure _
  | cons kv entries ih =>
      exact (keeps_event rfl).bind fun _ => (keeps_event rfl).bind fun _ =>
        (keeps_incref _).bind fun _ => (keeps_incref _).bind fun _ => ih

lemma Stage.readKeys (hs : e.Stage sc d k c l s) (entries : List (Entry Obj)) :
    e.Stage sc d k c l (entries.foldl (fun s kv => readKey s kv.1) s) := by
  induction entries generalizing s with
  | nil => exact hs
  | cons kv entries ih => exact ih (hs.read kv.1)

omit [DecidableEq Obj] in
lemma setting_release (entries : List (Entry Obj)) (s : St Obj H a) :
    (release s entries).setting = s.setting := by
  induction entries generalizing s with
  | nil => rfl
  | cons kv entries ih =>
      obtain ⟨key, value⟩ := kv
      rw [release, ih, St.setting_dropped, St.setting_dropped]

section Dicts

variable {f : Obj → Reading Obj Doc} (hrt : e.rt.SideEffectFree)

include hrt

lemma yields_writeSorted {entries : List (Entry Obj)}
    (hself : ∀ o, e.Yields sc d k (Doc.render e.indent d) (self o) (f o))
    (hsort : hasOpt e.opts optSortKeys = true) :
    e.Yields sc d k (membersText e.indent d true) (e.writeSorted self entries)
      (e.readDict sc.heap f entries) := by
  intro c l s hs
  have hheap := hs.reached.heap
  unfold writeSorted readDict
  rw [if_pos hsort]
  rcases e.keys_good_or_bad sc.heap entries with hgood | ⟨good, kv, rest, msg, rfl, hgood, hbad⟩
  · have hall : (entries.all fun kv => e.goodKey sc.heap kv.1) = true :=
      List.all_eq_true.mpr fun kv hkv => goodKey_eq_true.mpr (hgood kv hkv)
    have hperm : (sortByKey (e.rt.strChars sc.heap) entries).Perm entries := List.mergeSort_perm ..
    rw [if_pos hall]
    rw [← hheap] at hgood
    rw [wp_bind_of_ok (e.keyedEntries_good hgood), e.sorted_eq_sortByKey hgood fun _ _ => rfl, hheap]
    refine yields_sortedLoop hrt hself _ true (fun kv hkv => ?_) c l _ (hs.readKeys entries)
    exact List.all_eq_true.mp hall kv (hperm.mem_iff.mp hkv)
  · have hno : ¬ ((good ++ kv :: rest).all fun kv => e.goodKey sc.heap kv.1) = true := by
      intro hall
      have hkv := List.all_eq_true.mp hall kv (List.mem_append_right _ List.mem_cons_self)
      obtain ⟨t, ht⟩ := goodKey_eq_true.mp hkv
      exact absurd (ht.symm.trans hbad) (by simp)
    rw [if_neg hno, wp_bind]
    rw [← hheap] at hgood hbad
    unfold wp
    rw [e.keyedEntries_bad hgood hbad]
    exact (hs.readKeys (good ++ [kv])).wp_fail hrt msg

lemma yields_dictSorted {obj : Obj} {slots : List (Option (Entry Obj))}
    (hview : (e.rt.view sc.heap obj).body = .dict slots)
    (hself : ∀ o, e.Yields sc d k (Doc.render e.indent d) (self o) (f o))
    (hsort : hasOpt e.opts optSortKeys = true) :
    e.Yields sc d k (membersText e.indent d true) (e.dictSorted self obj)
      (e.readDict sc.heap f slots.reduceOption) := by
  intro c l s hs
  unfold dictSorted dictSlots
  rw [wp_bind, wp_bind, Host.wp_look, hs.reached.heap, hview, wp_pure, wp_bind]
  have hhold : wp (fun _ => True) (holdEntries obj slots.reduceOption)
      (fun _ s' => At (fun h => h = sc.heap) d c s') (fun _ _ => False)
      { s with log := s.log ++ [.read (.obj obj)] } := by
    obtain ⟨log, hlog⟩ := holdEntries_eq (a := a) obj slots.reduceOption
      { s with log := s.log ++ [.read (.obj obj)] }
    unfold wp
    rw [hlog]
    exact hs.reached.logged log
  refine ((hs.read obj).wp_keeps (keeps_holdEntries obj slots.reduceOption) hhold).mono ?_
    (fun _ _ h => h.1.elim) fun _ h => h
  rintro _ s1 ⟨hput, hstage⟩
  rw [wp_onExit]
  refine (yields_writeSorted hrt hself hsort c l s1 (hstage c hput)).mono ?_ ?_ fun _ h => h
  · rintro _ s2 ⟨ms, hms, hs2⟩
    obtain ⟨log, hlog⟩ := release_eq slots.reduceOption s2
    refine ⟨ms, hms, hs2.of_setting ?_ (setting_release _ s2)⟩
    rw [hlog]
    exact hs2.reached.logged log
  · rintro _ s2 ⟨hnone, hpast⟩
    exact ⟨hnone, hpast.of_setting (setting_release _ s2)⟩

lemma yields_dict {obj : Obj} {slots : List (Option (Entry Obj))}
    (hview : (e.rt.view sc.heap obj).body = .dict slots)
    (hself : ∀ d k o, e.Yields sc d k (Doc.render e.indent d) (self o) (rd d k o)) (fuel : ℕ) :
    e.Yields sc d k (Doc.render e.indent d) (e.dict self fuel obj)
      ((e.reader sc).readShape rd d k obj (e.dictShape sc.heap slots)) := by
  rw [readShape_dictShape]
  refine Yields.logs ?_ rfl
  refine yields_inside hrt fun c l s hs => ?_
  unfold dictSlots
  rw [wp_bind, wp_bind, Host.wp_look, hs.reached.heap, hview, wp_pure]
  have hread := hs.read obj
  by_cases hnil : slots.reduceOption = []
  · have hempty : e.readDict sc.heap (rd (d + 1) k) [] = .pure [] := by
      simp [readDict, readEntries, sortByKey]
    rw [hnil, if_pos List.length_nil, hempty, Reading.pure_bind]
    refine wp_emptied hread fun s1 hs1 => ⟨.obj [], rfl, ?_⟩
    rw [Doc.render, Reading.pure, List.append_nil]
    exact hs1
  · rw [if_neg (mt List.length_eq_zero_iff.mp hnil), wp_bind, wp_emit]
    obtain ⟨r, hr⟩ : ∃ r, r = e.readDict sc.heap (rd (d + 1) k) slots.reduceOption := ⟨_, rfl⟩
    have hopen := hread.written fun b => b.content_push 123
    -- the members, in whichever order, and the brace behind them
    have hclose : ∀ m : Encode Obj H a Unit, e.Yields sc (d + 1) k (membersText e.indent (d + 1) true) m r →
        wp (fun _ => True) (m >>= fun _ => leave >>= fun _ => e.breakLine >>= fun _ => emit (·.push 125))
          (fun _ s' => e.Yielded sc d k (Doc.render e.indent d) c l (r.bind fun ms => .pure (.obj ms)) s')
          (fun _ s' => e.Failed sc l (r.bind fun ms => .pure (Doc.obj ms)) s')
          (St.written { s with log := s.log ++ [.read (.obj obj)] } (s.out.push 123)) := by
      intro m hm
      rw [wp_bind]
      refine (hm _ _ _ hopen).mono ?_ ?_ fun _ h => h
      · rintro _ s1 ⟨ms, hms, hs1⟩
        rw [Reading.bind_of_some hms]
        obtain ⟨x, xs, rfl⟩ := List.exists_cons_of_ne_nil (members_ne_nil hnil (hr ▸ hms))
        refine wp_ended hs1 fun s2 hs2 => ⟨_, rfl, ?_⟩
        rw [Doc.render, Reading.pure, List.append_nil]
        simpa [List.append_assoc] using hs2
      · rintro _ s1 ⟨hnone, hpast⟩
        rw [Reading.bind_of_none hnone]
        exact ⟨rfl, hpast⟩
    rw [← hr]
    by_cases hsort : hasOpt e.opts optSortKeys = true
    · rw [if_pos hsort]
      refine hclose _ ?_
      rw [hr]
      exact yields_dictSorted hrt hview (hself (d + 1) k) hsort
    · rw [if_neg hsort]
      have hentries : r = e.readEntries sc.heap (rd (d + 1) k) slots.reduceOption :=
        hr.trans (if_neg hsort)
      refine hclose _ ?_
      rw [hentries]
      exact yields_dictLoop hrt (hself (d + 1) k) hview fuel 0 true

end Dicts

end Containers

end Env

end Isojson
