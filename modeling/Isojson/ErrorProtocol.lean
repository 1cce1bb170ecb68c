import Isojson.History
import Isojson.Layouts
import Isojson.WellFormed

/-!
# The error protocol

A function of the encoder that is entered without an exception returns without one, and where it
raises, an exception is set (`Obeys`).  For what only asks CPython this holds of any replies
(`Reports`); the writers rely besides on the layouts of the objects they read.
-/

namespace Isojson

open Run

variable {Obj H : Type} {a : Allocator} {α β : Type}

/-! ## Requests -/

/-- Entered without an exception, the run returns without one or raises one. -/
def Reports (m : Encode Obj H a α) : Prop :=
  ∀ s, s.exc = none → wp (fun _ => False) m (fun _ s' => s'.exc = none) (fun _ s' => s'.exc.isSome) s

section Reports

variable {m : Encode Obj H a α} {k : α → Encode Obj H a β}

lemma Reports.pure (x : α) : Reports (Pure.pure x : Encode Obj H a α) := fun _ hs => hs

lemma Reports.modify {g : St Obj H a → St Obj H a} (hg : ∀ s, s.exc = none → (g s).exc = none) :
    Reports (Run.modify g : Encode Obj H a Unit) := hg

lemma Reports.bind (hm : Reports m) (hk : ∀ x, Reports (k x)) : Reports (m >>= k) := by
  intro s hs
  rw [wp_bind]
  exact (hm s hs).mono (fun x s1 hs1 => hk x s1 hs1) (fun _ _ h => h) fun _ h => h

/-- The continuation may look at the state. -/
lemma Reports.get_bind {k : St Obj H a → Encode Obj H a β} (hk : ∀ s0, Reports (k s0)) :
    Reports (Run.get >>= k) := by
  intro s hs
  rw [wp_bind]
  exact hk s s hs

lemma Reports.onExit (hm : Reports m) {g : St Obj H a → St Obj H a} (hg : ∀ s, (g s).exc = s.exc) :
    Reports (Run.onExit m g) := by
  intro s hs
  rw [wp_onExit]
  exact (hm s hs).mono (fun _ s' h => (hg s').trans h) (fun _ s' h => (hg s').symm ▸ h) fun _ h => h

lemma reports_event (ev : Event Obj) : Reports (event ev : Encode Obj H a Unit) :=
  .modify fun _ hs => hs

lemma reports_incref (o : Obj) : Reports (incref o : Encode Obj H a Unit) :=
  (reports_event _).bind fun _ => reports_event _

end Reports

namespace Host

variable (e : Host Obj H)

lemma reports_look (o : Obj) : Reports (e.look o : Encode Obj H a _) := fun _ hs => hs

lemma reports_fail (msg : String) : Reports (e.fail msg : Encode Obj H a α) :=
  fun s _ => e.fail_spec msg s

/-- A request that may fail, and what follows either way. -/
lemma reports_ask {c : Call Obj} {k : Option Obj → Encode Obj H a β}
    (hok : ∀ o, Reports (k (some o)))
    (hraised : ∀ s, s.exc.isSome → wp (fun _ => False) (k none) (fun _ s' => s'.exc = none)
      (fun _ s' => s'.exc.isSome) s) : Reports (e.ask c >>= k) := by
  intro s hs
  rw [wp_bind]
  exact e.wp_ask (fun o w _ => hok o _ hs) fun exc w _ => hraised _ rfl

lemma reports_call {guard : Bool} {c : Call Obj} {k : Option Obj → Encode Obj H a β}
    (hok : ∀ o, Reports (k (some o)))
    (hraised : ∀ s, s.exc.isSome → wp (fun _ => False) (k none) (fun _ s' => s'.exc = none)
      (fun _ s' => s'.exc.isSome) s) : Reports (e.call guard c >>= k) := by
  intro s hs
  rw [wp_bind]
  exact e.wp_call (fun o w _ => hok o _ hs) fun exc w _ => hraised _ rfl

/-- The note is added to the exception, or the exception stands alone. -/
lemma addNote_spec (guard : Bool) (note : String) {s : St Obj H a} (hs : s.exc.isSome) :
    wp (fun _ => False) (e.addNote guard note) (fun _ s' => s'.exc.isSome) (fun _ _ => False) s := by
  unfold addNote
  rw [wp_bind]
  refine (fetchExc_spec s).mono ?_ (fun _ _ h => h) fun _ h => h
  rintro _ s1 ⟨rfl, -, -⟩
  obtain ⟨exc, hexc⟩ := Option.isSome_iff_exists.mp hs
  rw [hexc]
  dsimp only
  rw [wp_bind]
  refine ((e.returns_request _).wp s1).mono (fun name s2 _ => ?_) (fun _ _ h => h) fun _ h => h
  rw [wp_bind]
  refine ((e.returns_request _).wp s2).mono (fun text s3 _ => ?_) (fun _ _ h => h) fun _ h => h
  rw [wp_bind]
  refine ((e.returns_callAddNote guard exc note name text).wp s3).mono (fun r s4 _ => ?_)
    (fun _ _ h => h) fun _ h => h
  have hrest : ∀ s5 : St Obj H a, wp (fun _ => False) (do
      decrefIfSome name
      decrefIfSome text
      event (.read exc.root)
      restoreExc (if r.isSome then .noted exc note else exc) : Encode Obj H a Unit)
      (fun _ s' => s'.exc.isSome) (fun _ _ => False) s5 := by
    intro s5
    rw [wp_bind]
    refine ((returns_decrefIfSome name).wp s5).mono (fun _ s6 _ => ?_) (fun _ _ h => h) fun _ h => h
    rw [wp_bind]
    refine ((returns_decrefIfSome text).wp s6).mono (fun _ s7 _ => ?_) (fun _ _ h => h) fun _ h => h
    rfl
  cases r with
  | none => exact hrest _
  | some r => exact hrest _

end Host

namespace Env

variable (e : Env Obj H)

lemma reports_arrayStruct (obj : Obj) : Reports (e.arrayStruct obj : Encode Obj H a _) := by
  -- whatever is pending becomes the cause
  have hbad : ∀ s, wp (fun _ => False) (do
      e.raiseTypeErrorFromCurrent "numpy array is malformed"
      Run.throw ⟨⟩ : Encode Obj H a (Obj × PyArrayInterface)) (fun _ s' => s'.exc = none)
      (fun _ s' => s'.exc.isSome) s := by
    intro s
    rw [wp_bind]
    exact (e.raiseTypeErrorFromCurrent_spec _ s).mono (fun _ _ h => h) (fun _ _ h => h) fun _ h => h
  refine e.reports_call (fun capsule => ?_) fun s hs => hs
  refine (e.reports_look capsule).bind fun p => ?_
  split
  · split
    · exact .pure _
    · exact fun s _ => hbad _
  · exact fun s _ => hbad _

lemma reports_utf8Of (o : Obj) : Reports (e.utf8Of o : Encode Obj H a _) := by
  refine (e.reports_look o).bind fun p => ?_
  split
  · split
    · exact fun _ _ => rfl
    · exact e.reports_ask (fun _ => .pure _) fun _ hs => hs
  · exact fun _ _ => rfl

lemma reports_dtypeStr (obj : Obj) : Reports (e.dtypeStr obj : Encode Obj H a _) := by
  refine e.reports_call (fun dtype => ?_) fun _ hs => hs
  refine e.reports_call (fun o => ?_) fun _ hs => hs
  exact (reports_event _).bind fun _ => (e.reports_utf8Of o).onExit fun _ => rfl

lemma reports_dt64Unit (obj : Obj) : Reports (e.dt64Unit obj : Encode Obj H a _) := by
  refine (e.reports_dtypeStr obj).bind fun dtype => ?_
  split <;> exact .pure _

lemma reports_arrayDecline (obj : Obj) (iface : PyArrayInterface) (check : ArrayDecline) :
    Reports (e.arrayDecline obj iface check : Encode Obj H a _) := by
  cases check with
  | notContiguous => exact .pure _
  | notNative | zeroDim | unsupportedDtype =>
      exact (e.reports_dtypeStr obj).bind fun _ => .pure _

lemma reports_arrayUnit (obj : Obj) (elem : ElementType) (shape : List ℕ) :
    Reports (e.arrayUnit obj elem shape : Encode Obj H a _) := by
  unfold arrayUnit
  split
  · exact (e.reports_dt64Unit obj).bind fun _ => .pure _
  · exact .pure _

lemma reports_holdEntries (obj : Obj) (entries : List (Entry Obj)) :
    Reports (holdEntries obj entries : Encode Obj H a _) := by
  induction entries with
  | nil => exact .pure _
  | cons kv entries ih =>
      exact (reports_event _).bind fun _ => (reports_event _).bind fun _ =>
        (reports_incref _).bind fun _ => (reports_incref _).bind fun _ => ih

/-- A result of `default`, or an error that says why there is none. -/
lemma invokeDefault_spec (obj : Obj) {s : St Obj H a} (hs : s.exc = none) :
    wp (fun _ => False) (e.invokeDefault obj) (fun r s' => match r with
      | .ok _ => s'.exc = none
      | .error _ => s'.exc.isSome) (fun _ _ => False) s := by
  unfold invokeDefault
  rw [wp_bind, wp_get]
  split
  · rw [wp_bind]
    exact (e.raiseTypeError_spec _ s).mono (fun _ _ h => h) (fun _ _ h => h) fun _ h => h
  · rw [wp_bind, wp_event, wp_bind]
    refine e.wp_call (fun r w _ => hs) fun exc w _ => ?_
    rw [wp_bind, Host.wp_look, wp_bind]
    exact (e.raiseTypeErrorFromCurrent_spec _ _).mono (fun _ _ h => h) (fun _ _ h => h) fun _ h => h

end Env

/-! ## Writers -/

/-- Entered with `P` and without an exception, the run does nothing undefined, keeps `P`, and
either returns without an exception, with a result that meets `R`, or raises one. -/
def Obeys (P : St Obj H a → Prop) (R : α → Prop) (m : Encode Obj H a α) : Prop :=
  ∀ s, P s → s.exc = none → wlp m (fun x s' => (P s' ∧ s'.exc = none) ∧ R x)
    (fun _ s' => P s' ∧ s'.exc.isSome) s

/-- Entered with `P` and with an exception, the run raises one. -/
def Fails (P : St Obj H a → Prop) (m : Encode Obj H a α) : Prop :=
  ∀ s, P s → s.exc.isSome → wlp m (fun _ _ => False) (fun _ s' => P s' ∧ s'.exc.isSome) s

section Obeys

variable {P : St Obj H a → Prop} {R : α → Prop} {R' : β → Prop} {m : Encode Obj H a α}
  {k : α → Encode Obj H a β}

lemma Obeys.pure {x : α} (hx : R x) : Obeys P R (Pure.pure x : Encode Obj H a α) :=
  fun _ hs hexc => ⟨⟨hs, hexc⟩, hx⟩

lemma Obeys.bind (hm : Obeys P R m) (hk : ∀ x, R x → Obeys P R' (k x)) : Obeys P R' (m >>= k) := by
  intro s hs hexc
  rw [wlp_bind]
  refine (hm s hs hexc).mono ?_ fun _ _ h => h
  rintro x s1 ⟨⟨hs1, hexc1⟩, hx⟩
  exact hk x hx s1 hs1 hexc1

lemma Obeys.get_bind {k : St Obj H a → Encode Obj H a β}
    (hk : ∀ s0, P s0 → s0.exc = none → Obeys P R' (k s0)) : Obeys P R' (Run.get >>= k) := by
  intro s hs hexc
  rw [wlp_bind]
  exact hk s hs hexc s hs hexc

lemma Obeys.modify {g : St Obj H a → St Obj H a} (hP : ∀ s, P s → P (g s))
    (hexc : ∀ s, s.exc = none → (g s).exc = none) :
    Obeys P (fun _ => True) (Run.modify g : Encode Obj H a Unit) :=
  fun s hs h => ⟨⟨hP s hs, hexc s h⟩, trivial⟩

lemma Obeys.onExit (hm : Obeys P R m) {g : St Obj H a → St Obj H a} (hP : ∀ s, P s → P (g s))
    (hexc : ∀ s, (g s).exc = s.exc) : Obeys P R (Run.onExit m g) := by
  intro s hs h
  rw [wlp_onExit]
  refine (hm s hs h).mono ?_ ?_
  · rintro x s' ⟨⟨hs', h'⟩, hx⟩
    exact ⟨⟨hP s' hs', (hexc s').trans h'⟩, hx⟩
  · rintro _ s' ⟨hs', h'⟩
    exact ⟨hP s' hs', (hexc s').symm ▸ h'⟩

/-- What is known of the results besides. -/
lemma Obeys.results (hm : Obeys P R m) {Q : α → Prop}
    (h : ∀ s, wp (fun _ => True) m (fun x _ => Q x) (fun _ _ => True) s) : Obeys P Q m :=
  fun s hs hexc => ((hm s hs hexc).and (h s)).mono (fun _ _ hx => ⟨hx.1.1, hx.2⟩) fun _ _ h => h.1

lemma Obeys.unchecked {o : Option α} {x : α} (h : o = some x) :
    Obeys P (fun y => y = x) (Run.unchecked o : Encode Obj H a α) := by
  subst h
  exact .pure rfl

lemma Fails.throw (x : PendingPyErr) : Fails P (Run.throw x : Encode Obj H a α) :=
  fun _ hs h => ⟨hs, h⟩

end Obeys

/-- What requests keep. -/
def KeptBy (rt : Runtime Obj H) (P : St Obj H a → Prop) : Prop := ∀ s s', Asked rt s s' → P s → P s'

lemma Reports.obeys {rt : Runtime Obj H} {P : St Obj H a → Prop} {m : Encode Obj H a α}
    (hm : Reports m) (ha : Asks rt m) (hP : KeptBy rt P) : Obeys P (fun _ => True) m := by
  intro s hs hexc
  refine ((hm s hexc).wlp.and (ha.asked s)).mono ?_ ?_
  · rintro x s' ⟨h, hasked⟩
    exact ⟨⟨hP s s' hasked hs, h⟩, trivial⟩
  · rintro _ s' ⟨h, hasked⟩
    exact ⟨hP s s' hasked hs, h⟩

section Steady

variable [DecidableEq Obj] {rt : Runtime Obj H} (hl : rt.Layouts)

include hl

lemma keptBy_steady : KeptBy rt (Steady rt : St Obj H a → Prop) :=
  fun _ _ h hs => h.steady hl hs

lemma Reports.steady {m : Encode Obj H a α} (hm : Reports m) (ha : Asks rt m) :
    Obeys (Steady rt) (fun _ => True) m := hm.obeys ha (keptBy_steady hl)

omit hl in
/-- The groups are not touched by what is written. -/
lemma obeys_emit (f : Buffer a → Buffer a) :
    Obeys (Steady rt) (fun _ => True) (emit f : Encode Obj H a Unit) :=
  .modify (fun _ hs => ⟨hs.types, hs.dt⟩) fun _ h => St.exc_written h _

omit hl in
lemma obeys_leave : Obeys (Steady rt) (fun _ => True) (Env.leave : Encode Obj H a Unit) :=
  .modify (fun _ hs => ⟨hs.types, hs.dt⟩) fun _ h => h

end Steady

/-! ### Lookups in the type cache -/

/-- The types in the cache fit, before the encoder is there. -/
def Fitting [DecidableEq Obj] (rt : Runtime Obj H) (s : St Obj H a) : Prop := s.world.types.Fits rt

/-- The part of the state that `P` is about is the cache, with types that fit. -/
structure OfCache [DecidableEq Obj] (rt : Runtime Obj H) (P : St Obj H a → Prop) : Prop where
  fits : ∀ s, P s → s.world.types.Fits rt
  types : ∀ s c, P s → c.Fits rt → P { s with world := { s.world with types := c } }
  exc : ∀ s exc, P s → P { s with exc := exc }

section Lookups

variable [DecidableEq Obj] {rt : Runtime Obj H} {P : St Obj H a → Prop}

lemma OfCache.steady : OfCache rt (Steady rt : St Obj H a → Prop) :=
  ⟨fun _ hs => hs.types, fun _ _ hs hc => ⟨hc, hs.dt⟩, fun _ _ hs => ⟨hs.types, hs.dt⟩⟩

lemma OfCache.fitting : OfCache rt (Fitting rt : St Obj H a → Prop) :=
  ⟨fun _ hs => hs, fun _ _ _ hc => hc, fun _ _ hs => hs⟩

lemma obeys_cached (hP : OfCache rt P) {R : α → Prop}
    {f : H → TypeCache Obj → Except Obj α × TypeCache Obj}
    (hf : ∀ h c, c.Fits rt → (f h c).2.Fits rt ∧ ∀ x, (f h c).1 = .ok x → R x) :
    Obeys P R (Env.cached f : Encode Obj H a α) := by
  intro s hs hexc
  obtain ⟨hfits, hr⟩ := hf s.world.heap s.world.types (hP.fits s hs)
  unfold Env.cached
  rw [wlp_bind, wlp_get, wlp_bind, wlp_modify]
  split
  · next x hx => exact ⟨⟨hP.types s _ hs hfits, hexc⟩, hr x hx⟩
  · exact ⟨hP.exc _ _ (hP.types s _ hs hfits), rfl⟩

lemma obeys_datetimeGroup (hl : rt.Layouts) (hP : OfCache rt P) :
    Obeys P (fun r => ∀ dt ∈ r, dt.Fits rt) (Env.datetimeGroup rt : Encode Obj H a _) := by
  have hcached : Obeys P (fun r => ∀ dt ∈ r, dt.Fits rt)
      (Env.cached fun h c => c.datetime rt h : Encode Obj H a _) :=
    obeys_cached hP fun h c hc => hl.datetime h hc
  refine .get_bind fun s _ _ => ?_
  split
  · -- the error about a wrong capsule is cleared
    intro s hs _
    exact hcached _ (hP.exc _ _ (hP.exc _ _ hs)) rfl
  · exact hcached

end Lookups

namespace Env

variable [DecidableEq Obj] (e : Env Obj H) (hl : e.rt.Layouts)

/-- A look, and what follows. -/
lemma obeys_look {R : β → Prop} {o : Obj} {k : PyObj Obj → Encode Obj H a β}
    (hk : ∀ h, Obeys (Steady e.rt) R (k (e.rt.view h o))) :
    Obeys (Steady e.rt) R (e.look o >>= k) := by
  intro s hs hexc
  exact hk s.world.heap _ ⟨hs.types, hs.dt⟩ hexc

include hl

lemma obeys_event (ev : Event Obj) :
    Obeys (Steady e.rt) (fun _ => True) (event ev : Encode Obj H a Unit) :=
  (reports_event ev).steady hl (asks_event _)

lemma obeys_fail {R : α → Prop} (msg : String) :
    Obeys (Steady e.rt) R (e.fail msg : Encode Obj H a α) := by
  intro s hs hexc
  refine ((e.fail_spec (Q := fun _ _ => False) msg s).wlp.and ((e.asks_fail msg).asked s)).mono ?_ ?_
  · exact fun _ _ h => h.1.elim
  · exact fun _ s' h => ⟨h.2.steady hl hs, h.1⟩

/-! ### Leaves -/

lemma obeys_str {obj : Obj} (ho : e.rt.IsLaidOut .str obj) :
    Obeys (Steady e.rt) (fun _ => True) (e.str obj : Encode Obj H a Unit) := by
  refine e.obeys_look fun h => ?_
  have hbody := ho h
  cases hb : (e.rt.view h obj).body with
  | str t =>
      refine .get_bind fun s _ _ => (obeys_emit _).bind fun _ _ => ?_
      split
      · exact .pure trivial
      · exact e.obeys_fail hl _
  | _ =>
      rw [hb] at hbody
      cases hbody

lemma obeys_ask {R : β → Prop} {c : Call Obj} {k : Option Obj → Encode Obj H a β}
    (hok : ∀ o, Obeys (Steady e.rt) R (k (some o))) (hraised : Fails (Steady e.rt) (k none)) :
    Obeys (Steady e.rt) R (e.ask c >>= k) := by
  intro s hs hexc
  rw [wlp_bind]
  have hreply := hl.reply c s.world hs.types
  refine wp.wlp (e.wp_ask (fun o w hr => ?_) fun exc w hr => ?_)
  · rw [hr] at hreply
    exact hok o _ ⟨hreply, hs.dt⟩ hexc
  · rw [hr] at hreply
    exact (hraised { s with world := w, exc := some (.object exc) } ⟨hreply, hs.dt⟩ rfl).mono
      (fun _ _ h => h.elim) fun _ _ h => h

lemma obeys_request {R : β → Prop} {c : Call Obj} {k : Option Obj → Encode Obj H a β}
    (hok : ∀ o, Obeys (Steady e.rt) R (k (some o))) (hraised : Fails (Steady e.rt) (k none)) :
    Obeys (Steady e.rt) R (e.request c >>= k) := by
  unfold Host.request
  rw [bind_assoc]
  exact e.obeys_ask hl (fun o s hs hexc => hok o _ ⟨hs.types, hs.dt⟩ hexc) hraised

lemma obeys_intOutside64Bits (obj : Obj) (z : ℤ) :
    Obeys (Steady e.rt) (fun _ => True) (e.intOutside64Bits obj z : Encode Obj H a Unit) := by
  have hrecord : Obeys (Steady e.rt) (fun _ => True)
      (e.recordPylong e.guard obj z 10 : Encode Obj H a Unit) := by
    rw [Host.recordPylong_eq]
    exact .modify (fun _ hs => ⟨hs.types, hs.dt⟩) fun _ h => h
  unfold intOutside64Bits Host.toBase
  split
  · exact e.obeys_fail hl _
  · rw [bind_assoc]
    refine hrecord.bind fun _ _ => ?_
    refine e.obeys_request hl (fun text => ?_) (.throw _)
    have hread := (e.reports_utf8Of (a := a) text).steady hl (e.asks_utf8Of text)
    exact (hread.bind fun _ _ => obeys_emit _).onExit (fun _ hs => ⟨hs.types, hs.dt⟩) fun _ => rfl

lemma obeys_int {obj : Obj} (ho : e.rt.IsLaidOut .int obj) :
    Obeys (Steady e.rt) (fun _ => True) (e.int obj : Encode Obj H a Unit) := by
  refine e.obeys_look fun h => ?_
  have hbody := ho h
  cases hb : (e.rt.view h obj).body with
  | int z =>
      dsimp only
      split
      · refine .get_bind fun s _ hexc => ?_
        split
        · next hprobe =>
          rw [hexc] at hprobe
          exact absurd hprobe.2 Bool.false_ne_true
        · split
          · exact e.obeys_fail hl _
          · exact obeys_emit _
      · split
        · intro s hs hexc
          unfold asUnsignedLongLong
          split
          · -- the probe finds no error, since none was pending
            simp only [wlp_bind, wlp_pure, wlp_get]
            rw [if_pos (Or.inr (by rw [hexc]; rfl))]
            exact obeys_emit _ s hs hexc
          · -- the error of the probe is cleared
            simp only [wlp_bind, wlp_pure, wlp_get]
            exact e.obeys_intOutside64Bits hl obj z _ ⟨hs.types, hs.dt⟩ rfl
        · exact e.obeys_intOutside64Bits hl obj z
  | _ =>
      rw [hb] at hbody
      cases hbody

lemma obeys_utcoffsetOf (obj tzinfo arg : Obj) (what : String) :
    Obeys (Steady e.rt) OffsetUnderADay (e.utcoffsetOf obj tzinfo arg what : Encode Obj H a _) := by
  have hreports : Reports (e.utcoffsetOf obj tzinfo arg what : Encode Obj H a _) := fun s hs =>
    (e.utcoffsetOf_spec obj tzinfo arg what s).mono (fun _ _ h => h.2.trans hs) (fun _ _ h => h.2)
      fun _ h => h
  refine (hreports.steady hl (e.asks_utcoffsetOf obj tzinfo arg what)).results fun s => ?_
  refine (e.utcoffsetOf_spec obj tzinfo arg what s).mono ?_ (fun _ _ _ => trivial) fun _ h => h
  rintro answer s' ⟨hanswer, -⟩ us rfl
  exact e.rt.offsetAnswer_lt hanswer

lemma obeys_datetime {obj : Obj} (ho : e.rt.IsLaidOut .datetime obj) :
    Obeys (Steady e.rt) (fun _ => True) (e.datetime obj : Encode Obj H a Unit) := by
  refine e.obeys_look fun h => ?_
  have hbody := ho h
  cases hb : (e.rt.view h obj).body with
  | datetime d t tzinfo =>
      refine (e.obeys_event hl _).bind fun _ _ =>
        (e.obeys_utcoffsetOf hl obj tzinfo obj "datetime").bind fun offset hoffset =>
        (e.obeys_event hl _).bind fun _ _ => .get_bind fun s _ _ => ?_
      obtain ⟨out, hw, -⟩ := writeDatetime_spec s.out ⟨d.y, d.mo, d.d, t.h, t.mi, t.s, t.us⟩
        (hoffset.adjusted e.opts).fits e.opts
      exact (Obeys.unchecked hw).bind fun _ _ => obeys_emit _
  | _ =>
      rw [hb] at hbody
      cases hbody

omit hl in
lemma obeys_date {obj : Obj} (ho : e.rt.IsLaidOut .date obj) :
    Obeys (Steady e.rt) (fun _ => True) (e.date obj : Encode Obj H a Unit) := by
  refine e.obeys_look fun h => ?_
  have hbody := ho h
  cases hb : (e.rt.view h obj).body with
  | date d =>
      refine .get_bind fun s _ _ => ?_
      obtain ⟨out, hw, -⟩ := writeDate_spec s.out d
      exact (Obeys.unchecked hw).bind fun _ _ => obeys_emit _
  | _ =>
      rw [hb] at hbody
      cases hbody

lemma obeys_time {obj : Obj} (ho : e.rt.IsLaidOut .time obj) :
    Obeys (Steady e.rt) (fun _ => True) (e.time obj : Encode Obj H a Unit) := by
  refine e.obeys_look fun h => ?_
  have hbody := ho h
  cases hb : (e.rt.view h obj).body with
  | time t tzinfo =>
      refine (e.obeys_event hl _).bind fun _ _ =>
        (e.obeys_utcoffsetOf hl obj tzinfo e.rt.pyNone "time").bind fun offset hoffset =>
        (e.obeys_event hl _).bind fun _ _ => .get_bind fun s _ _ => ?_
      obtain ⟨out, hw, -⟩ := writeTime_spec s.out t hoffset.fits
        (e.opts &&& ~~~(optNaiveUtc ||| optUtcZ))
      exact (Obeys.unchecked hw).bind fun _ _ => obeys_emit _
  | _ =>
      rw [hb] at hbody
      cases hbody

/-! ### numpy -/

omit hl in
lemma obeys_walkArray {iface : PyArrayInterface} {elem : ElementType} {unit : Option Dt64Unit}
    (hnd : 0 < iface.nd) (hunit : UnitInRange unit) :
    Obeys (Steady e.rt) (fun _ => True) (e.walkArray iface elem unit : Encode Obj H a _) := by
  intro s hs hexc
  unfold wlp
  rcases e.walkArray_spec iface elem hnd hunit s with
    ⟨doc, out, -, hrun, -⟩ | ⟨reason, out, -, hrun, -⟩
  · rw [hrun]
    exact ⟨⟨⟨hs.types, hs.dt⟩, St.exc_written hexc _⟩, trivial⟩
  · rw [hrun]
    exact ⟨⟨⟨hs.types, hs.dt⟩, St.exc_written hexc _⟩, trivial⟩

lemma obeys_serializeHeld (obj capsule : Obj) (iface : PyArrayInterface) :
    Obeys (Steady e.rt) (fun _ => True) (e.serializeHeld obj capsule iface : Encode Obj H a _) := by
  unfold serializeHeld
  split
  · next check _ =>
    exact ((e.reports_arrayDecline obj iface check).steady hl
      (e.asks_arrayDecline obj iface check)).bind fun _ _ => .pure trivial
  · next elem hclass =>
    refine (((e.reports_arrayUnit obj elem iface.shape).steady hl
      (e.asks_arrayUnit obj elem iface.shape)).results
        (e.arrayUnit_known obj elem iface.shape)).bind fun r hr => ?_
    cases r with
    | error reason => exact .pure trivial
    | ok unit =>
        exact (e.obeys_event hl _).bind fun _ _ =>
          e.obeys_walkArray (nd_pos_of_classify hclass) (hr unit rfl).1

lemma obeys_serializeArray (obj : Obj) :
    Obeys (Steady e.rt) (fun _ => True) (e.serializeArray obj : Encode Obj H a _) := by
  refine ((e.reports_arrayStruct obj).steady hl (e.asks_arrayStruct obj)).bind fun p _ => ?_
  exact (e.obeys_serializeHeld hl obj p.1 p.2).onExit (fun _ hs => ⟨hs.types, hs.dt⟩) fun _ => rfl

lemma obeys_serializeScalar {obj : Obj} (elem : ElementType) (ho : e.rt.IsLaidOut .scalar obj) :
    Obeys (Steady e.rt) (fun _ => True) (e.serializeScalar obj elem : Encode Obj H a _) := by
  have hrest : ∀ unit : Option Dt64Unit, UnitInRange unit → Obeys (Steady e.rt) (fun _ => True)
      (e.scalarElement obj elem unit : Encode Obj H a (Option Decline)) := by
    intro unit hunit
    refine e.obeys_look fun h => ?_
    have hbody := ho h
    cases hb : (e.rt.view h obj).body with
    | scalar data =>
        refine .get_bind fun s _ _ => ?_
        rcases Leaves.write_spec (e.leaves elem unit) hunit s.out
          (Words.wordOf (data.take elem.size)) with ⟨t, out, -, hw, -⟩ | ⟨reason, -, hw⟩
        · simp only [hw]
          exact (obeys_emit _).bind fun _ _ => .pure trivial
        · simp only [hw]
          exact .pure trivial
    | _ =>
        rw [hb] at hbody
        cases hbody
  rw [serializeScalar_eq]
  split
  · refine (((e.reports_dt64Unit obj).steady hl (e.asks_dt64Unit obj)).results
      (e.dt64Unit_inRange obj)).bind fun r hr => ?_
    cases r with
    | error reason => exact .pure trivial
    | ok unit => exact hrest (some unit) (hr unit rfl)
  · exact hrest none fun u hu => absurd hu (Option.not_mem_none u)

/-! ### Containers -/

lemma obeys_held {m : Encode Obj H a Unit} (hm : Obeys (Steady e.rt) (fun _ => True) m) (o : Obj) :
    Obeys (Steady e.rt) (fun _ => True) (incref o >>= fun _ => Run.onExit m (·.dropped o)) :=
  ((reports_incref o).steady hl (asks_incref o)).bind fun _ _ =>
    hm.onExit (fun _ hs => ⟨hs.types, hs.dt⟩) fun _ => rfl

lemma obeys_enter : Obeys (Steady e.rt) (fun _ => True) (e.enter : Encode Obj H a _) := by
  refine .get_bind fun s _ _ => ?_
  split
  · exact e.obeys_fail hl _
  · exact .modify (fun _ hs => ⟨hs.types, hs.dt⟩) fun _ h => h

omit hl

lemma obeys_listItems {obj : Obj} (ho : e.rt.IsLaidOut .list obj) :
    Obeys (Steady e.rt) (fun _ => True) (e.listItems obj : Encode Obj H a _) := by
  refine e.obeys_look fun h => ?_
  have hbody := ho h
  cases hb : (e.rt.view h obj).body with
  | list items => exact .pure trivial
  | _ =>
      rw [hb] at hbody
      cases hbody

lemma obeys_dictSlots {obj : Obj} (ho : e.rt.IsLaidOut .dict obj) :
    Obeys (Steady e.rt) (fun _ => True) (e.dictSlots obj : Encode Obj H a _) := by
  refine e.obeys_look fun h => ?_
  have hbody := ho h
  cases hb : (e.rt.view h obj).body with
  | dict slots => exact .pure trivial
  | _ =>
      rw [hb] at hbody
      cases hbody

/-- The comma in front of an item. -/
lemma obeys_comma {p : Prop} [Decidable p] {m : Encode Obj H a Unit}
    (hm : Obeys (Steady e.rt) (fun _ => True) m) : Obeys (Steady e.rt) (fun _ => True)
      (if p then emit (·.push 44) >>= fun _ => m else m) := by
  split
  · exact (obeys_emit _).bind fun _ _ => hm
  · exact hm

lemma obeys_breakLine : Obeys (Steady e.rt) (fun _ => True) (e.breakLine : Encode Obj H a _) := by
  refine .get_bind fun s _ _ => ?_
  split
  · exact obeys_emit _
  · exact .pure trivial

lemma obeys_close (c : UInt8) : Obeys (Steady e.rt) (fun _ => True)
    (leave >>= fun _ => e.breakLine >>= fun _ => emit (·.push c) : Encode Obj H a Unit) :=
  obeys_leave.bind fun _ _ => e.obeys_breakLine.bind fun _ _ => obeys_emit _

include hl

lemma obeys_writeKey {key : Obj} (hkey : e.rt.IsLaidOut .str key) (first : Bool) :
    Obeys (Steady e.rt) (fun _ => True) (e.writeKey key first : Encode Obj H a Unit) := by
  have hrest : Obeys (Steady e.rt) (fun _ => True) (do
      e.breakLine
      e.str key
      if e.indent then emit (·.extend [58, 32]) else emit (·.push 58) : Encode Obj H a Unit) := by
    refine e.obeys_breakLine.bind fun _ _ => (e.obeys_str hl hkey).bind fun _ _ => ?_
    split <;> exact obeys_emit _
  cases first with
  | true => exact hrest
  | false => exact (obeys_emit _).bind fun _ _ => hrest

/-- The keys that pass the check are strings. -/
lemma obeys_keyedEntries (entries : List (Entry Obj)) :
    Obeys (Steady e.rt) (fun keyed => ∀ x ∈ keyed, e.rt.IsLaidOut .str x.2.1)
      (e.keyedEntries entries : Encode Obj H a _) := by
  have hkeyText : ∀ key, Obeys (Steady e.rt) (fun _ => e.rt.IsLaidOut .str key)
      (e.keyText key : Encode Obj H a _) := by
    intro key
    refine e.obeys_look fun h => ?_
    split
    · next t ht =>
      have hkey : e.rt.IsLaidOut .str key := hl.isLaidOut (by rw [ht]; rfl)
      dsimp only
      split
      · exact e.obeys_fail hl _
      · split <;> exact .pure hkey
    · exact e.obeys_fail hl _
  induction entries with
  | nil => exact .pure fun _ hx => absurd hx List.not_mem_nil
  | cons kv entries ih =>
      refine (hkeyText kv.1).bind fun key hkey => ih.bind fun keyed hkeyed => .pure ?_
      exact List.forall_mem_cons.mpr ⟨hkey, hkeyed⟩

section Containers

variable {self : Obj → Encode Obj H a Unit} (hself : ∀ o, Obeys (Steady e.rt) (fun _ => True) (self o))

include hself

lemma obeys_guarded (item : Obj) :
    Obeys (Steady e.rt) (fun _ => True) (e.guarded self item : Encode Obj H a Unit) := by
  unfold guarded
  split
  · refine e.obeys_look fun h => ?_
    split
    · exact hself item
    · exact e.obeys_held hl (hself item) item
  · exact hself item

lemma obeys_entryValue (key value : Obj) :
    Obeys (Steady e.rt) (fun _ => True) (e.entryValue self key value : Encode Obj H a Unit) := by
  unfold entryValue
  split
  · refine e.obeys_look fun h => ?_
    split
    · exact hself value
    · exact e.obeys_held hl (e.obeys_guarded hl hself value) key
  · exact hself value

lemma obeys_listLoop {obj : Obj} (ho : e.rt.IsLaidOut .list obj) (fuel i : ℕ) :
    Obeys (Steady e.rt) (fun _ => True) (e.listLoop self obj fuel i : Encode Obj H a Unit) := by
  induction fuel generalizing i with
  | zero => exact fun _ _ _ => trivial
  | succ fuel ih =>
      refine (e.obeys_listItems ho).bind fun items _ => ?_
      split
      · exact .pure trivial
      · exact e.obeys_comma (e.obeys_breakLine.bind fun _ _ => (e.obeys_event hl _).bind fun _ _ =>
          (e.obeys_guarded hl hself _).bind fun _ _ => ih (i + 1))

lemma obeys_list {obj : Obj} (ho : e.rt.IsLaidOut .list obj) (fuel : ℕ) :
    Obeys (Steady e.rt) (fun _ => True) (e.list self fuel obj : Encode Obj H a Unit) := by
  refine (e.obeys_listItems ho).bind fun items _ => ?_
  split
  · exact (e.obeys_enter hl).bind fun _ _ => obeys_leave.bind fun _ _ => obeys_emit _
  · exact (e.obeys_enter hl).bind fun _ _ => (obeys_emit _).bind fun _ _ =>
      (e.obeys_listLoop hl hself ho fuel 0).bind fun _ _ => e.obeys_close 93

lemma obeys_tupleLoop (obj : Obj) (i : ℕ) (items : List Obj) :
    Obeys (Steady e.rt) (fun _ => True) (e.tupleLoop self obj i items : Encode Obj H a Unit) := by
  induction items generalizing i with
  | nil => exact .pure trivial
  | cons item items ih =>
      exact e.obeys_comma (e.obeys_breakLine.bind fun _ _ => (e.obeys_event hl _).bind fun _ _ =>
        (e.obeys_event hl _).bind fun _ _ => (hself item).bind fun _ _ => ih (i + 1))

lemma obeys_tuple (obj : Obj) :
    Obeys (Steady e.rt) (fun _ => True) (e.tuple self obj : Encode Obj H a Unit) := by
  refine (e.obeys_event hl _).bind fun _ _ => (e.obeys_enter hl).bind fun _ _ => ?_
  split
  · exact obeys_leave.bind fun _ _ => obeys_emit _
  · exact (obeys_emit _).bind fun _ _ =>
      (e.obeys_tupleLoop hl hself obj 0 _).bind fun _ _ => e.obeys_close 93

lemma obeys_dictLoop {obj : Obj} (ho : e.rt.IsLaidOut .dict obj) (fuel pos : ℕ) (first : Bool) :
    Obeys (Steady e.rt) (fun _ => True)
      (e.dictLoop self obj fuel pos first : Encode Obj H a Unit) := by
  induction fuel generalizing pos first with
  | zero => exact fun _ _ _ => trivial
  | succ fuel ih =>
      refine (e.obeys_dictSlots ho).bind fun slots _ => ?_
      split
      · exact .pure trivial
      · next pos' key value _ =>
        refine (e.obeys_event hl _).bind fun _ _ => (e.obeys_event hl _).bind fun _ _ =>
          e.obeys_look fun h => ?_
        split
        · next t ht =>
          have hkey : e.rt.IsLaidOut .str key := hl.isLaidOut (by rw [ht]; rfl)
          exact (e.obeys_writeKey hl hkey first).bind fun _ _ =>
            (e.obeys_entryValue hl hself key value).bind fun _ _ => ih pos' false
        · exact e.obeys_fail hl _

lemma obeys_sortedLoop (first : Bool) (entries : List (Entry Obj))
    (hkeys : ∀ kv ∈ entries, e.rt.IsLaidOut .str kv.1) : Obeys (Steady e.rt) (fun _ => True)
      (e.sortedLoop self first entries : Encode Obj H a Unit) := by
  induction entries generalizing first with
  | nil => exact .pure trivial
  | cons entry entries ih =>
      obtain ⟨hkey, hkeys⟩ := List.forall_mem_cons.mp hkeys
      exact (e.obeys_writeKey hl hkey first).bind fun _ _ => (hself entry.2).bind fun _ _ =>
        ih false hkeys

lemma obeys_dictSorted {obj : Obj} (ho : e.rt.IsLaidOut .dict obj) :
    Obeys (Steady e.rt) (fun _ => True) (e.dictSorted self obj : Encode Obj H a Unit) := by
  refine (e.obeys_dictSlots ho).bind fun slots _ => ?_
  refine ((reports_holdEntries obj _).steady hl (asks_holdEntries obj _)).bind fun _ _ => ?_
  have hwrite : Obeys (Steady e.rt) (fun _ => True)
      (e.writeSorted self slots.reduceOption : Encode Obj H a Unit) := by
    refine (e.obeys_keyedEntries hl _).bind fun keyed hkeyed => ?_
    refine e.obeys_sortedLoop hl hself true _ fun kv hkv => ?_
    obtain ⟨x, hx, rfl⟩ := List.mem_map.mp hkv
    exact hkeyed x ((List.mergeSort_perm keyed keyLe).mem_iff.mp hx)
  refine hwrite.onExit (fun s hs => ?_) fun s => ?_
  · obtain ⟨log, h⟩ := release_eq slots.reduceOption s
    rw [h]
    exact ⟨hs.types, hs.dt⟩
  · obtain ⟨log, h⟩ := release_eq slots.reduceOption s
    rw [h]

lemma obeys_dict {obj : Obj} (ho : e.rt.IsLaidOut .dict obj) (fuel : ℕ) :
    Obeys (Steady e.rt) (fun _ => True) (e.dict self fuel obj : Encode Obj H a Unit) := by
  refine (e.obeys_event hl _).bind fun _ _ => (e.obeys_enter hl).bind fun _ _ =>
    (e.obeys_dictSlots ho).bind fun slots _ => ?_
  split
  · exact obeys_leave.bind fun _ _ => obeys_emit _
  · refine (obeys_emit _).bind fun _ _ => ?_
    split
    · exact (e.obeys_dictSorted hl hself ho).bind fun _ _ => e.obeys_close 125
    · exact (e.obeys_dictLoop hl hself ho fuel 0 true).bind fun _ _ => e.obeys_close 125

/-! ### `default` and the dispatch -/

omit hl in
lemma obeys_serializeDefaultResult (r : Obj) :
    Obeys (Steady e.rt) (fun _ => True) (serializeDefaultResult self r : Encode Obj H a Unit) := by
  have hdeeper : Obeys (Steady e.rt) (fun _ => True)
      (Run.modify fun s => { s with defaultDepth := s.defaultDepth + 1 } : Encode Obj H a Unit) :=
    .modify (fun _ hs => ⟨hs.types, hs.dt⟩) fun _ h => h
  exact hdeeper.bind fun _ _ => (hself r).onExit (fun _ hs => ⟨hs.types, hs.dt⟩) fun _ => rfl

omit hself in
/-- A call of `default`, and what follows. -/
lemma obeys_invokeDefault {R : β → Prop} (obj : Obj) {k : Except DefaultError Obj → Encode Obj H a β}
    (hok : ∀ r, Obeys (Steady e.rt) R (k (.ok r)))
    (herror : ∀ x, Fails (Steady e.rt) (k (.error x))) :
    Obeys (Steady e.rt) R (e.invokeDefault obj >>= k) := by
  intro s hs hexc
  rw [wlp_bind]
  refine ((e.invokeDefault_spec obj hexc).wlp.and ((e.asks_invokeDefault obj).asked s)).mono ?_ ?_
  · rintro (x | r) s1 ⟨h, hasked⟩
    · exact (herror x s1 (hasked.steady hl hs) h).mono (fun _ _ h => h.elim) fun _ _ h => h
    · exact hok r s1 (hasked.steady hl hs) h
  · exact fun _ _ h => h.1.elim

omit hself in
/-- The note of a decline is added to the error that is pending. -/
lemma fails_addNote (note : String) : Fails (Steady e.rt)
    (e.addNote e.guard note >>= fun _ => Run.throw ⟨⟩ : Encode Obj H a β) := by
  intro s hs h
  rw [wlp_bind]
  refine ((e.addNote_spec e.guard note h).wlp.and ((e.asks_addNote e.guard note).asked s)).mono ?_ ?_
  · rintro _ s1 ⟨h1, hasked⟩
    exact ⟨hasked.steady hl hs, h1⟩
  · exact fun _ _ h => h.1.elim

lemma obeys_callDefault (obj : Obj) :
    Obeys (Steady e.rt) (fun _ => True) (e.callDefault self obj : Encode Obj H a Unit) := by
  unfold callDefault
  split
  · exact e.obeys_look fun h => e.obeys_fail hl _
  · exact e.obeys_invokeDefault hl obj (e.obeys_serializeDefaultResult hself)
      fun _ => .throw _

lemma obeys_callDefaultDeclined (obj : Obj) (reason : Decline) :
    Obeys (Steady e.rt) (fun _ => True)
      (e.callDefaultDeclined self obj reason : Encode Obj H a Unit) := by
  unfold callDefaultDeclined
  split
  · intro s hs hexc
    rw [wlp_bind]
    refine ((e.raiseTypeError_spec (E := fun _ _ => False) (declineMessage reason) s).wlp.and
      ((e.asks_raiseTypeError _).asked s)).mono ?_ fun _ _ h => h.1.elim
    rintro _ s1 ⟨h, hasked⟩
    exact (e.fails_addNote hl _ s1 (hasked.steady hl hs) h).mono (fun _ _ h => h.elim) fun _ _ h => h
  · refine e.obeys_invokeDefault hl obj (e.obeys_serializeDefaultResult hself) fun x => ?_
    cases x with
    | tooDeep => exact .throw _
    | raised => exact e.fails_addNote hl _

omit hself in
lemma obeys_recognizeNumpy (ty : Option Obj) :
    Obeys (Steady e.rt) (fun r => ∀ np ∈ r, np.Fits e.rt)
      (e.recognizeNumpy ty : Encode Obj H a _) := by
  refine .get_bind fun s hs _ => ?_
  split
  · next np hnp =>
    refine .pure ?_
    rintro _ ⟨⟩
    exact Runtime.Layouts.numpyHit hs.types _ hnp
  · split
    · exact .pure fun _ h => absurd h (Option.not_mem_none _)
    · have hmark : Obeys (Steady e.rt) (fun _ => True)
          (Run.modify fun s => { s with npRechecked := true } : Encode Obj H a Unit) :=
        .modify (fun _ hs => ⟨hs.types, hs.dt⟩) fun _ h => h
      refine hmark.bind fun _ _ => ?_
      exact obeys_cached .steady fun h c hc => hl.numpy h hc ty

omit hself in
lemma obeys_datetimeLike {h : H} {obj : Obj} {dt : DtTypes Obj} (hdt : dt.Fits e.rt)
    {write : Encode Obj H a Unit} (hw : e.datetimeLike obj (e.rt.view h obj) dt = some write) :
    Obeys (Steady e.rt) (fun _ => True) write := by
  unfold datetimeLike at hw
  split_ifs at hw with _ hcls hcls hcls
  · exact Option.some.inj hw ▸ e.obeys_datetime hl (hl.isLaidOut (hdt.datetime h obj hcls))
  · exact Option.some.inj hw ▸ e.obeys_date (hl.isLaidOut (hdt.date h obj hcls))
  · exact Option.some.inj hw ▸ e.obeys_time hl (hl.isLaidOut (hdt.time h obj hcls))

lemma obeys_subclassLike {fuel : ℕ} {h : H} {obj : Obj} {write : Encode Obj H a Unit}
    (hw : e.subclassLike self fuel obj (e.rt.view h obj) = some write) :
    Obeys (Steady e.rt) (fun _ => True) write := by
  unfold subclassLike at hw
  split at hw
  · exact absurd hw (by simp)
  · split at hw
    · next hb => exact Option.some.inj hw ▸ e.obeys_str hl (hl.isLaidOut (by rw [hb]; rfl))
    · next hb => exact Option.some.inj hw ▸ e.obeys_int hl (hl.isLaidOut (by rw [hb]; rfl))
    · next hb => exact Option.some.inj hw ▸ e.obeys_dict hl hself (hl.isLaidOut (by rw [hb]; rfl)) fuel
    · next hb => exact Option.some.inj hw ▸ e.obeys_list hl hself (hl.isLaidOut (by rw [hb]; rfl)) fuel
    · exact absurd hw (by simp)

omit hself in
lemma obeys_numpyWriter {h : H} {obj : Obj} {np : NumpyTypes Obj} (hnp : np.Fits e.rt)
    {write : Encode Obj H a (Option Decline)}
    (hw : e.numpyWriter obj (e.rt.view h obj).cls np = some write) :
    Obeys (Steady e.rt) (fun _ => True) write := by
  unfold numpyWriter at hw
  split at hw
  · exact Option.some.inj hw ▸ e.obeys_serializeArray hl obj
  · obtain ⟨elem, helem, rfl⟩ := Option.map_eq_some_iff.mp hw
    exact e.obeys_serializeScalar hl elem (hl.isLaidOut (hnp h obj elem helem))

lemma obeys_numpyOrDefault (h : H) (obj : Obj) : Obeys (Steady e.rt) (fun _ => True)
    (e.numpyOrDefault self obj (e.rt.view h obj) : Encode Obj H a Unit) := by
  unfold numpyOrDefault
  split
  · refine (e.obeys_recognizeNumpy hl _).bind fun r hr => ?_
    split
    · exact e.obeys_callDefault hl hself obj
    · next write hwrite =>
      obtain ⟨np, hnp, hw⟩ := Option.bind_eq_some_iff.mp hwrite
      refine (e.obeys_numpyWriter hl (hr np hnp) hw).bind fun reason _ => ?_
      cases reason with
      | none => exact .pure trivial
      | some reason => exact e.obeys_callDefaultDeclined hl hself obj reason
  · exact e.obeys_callDefault hl hself obj

lemma obeys_lateDatetime (h : H) (obj : Obj) : Obeys (Steady e.rt) (fun _ => True)
    (e.lateDatetime self obj (e.rt.view h obj) : Encode Obj H a Unit) := by
  refine .get_bind fun s _ _ => ?_
  split
  · refine (obeys_datetimeGroup hl .steady).bind fun dt hdt => ?_
    have hset : Obeys (Steady e.rt) (fun _ => True)
        (Run.modify fun s => { s with dt := dt } : Encode Obj H a Unit) :=
      .modify (fun _ hs => ⟨hs.types, hdt⟩) fun _ h => h
    refine hset.bind fun _ _ => ?_
    split
    · next write hwrite =>
      obtain ⟨dt, hmem, hw⟩ := Option.bind_eq_some_iff.mp hwrite
      exact e.obeys_datetimeLike hl (hdt dt hmem) hw
    · exact e.obeys_numpyOrDefault hl hself h obj
  · exact e.obeys_numpyOrDefault hl hself h obj

lemma obeys_serializeOther (fuel : ℕ) (h : H) (obj : Obj) : Obeys (Steady e.rt) (fun _ => True)
    (e.serializeOther self fuel obj (e.rt.view h obj) : Encode Obj H a Unit) := by
  refine .get_bind fun s hs _ => ?_
  split
  · next write hwrite =>
    obtain ⟨dt, hmem, hw⟩ := Option.bind_eq_some_iff.mp hwrite
    exact e.obeys_datetimeLike hl (hs.dt dt hmem) hw
  · split
    · next write hwrite => exact e.obeys_subclassLike hl hself hwrite
    · exact e.obeys_lateDatetime hl hself h obj

lemma obeys_serializeBody (fuel : ℕ) (obj : Obj) : Obeys (Steady e.rt) (fun _ => True)
    (e.serializeBody self fuel obj : Encode Obj H a Unit) := by
  refine e.obeys_look fun h => ?_
  have hlaid : ∀ {l}, (e.rt.view h obj).body.layout = l → e.rt.IsLaidOut l obj := hl.isLaidOut
  split
  · next hb => exact e.obeys_str hl (hlaid (by rw [hb]; rfl))
  · next hb => exact e.obeys_int hl (hlaid (by rw [hb]; rfl))
  · exact obeys_emit _
  · exact obeys_emit _
  · exact obeys_emit _
  · exact obeys_emit _
  · next hb => exact e.obeys_dict hl hself (hlaid (by rw [hb]; rfl)) fuel
  · next hb => exact e.obeys_list hl hself (hlaid (by rw [hb]; rfl)) fuel
  · exact e.obeys_tuple hl hself obj
  · exact e.obeys_serializeOther hl hself fuel h obj

end Containers

/-- **`serialize` keeps the protocol**, whatever CPython answers. -/
lemma obeys_serialize (fuel : ℕ) (obj : Obj) :
    Obeys (Steady e.rt) (fun _ => True) (e.serialize fuel obj : Encode Obj H a Unit) := by
  induction fuel generalizing obj with
  | zero => exact fun _ _ _ => trivial
  | succ fuel ih => exact e.obeys_serializeBody hl ih fuel obj

end Env

/-! ## `dumps` -/

namespace Host

variable (h : Host Obj H)

lemma reports_keywordArgs (nargs : ℕ) (kw : List (String × Obj)) (args : Option Obj × Option Obj) :
    Reports (h.keywordArgs nargs kw args : Encode Obj H a _) ∧
      Asks h.rt (h.keywordArgs nargs kw args : Encode Obj H a _) := by
  induction kw generalizing args with
  | nil => exact ⟨.pure _, .pure _⟩
  | cons p kw ih =>
      obtain ⟨name, val⟩ := p
      unfold keywordArgs
      split
      · exact ih _
      · split
        · exact ih _
        · exact ⟨h.reports_fail _, h.asks_fail _⟩

lemma reports_dropNone (o : Option Obj) : Reports (h.dropNone o : Encode Obj H a _) ∧
    Asks h.rt (h.dropNone o : Encode Obj H a _) := by
  cases o with
  | none => exact ⟨.pure _, .pure _⟩
  | some o =>
      constructor
      · refine (h.reports_look o).bind fun p => ?_
        split <;> exact .pure _
      · refine h.asks_look (fun p => ?_) fun p _ _ h => by dsimp only; rw [h]
        split <;> exact .pure _

lemma reports_checkDefault (default : Option Obj) :
    Reports (h.checkDefault default : Encode Obj H a _) ∧
      Asks h.rt (h.checkDefault default : Encode Obj H a _) := by
  cases default with
  | none => exact ⟨.pure _, .pure _⟩
  | some f =>
      constructor
      · refine .get_bind fun s => ?_
        split
        · exact .pure _
        · exact h.reports_fail _
      · refine Asks.get _ (fun s => ?_) fun s t _ _ h => by rw [h]
        split
        · exact .pure _
        · exact h.asks_fail _

lemma reports_rejectUnsupported (opts : UInt32) (table : List (UInt32 × String)) :
    Reports (h.rejectUnsupported opts table : Encode Obj H a _) ∧
      Asks h.rt (h.rejectUnsupported opts table : Encode Obj H a _) := by
  induction table with
  | nil => exact ⟨.pure _, .pure _⟩
  | cons row table ih =>
      unfold rejectUnsupported
      split
      · exact ⟨h.reports_fail _, h.asks_fail _⟩
      · exact ih

lemma reports_parseOpts (option : Option Obj) : Reports (h.parseOpts option : Encode Obj H a _) := by
  cases option with
  | none => exact .pure _
  | some o =>
      have hrest : ∀ z : ℤ, Reports (if 0 ≤ z ∧ z ≤ ALL_OPTS then do
          h.rejectUnsupported (UInt32.ofNat z.toNat) unsupportedOpts
          Pure.pure (UInt32.ofNat z.toNat)
        else do
          clearExc
          h.fail "Invalid opts" : Encode Obj H a UInt32) := by
        intro z
        split
        · exact (h.reports_rejectUnsupported _ _).1.bind fun _ => .pure _
        · exact fun s _ => h.fail_spec _ _
      refine (h.reports_look o).bind fun p => ?_
      split
      · exact h.reports_fail _
      · next z _ =>
        unfold asLongLong
        split
        · exact hrest z
        · -- the error of the conversion is cleared
          exact fun s _ => h.fail_spec _ _

lemma asks_parseOpts (option : Option Obj) :
    Asks h.rt (h.parseOpts option : Encode Obj H a _) := by
  cases option with
  | none => exact .pure _
  | some o =>
      refine h.asks_look (fun p => ?_) fun p _ _ h => by simp only [optionValue, h]
      split
      · exact h.asks_fail _
      · next z _ =>
        refine Asks.bind (m := asLongLong z) ?_ fun v => ?_
        · unfold asLongLong
          split
          · exact .pure _
          · exact (asks_setExc _).bind fun _ => .pure _
        · split
          · exact (h.reports_rejectUnsupported _ _).2.bind fun _ => .pure _
          · exact (asks_setExc _).bind fun _ => h.asks_fail _

/-- A null result comes with an exception, and any other without one. -/
def KeepsProtocol [DecidableEq Obj] (rt : Runtime Obj H) (m : Encode Obj H a α) (s : St Obj H a) :
    Prop :=
  wlp m (fun _ s' => s'.exc = none ∧ s'.world.types.Fits rt)
    (fun _ s' => s'.exc.isSome ∧ s'.world.types.Fits rt) s

variable [DecidableEq Obj]

lemma KeepsProtocol.after {rt : Runtime Obj H} {P : St Obj H a → Prop} {R : α → Prop}
    (hP : ∀ s, P s → s.world.types.Fits rt) {m : Encode Obj H a α} {k : α → Encode Obj H a β}
    {s : St Obj H a} (hm : Obeys P R m) (hs : P s) (hexc : s.exc = none)
    (hk : ∀ x s', R x → P s' → s'.exc = none → KeepsProtocol rt (k x) s') :
    KeepsProtocol rt (m >>= k) s := by
  unfold KeepsProtocol
  rw [wlp_bind]
  refine (hm s hs hexc).mono ?_ fun _ s' hx => ⟨hx.2, hP s' hx.1⟩
  rintro x s' ⟨⟨hs', hexc'⟩, hx⟩
  exact hk x s' hx hs' hexc'

lemma finish_protocol {s : St Obj H a} (hs : s.world.types.Fits h.rt) (hexc : s.exc = none) :
    KeepsProtocol h.rt (finish : Encode Obj H a Bytes) s := by
  unfold KeepsProtocol finish
  obtain ⟨f, hf, -⟩ := s.out.raw.finish_spec s.out.wf
  rw [wlp_bind, wlp_get, wlp_bind, hf, Run.unchecked_some, wlp_pure]
  split
  · exact ⟨hexc, hs⟩
  · exact ⟨rfl, hs⟩

variable (hl : h.rt.Layouts)

include hl

lemma dumpsObject_protocol (hint fuel : ℕ) (obj : Obj) (default : Option Obj) (opts : UInt32)
    {s : St Obj H a} (hs : Fitting h.rt s) (hexc : s.exc = none) :
    KeepsProtocol h.rt (h.dumpsObject hint fuel obj default opts) s := by
  have hfits : ∀ s' : St Obj H a, Steady h.rt s' → s'.world.types.Fits h.rt := fun _ h => h.types
  have hrest : ∀ (e : Env Obj H), e.toHost = h → ∀ s2 : St Obj H a, Steady h.rt s2 → s2.exc = none →
      KeepsProtocol h.rt (do
        e.serialize fuel obj
        if hasOpt opts optAppendNewline then emit (·.push 10) else Pure.pure ()
        finish) s2 := by
    rintro e rfl s2 hs2 hexc2
    refine .after hfits (e.obeys_serialize hl fuel obj) hs2 hexc2 ?_
    intro _ s3 _ hs3 hexc3
    split
    · refine .after hfits (obeys_emit _) hs3 hexc3 ?_
      intro _ s4 _ hs4 hexc4
      exact e.finish_protocol hs4.types hexc4
    · exact e.finish_protocol hs3.types hexc3
  unfold dumpsObject start
  rw [bind_assoc]
  refine .after (fun _ h => h) (obeys_datetimeGroup hl .fitting) hs hexc ?_
  intro dt s1 hdt hs1 hexc1
  split
  · exact ⟨rfl, hs1⟩
  · next out hout => exact hrest ⟨h, default, opts, _, MAX_DEPTH⟩ rfl _ ⟨hs1, hdt⟩ hexc1

lemma dumps_protocol (hint fuel : ℕ) (args : List Obj) (kw : List (String × Obj)) {s : St Obj H a}
    (hs : Fitting h.rt s) (hexc : s.exc = none) :
    KeepsProtocol h.rt (h.dumps hint fuel args kw) s := by
  -- what only asks, before the encoder starts
  have hasks : ∀ {α : Type} {m : Encode Obj H a α}, Reports m ∧ Asks h.rt m →
      Obeys (Fitting h.rt) (fun _ => True) m :=
    fun hm => hm.1.obeys hm.2 fun _ _ hasked hs => hasked.fits hl hs
  have hfail : ∀ msg s', Fitting h.rt s' → s'.exc = none →
      KeepsProtocol h.rt (h.fail msg : Encode Obj H a Bytes) s' := by
    intro msg s' hs' hexc'
    exact (hasks ⟨h.reports_fail msg, h.asks_fail msg⟩ s' hs' hexc').mono
      (fun _ _ hx => ⟨hx.1.2, hx.1.1⟩) fun _ _ hx => ⟨hx.2, hx.1⟩
  have hkeep : ∀ s' : St Obj H a, Fitting h.rt s' → s'.world.types.Fits h.rt := fun _ h => h
  unfold dumps
  split
  · exact hfail _ s hs hexc
  · split
    · exact hfail _ s hs hexc
    · refine .after hkeep (hasks (h.reports_keywordArgs _ kw _)) hs hexc ?_
      intro given s1 _ hs1 hexc1
      refine .after hkeep (hasks (h.reports_dropNone _)) hs1 hexc1 ?_
      intro default s2 _ hs2 hexc2
      refine .after hkeep (hasks (h.reports_checkDefault default)) hs2 hexc2 ?_
      intro _ s3 _ hs3 hexc3
      refine .after hkeep (hasks (h.reports_dropNone _)) hs3 hexc3 ?_
      intro option s4 _ hs4 hexc4
      refine .after hkeep (hasks ⟨h.reports_parseOpts option, h.asks_parseOpts option⟩) hs4 hexc4 ?_
      intro opts s5 _ hs5 hexc5
      exact h.dumpsObject_protocol hl hint fuel _ default opts hs5 hexc5

end Host

/-- **The error protocol.**  Take any call of `dumps` that no exception is pending at, with any
arguments, any replies of CPython and of Python code, and any pattern of failed allocations, over
objects with the layouts of CPython and numpy.  The call does nothing undefined; if it returns a
result, no exception is pending then, and if it returns null, one is.  The same holds of any call of
`loads`, whatever was done on its thread before and whatever is done while its error is
constructed; and it returns. -/
theorem error_protocol [DecidableEq Obj] (h : Host Obj H) (hl : h.rt.Layouts) {B : Type}
    {p : Decode.Parser B} {parse : Bytes → Except (Decode.ErrorType × ℕ) Decode.Tree}
    (hp : p.Reads parse) :
    (∀ (hint fuel : ℕ) (args : List Obj) (kw : List (String × Obj)) (s : St Obj H a),
      s.world.types.Fits h.rt → s.exc = none →
      wlp (h.dumps hint fuel args kw) (fun _ s' => s'.exc = none ∧ s'.world.types.Fits h.rt)
        (fun _ s' => s'.exc.isSome ∧ s'.world.types.Fits h.rt) s) ∧
    ∀ (history : List Decode.Act) (s0 : Decode.Thread B), s0.Fresh →
      ∃ s, Decode.runAll p history s0 = .ok () s ∧ s.exc = none ∧
        ∀ (arg : Decode.Arg) (during : List Decode.Act),
          wp (fun _ => False) (Decode.loads p (Decode.runAll p during) arg)
            (fun _ s' => s'.exc = none) (fun _ s' => s'.exc.isSome) s := by
  constructor
  · intro hint fuel args kw s hs hexc
    exact h.dumps_protocol hl hint fuel args kw hs hexc
  · intro history s0 h0
    rcases (Decode.behaves_runAll hp history s0 h0.sound).cases with
      ⟨_, s, hrun, hs, -⟩ | ⟨_, _, _, hfalse⟩
    · refine ⟨s, hrun, hs.exc, fun arg during => ?_⟩
      exact Run.wp.mono (Decode.loads_answers hp (Decode.behaves_runAll hp during) arg hs)
        (fun _ _ hv => hv.1.exc) (fun _ _ hv => hv.2.2.1) fun _ hv => hv
    · exact hfalse.elim

/-- A list of an object that only `default` could write. -/
def listOfOther : Snapshot ℕ where
  view
    | 0 => ⟨none, "list", .list [1]⟩
    | 3 => ⟨none, "NoneType", .none⟩
    | _ => ⟨none, "object", .other⟩
  tupleItems _ := []
  pyNone := 3
  memory _ := 0
  answer _ := .ok 4

/-- Without a `default` the list is refused with an exception, and so is an input of blanks. -/
theorem error_protocol_refused :
    (∃ s', listOfOther.host.dumps 0 5 [0] [] (listOfOther.state ⟨none, none⟩) = .error ⟨⟩ s' ∧
      s'.exc.isSome) ∧
    ∃ s, Decode.runAll Decode.keyParser [] Decode.freshThread = .ok () s ∧
      wp (fun _ => False) (Decode.loads Decode.keyParser
        (Decode.runAll Decode.keyParser []) (.bytes [32])) (fun _ s' => s'.exc = none)
        (fun _ s' => s'.exc.isSome) s := by
  have hrun : ∃ s', listOfOther.host.dumps 0 5 [0] [] (listOfOther.state ⟨none, none⟩) =
      .error ⟨⟩ s' := ⟨_, rfl⟩
  have h := error_protocol (a := Allocator.plain) listOfOther.host listOfOther.layouts
    Decode.keyParser_reads
  constructor
  · obtain ⟨s', hrun⟩ := hrun
    have hprotocol := h.1 0 5 [0] [] (listOfOther.state ⟨none, none⟩) (TypeCache.fits_empty _) rfl
    unfold wlp at hprotocol
    rw [hrun] at hprotocol
    exact ⟨s', hrun, hprotocol.1⟩
  · obtain ⟨s, hs, -, hloads⟩ := h.2 [] Decode.freshThread Decode.fresh_freshThread
    exact ⟨s, hs, hloads (.bytes [32]) []⟩

end Isojson
