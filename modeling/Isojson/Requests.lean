import Isojson.Encode

/-!
# Requests and errors

What the helpers below the writers do.  None of them touches the output or the depths
(`St.frame`), every one of them ends, and an error that is raised is set (`St.exc`).  Replies of
CPython are arbitrary here.
-/

namespace Isojson

open Run

variable {Obj H : Type} {a : Allocator}

/-- The fields of the encoder that no request touches. -/
def St.frame (s : St Obj H a) : Buffer a × ℕ × ℕ × Option (DtTypes Obj) × Bool :=
  (s.out, s.depth, s.defaultDepth, s.dt, s.npRechecked)

/-! ## Frames -/

/-- The worlds that a world becomes by replies to requests. -/
def Runtime.Reach (rt : Runtime Obj H) : World Obj H → World Obj H → Prop :=
  Relation.ReflTransGen fun w w1 => ∃ c, w1 = (rt.reply c w).2

lemma Runtime.Reach.reply (rt : Runtime Obj H) (c : Call Obj) (w : World Obj H) :
    rt.Reach w (rt.reply c w).2 := .single ⟨c, rfl⟩

/-- What replies keep holds of every world that requests lead to. -/
lemma Runtime.Reach.keeps {rt : Runtime Obj H} {P : World Obj H → Prop}
    (h : ∀ c w, P w → P (rt.reply c w).2) {w w' : World Obj H} (hr : rt.Reach w w') (hw : P w) :
    P w' := by
  induction hr with
  | refl => exact hw
  | tail _ hstep ih =>
      obtain ⟨c, rfl⟩ := hstep
      exact h c _ ih

/-- The frame is as it was, and the world is one that requests have led to. -/
structure Asked (rt : Runtime Obj H) (s s' : St Obj H a) : Prop where
  frame : s'.frame = s.frame
  world : rt.Reach s.world s'.world

lemma Asked.refl {rt : Runtime Obj H} (s : St Obj H a) : Asked rt s s := ⟨rfl, .refl⟩

lemma Asked.trans {rt : Runtime Obj H} {s s1 s2 : St Obj H a} (h : Asked rt s s1)
    (h' : Asked rt s1 s2) : Asked rt s s2 := ⟨h'.frame.trans h.frame, h.world.trans h'.world⟩

/-- Code that makes requests, looks at objects and keeps the record and the exception, and does
nothing else.  It goes neither by the output nor, where it looks at a dict, by the entries. -/
inductive Asks (rt : Runtime Obj H) : {α : Type} → Encode Obj H a α → Prop
  | pure {α : Type} (x : α) : Asks rt (Pure.pure x)
  | throw {α : Type} (x : PendingPyErr) : Asks rt (Run.throw x : Encode Obj H a α)
  | fault {α : Type} : Asks rt (Run.fault : Encode Obj H a α)
  | record (evs : St Obj H a → List (Event Obj)) :
      Asks rt (Run.modify fun s => { s with log := s.log ++ evs s })
  | setExc (exc : Option (Exc Obj)) : Asks rt (setExc exc)
  | ask (e : Host Obj H) (he : e.rt = rt) (c : Call Obj) : Asks rt (e.ask c)
  | look {α : Type} (e : Host Obj H) (he : e.rt = rt) (o : Obj) (k : PyObj Obj → Encode Obj H a α)
      (hk : ∀ p, Asks rt (k p))
      (hdict : ∀ p slots slots', p.body = .dict slots → k { p with body := .dict slots' } = k p) :
      Asks rt (e.look o >>= k)
  | get {α : Type} (k : St Obj H a → Encode Obj H a α) (hk : ∀ s, Asks rt (k s))
      (hstate : ∀ s t, s.exc = t.exc → s.defaultDepth = t.defaultDepth →
        rt.callable s.world.heap = rt.callable t.world.heap → k s = k t) :
      Asks rt (Run.get >>= k)
  | bind {α β : Type} {m : Encode Obj H a α} {k : α → Encode Obj H a β} (hm : Asks rt m)
      (hk : ∀ x, Asks rt (k x)) : Asks rt (m >>= k)
  | dropping {α : Type} {m : Encode Obj H a α} (hm : Asks rt m) (o : Obj) :
      Asks rt (Run.onExit m (·.dropped o))

section Asks

variable {α β : Type} {rt : Runtime Obj H} {m : Encode Obj H a α}

/-- Wherever a run ends, it has made requests and nothing else. -/
lemma Asks.asked (h : Asks rt m) (s : St Obj H a) :
    wp (Asked rt s) m (fun _ s' => Asked rt s s') (fun _ s' => Asked rt s s') s := by
  induction h generalizing s with
  | pure x => exact .refl s
  | throw x => exact .refl s
  | fault => exact .refl s
  | record evs => exact ⟨rfl, .refl⟩
  | setExc exc => exact ⟨rfl, .refl⟩
  | ask e he c =>
      subst he
      have hreach := Runtime.Reach.reply e.rt c s.world
      unfold wp Host.ask
      rcases hr : e.rt.reply c s.world with ⟨o | exc, w⟩ <;> rw [hr] at hreach <;>
        exact ⟨rfl, hreach⟩
  | look e he o k hk hdict ih =>
      exact (ih _ { s with log := s.log ++ [.read (.obj o)] }).mono (fun _ _ h => ⟨h.frame, h.world⟩)
        (fun _ _ h => ⟨h.frame, h.world⟩) fun _ h => ⟨h.frame, h.world⟩
  | get k hk hstate ih => exact ih s s
  | bind hm hk ihm ihk =>
      rw [wp_bind]
      refine (ihm s).mono ?_ (fun _ _ h => h) fun _ h => h
      intro x s1 h
      exact (ihk x s1).mono (fun _ _ h' => h.trans h') (fun _ _ h' => h.trans h')
        fun _ h' => h.trans h'
  | dropping hm o ih =>
      have h := ih s
      unfold wp Run.onExit at *
      split at h
      · exact ⟨h.frame, h.world⟩
      · exact ⟨h.frame, h.world⟩
      · exact h
      · exact h

lemma Asks.preserves (h : Asks rt m) : Preserves St.frame m :=
  fun s => (h.asked s).mono (fun _ _ h => h.frame) (fun _ _ h => h.frame) fun _ h => h.frame

end Asks

/-- The depth is part of the frame. -/
lemma preserves_depth {α : Type} {m : Encode Obj H a α} (h : Preserves St.frame m) :
    Preserves St.depth m := h.map fun f => f.2.1

section Requests

variable {rt : Runtime Obj H}

lemma asks_event (ev : Event Obj) : Asks rt (event ev : Encode Obj H a Unit) := .record fun _ => [ev]

lemma asks_incref (o : Obj) : Asks rt (incref o : Encode Obj H a Unit) :=
  (asks_event _).bind fun _ => asks_event _

lemma asks_decref (o : Obj) : Asks rt (decref o : Encode Obj H a Unit) :=
  asks_event _

lemma asks_setExc (exc : Option (Exc Obj)) : Asks rt (setExc exc : Encode Obj H a Unit) :=
  .setExc exc

namespace Host

variable (e : Host Obj H)

/-- A look and what follows, which does not go by the entries of a dict. -/
lemma asks_look {α : Type} {o : Obj} {k : PyObj Obj → Encode Obj H a α}
    (hk : ∀ p, Asks e.rt (k p))
    (hdict : ∀ p slots slots', p.body = .dict slots → k { p with body := .dict slots' } = k p) :
    Asks e.rt (e.look o >>= k) := .look e rfl o k hk hdict

lemma preserves_look (o : Obj) : Preserves St.frame (e.look o : Encode Obj H a _) := fun _ => rfl

lemma asks_ask (c : Call Obj) : Asks e.rt (e.ask c : Encode Obj H a _) := .ask e rfl c

lemma asks_request (c : Call Obj) : Asks e.rt (e.request c : Encode Obj H a _) := by
  refine (e.asks_ask c).bind fun o => ?_
  cases o with
  | none => exact .pure _
  | some o => exact (asks_event _).bind fun _ => .pure _

/-- Whether Python code runs in a conversion is on record and changes nothing else. -/
lemma recordPylong_eq (guard : Bool) (obj : Obj) (z : ℤ) (base : ℕ) :
    (e.recordPylong guard obj z base : Encode Obj H a Unit) = Run.modify fun s => { s with
      log := s.log ++
        if e.rt.pylong s.world.heap z then [.python guard (.toBase obj base)] else [] } := by
  funext s
  unfold recordPylong
  rw [bind_of_ok (get_apply s), modify_apply]
  by_cases hpylong : e.rt.pylong s.world.heap z = true
  · rw [if_pos hpylong, if_pos hpylong]
    rfl
  · rw [if_neg hpylong, if_neg hpylong, List.append_nil]
    rfl

lemma asks_toBase (guard : Bool) (obj : Obj) (z : ℤ) (base : ℕ) :
    Asks e.rt (e.toBase guard obj z base : Encode Obj H a _) := by
  unfold toBase
  rw [recordPylong_eq]
  exact (Asks.record _).bind fun _ => e.asks_request _

lemma asks_raiseTypeError (msg : String) :
    Asks e.rt (e.raiseTypeError msg : Encode Obj H a _) := by
  refine (e.asks_request _).bind fun o => ?_
  cases o with
  | none => exact .pure _
  | some text => exact (asks_setExc _).bind fun _ => asks_decref _

lemma asks_fail {α : Type} (msg : String) :
    Asks e.rt (e.fail msg : Encode Obj H a α) :=
  (e.asks_raiseTypeError msg).bind fun _ => .throw _

lemma asks_fetchExc : Asks rt (fetchExc : Encode Obj H a _) := by
  refine .get _ (fun s => ?_) fun s t h _ _ => by rw [h]
  cases s.exc with
  | none => exact .pure _
  | some exc => exact (asks_setExc _).bind fun _ => (asks_event _).bind fun _ => .pure _

lemma asks_restoreExc (exc : Exc Obj) :
    Asks rt (restoreExc exc : Encode Obj H a _) :=
  (asks_setExc _).bind fun _ => asks_event _

lemma asks_raiseTypeErrorCausedBy (msg : String) (cause : Option (Exc Obj)) :
    Asks e.rt (e.raiseTypeErrorCausedBy msg cause : Encode Obj H a _) := by
  refine (e.asks_raiseTypeError msg).bind fun _ => ?_
  cases cause with
  | none => exact .pure _
  | some cause =>
      refine asks_fetchExc.bind fun exc => ?_
      cases exc with
      | none => exact .fault
      | some exc =>
          exact (asks_event _).bind fun _ => (asks_event _).bind fun _ =>
            asks_restoreExc _

lemma asks_raiseTypeErrorFromCurrent (msg : String) :
    Asks e.rt (e.raiseTypeErrorFromCurrent msg : Encode Obj H a _) :=
  asks_fetchExc.bind fun _ => e.asks_raiseTypeErrorCausedBy msg _

lemma asks_excName : ∀ exc : Exc Obj, Asks e.rt (e.excName exc : Encode Obj H a _)
  | .object _ => e.asks_look (fun _ => .pure _) fun _ _ _ _ => rfl
  | .typeError _ _ => (asks_event _).bind fun _ => .pure _
  | .system _ => (asks_event _).bind fun _ => .pure _
  | .caused exc _ => asks_excName exc
  | .noted exc _ => asks_excName exc

lemma asks_call (guard : Bool) (c : Call Obj) :
    Asks e.rt (e.call guard c : Encode Obj H a _) :=
  (asks_event _).bind fun _ => e.asks_request c

lemma asks_asUtf8 (o : Obj) : Asks e.rt (e.asUtf8 o : Encode Obj H a _) := by
  refine e.asks_look (fun p => ?_) fun p _ _ h => by dsimp only; rw [h]
  split
  · split
    · exact .pure _
    · split
      · exact (asks_setExc _).bind fun _ => .pure _
      · refine (e.asks_ask _).bind fun o => ?_
        cases o with
        | none => exact (asks_setExc _).bind fun _ => .pure _
        | some o => exact .pure _
  · exact .fault

lemma asks_describeException (guard : Bool) (exc : Exc Obj) :
    Asks e.rt (e.describeException guard exc : Encode Obj H a _) := by
  refine (e.asks_excName exc).bind fun name => (e.asks_call guard _).bind fun o => ?_
  cases o with
  | none => exact (asks_setExc _).bind fun _ => .pure _
  | some s =>
      refine (e.asks_asUtf8 s).bind fun text => (asks_decref s).bind fun _ => ?_
      split
      · exact .pure _
      · exact (asks_setExc _).bind fun _ => .pure _

lemma asks_decrefIfSome : ∀ o : Option Obj,
    Asks rt (decrefIfSome o : Encode Obj H a _)
  | some o => asks_decref o
  | none => .pure _

lemma asks_callAddNote (guard : Bool) (exc : Exc Obj) (note : String)
    (name text : Option Obj) :
    Asks e.rt (e.callAddNote guard exc note name text : Encode Obj H a _) := by
  unfold callAddNote
  split
  · exact e.asks_call guard _
  · exact .pure _

lemma asks_addNote (guard : Bool) (note : String) :
    Asks e.rt (e.addNote guard note : Encode Obj H a _) := by
  refine asks_fetchExc.bind fun exc => ?_
  cases exc with
  | none => exact .pure _
  | some exc =>
      refine (e.asks_request _).bind fun name => (e.asks_request _).bind fun text =>
        (e.asks_callAddNote guard exc note name text).bind fun r => ?_
      have hrest : Asks e.rt (do
          decrefIfSome name
          decrefIfSome text
          event (.read exc.root)
          restoreExc (if r.isSome then .noted exc note else exc) : Encode Obj H a Unit) :=
        (asks_decrefIfSome _).bind fun _ => (asks_decrefIfSome _).bind fun _ =>
          (asks_event _).bind fun _ => asks_restoreExc _
      cases r with
      | none => exact (asks_setExc _).bind fun _ => hrest
      | some r => exact (asks_decref r).bind fun _ => hrest

lemma asks_deltaUs (r : Obj) : Asks e.rt (e.deltaUs r : Encode Obj H a _) := by
  refine e.asks_look (fun p => ?_) fun p _ _ h => by dsimp only; rw [h]
  split
  · exact (asks_decref r).bind fun _ => .pure _
  · exact (asks_decref r).bind fun _ => .pure _
  · exact .fault

end Host

namespace Env

variable (e : Env Obj H)

lemma asks_utcoffsetRaised {α : Type} (what : String) :
    Asks e.rt (e.utcoffsetRaised what : Encode Obj H a α) := by
  refine Host.asks_fetchExc.bind fun cause => ?_
  cases cause with
  | none => exact .fault
  | some cause =>
      exact (e.asks_describeException _ _).bind fun _ =>
        (e.asks_raiseTypeErrorCausedBy _ _).bind fun _ => .throw _

lemma asks_ownUtcoffset (obj : Obj) (what : String) :
    Asks e.rt (e.ownUtcoffset obj what : Encode Obj H a _) := by
  refine (asks_event _).bind fun _ => (e.asks_call _ _).bind fun o => ?_
  cases o with
  | none => exact e.asks_utcoffsetRaised what
  | some r => exact e.asks_deltaUs r

lemma asks_utcoffsetOf (obj tzinfo arg : Obj) (what : String) :
    Asks e.rt (e.utcoffsetOf obj tzinfo arg what : Encode Obj H a _) := by
  refine e.asks_look (fun p => ?_) fun p _ _ h => by dsimp only; rw [h]
  split
  · exact .pure _
  · refine (e.asks_call _ _).bind fun o => ?_
    cases o with
    | none => exact e.asks_utcoffsetRaised what
    | some r =>
        refine e.asks_look (fun p => ?_) fun p _ _ h => by dsimp only; rw [h]
        split
        · exact e.asks_deltaUs r
        · split
          · exact e.asks_deltaUs r
          · exact (asks_decref r).bind fun _ => e.asks_ownUtcoffset obj what
        · exact (asks_decref r).bind fun _ => e.asks_ownUtcoffset obj what

lemma asks_arrayStruct (obj : Obj) :
    Asks e.rt (e.arrayStruct obj : Encode Obj H a _) := by
  have hbad : Asks e.rt (do
      e.raiseTypeErrorFromCurrent "numpy array is malformed"
      Run.throw ⟨⟩ : Encode Obj H a (Obj × PyArrayInterface)) :=
    (e.asks_raiseTypeErrorFromCurrent _).bind fun _ => .throw _
  refine (e.asks_call _ _).bind fun o => ?_
  cases o with
  | none => exact .throw _
  | some capsule =>
      refine e.asks_look (fun p => ?_) fun p _ _ h => by dsimp only; rw [h]
      split
      · split
        · exact .pure _
        · exact (asks_decref _).bind fun _ => hbad
      · exact (asks_setExc _).bind fun _ => (asks_decref _).bind fun _ => hbad

lemma asks_utf8Of (o : Obj) : Asks e.rt (e.utf8Of o : Encode Obj H a _) := by
  refine e.asks_look (fun p => ?_) fun p _ _ h => by dsimp only; rw [h]
  split
  · split
    · exact (asks_setExc _).bind fun _ => .throw _
    · refine (e.asks_ask _).bind fun o => ?_
      cases o with
      | none => exact .throw _
      | some o => exact .pure _
  · exact (asks_setExc _).bind fun _ => .throw _

lemma asks_dtypeStr (obj : Obj) : Asks e.rt (e.dtypeStr obj : Encode Obj H a _) := by
  refine (e.asks_call _ _).bind fun o => ?_
  cases o with
  | none => exact .throw _
  | some dtype =>
      refine (e.asks_call _ _).bind fun o => (asks_decref dtype).bind fun _ => ?_
      cases o with
      | none => exact .throw _
      | some o => exact .dropping (e.asks_utf8Of o) o

lemma asks_dt64Unit (obj : Obj) : Asks e.rt (e.dt64Unit obj : Encode Obj H a _) := by
  refine (e.asks_dtypeStr obj).bind fun dtype => ?_
  split <;> exact .pure _

lemma asks_arrayDecline (obj : Obj) (iface : PyArrayInterface) (check : ArrayDecline) :
    Asks e.rt (e.arrayDecline obj iface check : Encode Obj H a _) := by
  cases check with
  | notContiguous => exact .pure _
  | notNative | zeroDim | unsupportedDtype =>
      exact (e.asks_dtypeStr obj).bind fun _ => .pure _

lemma asks_arrayUnit (obj : Obj) (elem : ElementType) (shape : List ℕ) :
    Asks e.rt (e.arrayUnit obj elem shape : Encode Obj H a _) := by
  unfold arrayUnit
  split
  · exact (e.asks_dt64Unit obj).bind fun _ => .pure _
  · exact .pure _

lemma asks_keyText (key : Obj) : Asks e.rt (e.keyText key : Encode Obj H a _) := by
  refine e.asks_look (fun p => ?_) fun p _ _ h => by dsimp only; rw [h]
  split
  · dsimp only
    split
    · exact e.asks_fail _
    · split <;> exact .pure _
  · exact e.asks_fail _

lemma asks_keyedEntries (entries : List (Entry Obj)) :
    Asks e.rt (e.keyedEntries entries : Encode Obj H a _) := by
  induction entries with
  | nil => exact .pure _
  | cons kv entries ih => exact (e.asks_keyText kv.1).bind fun _ => ih.bind fun _ => .pure _

lemma asks_holdEntries (obj : Obj) (entries : List (Entry Obj)) :
    Asks rt (holdEntries obj entries : Encode Obj H a _) := by
  induction entries with
  | nil => exact .pure _
  | cons kv entries ih =>
      exact (asks_event _).bind fun _ => (asks_event _).bind fun _ =>
        (asks_incref _).bind fun _ => (asks_incref _).bind fun _ => ih

/-- A release changes nothing but the record. -/
lemma release_eq (entries : List (Entry Obj)) (s : St Obj H a) :
    ∃ log, release s entries = { s with log := log } := by
  induction entries generalizing s with
  | nil => exact ⟨s.log, rfl⟩
  | cons kv entries ih =>
      obtain ⟨log, h⟩ := ih _
      exact ⟨log, h⟩

lemma frame_release (entries : List (Entry Obj)) (s : St Obj H a) :
    (release s entries).frame = s.frame := by
  obtain ⟨log, h⟩ := release_eq entries s
  rw [h]
  rfl

lemma asks_invokeDefault (obj : Obj) :
    Asks e.rt (e.invokeDefault obj : Encode Obj H a _) := by
  refine .get _ (fun s => ?_) fun s t _ h _ => by rw [h]
  split
  · exact (e.asks_raiseTypeError _).bind fun _ => .pure _
  · refine (asks_event _).bind fun _ => (e.asks_call _ _).bind fun o => ?_
    cases o with
    | none =>
        exact e.asks_look (fun _ => (e.asks_raiseTypeErrorFromCurrent _).bind fun _ => .pure _)
          fun _ _ _ _ => rfl
    | some r => exact .pure _

lemma preserves_cached {α : Type} (f : H → TypeCache Obj → Except Obj α × TypeCache Obj) :
    Preserves St.frame (cached f : Encode Obj H a α) := by
  refine Preserves.get.bind fun s => ?_
  refine Preserves.bind (Preserves.modify fun _ => rfl) fun _ => ?_
  split
  · exact .pure _
  · exact Preserves.bind (Preserves.modify fun _ => rfl) fun _ => .throw _

lemma preserves_datetimeGroup [DecidableEq Obj] (rt : Runtime Obj H) :
    Preserves St.frame (datetimeGroup rt : Encode Obj H a _) := by
  refine Preserves.get.bind fun s => ?_
  have hrest := preserves_cached (a := a) fun h c => c.datetime rt h
  split
  · exact Preserves.bind (Preserves.modify fun _ => rfl) fun _ =>
      Preserves.bind (Preserves.modify fun _ => rfl) fun _ => hrest
  · exact hrest

end Env

end Requests

/-! ## One step -/

section Step

variable {C : St Obj H a → Prop} {E : PendingPyErr → St Obj H a → Prop} {s : St Obj H a}

@[simp] lemma wp_event {Q : Unit → St Obj H a → Prop} (ev : Event Obj) :
    wp C (event ev) Q E s ↔ Q () { s with log := s.log ++ [ev] } := Iff.rfl

@[simp] lemma wp_incref {Q : Unit → St Obj H a → Prop} (o : Obj) :
    wp C (incref o) Q E s ↔
      Q () { s with log := s.log ++ [.read (.obj o)] ++ [.take (.obj o)] } := Iff.rfl

@[simp] lemma wp_decref {Q : Unit → St Obj H a → Prop} (o : Obj) :
    wp C (decref o) Q E s ↔ Q () { s with log := s.log ++ [.drop (.obj o)] } := Iff.rfl

@[simp] lemma wp_setExc {Q : Unit → St Obj H a → Prop} (exc : Option (Exc Obj)) :
    wp C (setExc exc) Q E s ↔ Q () { s with exc := exc } := Iff.rfl

@[simp] lemma wp_clearExc {Q : Unit → St Obj H a → Prop} :
    wp C clearExc Q E s ↔ Q () { s with exc := none } := Iff.rfl

@[simp] lemma wp_emit {Q : Unit → St Obj H a → Prop} (f : Buffer a → Buffer a) :
    wp C (emit f) Q E s ↔ Q () (s.written (f s.out)) := Iff.rfl

@[simp] lemma wp_leave {Q : Unit → St Obj H a → Prop} :
    wp C Env.leave Q E s ↔ Q () { s with depth := s.depth - 1 } := Iff.rfl

/-- The fields of the encoder apart from the output, and the interpreter. -/
def St.rest (s : St Obj H a) : ℕ × ℕ × Option (DtTypes Obj) × Bool × World Obj H × List (Event Obj) :=
  (s.depth, s.defaultDepth, s.dt, s.npRechecked, s.world, s.log)

/-- `t` was appended to the output, and nothing else happened. -/
structure Appended (t : Bytes) (s s' : St Obj H a) : Prop where
  content : s'.out.content = s.out.content ++ t
  rest : s'.rest = s.rest
  exc : s.exc = none → s'.exc = none

section Appended

variable {t u : Bytes} {s1 s2 : St Obj H a}

lemma Appended.depth (h : Appended t s s1) : s1.depth = s.depth := congrArg (fun r => r.1) h.rest

lemma Appended.world (h : Appended t s s1) : s1.world = s.world :=
  congrArg (fun r => r.2.2.2.2.1) h.rest

lemma Appended.nil (s : St Obj H a) : Appended [] s s := ⟨(List.append_nil _).symm, rfl, id⟩

lemma Appended.written {f : Buffer a → Buffer a} (hf : ∀ b, (f b).content = b.content ++ t)
    (s : St Obj H a) : Appended t s (s.written (f s.out)) :=
  ⟨hf s.out, rfl, fun h => St.exc_written h _⟩

lemma Appended.trans (h : Appended t s s1) (h' : Appended u s1 s2) : Appended (t ++ u) s s2 where
  content := by rw [h'.content, h.content, List.append_assoc]
  rest := h'.rest.trans h.rest
  exc hs := h'.exc (h.exc hs)

end Appended

namespace Host

variable (e : Host Obj H)

@[simp] lemma wp_look {Q : PyObj Obj → St Obj H a → Prop} (o : Obj) :
    wp C (e.look o) Q E s ↔
      Q (e.rt.view s.world.heap o) { s with log := s.log ++ [.read (.obj o)] } := Iff.rfl

variable {Q : Option Obj → St Obj H a → Prop}

/-- A request answers with an object or with an exception. -/
lemma wp_ask {c : Call Obj}
    (hok : ∀ o w, e.rt.reply c s.world = (.ok o, w) → Q (some o) { s with world := w })
    (hraised : ∀ exc w, e.rt.reply c s.world = (.raised exc, w) →
      Q none { s with world := w, exc := some (.object exc) }) : wp C (e.ask c) Q E s := by
  unfold wp ask
  rcases hr : e.rt.reply c s.world with ⟨o | exc, w⟩
  · exact hok o w hr
  · exact hraised exc w hr

lemma wp_request {c : Call Obj}
    (hok : ∀ o w, e.rt.reply c s.world = (.ok o, w) →
      Q (some o) { s with world := w, log := s.log ++ [.take (.obj o)] })
    (hraised : ∀ exc w, e.rt.reply c s.world = (.raised exc, w) →
      Q none { s with world := w, exc := some (.object exc) }) : wp C (e.request c) Q E s := by
  unfold request
  rw [wp_bind]
  exact e.wp_ask (fun o w h => hok o w h) fun exc w h => hraised exc w h

lemma wp_call {guard : Bool} {c : Call Obj}
    (hok : ∀ o w, e.rt.reply c s.world = (.ok o, w) →
      Q (some o) { s with world := w, log := s.log ++ [.python guard c] ++ [.take (.obj o)] })
    (hraised : ∀ exc w, e.rt.reply c s.world = (.raised exc, w) →
      Q none { s with
        world := w, exc := some (.object exc), log := s.log ++ [.python guard c] }) :
    wp C (e.call guard c) Q E s := by
  unfold call
  rw [wp_bind]
  exact e.wp_request (fun o w h => hok o w h) fun exc w h => hraised exc w h

end Host

end Step

/-! ## Errors end, and are set -/

section Errors

variable {C : St Obj H a → Prop} {E : PendingPyErr → St Obj H a → Prop}

namespace Host

variable (e : Host Obj H)

lemma raiseTypeError_spec (msg : String) (s : St Obj H a) :
    wp C (e.raiseTypeError msg) (fun _ s' => s'.exc.isSome) E s := by
  unfold raiseTypeError
  rw [wp_bind]
  exact e.wp_request (fun _ _ _ => rfl) fun _ _ _ => rfl

lemma fail_spec {α : Type} {Q : α → St Obj H a → Prop} (msg : String) (s : St Obj H a) :
    wp C (e.fail msg) Q (fun _ s' => s'.exc.isSome) s := by
  unfold fail
  rw [wp_bind]
  exact (e.raiseTypeError_spec msg s).mono (fun _ _ h => h) (fun _ _ h => h) fun _ h => h

lemma fetchExc_spec (s : St Obj H a) :
    wp C fetchExc (fun exc s' => exc = s.exc ∧ s'.exc = none ∧ s'.world = s.world) E s := by
  unfold fetchExc
  rw [wp_bind, wp_get]
  cases hexc : s.exc with
  | none => exact ⟨rfl, hexc, rfl⟩
  | some exc => exact ⟨rfl, rfl, rfl⟩

lemma raiseTypeErrorCausedBy_spec (msg : String) (cause : Option (Exc Obj)) (s : St Obj H a) :
    wp C (e.raiseTypeErrorCausedBy msg cause) (fun _ s' => s'.exc.isSome) E s := by
  unfold raiseTypeErrorCausedBy
  rw [wp_bind]
  refine (e.raiseTypeError_spec msg s).mono (fun _ s' h => ?_) (fun _ _ h => h) fun _ h => h
  cases cause with
  | none => exact h
  | some cause =>
      rw [wp_bind]
      refine (fetchExc_spec s').mono ?_ (fun _ _ h => h) fun _ h => h
      rintro _ s2 ⟨rfl, -, -⟩
      obtain ⟨exc, hexc⟩ := Option.isSome_iff_exists.mp h
      rw [hexc]
      rfl

lemma raiseTypeErrorFromCurrent_spec (msg : String) (s : St Obj H a) :
    wp C (e.raiseTypeErrorFromCurrent msg) (fun _ s' => s'.exc.isSome) E s := by
  unfold raiseTypeErrorFromCurrent
  rw [wp_bind]
  exact (fetchExc_spec s).mono (fun _ s' _ => e.raiseTypeErrorCausedBy_spec msg _ s')
    (fun _ _ h => h) fun _ h => h

lemma excName_spec (exc : Exc Obj) (s : St Obj H a) :
    wp C (e.excName exc) (fun _ s' => s'.world = s.world) E s := by
  induction exc with
  | object o => rfl
  | typeError text msg => rfl
  | system name => rfl
  | caused exc cause ih => exact ih
  | noted exc note ih => exact ih

lemma asUtf8_spec {o : Obj} {t : StrObj} {s : St Obj H a}
    (h : (e.rt.view s.world.heap o).body = .str t) :
    wp C (e.asUtf8 o) (fun _ _ => True) E s := by
  unfold asUtf8
  rw [wp_bind, wp_look, h]
  dsimp only
  split
  · trivial
  · split
    · trivial
    · rw [wp_bind]
      exact e.wp_ask (fun _ _ _ => trivial) fun _ _ _ => trivial

lemma describeException_spec (guard : Bool) (exc : Exc Obj) (s : St Obj H a) :
    wp C (e.describeException guard exc) (fun _ _ => True) E s := by
  unfold describeException
  rw [wp_bind]
  refine (e.excName_spec exc s).mono (fun name s1 _ => ?_) (fun _ _ h => h) fun _ h => h
  rw [wp_bind]
  refine e.wp_call (fun o w h => ?_) fun _ _ _ => trivial
  obtain ⟨t, ht⟩ := e.rt.str_valid exc _ o w h
  simp only [wp_bind]
  refine (e.asUtf8_spec ht).mono (fun text s2 _ => ?_) (fun _ _ h => h) fun _ h => h
  rw [wp_decref]
  split <;> trivial

lemma returns_ask (c : Call Obj) : Returns (e.ask c : Encode Obj H a _) := by
  intro s
  unfold ask
  rcases e.rt.reply c s.world with ⟨o | exc, w⟩ <;> exact ⟨_, _, rfl⟩

lemma returns_request (c : Call Obj) : Returns (e.request c : Encode Obj H a _) := by
  refine (e.returns_ask c).bind fun o => ?_
  cases o with
  | none => exact .pure _
  | some o => exact (Returns.modify _).bind fun _ => .pure _

lemma returns_callAddNote (guard : Bool) (exc : Exc Obj) (note : String) (name text : Option Obj) :
    Returns (e.callAddNote guard exc note name text : Encode Obj H a _) := by
  unfold callAddNote
  split
  · exact (Returns.modify _).bind fun _ => e.returns_request _
  · exact .pure _

lemma returns_decrefIfSome : ∀ o : Option Obj, Returns (decrefIfSome o : Encode Obj H a _)
  | some _ => .modify _
  | none => .pure _

end Host

end Errors

end Isojson
