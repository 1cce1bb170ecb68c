import Isojson.WellFormed

/-!
# Python code without side effects

An interpreter in which calls leave everything as it is (`Runtime.SideEffectFree`).  Its answers go by
the heap alone, and the code below the containers leaves the state alone but for the output, the
exception and the references on record (`Keeps`).
-/

namespace Isojson

open Json Run

variable {Obj H : Type} {a : Allocator}

/-! ## Python code without side effects -/

namespace Runtime

variable (rt : Runtime Obj H)

/-- A call leaves the world as it is, and its answer does not go by the types that are cached. -/
structure SideEffectFree : Prop where
  world : ∀ c w, (rt.reply c w).2 = w
  answer : ∀ c h t t', (rt.reply c ⟨h, t⟩).1 = (rt.reply c ⟨h, t'⟩).1

/-- The answer to a request over a heap. -/
def answer (h : H) (c : Call Obj) : Reply Obj := (rt.reply c ⟨h, ⟨none, none⟩⟩).1

/-- The offset of `obj` over a heap; `none` if it raises. -/
def offset (h : H) (obj tzinfo arg : Obj) : Option (Option ℤ) :=
  (rt.offsetAnswer obj tzinfo arg ⟨h, ⟨none, none⟩⟩).map Prod.fst

variable {rt} (hrt : rt.SideEffectFree)

include hrt

lemma SideEffectFree.reply_eq (c : Call Obj) (w : World Obj H) :
    rt.reply c w = (rt.answer w.heap c, w) :=
  Prod.ext (hrt.answer c w.heap w.types _) (hrt.world c w)

lemma SideEffectFree.ownAnswer_eq (obj : Obj) (w : World Obj H) :
    rt.ownAnswer obj w =
      ((rt.ownAnswer obj ⟨w.heap, ⟨none, none⟩⟩).map Prod.fst).map fun o => (o, w) := by
  unfold ownAnswer
  rw [hrt.reply_eq, hrt.reply_eq]
  cases rt.answer w.heap (.ownUtcoffset obj) <;> rfl

lemma SideEffectFree.offsetReplied_eq (obj r : Obj) (w : World Obj H) :
    rt.offsetReplied obj r w =
      ((rt.offsetReplied obj r ⟨w.heap, ⟨none, none⟩⟩).map Prod.fst).map fun o => (o, w) := by
  have hown := hrt.ownAnswer_eq obj w
  unfold offsetReplied
  dsimp only
  split
  · rfl
  · split
    · rfl
    · exact hown
  · exact hown

/-- The offset does not go by the cached types either. -/
lemma SideEffectFree.offsetAnswer_eq (obj tzinfo arg : Obj) (w : World Obj H) :
    rt.offsetAnswer obj tzinfo arg w = (rt.offset w.heap obj tzinfo arg).map fun o => (o, w) := by
  have hreplied := fun r => hrt.offsetReplied_eq obj r w
  unfold offset
  obtain ⟨w0, hw0, hreplied⟩ : ∃ w0, w0 = (⟨w.heap, ⟨none, none⟩⟩ : World Obj H) ∧
      ∀ r, rt.offsetReplied obj r w =
        ((rt.offsetReplied obj r w0).map Prod.fst).map fun o => (o, w) := ⟨_, rfl, hreplied⟩
  have hheap : w0.heap = w.heap := by rw [hw0]
  rw [← hw0]
  by_cases htz : (rt.view w.heap tzinfo).body = .none
  · rw [rt.offsetAnswer_naive htz, rt.offsetAnswer_naive (by rw [hheap]; exact htz)]
    rfl
  · rw [rt.offsetAnswer_aware htz, rt.offsetAnswer_aware (by rw [hheap]; exact htz), hrt.reply_eq,
      hrt.reply_eq, hheap]
    cases rt.answer w.heap (.utcoffset tzinfo arg) with
    | raised exc => rfl
    | ok r => exact hreplied r

end Runtime

/-! ## What stays as it is -/

/-- The object that a step passes to `default`. -/
def Event.defaulted : Event Obj → Option Obj
  | .python _ (.default x) => some x
  | _ => none

/-- The objects that were passed to `default`, in order. -/
def St.defaulted (s : St Obj H a) : List Obj := s.log.filterMap Event.defaulted

/-- The state without the output, the exception and the references on record. -/
def St.setting (s : St Obj H a) : ℕ × ℕ × Option (DtTypes Obj) × Bool × World Obj H × List Obj :=
  (s.depth, s.defaultDepth, s.dt, s.npRechecked, s.world, s.defaulted)

lemma St.defaulted_logged (s : St Obj H a) {ev : Event Obj} (hev : ev.defaulted = none) :
    ({ s with log := s.log ++ [ev] } : St Obj H a).defaulted = s.defaulted := by
  unfold St.defaulted
  rw [List.filterMap_append, List.filterMap_cons_none hev, List.filterMap_nil, List.append_nil]

/-- Code that leaves the rest as it is. -/
abbrev Keeps {α : Type} (m : Encode Obj H a α) : Prop := Preserves St.setting m

section Keeps

variable {α : Type}

lemma keeps_event {ev : Event Obj} (hev : ev.defaulted = none) :
    Keeps (event ev : Encode Obj H a Unit) :=
  Preserves.modify fun s => by
    unfold St.setting
    rw [s.defaulted_logged hev]

lemma keeps_setExc (exc : Option (Exc Obj)) : Keeps (setExc exc : Encode Obj H a Unit) :=
  Preserves.modify fun _ => rfl

lemma keeps_emit (f : Buffer a → Buffer a) : Keeps (emit f : Encode Obj H a Unit) :=
  Preserves.modify fun _ => rfl

lemma keeps_decref (o : Obj) : Keeps (decref o : Encode Obj H a Unit) := keeps_event rfl

lemma keeps_incref (o : Obj) : Keeps (incref o : Encode Obj H a Unit) :=
  (keeps_event rfl).bind fun _ => keeps_event rfl

lemma keeps_get_bind {k : St Obj H a → Encode Obj H a α} (hk : ∀ s, Keeps (k s)) :
    Keeps (Run.get >>= k) := Preserves.get.bind hk

lemma St.setting_dropped (s : St Obj H a) (o : Obj) : (s.dropped o).setting = s.setting := by
  have hev : (Event.drop (.obj o)).defaulted = none := rfl
  have hlog := s.defaulted_logged hev
  unfold St.setting
  rw [← hlog]
  rfl

lemma keeps_dropping {m : Encode Obj H a α} (hm : Keeps m) (o : Obj) :
    Keeps (Run.onExit m (·.dropped o)) := hm.onExit fun s => s.setting_dropped o

namespace Host

variable (e : Host Obj H)

lemma keeps_look_bind {o : Obj} {k : PyObj Obj → Encode Obj H a α} (hk : ∀ p, Keeps (k p)) :
    Keeps (e.look o >>= k) := by
  have hlook : Keeps (e.look o : Encode Obj H a _) :=
    (keeps_event rfl).bind fun _ => keeps_get_bind fun _ => .pure _
  exact hlook.bind hk

variable {e} (hrt : e.rt.SideEffectFree)

include hrt

lemma keeps_ask (c : Call Obj) : Keeps (e.ask c : Encode Obj H a _) := by
  intro s
  have hworld := hrt.world c s.world
  unfold wp ask
  rcases hr : e.rt.reply c s.world with ⟨o | exc, w⟩ <;> rw [hr] at hworld <;> subst hworld <;> rfl

lemma keeps_request (c : Call Obj) : Keeps (e.request c : Encode Obj H a _) := by
  refine (keeps_ask hrt c).bind fun o => ?_
  cases o with
  | none => exact .pure _
  | some o => exact (keeps_event rfl).bind fun _ => .pure _

/-- Python code other than `default`. -/
lemma keeps_call {c : Call Obj} (g : Bool) (hc : (Event.python g c).defaulted = none) :
    Keeps (e.call g c : Encode Obj H a _) := (keeps_event hc).bind fun _ => keeps_request hrt c

lemma keeps_raiseTypeError (msg : String) : Keeps (e.raiseTypeError msg : Encode Obj H a _) := by
  refine (keeps_request hrt _).bind fun o => ?_
  cases o with
  | none => exact .pure _
  | some text => exact (keeps_setExc _).bind fun _ => keeps_decref _

lemma keeps_fail (msg : String) : Keeps (e.fail msg : Encode Obj H a α) :=
  (keeps_raiseTypeError hrt msg).bind fun _ => .throw _

omit hrt in
lemma keeps_fetchExc : Keeps (fetchExc : Encode Obj H a _) := by
  refine keeps_get_bind fun s => ?_
  cases s.exc with
  | none => exact .pure _
  | some exc => exact (keeps_setExc _).bind fun _ => (keeps_event rfl).bind fun _ => .pure _

omit hrt in
lemma keeps_restoreExc (exc : Exc Obj) : Keeps (restoreExc exc : Encode Obj H a _) :=
  (keeps_setExc _).bind fun _ => keeps_event rfl

lemma keeps_raiseTypeErrorCausedBy (msg : String) (cause : Option (Exc Obj)) :
    Keeps (e.raiseTypeErrorCausedBy msg cause : Encode Obj H a _) := by
  refine (keeps_raiseTypeError hrt msg).bind fun _ => ?_
  cases cause with
  | none => exact .pure _
  | some cause =>
      refine keeps_fetchExc.bind fun exc => ?_
      cases exc with
      | none => exact .fault
      | some exc =>
          exact (keeps_event rfl).bind fun _ => (keeps_event rfl).bind fun _ => keeps_restoreExc _

lemma keeps_raiseTypeErrorFromCurrent (msg : String) :
    Keeps (e.raiseTypeErrorFromCurrent msg : Encode Obj H a _) :=
  keeps_fetchExc.bind fun cause => keeps_raiseTypeErrorCausedBy hrt msg cause

omit hrt in
lemma keeps_excName : ∀ exc : Exc Obj, Keeps (e.excName exc : Encode Obj H a _)
  | .object _ => e.keeps_look_bind fun _ => .pure _
  | .typeError _ _ => (keeps_event rfl).bind fun _ => .pure _
  | .system _ => (keeps_event rfl).bind fun _ => .pure _
  | .caused exc _ => keeps_excName exc
  | .noted exc _ => keeps_excName exc

lemma keeps_asUtf8 (o : Obj) : Keeps (e.asUtf8 o : Encode Obj H a _) := by
  refine e.keeps_look_bind fun p => ?_
  split
  · split
    · exact .pure _
    · split
      · exact (keeps_setExc _).bind fun _ => .pure _
      · refine (keeps_ask hrt _).bind fun o => ?_
        cases o with
        | none => exact (keeps_setExc _).bind fun _ => .pure _
        | some o => exact .pure _
  · exact .fault

lemma keeps_describeException (g : Bool) (exc : Exc Obj) :
    Keeps (e.describeException g exc : Encode Obj H a _) := by
  refine (keeps_excName exc).bind fun name => (keeps_call hrt g rfl).bind fun o => ?_
  cases o with
  | none => exact (keeps_setExc _).bind fun _ => .pure _
  | some s =>
      refine (keeps_asUtf8 hrt s).bind fun text => (keeps_decref s).bind fun _ => ?_
      split
      · exact .pure _
      · exact (keeps_setExc _).bind fun _ => .pure _

lemma keeps_addNote (g : Bool) (note : String) : Keeps (e.addNote g note : Encode Obj H a _) := by
  have hdrop : ∀ o : Option Obj, Keeps (decrefIfSome o : Encode Obj H a _) := by
    intro o
    cases o with
    | none => exact .pure _
    | some o => exact keeps_decref o
  refine keeps_fetchExc.bind fun exc => ?_
  cases exc with
  | none => exact .pure _
  | some exc =>
      refine (keeps_request hrt _).bind fun name => (keeps_request hrt _).bind fun text => ?_
      have hcall : Keeps (e.callAddNote g exc note name text : Encode Obj H a _) := by
        unfold callAddNote
        split
        · exact keeps_call hrt g rfl
        · exact .pure _
      refine hcall.bind fun r => ?_
      have hrest : Keeps (do
          decrefIfSome name
          decrefIfSome text
          event (.read exc.root)
          restoreExc (if r.isSome then .noted exc note else exc) : Encode Obj H a Unit) :=
        (hdrop name).bind fun _ => (hdrop text).bind fun _ => (keeps_event rfl).bind fun _ =>
          keeps_restoreExc _
      cases r with
      | none => exact (keeps_setExc _).bind fun _ => hrest
      | some r => exact (keeps_decref r).bind fun _ => hrest

omit hrt in
lemma keeps_deltaUs (r : Obj) : Keeps (e.deltaUs r : Encode Obj H a _) := by
  refine e.keeps_look_bind fun p => ?_
  split
  · exact (keeps_decref r).bind fun _ => .pure _
  · exact (keeps_decref r).bind fun _ => .pure _
  · exact .fault

end Host

namespace Env

open Host

variable {e : Env Obj H} (hrt : e.rt.SideEffectFree)

include hrt

lemma keeps_utcoffsetRaised (what : String) :
    Keeps (e.utcoffsetRaised what : Encode Obj H a α) := by
  refine keeps_fetchExc.bind fun cause => ?_
  cases cause with
  | none => exact .fault
  | some cause =>
      exact (keeps_describeException hrt _ _).bind fun _ =>
        (keeps_raiseTypeErrorCausedBy hrt _ _).bind fun _ => .throw _

lemma keeps_ownUtcoffset (obj : Obj) (what : String) :
    Keeps (e.ownUtcoffset obj what : Encode Obj H a _) := by
  refine (keeps_event rfl).bind fun _ => (keeps_call hrt _ rfl).bind fun o => ?_
  cases o with
  | none => exact keeps_utcoffsetRaised hrt what
  | some r => exact keeps_deltaUs r

lemma keeps_utcoffsetOf (obj tzinfo arg : Obj) (what : String) :
    Keeps (e.utcoffsetOf obj tzinfo arg what : Encode Obj H a _) := by
  refine e.keeps_look_bind fun p => ?_
  split
  · exact .pure _
  · refine (keeps_call hrt _ rfl).bind fun o => ?_
    cases o with
    | none => exact keeps_utcoffsetRaised hrt what
    | some r =>
        refine e.keeps_look_bind fun p => ?_
        split
        · exact keeps_deltaUs r
        · split
          · exact keeps_deltaUs r
          · exact (keeps_decref r).bind fun _ => keeps_ownUtcoffset hrt obj what
        · exact (keeps_decref r).bind fun _ => keeps_ownUtcoffset hrt obj what

lemma keeps_str (obj : Obj) : Keeps (e.str obj : Encode Obj H a _) := by
  refine e.keeps_look_bind fun p => ?_
  split
  · refine keeps_get_bind fun s => (keeps_emit _).bind fun _ => ?_
    split
    · exact .pure _
    · exact keeps_fail hrt _
  · exact .fault

lemma keeps_utf8Of (o : Obj) : Keeps (e.utf8Of o : Encode Obj H a _) := by
  refine e.keeps_look_bind fun p => ?_
  split
  · split
    · exact (keeps_setExc _).bind fun _ => .throw _
    · refine (keeps_ask hrt _).bind fun o => ?_
      cases o with
      | none => exact .throw _
      | some o => exact .pure _
  · exact (keeps_setExc _).bind fun _ => .throw _

lemma keeps_toBase (guard : Bool) (obj : Obj) (z : ℤ) (base : ℕ) :
    Keeps (e.toBase guard obj z base : Encode Obj H a _) := by
  have hrecord : Keeps (e.recordPylong guard obj z base : Encode Obj H a _) := by
    refine keeps_get_bind fun s => ?_
    split
    · exact keeps_event rfl
    · exact .pure _
  exact hrecord.bind fun _ => keeps_request hrt _

lemma keeps_intOutside64Bits (obj : Obj) (z : ℤ) :
    Keeps (e.intOutside64Bits obj z : Encode Obj H a _) := by
  unfold intOutside64Bits
  split
  · exact keeps_fail hrt _
  · refine (keeps_toBase hrt _ _ _ _).bind fun o => ?_
    cases o with
    | none => exact .throw _
    | some text =>
        exact keeps_dropping ((keeps_utf8Of hrt text).bind fun _ => keeps_emit _) text

lemma keeps_int (obj : Obj) : Keeps (e.int obj : Encode Obj H a _) := by
  refine e.keeps_look_bind fun p => ?_
  split
  · next z _ =>
    split
    · refine keeps_get_bind fun s => ?_
      split
      · exact .throw _
      · split
        · exact keeps_fail hrt _
        · exact keeps_emit _
    · split
      · have hulong : Keeps (asUnsignedLongLong z : Encode Obj H a _) := by
          unfold asUnsignedLongLong
          split
          · exact .pure _
          · exact (keeps_setExc _).bind fun _ => .pure _
        refine hulong.bind fun u => keeps_get_bind fun s => ?_
        split
        · exact keeps_emit _
        · exact (keeps_setExc _).bind fun _ => keeps_intOutside64Bits hrt obj z
      · exact keeps_intOutside64Bits hrt obj z
  · exact .fault

omit hrt in
/-- A text that a formatter puts out. -/
lemma keeps_formatted {f : St Obj H a → Option (Buffer a)} :
    Keeps (Run.get >>= fun s => Run.unchecked (f s) >>= fun out => emit fun _ => out) :=
  keeps_get_bind fun _ => (Preserves.unchecked _).bind fun _ => keeps_emit _

lemma keeps_datetime (obj : Obj) : Keeps (e.datetime obj : Encode Obj H a _) := by
  refine e.keeps_look_bind fun p => ?_
  split
  · exact (keeps_event rfl).bind fun _ => (keeps_utcoffsetOf hrt _ _ _ _).bind fun _ =>
      (keeps_event rfl).bind fun _ => keeps_formatted
  · exact .fault

omit hrt in
lemma keeps_date (obj : Obj) : Keeps (e.date obj : Encode Obj H a _) := by
  refine e.keeps_look_bind fun p => ?_
  split
  · exact keeps_formatted
  · exact .fault

lemma keeps_time (obj : Obj) : Keeps (e.time obj : Encode Obj H a _) := by
  refine e.keeps_look_bind fun p => ?_
  split
  · exact (keeps_event rfl).bind fun _ => (keeps_utcoffsetOf hrt _ _ _ _).bind fun _ =>
      (keeps_event rfl).bind fun _ => keeps_formatted
  · exact .fault

lemma keeps_arrayStruct (obj : Obj) : Keeps (e.arrayStruct obj : Encode Obj H a _) := by
  have hbad : Keeps (do
      e.raiseTypeErrorFromCurrent "numpy array is malformed"
      Run.throw ⟨⟩ : Encode Obj H a (Obj × PyArrayInterface)) :=
    (keeps_raiseTypeErrorFromCurrent hrt _).bind fun _ => .throw _
  refine (keeps_call hrt _ rfl).bind fun o => ?_
  cases o with
  | none => exact .throw _
  | some capsule =>
      refine e.keeps_look_bind fun p => ?_
      split
      · split
        · exact .pure _
        · exact (keeps_decref _).bind fun _ => hbad
      · exact (keeps_setExc _).bind fun _ => (keeps_decref _).bind fun _ => hbad

lemma keeps_dtypeStr (obj : Obj) : Keeps (e.dtypeStr obj : Encode Obj H a _) := by
  refine (keeps_call hrt _ rfl).bind fun o => ?_
  cases o with
  | none => exact .throw _
  | some dtype =>
      refine (keeps_call hrt _ rfl).bind fun o => (keeps_decref dtype).bind fun _ => ?_
      cases o with
      | none => exact .throw _
      | some o => exact keeps_dropping (keeps_utf8Of hrt o) o

lemma keeps_dt64Unit (obj : Obj) : Keeps (e.dt64Unit obj : Encode Obj H a _) := by
  refine (keeps_dtypeStr hrt obj).bind fun dtype => ?_
  split <;> exact .pure _

lemma keeps_arrayDecline (obj : Obj) (iface : PyArrayInterface) (check : ArrayDecline) :
    Keeps (e.arrayDecline obj iface check : Encode Obj H a _) := by
  cases check with
  | notContiguous => exact .pure _
  | notNative | zeroDim | unsupportedDtype =>
      exact (keeps_dtypeStr hrt obj).bind fun _ => .pure _

omit hrt in
lemma keeps_walkArray (iface : PyArrayInterface) (elem : ElementType) (unit : Option Dt64Unit) :
    Keeps (e.walkArray iface elem unit : Encode Obj H a _) := by
  intro s
  unfold wp walkArray
  generalize walk _ _ _ _ _ _ _ = o
  cases o with
  | ok u w => rfl
  | error reason w =>
      dsimp only
      cases w.out.truncate? s.out.content.length <;> rfl
  | fault w => rfl
  | starved w => rfl

lemma keeps_serializeArray (obj : Obj) : Keeps (e.serializeArray obj : Encode Obj H a _) := by
  refine (keeps_arrayStruct hrt obj).bind fun held => keeps_dropping ?_ _
  obtain ⟨capsule, iface⟩ := held
  unfold serializeHeld
  split
  · exact (keeps_arrayDecline hrt _ _ _).bind fun _ => .pure _
  · have hunit : ∀ elem, Keeps (e.arrayUnit obj elem iface.shape : Encode Obj H a _) := by
      intro elem
      unfold arrayUnit
      split
      · exact (keeps_dt64Unit hrt obj).bind fun _ => .pure _
      · exact .pure _
    refine (hunit _).bind fun r => ?_
    split
    · exact .pure _
    · exact (keeps_event rfl).bind fun _ => keeps_walkArray _ _ _

lemma keeps_serializeScalar (obj : Obj) (elem : ElementType) :
    Keeps (e.serializeScalar obj elem : Encode Obj H a _) := by
  have helement : ∀ unit, Keeps (e.scalarElement obj elem unit : Encode Obj H a _) := by
    intro unit
    refine e.keeps_look_bind fun p => ?_
    split
    · refine keeps_get_bind fun s => ?_
      split
      · exact .fault
      · exact .pure _
      · exact (keeps_emit _).bind fun _ => .pure _
    · exact .fault
  rw [serializeScalar_eq]
  split
  · refine (keeps_dt64Unit hrt obj).bind fun r => ?_
    split
    · exact .pure _
    · exact helement _
  · exact helement none

end Env

end Keeps

end Isojson
