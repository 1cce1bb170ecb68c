import Isojson.Library.Ownership
import Isojson.WellFormed

/-!
# Reentrancy

Python code that runs in the middle of `dumps` may empty every list and dict, and give back every
reference that they held.  What the encoder reads after that is kept alive by the caller, by a
reference that the encoder took, or by a tuple, and in the end the encoder has given back what it
took.  There is one exception: the digits of a very large `int` can be made by Python code, and the
encoder converts it without the guard too (`reentrancy`).

The writers decide one by one what to hold.  Each of them keeps to the discipline of
`Ownership.Steps`, with its argument lent to it (`Env.Careful`).
-/

namespace Isojson

open Run Ownership Ownership.Book

variable {Obj H : Type} {a : Allocator}

deriving instance DecidableEq for Ref

/-! ## What the record says -/

/-- What CPython is passed with a request, besides the receiver of a `utcoffset`, which its
`datetime` or `time` holds, and an `int`, which `PyNumber_ToBase` holds by itself. -/
def Call.passed : Call Obj → List (Ref Obj)
  | .default x => [.obj x]
  | .utcoffset _ arg => [.obj arg]
  | .ownUtcoffset obj => [.obj obj]
  | .getAttr o _ => [.obj o]
  | .str exc => [exc.root]
  | .addNote exc _ => [exc.root]
  | .newText _ => []
  | .toBase _ _ => []
  | .utf8 obj => [.obj obj]

/-- Without the guard the encoder takes it that no Python code runs in a conversion of an `int`. -/
def Call.care (guard : Bool) : Call Obj → Care
  | .toBase _ _ => if guard then .prepared else .overlooked
  | _ => if guard then .prepared else .unprepared

lemma Call.care_true (c : Call Obj) : c.care true = .prepared := by
  cases c <;> rfl

lemma Call.care_eq_overlooked {guard : Bool} {c : Call Obj} :
    c.care guard = .overlooked ↔ guard = false ∧ ∃ obj base, c = .toBase obj base := by
  cases c <;> cases guard <;> simp [Call.care]

def Event.use : Event Obj → Use (Ref Obj)
  | .take r => .take r
  | .drop r => .drop r
  | .borrow container item => .borrow (.obj container) (.obj item)
  | .read r => .read r
  | .python guard c => .run (c.care guard) c.passed

/-- A tuple holds its items for as long as it lives. -/
inductive Runtime.Inside (rt : Runtime Obj H) : Ref Obj → Ref Obj → Prop
  | item {tuple item : Obj} {heap : H} (htuple : (rt.view heap tuple).body = .tuple)
      (h : item ∈ rt.tupleItems tuple) : Inside rt (.obj tuple) (.obj item)

/-- CPython makes the digits of some `int` with Python code. -/
def Runtime.MakesDigits (rt : Runtime Obj H) : Prop := ∃ heap z, rt.pylong heap z = true

/-- The record of a call.  The datetime types are known only to an encoder with the guard. -/
def Host.book (h : Host Obj H) (guard : Bool) : Book (St Obj H a) (Ref Obj) where
  trace s := s.log.map Event.use
  inside := h.rt.Inside
  overlooks := h.rt.MakesDigits
  inv s := s.dt.isSome → guard = true

/-! ## Single steps -/

section Steps

variable (h : Host Obj H) (g : Bool) {α β : Type} {G : Prop} {N V : Ref Obj → Prop}
  {R X : Multiset (Ref Obj)} {R' : α → Multiset (Ref Obj)} {s : St Obj H a} {r : Ref Obj}

/-- One step on record and what follows. -/
lemma minds_event {k : Unit → Encode Obj H a α} {ev : Event Obj} {W V' : Ref Obj → Prop}
    {R1 : Multiset (Ref Obj)}
    (hstep : Step h.rt.Inside h.rt.MakesDigits G N ⟨Readable V N R, R⟩ ev.use ⟨W, R1⟩)
    (hV : ∀ x, V' x → W x)
    (hk : (h.book g).Minds G N V' R1 (k ()) R' X { s with log := s.log ++ [ev] }) :
    (h.book g).Minds G N V R (event ev >>= k) R' X s :=
  .step (List.map_append ..) id hstep hV hk

/-- The last step. -/
lemma minds_last {ev : Event Obj} {W : Ref Obj → Prop} {R1 : Multiset (Ref Obj)}
    (hstep : Step h.rt.Inside h.rt.MakesDigits G N ⟨Readable V N R, R⟩ ev.use ⟨W, R1⟩) :
    (h.book g).Minds G N V R (event ev) (fun _ => R1) X s := by
  rw [← bind_pure (event ev)]
  exact minds_event h g hstep (fun x (hx : (⊥ : Ref Obj → Prop) x) => hx.elim) (.pure rfl)

lemma minds_take : (h.book g).Minds G N V R (event (.take r)) (fun _ => r ::ₘ R) X s :=
  minds_last h g (.take _ R r)

lemma minds_drop : (h.book g).Minds G N V (r ::ₘ R) (event (.drop r)) (fun _ => R) X s :=
  minds_last h g (.drop _ R r)

lemma minds_read (hr : Readable V N R r) :
    (h.book g).Minds G N V R (event (.read r)) (fun _ => R) X s := minds_last h g (.read hr R)

lemma minds_borrow {k : Unit → Encode Obj H a α} {container item : Obj}
    (hc : Readable V N R (.obj container))
    (hk : (h.book g).Minds G N (fun x => x = .obj item ∨ V x) R (k ()) R' X
      { s with log := s.log ++ [.borrow container item] }) :
    (h.book g).Minds G N V R (event (.borrow container item) >>= k) R' X s :=
  minds_event h g (.borrow hc R (.obj item)) (fun _ hx => hx.imp_right Or.inl) hk

lemma minds_incref {o : Obj} (ho : Readable V N R (.obj o)) :
    (h.book g).Minds False N V R (incref o) (fun _ => .obj o ::ₘ R) X s :=
  (minds_read h g ho).quiet_bind fun _ _ => minds_take h g

/-- A look and what follows, which may go by what is there. -/
lemma minds_look {k : PyObj Obj → Encode Obj H a α} {o : Obj}
    (ho : Readable V N R (.obj o))
    (hk : (h.book g).Minds G N V R (k (h.rt.view s.world.heap o)) R' X
      { s with log := s.log ++ [.read (.obj o)] }) :
    (h.book g).Minds G N V R (h.look o >>= k) R' X s := by
  have hevent : (h.book g).Minds G N V R
      (event (.read (.obj o)) >>= fun _ => k (h.rt.view s.world.heap o)) R' X s :=
    minds_event h g (.read ho R) (fun _ hx => Or.inl hx) hk
  exact hevent

/-- A reference that was held is given back on every way out. -/
lemma minds_dropping {m : Encode Obj H a α} {o : Obj}
    (hm : (h.book g).Minds G N V R m (fun x => .obj o ::ₘ R' x) (.obj o ::ₘ X) s) :
    (h.book g).Minds G N V R (Run.onExit m (·.dropped o)) R' X s := by
  refine .onExit [.obj o] (fun _ => List.map_append ..) (fun _ => id) ?_
  simpa using hm

lemma minds_setExc (exc : Option (Exc Obj)) :
    (h.book g).Minds G N V R (setExc exc) (fun _ => R) X s := .modify rfl id

lemma minds_emit (f : Buffer a → Buffer a) :
    (h.book g).Minds G N V R (emit f) (fun _ => R) X s := .modify rfl id

lemma minds_unchecked (o : Option α) :
    (h.book g).Minds G N V R (Run.unchecked o : Encode Obj H a α) (fun _ => R) X s := by
  cases o with
  | none => exact .fault
  | some x => exact .pure rfl

lemma minds_leave : (h.book g).Minds G N V R Env.leave (fun _ => R) X s := .modify rfl id

end Steps

/-! ## Requests and errors -/

/-- `R`, and a reference more if there is one. -/
def owning {α : Type} (f : α → Ref Obj) (R : Multiset (Ref Obj)) : Option α → Multiset (Ref Obj)
  | some x => f x ::ₘ R
  | none => R

namespace Host

section Requests

variable (h : Host Obj H) (g : Bool) {α : Type} {G : Prop} {N V : Ref Obj → Prop}
  {R X : Multiset (Ref Obj)} {R' : α → Multiset (Ref Obj)} {s : St Obj H a}

lemma minds_ask (c : Call Obj) : (h.book g).Minds G N V R (h.ask c) (fun _ => R) X s := by
  rcases hreply : h.rt.reply c s.world with ⟨o | exc, w⟩
  · have hask : h.ask c s = .ok (some o) { s with world := w } := by rw [ask, hreply]
    exact .returns hask rfl id
  · have hask : h.ask c s = .ok none { s with world := w, exc := some (.object exc) } := by
      rw [ask, hreply]
    exact .returns hask rfl id

/-- What a request answers is owned. -/
lemma minds_request (c : Call Obj) :
    (h.book g).Minds G N V R (h.request c) (owning .obj R) X s := by
  refine (h.minds_ask g c).quiet_bind fun o s1 => ?_
  cases o with
  | none => exact .pure rfl
  | some o => exact (minds_take h g).quiet_bind fun _ _ => .pure rfl

/-- Python code runs, and is passed what is kept alive. -/
lemma minds_call (hG : G) (hg : g = true) {c : Call Obj}
    (hpassed : ∀ r ∈ c.passed, Kept h.rt.Inside (fun x => N x ∨ x ∈ R) r) :
    (h.book g).Minds G N V R (h.call g c) (owning .obj R) X s := by
  have hevent : (h.book g).Minds G N V R (event (.python g c)) (fun _ => R) X s := by
    apply minds_last h g
    rw [Event.use, hg, c.care_true]
    exact .run hG _ hpassed
  exact hevent.bind fun _ _ => h.minds_request g c

/-- Python code can run in a conversion.  Without the guard this is overlooked. -/
lemma minds_recordPylong (hG : g = true → G) (obj : Obj) (z : ℤ) (base : ℕ) :
    (h.book g).Minds G N V R (h.recordPylong g obj z base) (fun _ => R) X s := by
  refine .get_bind ?_
  split
  · next hpylong =>
    cases g with
    | true => exact minds_last h true (.run (hG rfl) _ (by simp [Call.passed]))
    | false => exact minds_last h false (.overlook ⟨_, z, hpylong⟩ _ _ _)
  · exact .pure rfl

lemma minds_toBase (hG : g = true → G) (obj : Obj) (z : ℤ) (base : ℕ) :
    (h.book g).Minds G N V R (h.toBase g obj z base) (owning .obj R) X s :=
  (h.minds_recordPylong g hG obj z base).bind fun _ _ => h.minds_request g _

lemma minds_raiseTypeError (msg : String) :
    (h.book g).Minds G N V R (h.raiseTypeError msg) (fun _ => R) X s := by
  refine (h.minds_request g _).quiet_bind fun o s1 => ?_
  cases o with
  | none => exact .pure rfl
  | some text => exact (minds_setExc h g _).quiet_bind fun _ _ => minds_drop h g

lemma minds_fail (msg : String) : (h.book g).Minds G N V R (h.fail msg) R' R s := by
  exact (h.minds_raiseTypeError g msg).quiet_bind fun _ _ => .throw

lemma minds_fetchExc :
    (h.book g).Minds G N V R fetchExc (owning Exc.root R) X s := by
  refine .get_bind ?_
  cases s.exc with
  | none => exact .pure rfl
  | some exc =>
      exact (minds_setExc h g _).quiet_bind fun _ _ => (minds_take h g).quiet_bind fun _ _ =>
        .pure rfl

lemma minds_restoreExc (exc : Exc Obj) :
    (h.book g).Minds G N V (exc.root ::ₘ R) (restoreExc exc) (fun _ => R) X s := by
  exact (minds_setExc h g _).quiet_bind fun _ _ => minds_drop h g

/-- The reference to the cause is handed over. -/
lemma minds_raiseTypeErrorCausedBy (msg : String) (cause : Option (Exc Obj)) :
    (h.book g).Minds G N V (owning Exc.root R cause) (h.raiseTypeErrorCausedBy msg cause)
      (fun _ => R) X s := by
  refine (h.minds_raiseTypeError g msg).quiet_bind fun _ s1 => ?_
  cases cause with
  | none => exact .pure rfl
  | some cause =>
      refine (h.minds_fetchExc g).quiet_bind fun exc s2 => ?_
      cases exc with
      | none => exact .fault
      | some exc =>
          have howned : Readable V N (exc.root ::ₘ cause.root ::ₘ R) exc.root :=
            Or.inr (Or.inr (Multiset.mem_cons_self ..))
          refine (minds_read h g howned).quiet_bind fun _ _ => ?_
          rw [Multiset.cons_swap]
          exact (minds_drop h g).quiet_bind fun _ _ => h.minds_restoreExc g (.caused exc cause)

lemma minds_raiseTypeErrorFromCurrent (msg : String) :
    (h.book g).Minds G N V R (h.raiseTypeErrorFromCurrent msg) (fun _ => R) X s := by
  exact (h.minds_fetchExc g).quiet_bind fun cause _ => h.minds_raiseTypeErrorCausedBy g msg cause

lemma minds_excName : ∀ (exc : Exc Obj) {s : St Obj H a}, Readable V N R exc.root →
    (h.book g).Minds G N V R (h.excName exc) (fun _ => R) X s
  | .object _, _, hr => minds_look h g hr (.pure rfl)
  | .typeError _ _, _, hr =>
      (minds_read h g hr).quiet_bind fun _ _ => .pure rfl
  | .system _, _, hr =>
      (minds_read h g hr).quiet_bind fun _ _ => .pure rfl
  | .caused exc _, _, hr => minds_excName exc hr
  | .noted exc _, _, hr => minds_excName exc hr

lemma minds_asUtf8 {o : Obj} (ho : Readable V N R (.obj o)) :
    (h.book g).Minds G N V R (h.asUtf8 o) (fun _ => R) X s := by
  refine minds_look h g ho ?_
  split
  · split
    · exact .pure rfl
    · split
      · exact (minds_setExc h g _).quiet_bind fun _ _ => .pure rfl
      · refine (h.minds_ask g _).quiet_bind fun o _ => ?_
        cases o with
        | none => exact (minds_setExc h g _).quiet_bind fun _ _ => .pure rfl
        | some o => exact .pure rfl
  · exact .fault

/-- `str(exc)` runs Python code, which can't free an exception that is owned. -/
lemma minds_describeException (hG : G) (hg : g = true) {exc : Exc Obj} (hexc : exc.root ∈ R) :
    (h.book g).Minds G N V R (h.describeException g exc) (fun _ => R) X s := by
  refine (h.minds_excName g exc (Or.inr (Or.inr hexc))).quiet_bind fun name _ => ?_
  have hpassed : ∀ r ∈ (Call.str exc).passed, Kept h.rt.Inside (fun x => N x ∨ x ∈ R) r := by
    intro r hr
    rw [List.mem_singleton.mp hr]
    exact .owned (Or.inr hexc)
  refine (h.minds_call g hG hg hpassed).bind fun o _ => ?_
  cases o with
  | none => exact (minds_setExc h g _).quiet_bind fun _ _ => .pure rfl
  | some o =>
      have howned : Readable ⊥ N (.obj o ::ₘ R) (.obj o) :=
        Or.inr (Or.inr (Multiset.mem_cons_self ..))
      refine (h.minds_asUtf8 g howned).quiet_bind fun text _ => ?_
      refine (minds_drop h g).quiet_bind fun _ _ => ?_
      split
      · exact .pure rfl
      · exact (minds_setExc h g _).quiet_bind fun _ _ => .pure rfl

lemma minds_decrefIfSome (o : Option Obj) :
    (h.book g).Minds G N V (owning .obj R o) (decrefIfSome o) (fun _ => R) X s := by
  cases o with
  | none => exact .pure rfl
  | some o => exact minds_drop h g

lemma minds_callAddNote (hG : G) (hg : g = true) {exc : Exc Obj} (hexc : exc.root ∈ R)
    (note : String) (name text : Option Obj) :
    (h.book g).Minds G N V R (h.callAddNote g exc note name text) (owning .obj R) X s := by
  have hpassed : ∀ r ∈ (Call.addNote exc note).passed,
      Kept h.rt.Inside (fun x => N x ∨ x ∈ R) r := by
    intro r hr
    rw [List.mem_singleton.mp hr]
    exact .owned (Or.inr hexc)
  unfold callAddNote
  split
  · exact h.minds_call g hG hg hpassed
  · exact .pure rfl

lemma mem_owning {α : Type} {f : α → Ref Obj} {r : Ref Obj} (hr : r ∈ R) (o : Option α) :
    r ∈ owning f R o := by
  cases o with
  | none => exact hr
  | some o => exact Multiset.mem_cons_of_mem hr

lemma owning_comm {α β : Type} (f : α → Ref Obj) (f' : β → Ref Obj) (x : Option α) (y : Option β) :
    owning f (owning f' R y) x = owning f' (owning f R x) y := by
  cases x <;> cases y <;> first | rfl | exact Multiset.cons_swap ..

/-- The last steps of `add_note`. -/
lemma minds_withNote {exc exc' : Exc Obj} (hroot : exc'.root = exc.root) (name text : Option Obj) :
    (h.book g).Minds G N V (owning .obj (owning .obj (exc.root ::ₘ R) name) text) (do
      decrefIfSome name
      decrefIfSome text
      event (.read exc.root)
      restoreExc exc') (fun _ => R) X s := by
  rw [owning_comm]
  refine (h.minds_decrefIfSome g name).quiet_bind fun _ _ => ?_
  refine (h.minds_decrefIfSome g text).quiet_bind fun _ _ => ?_
  refine (minds_read h g (Or.inr (Or.inr (Multiset.mem_cons_self ..)))).quiet_bind fun _ _ => ?_
  rw [← hroot]
  exact h.minds_restoreExc g exc'

lemma minds_addNote (hG : G) (hg : g = true) (note : String) :
    (h.book g).Minds G N V R (h.addNote g note) (fun _ => R) X s := by
  refine (h.minds_fetchExc g).quiet_bind fun exc _ => ?_
  cases exc with
  | none => exact .pure rfl
  | some exc =>
      refine (h.minds_request g _).quiet_bind fun name _ => ?_
      refine (h.minds_request g _).quiet_bind fun text _ => ?_
      have hexc : exc.root ∈ owning .obj (owning .obj (exc.root ::ₘ R) name) text :=
        mem_owning (mem_owning (Multiset.mem_cons_self ..) name) text
      refine (h.minds_callAddNote g hG hg hexc note name text).bind fun r _ => ?_
      cases r with
      | none => exact (minds_setExc h g _).quiet_bind fun _ _ => h.minds_withNote g rfl name text
      | some r => exact (minds_drop h g).quiet_bind fun _ _ => h.minds_withNote g rfl name text

lemma minds_deltaUs {r : Obj} :
    (h.book g).Minds G N V (.obj r ::ₘ R) (h.deltaUs r) (fun _ => R) X s := by
  refine minds_look h g (Or.inr (Or.inr (Multiset.mem_cons_self ..))) ?_
  split
  · exact (minds_drop h g).quiet_bind fun _ _ => .pure rfl
  · exact (minds_drop h g).quiet_bind fun _ _ => .pure rfl
  · exact .fault

end Requests

end Host

/-! ## Leaves -/

namespace Env

variable (e : Env Obj H)

section Leaves

variable {α : Type} {G : Prop} {N V : Ref Obj → Prop} {R X : Multiset (Ref Obj)}
  {R' : α → Multiset (Ref Obj)} {s : St Obj H a}

lemma minds_str {o : Obj} (ho : Readable V N R (.obj o)) :
    (e.book e.guard).Minds G N V R (e.str o) (fun _ => R) R s := by
  refine minds_look e.toHost e.guard ho ?_
  split
  · refine .get_bind ((minds_emit e.toHost e.guard _).quiet_bind fun _ _ => ?_)
    split
    · exact .pure rfl
    · exact e.minds_fail e.guard _
  · exact .fault

lemma minds_utf8Of {o : Obj} (ho : .obj o ∈ R) :
    (e.book e.guard).Minds G N V R (e.utf8Of o) (fun _ => R) R s := by
  refine minds_look e.toHost e.guard (Or.inr (Or.inr ho)) ?_
  split
  · split
    · exact (minds_setExc e.toHost e.guard _).quiet_bind fun _ _ => .throw
    · refine (e.minds_ask e.guard _).quiet_bind fun r _ => ?_
      cases r with
      | none => exact .throw
      | some r => exact .pure rfl
  · exact (minds_setExc e.toHost e.guard _).quiet_bind fun _ _ => .throw

section Int

variable (hG : e.guard = true → G)

include hG

/-- The digits are owned while they are written. -/
lemma minds_intOutside64Bits (o : Obj) (z : ℤ) :
    (e.book e.guard).Minds G N V R (e.intOutside64Bits o z) (fun _ => R) R s := by
  unfold intOutside64Bits
  split
  · exact e.minds_fail e.guard _
  · refine (e.minds_toBase e.guard hG o z 10).bind fun text _ => ?_
    cases text with
    | none => exact .throw
    | some text =>
        have howned : .obj text ∈ .obj text ::ₘ R := Multiset.mem_cons_self ..
        exact minds_dropping e.toHost e.guard ((e.minds_utf8Of howned).quiet_bind fun _ _ =>
          minds_emit e.toHost e.guard _)

lemma minds_int {o : Obj} (ho : Readable V N R (.obj o)) :
    (e.book e.guard).Minds G N V R (e.int o) (fun _ => R) R s := by
  refine minds_look e.toHost e.guard ho ?_
  split
  · next z _ =>
    split
    · refine .get_bind ?_
      split
      · exact .throw
      · split
        · exact e.minds_fail e.guard _
        · exact minds_emit e.toHost e.guard _
    · split
      · have hunsigned : ∀ s1 : St Obj H a, (e.book e.guard).Minds False N V R
            (asUnsignedLongLong z : Encode Obj H a ℤ) (fun _ => R) R s1 := by
          intro s1
          unfold asUnsignedLongLong
          split
          · exact .pure rfl
          · exact (minds_setExc e.toHost e.guard _).quiet_bind fun _ _ => .pure rfl
        refine (hunsigned _).quiet_bind fun u _ => .get_bind ?_
        split
        · exact minds_emit e.toHost e.guard _
        · exact (minds_setExc e.toHost e.guard _).quiet_bind fun _ _ =>
            e.minds_intOutside64Bits hG o z
      · exact e.minds_intOutside64Bits hG o z
  · exact .fault

end Int

/-! ### UTC offsets -/

section Utcoffset

variable (hG : G) (hg : e.guard = true) (what : String)

include hG hg

lemma minds_utcoffsetRaised :
    (e.book e.guard).Minds G N V R (e.utcoffsetRaised what : Encode Obj H a α) R' R s := by
  refine (e.minds_fetchExc e.guard).quiet_bind fun cause _ => ?_
  cases cause with
  | none => exact .fault
  | some cause =>
      have hcause : cause.root ∈ owning Exc.root R (some cause) := Multiset.mem_cons_self ..
      exact (e.minds_describeException e.guard hG hg hcause).bind fun _ _ =>
        (e.minds_raiseTypeErrorCausedBy e.guard _ (some cause)).quiet_bind fun _ _ => .throw

lemma minds_ownUtcoffset {obj : Obj} (hobj : N (.obj obj)) :
    (e.book e.guard).Minds G N V R (e.ownUtcoffset obj what) (fun _ => R) R s := by
  refine (minds_read e.toHost e.guard (Or.inr (Or.inl hobj))).quiet_bind fun _ _ => ?_
  have hpassed : ∀ r ∈ (Call.ownUtcoffset obj).passed,
      Kept e.rt.Inside (fun x => N x ∨ x ∈ R) r := by
    intro r hr
    rw [List.mem_singleton.mp hr]
    exact .owned (Or.inl hobj)
  refine (e.minds_call e.guard hG hg hpassed).bind fun r _ => ?_
  cases r with
  | none => exact e.minds_utcoffsetRaised hG hg what
  | some r => exact e.minds_deltaUs e.guard

/-- The object stays alive while its tzinfo is asked. -/
lemma minds_utcoffsetOf {obj tzinfo arg : Obj} (htzinfo : Readable V N R (.obj tzinfo))
    (hobj : N (.obj obj)) (harg : N (.obj arg)) :
    (e.book e.guard).Minds G N V R (e.utcoffsetOf obj tzinfo arg what) (fun _ => R) R s := by
  have hpassed : ∀ r ∈ (Call.utcoffset tzinfo arg).passed,
      Kept e.rt.Inside (fun x => N x ∨ x ∈ R) r := by
    intro r hr
    rw [List.mem_singleton.mp hr]
    exact .owned (Or.inl harg)
  refine minds_look e.toHost e.guard htzinfo ?_
  split
  · exact .pure rfl
  · refine (e.minds_call e.guard hG hg hpassed).bind fun r _ => ?_
    cases r with
    | none => exact e.minds_utcoffsetRaised hG hg what
    | some r =>
        have hagain : ∀ s1, (e.book e.guard).Minds G N ⊥ (.obj r ::ₘ R)
            (decref r >>= fun _ => e.ownUtcoffset obj what) (fun _ => R) R (s1 : St Obj H a) :=
          fun s1 => (minds_drop e.toHost e.guard).quiet_bind fun _ _ =>
            e.minds_ownUtcoffset hG hg what hobj
        refine minds_look e.toHost e.guard (Or.inr (Or.inr (Multiset.mem_cons_self ..))) ?_
        split
        · exact e.minds_deltaUs e.guard
        · split
          · exact e.minds_deltaUs e.guard
          · exact hagain _
        · exact hagain _

end Utcoffset

lemma minds_datetime (hG : G) (hg : e.guard = true) {obj : Obj} (hobj : N (.obj obj)) :
    (e.book e.guard).Minds G N V R (e.datetime obj) (fun _ => R) R s := by
  refine minds_look e.toHost e.guard (Or.inr (Or.inl hobj)) ?_
  split
  · refine minds_borrow e.toHost e.guard (Or.inr (Or.inl hobj)) ?_
    refine (e.minds_utcoffsetOf hG hg _ (Or.inl (Or.inl rfl)) hobj hobj).bind fun offset _ => ?_
    refine (minds_read e.toHost e.guard (Or.inr (Or.inl hobj))).quiet_bind fun _ _ => .get_bind ?_
    exact (minds_unchecked e.toHost e.guard _).quiet_bind fun _ _ => minds_emit e.toHost e.guard _
  · exact .fault

lemma minds_date {obj : Obj} (hobj : N (.obj obj)) :
    (e.book e.guard).Minds G N V R (e.date obj) (fun _ => R) R s := by
  refine minds_look e.toHost e.guard (Or.inr (Or.inl hobj)) ?_
  split
  · refine .get_bind ?_
    exact (minds_unchecked e.toHost e.guard _).quiet_bind fun _ _ => minds_emit e.toHost e.guard _
  · exact .fault

lemma minds_time (hG : G) (hg : e.guard = true) {obj : Obj} (hobj : N (.obj obj))
    (hnone : N (.obj e.rt.pyNone)) :
    (e.book e.guard).Minds G N V R (e.time obj) (fun _ => R) R s := by
  refine minds_look e.toHost e.guard (Or.inr (Or.inl hobj)) ?_
  split
  · refine minds_borrow e.toHost e.guard (Or.inr (Or.inl hobj)) ?_
    refine (e.minds_utcoffsetOf hG hg _ (Or.inl (Or.inl rfl)) hobj hnone).bind fun offset _ => ?_
    refine (minds_read e.toHost e.guard (Or.inr (Or.inl hobj))).quiet_bind fun _ _ => .get_bind ?_
    exact (minds_unchecked e.toHost e.guard _).quiet_bind fun _ _ => minds_emit e.toHost e.guard _
  · exact .fault

/-! ### numpy -/

section Numpy

variable (hG : G) (hg : e.guard = true) {obj : Obj} (hobj : N (.obj obj))

include hG hg

lemma minds_getAttr {o : Obj} (ho : N (.obj o) ∨ .obj o ∈ R) (name : String) :
    (e.book e.guard).Minds G N V R (e.call e.guard (.getAttr o name)) (owning .obj R) X s := by
  refine e.minds_call e.guard hG hg fun r hr => ?_
  rw [List.mem_singleton.mp hr]
  exact .owned ho

include hobj

lemma minds_arrayStruct :
    (e.book e.guard).Minds G N V R (e.arrayStruct obj) (fun p => .obj p.1 ::ₘ R) R s := by
  refine (e.minds_getAttr hG hg (Or.inl hobj) _).bind fun capsule _ => ?_
  cases capsule with
  | none => exact .throw
  | some capsule =>
      have hbad : ∀ s1, (e.book e.guard).Minds G N ⊥ (.obj capsule ::ₘ R) (do
          decref capsule
          e.raiseTypeErrorFromCurrent "numpy array is malformed"
          Run.throw ⟨⟩ : Encode Obj H a (Obj × PyArrayInterface)) (fun p => .obj p.1 ::ₘ R) R s1 :=
        fun s1 => (minds_drop e.toHost e.guard).quiet_bind fun _ _ =>
          (e.minds_raiseTypeErrorFromCurrent e.guard _).quiet_bind fun _ _ => .throw
      refine minds_look e.toHost e.guard (Or.inr (Or.inr (Multiset.mem_cons_self ..))) ?_
      split
      · split
        · exact .pure rfl
        · exact hbad _
      · exact (minds_setExc e.toHost e.guard _).quiet_bind fun _ _ => hbad _

lemma minds_dtypeStr : (e.book e.guard).Minds G N V R (e.dtypeStr obj) (fun _ => R) R s := by
  refine (e.minds_getAttr hG hg (Or.inl hobj) _).bind fun dtype _ => ?_
  cases dtype with
  | none => exact .throw
  | some dtype =>
      have hdtype : .obj dtype ∈ owning .obj R (some dtype) := Multiset.mem_cons_self ..
      refine (e.minds_getAttr hG hg (Or.inr hdtype) _).bind fun str _ => ?_
      cases str with
      | none => exact (minds_drop e.toHost e.guard).quiet_bind fun _ _ => .throw
      | some str =>
          have hdrop : ∀ s1 : St Obj H a, (e.book e.guard).Minds False N ⊥
              (.obj str ::ₘ .obj dtype ::ₘ R) (decref dtype) (fun _ => .obj str ::ₘ R) R s1 := by
            intro s1
            rw [Multiset.cons_swap]
            exact minds_drop e.toHost e.guard
          exact (hdrop _).quiet_bind fun _ _ =>
            minds_dropping e.toHost e.guard (e.minds_utf8Of (Multiset.mem_cons_self ..))

lemma minds_dt64Unit : (e.book e.guard).Minds G N V R (e.dt64Unit obj) (fun _ => R) R s := by
  refine (e.minds_dtypeStr hG hg hobj).bind fun dtype _ => ?_
  split
  · exact .pure rfl
  · exact .pure rfl

lemma minds_arrayDecline (iface : PyArrayInterface) (check : ArrayDecline) :
    (e.book e.guard).Minds G N V R (e.arrayDecline obj iface check) (fun _ => R) R s := by
  cases check with
  | notContiguous => exact .pure rfl
  | notNative => exact (e.minds_dtypeStr hG hg hobj).bind fun _ _ => .pure rfl
  | zeroDim => exact (e.minds_dtypeStr hG hg hobj).bind fun _ _ => .pure rfl
  | unsupportedDtype => exact (e.minds_dtypeStr hG hg hobj).bind fun _ _ => .pure rfl

lemma minds_arrayUnit (elem : ElementType) (shape : List ℕ) :
    (e.book e.guard).Minds G N V R (e.arrayUnit obj elem shape) (fun _ => R) R s := by
  unfold arrayUnit
  split
  · exact (e.minds_dt64Unit hG hg hobj).bind fun _ _ => .pure rfl
  · exact .pure rfl

omit hG hg hobj in
lemma minds_walkArray (iface : PyArrayInterface) (elem : ElementType) (unit : Option Dt64Unit) :
    (e.book e.guard).Minds G N V R (e.walkArray iface elem unit) (fun _ => R) R s := by
  apply Minds.still
  intro s
  unfold wp walkArray
  rcases walk ⟨e.fmt, e.opts, elem, unit⟩ (e.rt.memory s.world.heap) e.indent s.depth
    (iface.shape.zip iface.strides) iface.data ⟨s.out, []⟩ with ⟨_, w⟩ | ⟨reason, w⟩ | w | w
  · rfl
  · dsimp only
    cases w.out.truncate? s.out.content.length with
    | none => rfl
    | some out => rfl
  · rfl
  · rfl

/-- The capsule is held while Python code can run. -/
lemma minds_serializeHeld {capsule : Obj} (hcapsule : .obj capsule ∈ R) (iface : PyArrayInterface) :
    (e.book e.guard).Minds G N V R (e.serializeHeld obj capsule iface) (fun _ => R) R s := by
  unfold serializeHeld
  split
  · exact (e.minds_arrayDecline hG hg hobj iface _).bind fun _ _ => .pure rfl
  · refine (e.minds_arrayUnit hG hg hobj _ _).bind fun unit _ => ?_
    split
    · exact .pure rfl
    · exact (minds_read e.toHost e.guard (Or.inr (Or.inr hcapsule))).quiet_bind fun _ _ =>
        e.minds_walkArray iface _ _

lemma minds_serializeArray :
    (e.book e.guard).Minds G N V R (e.serializeArray obj) (fun _ => R) R s := by
  refine (e.minds_arrayStruct hG hg hobj).bind fun p _ => ?_
  exact minds_dropping e.toHost e.guard
    (e.minds_serializeHeld hG hg hobj (Multiset.mem_cons_self ..) p.2)

omit hG hg in
lemma minds_scalarElement (elem : ElementType) (unit : Option Dt64Unit) :
    (e.book e.guard).Minds G N V R (e.scalarElement obj elem unit) (fun _ => R) R s := by
  refine minds_look e.toHost e.guard (Or.inr (Or.inl hobj)) ?_
  split
  · refine .get_bind ?_
    split
    · exact .fault
    · exact .pure rfl
    · exact (minds_emit e.toHost e.guard _).quiet_bind fun _ _ => .pure rfl
  · exact .fault

lemma minds_serializeScalar (elem : ElementType) :
    (e.book e.guard).Minds G N V R (e.serializeScalar obj elem) (fun _ => R) R s := by
  rw [serializeScalar_eq]
  split
  · refine (e.minds_dt64Unit hG hg hobj).bind fun unit _ => ?_
    cases unit with
    | error reason => exact .pure rfl
    | ok unit => exact e.minds_scalarElement hobj elem (some unit)
  · exact e.minds_scalarElement hobj elem none

end Numpy

end Leaves

/-! ## Layout -/

section Layout

variable {G : Prop} {N V : Ref Obj → Prop} {R X : Multiset (Ref Obj)} {s : St Obj H a}

lemma minds_breakLine : (e.book e.guard).Minds G N V R e.breakLine (fun _ => R) X s := by
  refine .get_bind ?_
  split
  · exact minds_emit e.toHost e.guard _
  · exact .pure rfl

lemma minds_enter : (e.book e.guard).Minds G N V R e.enter (fun _ => R) R s := by
  refine .get_bind ?_
  split
  · exact e.minds_fail e.guard _
  · exact .modify rfl id

lemma minds_empty (text : Bytes) :
    (e.book e.guard).Minds G N V R (do
      leave
      emit (·.extend text) : Encode Obj H a Unit) (fun _ => R) X s :=
  (minds_leave e.toHost e.guard).quiet_bind fun _ _ => minds_emit e.toHost e.guard _

lemma minds_close (b : UInt8) :
    (e.book e.guard).Minds G N V R (do
      leave
      e.breakLine
      emit (·.push b) : Encode Obj H a Unit) (fun _ => R) X s :=
  (minds_leave e.toHost e.guard).quiet_bind fun _ _ => e.minds_breakLine.quiet_bind fun _ _ =>
    minds_emit e.toHost e.guard _

end Layout

/-! ## Containers -/

/-- What a writer is lent: `None`, which is immortal, and its argument, unless the encoder takes it
that this one runs no Python code. -/
def lent (p : PyObj Obj) (o : Obj) (r : Ref Obj) : Prop :=
  (r = .obj o ∧ p.runsNoPython = false) ∨ r = .obj e.rt.pyNone

/-- A writer that relies on its argument alone and takes nothing with it.  An argument that it is not
lent may still be read at the start. -/
def Careful (self : Obj → Encode Obj H a Unit) : Prop :=
  ∀ o s, (e.book e.guard).Minds (e.guard = true) (e.lent (e.rt.view s.world.heap o) o) (· = .obj o) 0
    (self o) (fun _ => 0) 0 s

section Containers

variable {self : Obj → Encode Obj H a Unit} (hself : e.Careful self) {N V : Ref Obj → Prop}
  (hnone : N (.obj e.rt.pyNone)) {R : Multiset (Ref Obj)} {s : St Obj H a}

include hself hnone

/-- An item is written under the eyes of Python code only if it is kept alive. -/
lemma minds_self {o : Obj} (ho : Readable V N R (.obj o))
    (hkept : e.guard = true → (e.rt.view s.world.heap o).runsNoPython = false →
      Kept e.rt.Inside (fun x => N x ∨ x ∈ R) (.obj o)) :
    (e.book e.guard).Minds (e.guard = true) N V R (self o) (fun _ => R) R s := by
  apply (hself o s).call id
  · rintro r (rfl | ⟨rfl, -⟩ | rfl)
    · exact ho
    · exact ho
    · exact Or.inr (Or.inl hnone)
  · rintro hg r (⟨rfl, hruns⟩ | rfl)
    · exact hkept hg hruns
    · exact .owned (Or.inl hnone)

/-- A borrowed item is held if Python code can run while it is written. -/
lemma minds_guarded {item : Obj} (hitem : Readable V N R (.obj item)) :
    (e.book e.guard).Minds (e.guard = true) N V R (e.guarded self item) (fun _ => R) R s := by
  unfold guarded
  by_cases hg : e.guard = true
  · rw [if_pos hg]
    refine minds_look e.toHost e.guard hitem ?_
    by_cases hruns : (e.rt.view s.world.heap item).runsNoPython = true
    · rw [if_pos hruns]
      exact e.minds_self hself hnone hitem fun _ hnot => absurd (hruns.symm.trans hnot) (by simp)
    · rw [if_neg hruns]
      refine (minds_incref e.toHost e.guard hitem).quiet_bind fun _ s1 => ?_
      have hheld : .obj item ∈ .obj item ::ₘ R := Multiset.mem_cons_self ..
      exact minds_dropping e.toHost e.guard
        (e.minds_self hself hnone (Or.inr (Or.inr hheld)) fun _ _ => .owned (Or.inr hheld))
  · rw [if_neg hg]
    exact e.minds_self hself hnone hitem fun h => absurd h hg

/-! ### Lists and tuples -/

omit hself hnone in
lemma minds_listItems {obj : Obj} (hobj : N (.obj obj)) :
    (e.book e.guard).Minds False N V R (e.listItems obj : Encode Obj H a _) (fun _ => R) R s := by
  refine minds_look e.toHost e.guard (Or.inr (Or.inl hobj)) ?_
  split
  · exact .pure rfl
  · exact .fault

lemma minds_listLoop {obj : Obj} (hobj : N (.obj obj)) (fuel i : ℕ) :
    (e.book e.guard).Minds (e.guard = true) N V R (e.listLoop self obj fuel i) (fun _ => R) R
      s := by
  induction fuel generalizing i V s with
  | zero => exact .starve
  | succ fuel ih =>
      refine (e.minds_listItems hobj).quiet_bind fun items _ => ?_
      split
      · exact .pure rfl
      · next item _ =>
        have hitem : ∀ s1, (e.book e.guard).Minds (e.guard = true) N V R (do
            e.breakLine
            event (.borrow obj item)
            e.guarded self item
            e.listLoop self obj fuel (i + 1) : Encode Obj H a Unit) (fun _ => R) R s1 := by
          intro s1
          refine e.minds_breakLine.quiet_bind fun _ _ => ?_
          refine minds_borrow e.toHost e.guard (Or.inr (Or.inl hobj)) ?_
          exact (e.minds_guarded hself hnone (Or.inl (Or.inl rfl))).bind fun _ _ => ih (i + 1)
        split
        · exact (minds_emit e.toHost e.guard _).quiet_bind fun _ _ => hitem _
        · exact hitem _

lemma minds_list {obj : Obj} (hobj : N (.obj obj)) (fuel : ℕ) :
    (e.book e.guard).Minds (e.guard = true) N V R (e.list self fuel obj) (fun _ => R) R s := by
  refine (e.minds_listItems hobj).quiet_bind fun items _ => ?_
  split
  · exact e.minds_enter.quiet_bind fun _ _ => e.minds_empty _
  · refine e.minds_enter.quiet_bind fun _ _ => ?_
    refine (minds_emit e.toHost e.guard _).quiet_bind fun _ _ => ?_
    exact (e.minds_listLoop hself hnone hobj fuel 0).bind fun _ _ => e.minds_close _

/-- An item of a tuple lives as long as the tuple. -/
lemma minds_tupleLoop {obj : Obj} (hobj : N (.obj obj)) {heap : H}
    (htuple : (e.rt.view heap obj).body = .tuple) {items : List Obj}
    (hitems : ∀ item ∈ items, item ∈ e.rt.tupleItems obj) (i : ℕ) :
    (e.book e.guard).Minds (e.guard = true) N V R (e.tupleLoop self obj i items) (fun _ => R) R
      s := by
  induction items generalizing i V s with
  | nil => exact .pure rfl
  | cons item items ih =>
      have hin : e.rt.Inside (.obj obj) (.obj item) :=
        .item htuple (hitems item (List.mem_cons_self ..))
      have hitem : ∀ s1, (e.book e.guard).Minds (e.guard = true) N V R (do
          e.breakLine
          event (.read (.obj obj))
          event (.borrow obj item)
          self item
          e.tupleLoop self obj (i + 1) items : Encode Obj H a Unit) (fun _ => R) R s1 := by
        intro s1
        refine e.minds_breakLine.quiet_bind fun _ _ => ?_
        refine (minds_read e.toHost e.guard (Or.inr (Or.inl hobj))).quiet_bind fun _ _ => ?_
        refine minds_borrow e.toHost e.guard (Or.inr (Or.inl hobj)) ?_
        refine (e.minds_self hself hnone (Or.inl (Or.inl rfl)) fun _ _ =>
          .inside (.owned (Or.inl hobj)) hin).bind fun _ _ => ?_
        exact ih (fun x hx => hitems x (List.mem_cons_of_mem _ hx)) (i + 1)
      unfold tupleLoop
      split
      · exact (minds_emit e.toHost e.guard _).quiet_bind fun _ _ => hitem _
      · exact hitem _

lemma minds_tuple {obj : Obj} (hobj : N (.obj obj)) {heap : H}
    (htuple : (e.rt.view heap obj).body = .tuple) :
    (e.book e.guard).Minds (e.guard = true) N V R (e.tuple self obj) (fun _ => R) R s := by
  refine (minds_read e.toHost e.guard (Or.inr (Or.inl hobj))).quiet_bind fun _ _ => ?_
  refine e.minds_enter.quiet_bind fun _ _ => ?_
  split
  · exact e.minds_empty _
  · refine (minds_emit e.toHost e.guard _).quiet_bind fun _ _ => ?_
    exact (e.minds_tupleLoop hself hnone hobj htuple (fun _ h => h) 0).bind fun _ _ =>
      e.minds_close _

/-! ### Dicts -/

section Keys

omit hself hnone

lemma minds_dictSlots {obj : Obj} (hobj : N (.obj obj)) :
    (e.book e.guard).Minds False N V R (e.dictSlots obj : Encode Obj H a _) (fun _ => R) R s := by
  refine minds_look e.toHost e.guard (Or.inr (Or.inl hobj)) ?_
  split
  · exact .pure rfl
  · exact .fault

lemma minds_keyText {key : Obj} (hkey : Readable V N R (.obj key)) :
    (e.book e.guard).Minds False N V R (e.keyText key) (fun _ => R) R s := by
  refine minds_look e.toHost e.guard hkey ?_
  split
  · dsimp only
    split
    · exact e.minds_fail e.guard _
    · split
      · exact .pure rfl
      · exact .pure rfl
  · exact e.minds_fail e.guard _

lemma minds_writeKey {key : Obj} (hkey : Readable V N R (.obj key)) (first : Bool) :
    (e.book e.guard).Minds False N V R (e.writeKey key first) (fun _ => R) R s := by
  have htext : ∀ (f : Buffer a → Buffer a) (s1 : St Obj H a),
      (e.book e.guard).Minds False N V R (do
        e.breakLine
        e.str key
        emit f) (fun _ => R) R s1 := fun f s1 =>
    e.minds_breakLine.quiet_bind fun _ _ => (e.minds_str hkey).quiet_bind fun _ _ =>
      minds_emit e.toHost e.guard f
  unfold writeKey
  split
  · split
    · exact htext _ s
    · exact (minds_emit e.toHost e.guard _).quiet_bind fun _ _ => htext _ _
  · split
    · exact htext _ s
    · exact (minds_emit e.toHost e.guard _).quiet_bind fun _ _ => htext _ _

end Keys

lemma minds_entryValue {key value : Obj} (hkey : Readable V N R (.obj key))
    (hvalue : Readable V N R (.obj value)) :
    (e.book e.guard).Minds (e.guard = true) N V R (e.entryValue self key value) (fun _ => R) R
      s := by
  unfold entryValue
  by_cases hg : e.guard = true
  · rw [if_pos hg]
    refine minds_look e.toHost e.guard hvalue ?_
    by_cases hruns : (e.rt.view s.world.heap value).runsNoPython = true
    · rw [if_pos hruns]
      exact e.minds_self hself hnone hvalue fun _ hnot => absurd (hruns.symm.trans hnot) (by simp)
    · rw [if_neg hruns]
      refine (minds_incref e.toHost e.guard hkey).quiet_bind fun _ s1 => ?_
      have hvalue' : Readable V N (.obj key ::ₘ R) (.obj value) :=
        hvalue.imp_right fun h => h.imp_right Multiset.mem_cons_of_mem
      exact minds_dropping e.toHost e.guard (e.minds_guarded hself hnone hvalue')
  · rw [if_neg hg]
    exact e.minds_self hself hnone hvalue fun h => absurd h hg

lemma minds_dictLoop {obj : Obj} (hobj : N (.obj obj)) (fuel pos : ℕ) (first : Bool) :
    (e.book e.guard).Minds (e.guard = true) N V R (e.dictLoop self obj fuel pos first)
      (fun _ => R) R s := by
  induction fuel generalizing pos first V s with
  | zero => exact .starve
  | succ fuel ih =>
      refine (e.minds_dictSlots hobj).quiet_bind fun slots _ => ?_
      split
      · exact .pure rfl
      · next pos' key value _ =>
        refine minds_borrow e.toHost e.guard (Or.inr (Or.inl hobj)) ?_
        refine minds_borrow e.toHost e.guard (Or.inr (Or.inl hobj)) ?_
        have hkey : Readable (fun x => x = .obj value ∨ x = .obj key ∨ V x) N R (.obj key) :=
          Or.inl (Or.inr (Or.inl rfl))
        have hvalue : Readable (fun x => x = .obj value ∨ x = .obj key ∨ V x) N R (.obj value) :=
          Or.inl (Or.inl rfl)
        refine minds_look e.toHost e.guard hkey ?_
        split
        · refine (e.minds_writeKey hkey first).quiet_bind fun _ _ => ?_
          exact (e.minds_entryValue hself hnone hkey hvalue).bind fun _ _ => ih pos' false
        · exact e.minds_fail e.guard _

/-- The references that `dict_sorted` holds, in the order in which it gives them back. -/
def entryRefs (entries : List (Entry Obj)) : List (Ref Obj) :=
  entries.flatMap fun kv => [.obj kv.2, .obj kv.1]

omit hself hnone in
lemma minds_holdEntries {obj : Obj} (hobj : N (.obj obj)) (entries : List (Entry Obj)) :
    (e.book e.guard).Minds False N V R (holdEntries obj entries)
      (fun _ => ↑(entryRefs entries) + R) X s := by
  induction entries generalizing V R s with
  | nil => exact .pure (zero_add R)
  | cons kv entries ih =>
      obtain ⟨key, value⟩ := kv
      refine minds_borrow e.toHost e.guard (Or.inr (Or.inl hobj)) ?_
      refine minds_borrow e.toHost e.guard (Or.inr (Or.inl hobj)) ?_
      refine (minds_incref e.toHost e.guard (Or.inl (Or.inr (Or.inl rfl)))).quiet_bind fun _ _ => ?_
      refine (minds_incref e.toHost e.guard (Or.inl (Or.inl rfl))).quiet_bind fun _ _ => ?_
      have hrefs : (↑(entryRefs ((key, value) :: entries)) + R : Multiset (Ref Obj)) =
          ↑(entryRefs entries) + .obj value ::ₘ .obj key ::ₘ R := by
        simp [entryRefs, ← Multiset.cons_coe]
      rw [hrefs]
      exact ih

omit hself hnone in
lemma trace_release (s : St Obj H a) (entries : List (Entry Obj)) :
    (release s entries).log.map Event.use =
      s.log.map Event.use ++ (entryRefs entries).map .drop := by
  induction entries generalizing s with
  | nil => exact (List.append_nil _).symm
  | cons kv entries ih =>
      rw [release, ih]
      simp [entryRefs, St.dropped, Event.use]

/-- The entries are held. -/
def Held (R : Multiset (Ref Obj)) (entries : List (Entry Obj)) : Prop :=
  ∀ kv ∈ entries, .obj kv.1 ∈ R ∧ .obj kv.2 ∈ R

omit hself hnone in
lemma minds_keyedEntries (entries : List (Entry Obj)) (hheld : Held R entries) :
    (e.book e.guard).Minds False N V R (e.keyedEntries entries) (fun _ => R) R s := by
  induction entries generalizing s with
  | nil => exact .pure rfl
  | cons kv entries ih =>
      obtain ⟨hfirst, hrest⟩ := List.forall_mem_cons.mp hheld
      refine (e.minds_keyText (Or.inr (Or.inr hfirst.1))).quiet_bind fun key _ => ?_
      exact (ih hrest).quiet_bind fun keyed _ => .pure rfl

lemma minds_sortedLoop (first : Bool) (entries : List (Entry Obj)) (hheld : Held R entries) :
    (e.book e.guard).Minds (e.guard = true) N V R (e.sortedLoop self first entries) (fun _ => R) R
      s := by
  induction entries generalizing first V s with
  | nil => exact .pure rfl
  | cons kv entries ih =>
      obtain ⟨⟨hkey, hvalue⟩, hrest⟩ := List.forall_mem_cons.mp hheld
      refine (e.minds_writeKey (Or.inr (Or.inr hkey)) first).quiet_bind fun _ s1 => ?_
      have hwrite : (e.book e.guard).Minds (e.guard = true) N V R (self kv.2) (fun _ => R) R s1 :=
        e.minds_self hself hnone (Or.inr (Or.inr hvalue)) fun _ _ => .owned (Or.inr hvalue)
      exact hwrite.bind fun _ _ => ih false hrest

lemma minds_writeSorted (entries : List (Entry Obj)) (hheld : Held R entries) :
    (e.book e.guard).Minds (e.guard = true) N V R (e.writeSorted self entries) (fun _ => R) R
      s := by
  refine (e.minds_keyedEntries entries hheld).bind_of (e.keyedEntries_snd entries s) False.elim
    (fun _ h => ⟨h, id⟩) fun keyed _ hkeyed => ?_
  refine e.minds_sortedLoop hself hnone true _ fun kv hkv => hheld kv ?_
  have hperm := (List.mergeSort_perm keyed keyLe).map Prod.snd
  rw [hkeyed] at hperm
  exact hperm.mem_iff.mp hkv

lemma minds_dictSorted {obj : Obj} (hobj : N (.obj obj)) :
    (e.book e.guard).Minds (e.guard = true) N V R (e.dictSorted self obj) (fun _ => R) R s := by
  refine (e.minds_dictSlots hobj).quiet_bind fun slots _ => ?_
  refine (e.minds_holdEntries hobj slots.reduceOption).quiet_bind fun _ _ => ?_
  refine .onExit (entryRefs slots.reduceOption) (fun s => trace_release s _) ?_ ?_
  · intro s1 hs1
    obtain ⟨log, hlog⟩ := release_eq slots.reduceOption s1
    rw [hlog]
    exact hs1
  · refine e.minds_writeSorted hself hnone _ fun kv hkv => ?_
    simp only [entryRefs, Multiset.mem_add, Multiset.mem_coe, List.mem_flatMap]
    exact ⟨Or.inl ⟨kv, hkv, by simp⟩, Or.inl ⟨kv, hkv, by simp⟩⟩

lemma minds_dict {obj : Obj} (hobj : N (.obj obj)) (fuel : ℕ) :
    (e.book e.guard).Minds (e.guard = true) N V R (e.dict self fuel obj) (fun _ => R) R s := by
  refine (minds_read e.toHost e.guard (Or.inr (Or.inl hobj))).quiet_bind fun _ _ => ?_
  refine e.minds_enter.quiet_bind fun _ _ => (e.minds_dictSlots hobj).quiet_bind fun slots _ => ?_
  split
  · exact e.minds_empty _
  · refine (minds_emit e.toHost e.guard _).quiet_bind fun _ _ => ?_
    split
    · exact (e.minds_dictSorted hself hnone hobj).bind fun _ _ => e.minds_close _
    · exact (e.minds_dictLoop hself hnone hobj fuel 0 true).bind fun _ _ => e.minds_close _

/-! ### `default` -/

section Default

omit hself hnone

/-- The object passed to `default` stays alive meanwhile, and the result is owned. -/
lemma minds_invokeDefault (hg : e.guard = true) {obj : Obj} (hobj : N (.obj obj)) :
    (e.book e.guard).Minds (e.guard = true) N V R (e.invokeDefault obj)
      (fun r => owning .obj R r.toOption) X s := by
  refine .get_bind ?_
  split
  · exact (e.minds_raiseTypeError e.guard _).quiet_bind fun _ _ => .pure rfl
  · refine (minds_read e.toHost e.guard (Or.inr (Or.inl hobj))).quiet_bind fun _ _ => ?_
    have hpassed : ∀ r ∈ (Call.default obj).passed, Kept e.rt.Inside (fun x => N x ∨ x ∈ R) r := by
      intro r hr
      rw [List.mem_singleton.mp hr]
      exact .owned (Or.inl hobj)
    refine (e.minds_call e.guard hg hg hpassed).bind fun r _ => ?_
    cases r with
    | some r => exact .pure rfl
    | none =>
        refine minds_look e.toHost e.guard (Or.inr (Or.inl hobj)) ?_
        exact (e.minds_raiseTypeErrorFromCurrent e.guard _).quiet_bind fun _ _ => .pure rfl

end Default

/-- The result of `default` is owned until it is written. -/
lemma minds_serializeDefaultResult {r : Obj} :
    (e.book e.guard).Minds (e.guard = true) N V (.obj r ::ₘ R) (serializeDefaultResult self r)
      (fun _ => R) R s := by
  have hdeeper : (e.book e.guard).Minds False N V (.obj r ::ₘ R)
      (Run.modify fun s => { s with defaultDepth := s.defaultDepth + 1 } : Encode Obj H a Unit)
      (fun _ => .obj r ::ₘ R) R s := .modify rfl id
  refine hdeeper.quiet_bind fun _ s1 => ?_
  refine .onExit [.obj r] (fun _ => List.map_append ..) (fun _ => id) ?_
  have howned : .obj r ∈ .obj r ::ₘ R := Multiset.mem_cons_self ..
  simpa using e.minds_self hself hnone (Or.inr (Or.inr howned)) fun _ _ => .owned (Or.inr howned)

lemma minds_callDefault (hdefault : e.default.isSome → e.guard = true) {obj : Obj}
    (hobj : N (.obj obj)) :
    (e.book e.guard).Minds (e.guard = true) N V R (e.callDefault self obj) (fun _ => R) R s := by
  unfold callDefault
  cases hd : e.default with
  | none =>
      refine minds_look e.toHost e.guard (Or.inr (Or.inl hobj)) ?_
      exact e.minds_fail e.guard _
  | some f =>
      have hg : e.guard = true := hdefault (by rw [hd]; rfl)
      refine (e.minds_invokeDefault hg hobj).bind fun r _ => ?_
      cases r with
      | ok r => exact e.minds_serializeDefaultResult hself hnone
      | error _ => exact .throw

lemma minds_callDefaultDeclined (hg : e.guard = true) {obj : Obj} (hobj : N (.obj obj))
    (reason : Decline) :
    (e.book e.guard).Minds (e.guard = true) N V R (e.callDefaultDeclined self obj reason)
      (fun _ => R) R s := by
  unfold callDefaultDeclined
  cases e.default with
  | none =>
      refine (e.minds_raiseTypeError e.guard _).quiet_bind fun _ _ => ?_
      exact (e.minds_addNote e.guard hg hg _).bind fun _ _ => .throw
  | some f =>
      refine (e.minds_invokeDefault hg hobj).bind fun r _ => ?_
      cases r with
      | ok r => exact e.minds_serializeDefaultResult hself hnone
      | error cause =>
          cases cause with
          | raised => exact (e.minds_addNote e.guard hg hg _).bind fun _ _ => .throw
          | tooDeep => exact .throw

end Containers

/-! ## Dispatch -/

section Types

variable {G : Prop} {N V : Ref Obj → Prop} {R : Multiset (Ref Obj)} {s : St Obj H a}

section Cache

variable (h : Host Obj H) (g : Bool)

omit e

/-- Looking up types has nothing to do with the call's references. -/
lemma minds_cached {α : Type} (f : H → TypeCache Obj → Except Obj α × TypeCache Obj) :
    (h.book g).Minds G N V R (cached f : Encode Obj H a α) (fun _ => R) R s := by
  refine .get_bind ?_
  have hstore : (h.book g).Minds False N V R
      (Run.modify fun s' => { s' with world :=
        { s'.world with types := (f s.world.heap s.world.types).2 } } : Encode Obj H a Unit)
      (fun _ => R) R s := .modify rfl id
  refine hstore.quiet_bind fun _ _ => ?_
  split
  · exact .pure rfl
  · exact (minds_setExc h g _).quiet_bind fun _ _ => .throw

lemma minds_datetimeGroup [DecidableEq Obj] :
    (h.book g).Minds G N V R (datetimeGroup h.rt : Encode Obj H a _) (fun _ => R) R s := by
  refine .get_bind ?_
  split
  · exact (minds_setExc h g _).quiet_bind fun _ _ => (minds_setExc h g _).quiet_bind fun _ _ =>
      minds_cached h g _
  · exact minds_cached h g _

end Cache

lemma minds_recognizeNumpy [DecidableEq Obj] (ty : Option Obj) :
    (e.book e.guard).Minds G N V R (e.recognizeNumpy ty : Encode Obj H a _) (fun _ => R) R s := by
  refine .get_bind ?_
  split
  · exact .pure rfl
  · split
    · exact .pure rfl
    · have hrechecked : (e.book e.guard).Minds False N V R
          (Run.modify fun s => { s with npRechecked := true } : Encode Obj H a Unit)
          (fun _ => R) R s := .modify rfl id
      exact hrechecked.quiet_bind fun _ _ => minds_cached e.toHost e.guard _

end Types

section Dispatch

variable {self : Obj → Encode Obj H a Unit} (hself : e.Careful self) {N V : Ref Obj → Prop}
  (hnone : N (.obj e.rt.pyNone)) {obj : Obj} (hobj : N (.obj obj)) {R : Multiset (Ref Obj)}
  {s : St Obj H a}

/-- The guard is up if Python code can run during the call. -/
structure Guarded (e : Env Obj H) : Prop where
  default : e.default.isSome → e.guard = true
  numpy : hasOpt e.opts optSerializeNumpy = true → e.guard = true

include hobj

lemma minds_datetimeLike [DecidableEq Obj] (hnone : N (.obj e.rt.pyNone)) (hg : e.guard = true)
    {p : PyObj Obj} {dt : DtTypes Obj} {write : Encode Obj H a Unit}
    (hwrite : e.datetimeLike obj p dt = some write) :
    (e.book e.guard).Minds (e.guard = true) N V R write (fun _ => R) R s := by
  unfold datetimeLike at hwrite
  split_ifs at hwrite <;> cases hwrite
  · exact e.minds_datetime hg hg hobj
  · exact e.minds_date hobj
  · exact e.minds_time hg hg hobj hnone

lemma minds_numpyWriter [DecidableEq Obj] (hg : e.guard = true) {ty : Option Obj}
    {np : NumpyTypes Obj} {write : Encode Obj H a (Option Decline)}
    (hwrite : e.numpyWriter obj ty np = some write) :
    (e.book e.guard).Minds (e.guard = true) N V R write (fun _ => R) R s := by
  unfold numpyWriter at hwrite
  split_ifs at hwrite
  · cases hwrite
    exact e.minds_serializeArray hg hg hobj
  · obtain ⟨elem, -, rfl⟩ := Option.map_eq_some_iff.mp hwrite
    exact e.minds_serializeScalar hg hg hobj elem

include hself hnone

lemma minds_subclassLike (fuel : ℕ) {p : PyObj Obj} {write : Encode Obj H a Unit}
    (hwrite : e.subclassLike self fuel obj p = some write) :
    (e.book e.guard).Minds (e.guard = true) N V R write (fun _ => R) R s := by
  unfold subclassLike at hwrite
  split at hwrite
  · cases hwrite
  · split at hwrite <;> cases hwrite
    · exact e.minds_str (Or.inr (Or.inl hobj))
    · exact e.minds_int id (Or.inr (Or.inl hobj))
    · exact e.minds_dict hself hnone hobj fuel
    · exact e.minds_list hself hnone hobj fuel

variable [DecidableEq Obj] (hguarded : e.Guarded)

include hguarded

lemma minds_numpyOrDefault (p : PyObj Obj) :
    (e.book e.guard).Minds (e.guard = true) N V R (e.numpyOrDefault self obj p) (fun _ => R) R
      s := by
  have hdefault : ∀ s1, (e.book e.guard).Minds (e.guard = true) N V R (e.callDefault self obj)
      (fun _ => R) R s1 := fun s1 => e.minds_callDefault hself hnone hguarded.default hobj
  unfold numpyOrDefault
  split
  · next hnumpy =>
    have hg : e.guard = true := hguarded.numpy hnumpy
    refine (e.minds_recognizeNumpy p.cls).quiet_bind fun np _ => ?_
    cases hwriter : np.bind (e.numpyWriter obj p.cls) with
    | none => exact hdefault _
    | some write =>
        obtain ⟨np, -, hwrite⟩ := Option.bind_eq_some_iff.mp hwriter
        refine (e.minds_numpyWriter hobj hg hwrite).bind fun reason _ => ?_
        cases reason with
        | none => exact .pure rfl
        | some reason => exact e.minds_callDefaultDeclined hself hnone hg hobj reason
  · exact hdefault s

lemma minds_lateDatetime (p : PyObj Obj) :
    (e.book e.guard).Minds (e.guard = true) N V R (e.lateDatetime self obj p) (fun _ => R) R s := by
  refine .get_bind ?_
  split
  · next hlate =>
    have hg : e.guard = true := by
      simp only [Bool.and_eq_true] at hlate
      exact hlate.1.2
    refine (minds_datetimeGroup e.toHost e.guard).quiet_bind fun dt s1 => ?_
    have hloaded : (e.book e.guard).Minds False N V R
        (Run.modify fun s => { s with dt := dt } : Encode Obj H a Unit) (fun _ => R) R s1 :=
      .modify rfl fun _ _ => hg
    refine hloaded.quiet_bind fun _ _ => ?_
    cases hwriter : dt.bind (e.datetimeLike obj p) with
    | none => exact e.minds_numpyOrDefault hself hnone hobj hguarded p
    | some write =>
        obtain ⟨dt, -, hwrite⟩ := Option.bind_eq_some_iff.mp hwriter
        exact e.minds_datetimeLike hobj hnone hg hwrite
  · exact e.minds_numpyOrDefault hself hnone hobj hguarded p

lemma minds_serializeOther (fuel : ℕ) (p : PyObj Obj) :
    (e.book e.guard).Minds (e.guard = true) N V R (e.serializeOther self fuel obj p) (fun _ => R) R
      s := by
  refine .get_bind (.given fun hinv => ?_)
  cases hwriter : s.dt.bind (e.datetimeLike obj p) with
  | some write =>
      obtain ⟨dt, hdt, hwrite⟩ := Option.bind_eq_some_iff.mp hwriter
      have hg : e.guard = true := hinv (by rw [hdt]; rfl)
      exact e.minds_datetimeLike hobj hnone hg hwrite
  | none =>
      dsimp only
      cases hsub : e.subclassLike self fuel obj p with
      | some write => exact e.minds_subclassLike hself hnone hobj fuel hsub
      | none => exact e.minds_lateDatetime hself hnone hobj hguarded p

end Dispatch

/-! ## The whole walk -/

section Walk

variable [DecidableEq Obj]

lemma careful_serializeBody {self : Obj → Encode Obj H a Unit} (hself : e.Careful self)
    (hguarded : e.Guarded) (fuel : ℕ) : e.Careful (e.serializeBody self fuel) := by
  intro o s
  refine minds_look e.toHost e.guard (Or.inl rfl) ?_
  generalize hp : e.rt.view s.world.heap o = p
  have hnone : e.lent p o (.obj e.rt.pyNone) := Or.inr rfl
  have hlent : p.runsNoPython = false → e.lent p o (.obj o) := fun hruns => Or.inl ⟨rfl, hruns⟩
  have hother : ∀ s1, p.runsNoPython = false → (e.book e.guard).Minds (e.guard = true) (e.lent p o)
      (· = .obj o) 0 (e.serializeOther self fuel o p) (fun _ => 0) 0 s1 :=
    fun s1 hruns => e.minds_serializeOther hself hnone (hlent hruns) hguarded fuel p
  obtain ⟨cls, name, body⟩ := p
  cases cls with
  | some ty => exact hother _ rfl
  | none =>
      cases body with
      | none => exact minds_emit e.toHost e.guard _
      | bool b => cases b <;> exact minds_emit e.toHost e.guard _
      | int z => exact e.minds_int id (Or.inl rfl)
      | float bits => exact minds_emit e.toHost e.guard _
      | str t => exact e.minds_str (Or.inl rfl)
      | list items => exact e.minds_list hself hnone (hlent rfl) fuel
      | dict slots => exact e.minds_dict hself hnone (hlent rfl) fuel
      | tuple =>
          have htuple : (e.rt.view s.world.heap o).body = .tuple := by rw [hp]
          exact e.minds_tuple hself hnone (hlent rfl) htuple
      | datetime _ _ _ => exact hother _ rfl
      | date _ => exact hother _ rfl
      | time _ _ => exact hother _ rfl
      | delta _ => exact hother _ rfl
      | capsule _ => exact hother _ rfl
      | scalar _ => exact hother _ rfl
      | other => exact hother _ rfl

lemma careful_serialize (hguarded : e.Guarded) (fuel : ℕ) :
    e.Careful (e.serialize fuel : Obj → Encode Obj H a Unit) := by
  induction fuel with
  | zero => exact fun _ _ => .starve
  | succ fuel ih => exact e.careful_serializeBody ih hguarded fuel

end Walk

end Env

/-! ## `dumps` -/

namespace Host

variable (h : Host Obj H)

/-- What the caller of `dumps` keeps alive: the arguments, and `None`, which is immortal. -/
def Lent (args : List Obj) (kw : List (String × Obj)) (r : Ref Obj) : Prop :=
  r = .obj h.rt.pyNone ∨ ∃ o ∈ args ++ kw.map Prod.snd, r = .obj o

section Arguments

variable {α : Type} {G : Prop} {N V : Ref Obj → Prop} {R X : Multiset (Ref Obj)} {s : St Obj H a}

lemma minds_keywordArgs (nargs : ℕ) (kw : List (String × Obj)) (found : Option Obj × Option Obj) :
    (h.book true).Minds G N V R (h.keywordArgs nargs kw found) (fun _ => R) R s := by
  induction kw generalizing found with
  | nil => exact .pure rfl
  | cons nv kw ih =>
      unfold keywordArgs
      split_ifs
      · exact ih _
      · exact ih _
      · exact h.minds_fail true _

lemma keywordArgs_mem (nargs : ℕ) (kw : List (String × Obj)) {found : Option Obj × Option Obj}
    {os : List Obj} (hkw : ∀ nv ∈ kw, nv.2 ∈ os)
    (hfound : ∀ o, found.1 = some o ∨ found.2 = some o → o ∈ os) (s : St Obj H a) :
    wp (fun _ => True) (h.keywordArgs nargs kw found)
      (fun r _ => ∀ o, r.1 = some o ∨ r.2 = some o → o ∈ os) (fun _ _ => True) s := by
  induction kw generalizing found with
  | nil => exact hfound
  | cons nv kw ih =>
      obtain ⟨hval, hkw⟩ := List.forall_mem_cons.mp hkw
      unfold keywordArgs
      split_ifs
      · apply ih hkw
        rintro o (ho | ho)
        · exact Option.some.inj ho ▸ hval
        · exact hfound o (Or.inr ho)
      · apply ih hkw
        rintro o (ho | ho)
        · exact hfound o (Or.inl ho)
        · exact Option.some.inj ho ▸ hval
      · exact (h.fail_spec _ s).mono (fun _ _ h => h) (fun _ _ _ => trivial) fun _ h => h

lemma minds_dropNone {o : Option Obj} (ho : ∀ x, o = some x → N (.obj x)) :
    (h.book true).Minds G N V R (h.dropNone o) (fun _ => R) R s := by
  cases o with
  | none => exact .pure rfl
  | some x =>
      refine minds_look h true (Or.inr (Or.inl (ho x rfl))) ?_
      split
      · exact .pure rfl
      · exact .pure rfl

lemma dropNone_eq (o : Option Obj) (s : St Obj H a) :
    wp (fun _ => True) (h.dropNone o) (fun r _ => ∀ x, r = some x → o = some x) (fun _ _ => True)
      s := by
  cases o with
  | none => exact fun _ hx => hx
  | some x =>
      refine wp_bind_any (fun p s1 => ?_) s
      split
      · exact fun _ hx => absurd hx (by simp)
      · exact fun _ hx => hx

lemma minds_checkDefault (default : Option Obj) :
    (h.book true).Minds G N V R (h.checkDefault default) (fun _ => R) R s := by
  unfold checkDefault
  split
  · exact .pure rfl
  · refine .get_bind ?_
    split
    · exact .pure rfl
    · exact h.minds_fail true _

lemma minds_rejectUnsupported (opts : UInt32) (bits : List (UInt32 × String)) :
    (h.book true).Minds G N V R (h.rejectUnsupported opts bits) (fun _ => R) R s := by
  induction bits with
  | nil => exact .pure rfl
  | cons bn bits ih =>
      unfold rejectUnsupported
      split
      · exact h.minds_fail true _
      · exact ih

lemma minds_parseOpts {o : Option Obj} (ho : ∀ x, o = some x → N (.obj x)) :
    (h.book true).Minds G N V R (h.parseOpts o) (fun _ => R) R s := by
  cases o with
  | none => exact .pure rfl
  | some x =>
      refine minds_look h true (Or.inr (Or.inl (ho x rfl))) ?_
      split
      · exact h.minds_fail true _
      · next z _ =>
        have hread : ∀ s1 : St Obj H a, (h.book true).Minds False N V R
            (asLongLong z : Encode Obj H a ℤ) (fun _ => R) R s1 := by
          intro s1
          unfold asLongLong
          split
          · exact .pure rfl
          · exact (minds_setExc h true _).quiet_bind fun _ _ => .pure rfl
        refine (hread _).quiet_bind fun v _ => ?_
        split
        · exact (h.minds_rejectUnsupported _ _).quiet_bind fun _ _ => .pure rfl
        · exact (minds_setExc h true _).quiet_bind fun _ _ => h.minds_fail true _

lemma minds_finish :
    (h.book true).Minds G N V R (finish : Encode Obj H a Bytes) (fun _ => R) R s := by
  refine .get_bind ?_
  refine (minds_unchecked h true _).quiet_bind fun f _ => ?_
  split
  · exact .pure rfl
  · exact (minds_setExc h true _).quiet_bind fun _ _ => .throw

end Arguments

/-- The guard that the encoder starts with is up if Python code can run during the call. -/
lemma start_guarded [DecidableEq Obj] (hint : ℕ) (default : Option Obj) (opts : UInt32)
    (s : St Obj H a) :
    wp (fun _ => True) (h.start hint default opts)
      (fun e s1 => e.toHost = h ∧ e.Guarded ∧ (s1.dt.isSome → e.guard = true)) (fun _ _ => True)
      s := by
  refine wp_bind_any (fun dt s1 => ?_) s
  split
  · trivial
  · refine ⟨rfl, ⟨fun hdefault => ?_, fun hnumpy => ?_⟩, fun hdt => ?_⟩
    · simp [hdefault]
    · simp [hnumpy]
    · simp [show dt.isSome = true from hdt]

section Call

variable [DecidableEq Obj] {N : Ref Obj → Prop} {s : St Obj H a}

lemma minds_start (hint : ℕ) (default : Option Obj) (opts : UInt32) :
    (h.book true).Minds True N ⊥ 0 (h.start hint default opts) (fun _ => 0) 0 s := by
  refine (Env.minds_datetimeGroup h true).quiet_bind fun dt _ => ?_
  split
  · exact (minds_setExc h true _).quiet_bind fun _ _ => .throw
  · next out _ =>
    have hstart : ∀ s1, (h.book true).Minds False N ⊥ 0
        (Run.modify fun s => { s with
          out := out, depth := 0, defaultDepth := 0, dt := dt, npRechecked := false } :
            Encode Obj H a Unit) (fun _ => 0) 0 s1 := fun _ => .modify rfl fun _ _ => rfl
    exact (hstart _).quiet_bind fun _ _ => .pure rfl

/-- The walk, as part of a call. -/
lemma minds_walk {e : Env Obj H} (he : e.toHost = h) (hguarded : e.Guarded)
    (hs : s.dt.isSome → e.guard = true) {obj : Obj} (hobj : N (.obj obj))
    (hnone : N (.obj h.rt.pyNone)) (fuel : ℕ) :
    (h.book true).Minds True N ⊥ 0 (e.serialize fuel obj) (fun _ => 0) 0 s := by
  subst he
  intro _
  have hwalk := (e.careful_serialize hguarded fuel obj s).call (N := N) (V := ⊥) (R := 0)
    (fun _ => trivial) ?_ ?_ hs
  · exact hwalk.mono (fun _ _ h1 => ⟨fun _ => rfl, h1.2⟩) (fun _ _ h1 => ⟨fun _ => rfl, h1.2⟩)
      fun _ h1 => h1
  · rintro r (rfl | ⟨rfl, -⟩ | rfl)
    · exact Or.inr (Or.inl hobj)
    · exact Or.inr (Or.inl hobj)
    · exact Or.inr (Or.inl hnone)
  · rintro - r (⟨rfl, -⟩ | rfl)
    · exact .owned (Or.inl hobj)
    · exact .owned (Or.inl hnone)

lemma minds_dumpsObject {obj : Obj} (hobj : N (.obj obj)) (hnone : N (.obj h.rt.pyNone))
    (hint fuel : ℕ) (default : Option Obj) (opts : UInt32) :
    (h.book true).Minds True N ⊥ 0 (h.dumpsObject hint fuel obj default opts) (fun _ => 0) 0 s := by
  refine (h.minds_start hint default opts).bind_of (h.start_guarded hint default opts s) id
    (fun _ hr => False.elim hr) fun e s1 he => ?_
  refine (h.minds_walk he.1 he.2.1 he.2.2 hobj hnone fuel).bind fun _ _ => ?_
  split
  · exact (minds_emit h true _).quiet_bind fun _ _ => h.minds_finish
  · exact h.minds_finish

lemma minds_dumps (hint fuel : ℕ) (args : List Obj) (kw : List (String × Obj)) :
    (h.book true).Minds True (h.Lent args kw) ⊥ 0 (h.dumps hint fuel args kw) (fun _ => 0) 0 s := by
  unfold dumps
  split
  · exact h.minds_fail true _
  · next obj rest =>
    split
    · exact h.minds_fail true _
    · have hlent : ∀ o ∈ (obj :: rest) ++ kw.map Prod.snd, h.Lent (obj :: rest) kw (.obj o) :=
        fun o ho => Or.inr ⟨o, ho, rfl⟩
      have hrest : ∀ o, rest[0]? = some o ∨ rest[1]? = some o →
          o ∈ (obj :: rest) ++ kw.map Prod.snd :=
        fun o ho => List.mem_append_left _ (List.mem_cons_of_mem _
          (ho.elim List.mem_of_getElem? List.mem_of_getElem?))
      have hkw : ∀ nv ∈ kw, nv.2 ∈ (obj :: rest) ++ kw.map Prod.snd :=
        fun nv hnv => List.mem_append_right _ (List.mem_map_of_mem hnv)
      refine (h.minds_keywordArgs _ kw _).bind_of (h.keywordArgs_mem _ kw hkw hrest s) id
        (fun _ hr => False.elim hr) fun found s1 hfound => ?_
      refine (h.minds_dropNone fun o ho => hlent o (hfound o (Or.inl ho))).bind fun default _ => ?_
      refine (h.minds_checkDefault default).bind fun _ s2 => ?_
      refine (h.minds_dropNone fun o ho => hlent o (hfound o (Or.inr ho))).bind_of
        (h.dropNone_eq found.2 s2) id (fun _ hr => False.elim hr) fun option _ hoption => ?_
      refine (h.minds_parseOpts fun o ho => hlent o (hfound o (Or.inr (hoption o ho)))).bind
        fun opts _ => ?_
      exact h.minds_dumpsObject (hlent obj (List.mem_append_left _ (List.mem_cons_self ..)))
        (Or.inl rfl) hint fuel default opts

end Call

end Host

/-- No step of the call is a conversion, without the guard, of an `int` whose digits CPython makes with
Python code. -/
def DigitsGuarded (log : List (Event Obj)) : Prop :=
  ∀ obj base, .python false (.toBase obj base) ∉ log

lemma digitsGuarded_iff {log : List (Event Obj)} :
    DigitsGuarded log ↔ ∀ args, .run .overlooked args ∉ log.map Event.use := by
  constructor
  · intro h args hmem
    obtain ⟨ev, hev, huse⟩ := List.mem_map.mp hmem
    cases ev with
    | python guard c =>
        obtain ⟨rfl, obj, base, rfl⟩ := Call.care_eq_overlooked.mp (Use.run.inj huse).1
        exact h obj base hev
    | _ => cases huse
  · intro h obj base hmem
    exact h [] (List.mem_map.mpr ⟨_, hmem, rfl⟩)

/-- The record of a call is safe exactly if `DigitsGuarded`, and so in every interpreter in which no Python
code makes digits. -/
structure Host.Reentrant [DecidableEq Obj] (h : Host Obj H) (lent : Ref Obj → Prop)
    (log : List (Event Obj)) : Prop where
  safe_iff : Safe h.rt.Inside lent (log.map Event.use) ↔ DigitsGuarded log
  guarded : ¬ h.rt.MakesDigits → DigitsGuarded log

/-- **Python code that runs in the middle of a call takes away what the encoder still reads only in a
conversion without the guard.**  The interpreter's replies are arbitrary, so at every one of them all
lists and dicts may change and drop what they held.  However the call ends, its record is safe exactly
if the guard was up in every conversion of an `int` whose digits CPython makes with Python code: all
Python code ran under the guard, and at every such moment whatever is passed to it, and whatever the
encoder reads later on without taking or borrowing it anew, is kept alive by a reference of the caller
or of the encoder, or by a tuple that is.  A call that returns or raises has always given back exactly
the references that it took. -/
theorem reentrancy [DecidableEq Obj] (h : Host Obj H) (hint fuel : ℕ) (args : List Obj)
    (kw : List (String × Obj)) (s : St Obj H a) :
    wp (fun s' => h.Reentrant (h.Lent args kw) s'.log) (h.dumps hint fuel args kw)
      (fun _ s' => h.Reentrant (h.Lent args kw) s'.log ∧ Settled (s'.log.map Event.use))
      (fun _ s' => h.Reentrant (h.Lent args kw) s'.log ∧ Settled (s'.log.map Event.use))
      { s with log := [] } := by
  have hrecord : ∀ {R s'}, (h.book true).Went True (h.Lent args kw) ⊥ 0 R { s with log := [] } s' →
      h.Reentrant (h.Lent args kw) s'.log ∧ Balanced (s'.log.map Event.use) R := by
    rintro R s' ⟨l, V, htrace, hsteps⟩
    have hlog : s'.log.map Event.use = l := htrace
    refine ⟨⟨?_, fun hdigits => ?_⟩, ?_⟩
    · rw [digitsGuarded_iff, hlog]
      exact hsteps.safe_iff
    · rw [digitsGuarded_iff, hlog]
      exact fun args hmem => hdigits (hsteps.overlooks hmem)
    · rw [hlog]
      exact hsteps.balanced
  have hstart : (h.book true).inv { s with log := [] } := fun _ => rfl
  refine (h.minds_dumps hint fuel args kw hstart).mono ?_ ?_ ?_
  · rintro _ s' ⟨-, hwent⟩
    exact ⟨(hrecord hwent).1, (hrecord hwent).2.settled⟩
  · rintro _ s' ⟨-, hwent⟩
    exact ⟨(hrecord hwent).1, (hrecord hwent).2.settled⟩
  · rintro s' ⟨R, hwent⟩
    exact (hrecord hwent).1

/-! ## A conversion without the guard -/

/-- The least `int` of more than 1000 digits of 30 bits. -/
@[irreducible] def pylongLimit : ℤ := 2 ^ 30000

lemma u64Max_lt_pylongLimit : Env.u64Max < pylongLimit := by
  have hpow : (2 : ℤ) ^ 64 ≤ 2 ^ 30000 := pow_le_pow_right₀ (by decide) (by decide)
  unfold pylongLimit
  exact lt_of_lt_of_le (by decide) hpow

/-- The list 0 holds the list 1, which holds an object of a subclass of `int` with the value `z`, until
its `bit_length` clears the list 0. -/
def clearingView (z : ℤ) (cleared : Bool) : ℕ → PyObj ℕ
  | 0 => ⟨none, "list", .list (if cleared then [] else [1])⟩
  | 1 => ⟨none, "list", .list [2]⟩
  | 2 => ⟨some 5, "Clearing", .int z⟩
  | 3 => ⟨none, "str", .str (digitsStr z)⟩
  | _ => ⟨none, "NoneType", .none⟩

def clearingReply (c : Call ℕ) (w : World ℕ Bool) : Reply ℕ × World ℕ Bool :=
  match c with
  | .toBase obj _ => if obj = 2 then (.ok 3, { w with heap := true }) else (.raised 4, w)
  | .utf8 o => (.ok o, w)
  | _ => (.raised 4, w)

lemma clearingReply_decimal {z0 z : ℤ} {obj r : ℕ} {w w' : World ℕ Bool}
    (hobj : (clearingView z0 w.heap obj).body = .int z)
    (hreply : clearingReply (.toBase obj 10) w = (.ok r, w')) :
    ∃ t, (clearingView z0 w'.heap r).body = .str t ∧
      t.chars = (Decimal.intText z).map UInt8.toNat := by
  have hr : (if obj = 2 then (Reply.ok 3, { w with heap := true }) else (.raised 4, w)) =
      (.ok r, w') := hreply
  split at hr
  · next h =>
    subst h
    cases hr
    cases hobj
    exact ⟨digitsStr z0, rfl, rfl⟩
  · exact absurd (congrArg Prod.fst hr) (by simp)

/-- CPython without a limit on the digits. -/
def clearing (z : ℤ) : Runtime ℕ Bool where
  view := clearingView z
  tupleItems _ := []
  pyNone := 4
  memory _ _ := 0
  callable _ _ := true
  reply := clearingReply
  pylong _ z := decide (pylongLimit ≤ |z|)
  modules := 4
  getItem _ _ _ := .missing
  moduleDict _ _ := none
  datetimeApi _ _ := none
  ownUtcoffset_valid _ _ _ _ h := absurd (congrArg Prod.fst h) (by simp [clearingReply])
  str_valid _ _ _ _ h := absurd (congrArg Prod.fst h) (by simp [clearingReply])
  toBase_decimal _ _ _ _ _ hobj h := clearingReply_decimal hobj h

def clearingHost (z : ℤ) : Host ℕ Bool := ⟨clearing z, .portable, true, Formats.plain⟩

def clearingState : St ℕ Bool Allocator.plain where
  out := Buffer.plain
  depth := 0
  defaultDepth := 0
  dt := none
  npRechecked := false
  world := ⟨false, none, none⟩
  exc := none
  log := []

/-- `dumps` without options and without loaded datetime types. -/
def clearingEnv (z : ℤ) : Env ℕ Bool := ⟨clearingHost z, none, 0, false, MAX_DEPTH⟩

/-- Where the walk is. -/
structure ClearingAt (log : List (Event ℕ)) (cleared : Bool) (d : ℕ) (s : St ℕ Bool Allocator.plain) :
    Prop where
  log : s.log = log
  heap : s.world.heap = cleared
  depth : s.depth = d
  dt : s.dt = none

section Clearing

variable {z : ℤ} {s : St ℕ Bool Allocator.plain} {log : List (Event ℕ)} {d : ℕ} {cleared : Bool}

lemma ClearingAt.logged (hs : ClearingAt log cleared d s) (ev : Event ℕ) :
    ClearingAt (log ++ [ev]) cleared d { s with log := s.log ++ [ev] } :=
  ⟨by rw [hs.log], hs.heap, hs.depth, hs.dt⟩

lemma clearing_int (hz : pylongLimit ≤ z) (hs : ClearingAt log false d s) :
    wp (fun _ => False) ((clearingEnv z).int 2)
      (fun _ => ClearingAt (log ++ [.read (.obj 2), .python false (.toBase 2 10), .take (.obj 3),
        .read (.obj 3), .drop (.obj 3)]) true d)
      (fun _ _ => False) s := by
  have hwide : Env.u64Max < z := lt_of_lt_of_le u64Max_lt_pylongLimit hz
  have hpylong : (clearingEnv z).rt.pylong false z = true :=
    decide_eq_true (hz.trans (le_abs_self z))
  have hstrict : ¬ hasOpt (clearingEnv z).opts optStrictInteger = true :=
    show ¬ hasOpt 0 optStrictInteger = true by decide
  have hview : ((clearingEnv z).rt.view s.world.heap 2).body = .int z := rfl
  have hi64 : i64Max < z := lt_trans (by decide) hwide
  unfold Env.int
  rw [wp_bind, Host.wp_look, hview]
  dsimp only
  rw [if_neg fun h => absurd h.2 (not_le.mpr hi64), if_pos ⟨hi64, hstrict⟩]
  unfold Env.asUnsignedLongLong
  rw [if_neg (not_le.mpr hwide)]
  simp only [wp_bind, wp_setExc, wp_pure, wp_get]
  rw [if_neg (by simp), wp_bind, wp_clearExc]
  unfold Env.intOutside64Bits Host.toBase Host.recordPylong
  rw [if_neg hstrict]
  simp only [wp_bind, wp_get]
  rw [hs.heap, if_pos hpylong, wp_event]
  refine Host.wp_request _ (fun text w hreply => ?_) fun exc w hreply => ?_
  · obtain ⟨⟨⟩, rfl⟩ := Prod.mk.inj hreply
    dsimp only
    rw [wp_onExit]
    unfold wp
    rw [Env.utf8Text_eq (t := digitsStr z) (z := z) rfl rfl]
    exact ⟨by simp [St.written, St.dropped, hs.log, clearingEnv], rfl, hs.depth, hs.dt⟩
  · exact absurd (congrArg Prod.fst hreply) (by simp [clearingEnv, clearingHost, clearing, clearingReply])

/-- The item of the inner list. -/
lemma clearing_item (hz : pylongLimit ≤ z) (hs : ClearingAt log false d s) (n : ℕ) :
    wp (fun _ => False) ((clearingEnv z).serialize (n + 1) 2)
      (fun _ => ClearingAt (log ++ [.read (.obj 2), .read (.obj 2), .python false (.toBase 2 10),
        .take (.obj 3), .read (.obj 3), .drop (.obj 3)]) true d)
      (fun _ _ => False) s := by
  have hview : (clearingEnv z).rt.view s.world.heap 2 = ⟨some 5, "Clearing", .int z⟩ := rfl
  have hsubclass : (clearingEnv z).subclassLike ((clearingEnv z).serialize n) n 2
      ⟨some 5, "Clearing", .int z⟩ = some ((clearingEnv z).int 2 : Encode ℕ Bool Allocator.plain Unit) :=
    if_neg (show ¬ hasOpt 0 optPassthroughSubclass = true by decide)
  unfold Env.serialize Env.serializeBody
  rw [wp_bind, Host.wp_look, hview]
  dsimp only
  unfold Env.serializeOther
  rw [wp_bind, wp_get]
  dsimp only
  rw [show s.dt.bind ((clearingEnv z).datetimeLike 2 _) = none by rw [hs.dt]; rfl, hsubclass]
  simpa using clearing_int hz (hs.logged (.read (.obj 2)))

lemma ClearingAt.written (hs : ClearingAt log cleared d s) (out : Buffer Allocator.plain) :
    ClearingAt log cleared d (s.written out) :=
  ⟨hs.log, hs.heap, hs.depth, hs.dt⟩

section List

variable {obj item : ℕ} {items : List ℕ} {C : St ℕ Bool Allocator.plain → Prop}
  {E : PendingPyErr → St ℕ Bool Allocator.plain → Prop}

lemma clearing_listItems (hs : ClearingAt log cleared d s)
    (hview : clearingView z cleared obj = ⟨none, "list", .list items⟩) :
    wp C ((clearingEnv z).listItems obj)
      (fun is s' => is = items ∧ ClearingAt (log ++ [.read (.obj obj)]) cleared d s') E s := by
  have hlook : (clearingEnv z).rt.view s.world.heap obj = ⟨none, "list", .list items⟩ := by
    rw [hs.heap]
    exact hview
  unfold Env.listItems
  rw [wp_bind, Host.wp_look, hlook]
  exact ⟨rfl, hs.logged _⟩

/-- A list of one item, which is not more once that is written. -/
lemma clearing_list {log' : List (Event ℕ)} {cleared' : Bool}
    {self : ℕ → Encode ℕ Bool Allocator.plain Unit} (hd : d < MAX_DEPTH)
    (hs : ClearingAt log cleared d s)
    (hview : clearingView z cleared obj = ⟨none, "list", .list [item]⟩)
    (hview' : clearingView z cleared' obj = ⟨none, "list", .list items⟩) (hitems : items.length ≤ 1)
    (hitem : ∀ s, ClearingAt (log ++ [.read (.obj obj)] ++ [.read (.obj obj)] ++ [.borrow obj item])
        cleared (d + 1) s →
      wp (fun _ => False) (self item) (fun _ => ClearingAt log' cleared' (d + 1)) (fun _ _ => False) s)
    (n : ℕ) :
    wp (fun _ => False) ((clearingEnv z).list self (n + 2) obj)
      (fun _ => ClearingAt (log' ++ [.read (.obj obj)]) cleared' d) (fun _ _ => False) s := by
  have hindent : ¬ (clearingEnv z).indent = true := show ¬ hasOpt 0 optIndent2 = true by decide
  have hguard : ¬ (clearingEnv z).guard = true := Bool.false_ne_true
  unfold Env.list
  rw [wp_bind]
  refine (clearing_listItems hs hview).mono ?_ (fun _ _ h => h) fun _ h => h
  rintro _ s1 ⟨rfl, h1⟩
  have hroom : ¬ (clearingEnv z).maxDepth ≤ s1.depth := by
    rw [h1.depth]
    exact not_le.mpr hd
  have hentered : ClearingAt (log ++ [.read (.obj obj)]) cleared (d + 1)
      { s1 with depth := s1.depth + 1 } := ⟨h1.log, h1.heap, congrArg (· + 1) h1.depth, h1.dt⟩
  rw [if_neg (by simp), wp_bind]
  unfold Env.enter
  rw [wp_bind, wp_get, if_neg hroom, wp_modify, wp_bind, wp_emit, wp_bind]
  unfold Env.listLoop
  rw [wp_bind]
  refine (clearing_listItems (hentered.written _) hview).mono ?_ (fun _ _ h => h) fun _ h => h
  rintro _ s2 ⟨rfl, h2⟩
  unfold Env.breakLine Env.guarded
  dsimp only [List.getElem?_cons_zero]
  simp only [wp_pure, wp_bind, wp_get, wp_event, if_neg hindent, if_neg hguard, lt_irrefl, if_false]
  refine (hitem _ (h2.logged _)).mono ?_ (fun _ _ h => h) fun _ h => h
  intro _ s3 h3
  unfold Env.listLoop
  rw [wp_bind]
  refine (clearing_listItems h3 hview').mono ?_ (fun _ _ h => h) fun _ h => h
  rintro _ s4 ⟨rfl, h4⟩
  rw [List.getElem?_eq_none hitems]
  simp only [wp_pure, wp_leave, wp_emit]
  have hleft : ClearingAt (log' ++ [.read (.obj obj)]) cleared' d { s4 with depth := s4.depth - 1 } :=
    ⟨h4.log, h4.heap, by simp [h4.depth], h4.dt⟩
  exact hleft.written _

lemma clearing_serialize {log' : List (Event ℕ)} {cleared' : Bool} {n : ℕ} (hd : d < MAX_DEPTH)
    (hs : ClearingAt log cleared d s)
    (hview : clearingView z cleared obj = ⟨none, "list", .list [item]⟩)
    (hview' : clearingView z cleared' obj = ⟨none, "list", .list items⟩) (hitems : items.length ≤ 1)
    (hitem : ∀ s, ClearingAt (log ++ [.read (.obj obj)] ++ [.read (.obj obj)] ++ [.read (.obj obj)] ++
        [.borrow obj item]) cleared (d + 1) s →
      wp (fun _ => False) ((clearingEnv z).serialize (n + 2) item)
        (fun _ => ClearingAt log' cleared' (d + 1)) (fun _ _ => False) s) :
    wp (fun _ => False) ((clearingEnv z).serialize (n + 3) obj)
      (fun _ => ClearingAt (log' ++ [.read (.obj obj)]) cleared' d) (fun _ _ => False) s := by
  have hlook : (clearingEnv z).rt.view s.world.heap obj = ⟨none, "list", .list [item]⟩ := by
    rw [hs.heap]
    exact hview
  unfold Env.serialize Env.serializeBody
  rw [wp_bind, Host.wp_look, hlook]
  exact clearing_list hd (hs.logged _) hview hview' hitems hitem n

end List

/-- What the walk over both lists does up to the conversion. -/
def clearingBefore : List (Event ℕ) :=
  [.read (.obj 0), .read (.obj 0), .read (.obj 0), .borrow 0 1, .read (.obj 1), .read (.obj 1),
    .read (.obj 1), .borrow 1 2, .read (.obj 2), .read (.obj 2)]

/-- The record of the call: the list 1 is read once more behind the conversion. -/
def clearingLog : List (Event ℕ) :=
  clearingBefore ++ .python false (.toBase 2 10) ::
    ([.take (.obj 3), .read (.obj 3), .drop (.obj 3)] ++ .read (.obj 1) :: [.read (.obj 0)])

lemma clearing_walk (hz : pylongLimit ≤ z) (hs : ClearingAt [] false 0 s) :
    wp (fun _ => False) ((clearingEnv z).serialize 6 0) (fun _ s' => s'.log = clearingLog)
      (fun _ _ => False) s := by
  have hinner : ∀ s, ClearingAt [.read (.obj 0), .read (.obj 0), .read (.obj 0), .borrow 0 1] false 1 s →
      wp (fun _ => False) ((clearingEnv z).serialize 5 1) (fun _ => ClearingAt (clearingBefore ++
        .python false (.toBase 2 10) ::
          ([.take (.obj 3), .read (.obj 3), .drop (.obj 3)] ++ [.read (.obj 1)])) true 1)
        (fun _ _ => False) s := by
    intro s h
    have hview : ∀ c, clearingView z c 1 = ⟨none, "list", .list [2]⟩ := fun _ => rfl
    exact clearing_serialize (by decide) h (hview false) (hview true) le_rfl
      fun s1 h1 => clearing_item hz h1 3
  have hview : clearingView z false 0 = ⟨none, "list", .list [1]⟩ := rfl
  have hview' : clearingView z true 0 = ⟨none, "list", .list []⟩ := rfl
  exact (clearing_serialize (by decide) hs hview hview' zero_le_one hinner).mono
    (fun _ s' h => h.log) (fun _ _ h => h) fun _ h => h

lemma clearing_start :
    ∃ s', (clearingHost z).start 0 none 0 clearingState = .ok (clearingEnv z) s' ∧
      ClearingAt [] false 0 s' := ⟨_, rfl, rfl, rfl, rfl, rfl⟩

lemma finish_log {P : List (Event ℕ) → Prop} (hs : P s.log) :
    wp (fun s' => P s'.log) Host.finish (fun _ s' => P s'.log) (fun _ s' => P s'.log) s := by
  unfold Host.finish
  rw [wp_bind, wp_get, wp_bind]
  cases s.out.raw.finish with
  | none => exact hs
  | some f =>
      rw [unchecked_some, wp_pure]
      cases f.result with
      | none => exact hs
      | some o => exact hs

/-- When the code runs nothing keeps the list 1 alive: it is no argument, no tuple's item, and the
encoder owns nothing. -/
lemma clearing_dead : ¬ Alive (clearing z).Inside ((clearingHost z).Lent [0] [])
    (clearingBefore.map Event.use) (.obj 1) := by
  intro h
  cases h with
  | owned h =>
      rcases h with (h | ⟨o, ho, h⟩) | h
      · exact absurd (Ref.obj.inj h) (show ¬ (1 : ℕ) = 4 by decide)
      · obtain rfl : o = 0 := by simpa using ho
        exact absurd (Ref.obj.inj h) (by decide)
      · exact absurd h (by unfold Owned; decide)
  | inside hr h =>
      cases h with
      | item htuple hitem => exact absurd hitem List.not_mem_nil

/-- The record of a call in which Python code ran without the guard, and after which the list 1 was read
though nothing had kept it alive. -/
def ClearingLost (z : ℤ) (log : List (Event ℕ)) : Prop :=
  .python false (.toBase 2 10) ∈ log ∧
    (∃ before args between after, log.map Event.use =
      before ++ .run .overlooked args :: (between ++ .read (.obj 1) :: after) ∧
      (∀ u ∈ between, ¬ u.Gets (.obj 1)) ∧
      ¬ Alive (clearing z).Inside ((clearingHost z).Lent [0] []) before (.obj 1)) ∧
    ¬ Safe (clearing z).Inside ((clearingHost z).Lent [0] []) (log.map Event.use)

lemma clearingLost : ClearingLost z clearingLog := by
  have hrun : .python false (.toBase 2 10) ∈ clearingLog := by
    unfold clearingLog
    simp
  refine ⟨hrun, ⟨clearingBefore.map Event.use, [], [.take (.obj 3), .read (.obj 3), .drop (.obj 3)],
    [.read (.obj 0)], rfl, ?_, clearing_dead⟩, fun hsafe => ?_⟩
  · simp [Use.Gets]
  · exact absurd (hsafe.guarded .overlooked [] (List.mem_map.mpr ⟨_, hrun, rfl⟩)) (by decide)

lemma clearing_dumps (hz : pylongLimit ≤ z) :
    wp (fun s' => ClearingLost z s'.log) ((clearingHost z).dumps 0 6 [0] [])
      (fun _ s' => ClearingLost z s'.log) (fun _ s' => ClearingLost z s'.log) clearingState := by
  obtain ⟨s1, hstart, hs1⟩ := clearing_start (z := z)
  have hnewline : ¬ hasOpt 0 optAppendNewline = true := by decide
  unfold Host.dumps
  dsimp only
  rw [if_neg (by decide)]
  unfold Host.keywordArgs Host.checkDefault
  rw [pure_bind]
  unfold Host.dropNone Host.parseOpts
  dsimp only [List.getElem?_nil]
  simp only [pure_bind]
  unfold Host.dumpsObject
  rw [wp_bind_of_ok hstart, wp_bind]
  refine (clearing_walk hz hs1).mono ?_ (fun _ _ h => h.elim) fun _ h => h.elim
  intro _ s2 hs2
  rw [if_neg hnewline]
  have hlost : ClearingLost z s2.log := hs2 ▸ clearingLost
  exact finish_log hlost

end Clearing

/-- **A conversion without the guard** lets Python code run that takes away the inner one of two lists,
which is read again. -/
theorem reentrancy_clearing :
    wp (fun s' => ClearingLost pylongLimit s'.log) ((clearingHost pylongLimit).dumps 0 6 [0] [])
      (fun _ s' => ClearingLost pylongLimit s'.log) (fun _ s' => ClearingLost pylongLimit s'.log)
      clearingState := clearing_dumps le_rfl

end Isojson
