import Isojson.DecodeRefs
import Isojson.Loads

/-!
# `loads` does not depend on earlier calls

What is left of earlier calls when `loads` starts is a scratch that nobody borrows and a key cache
that is valid (`Thread.Sound`).  From any such state, `loads` gives an answer that is a function of
its argument alone (`answer`), unless CPython fails a request of the call.
-/

namespace Isojson.Decode

variable {B α β : Type}

/-! ## Requests and exceptions -/

/-- A world later in the same process. -/
structure Later (w w' : World) : Prop where
  alloc : w'.alloc = w.alloc
  asked : w.asked ≤ w'.asked

lemma Later.refl (w : World) : Later w w := ⟨rfl, le_rfl⟩

lemma Later.trans {w w1 w2 : World} (h : Later w w1) (h' : Later w1 w2) : Later w w2 :=
  ⟨h'.alloc.trans h.alloc, h.asked.trans h'.asked⟩

lemma failedSince_iff {w w' : World} :
    failedSince w w' = true ↔ ∃ k, w.asked ≤ k ∧ k < w'.asked ∧ w.alloc k = false := by
  simp only [failedSince, List.any_eq_true, List.mem_range'_1, Bool.not_eq_true']
  constructor
  · rintro ⟨k, ⟨hlo, hhi⟩, hk⟩
    exact ⟨k, hlo, by omega, hk⟩
  · rintro ⟨k, hlo, hhi, hk⟩
    exact ⟨k, ⟨hlo, by omega⟩, hk⟩

/-- The requests between two worlds, cut in two. -/
lemma failedSince_trans {w w1 w2 : World} (h : Later w w1) (h' : Later w1 w2) :
    failedSince w w2 = (failedSince w w1 || failedSince w1 w2) := by
  rw [Bool.eq_iff_iff, Bool.or_eq_true, failedSince_iff, failedSince_iff, failedSince_iff, h.alloc]
  have hle := h.asked
  have hle' := h'.asked
  constructor
  · rintro ⟨k, hlo, hhi, hk⟩
    rcases Nat.lt_or_ge k w1.asked with hlt | hge
    · exact Or.inl ⟨k, hlo, hlt, hk⟩
    · exact Or.inr ⟨k, hge, hhi, hk⟩
  · rintro (⟨k, hlo, hhi, hk⟩ | ⟨k, hlo, hhi, hk⟩)
    · exact ⟨k, hlo, by omega, hk⟩
    · exact ⟨k, by omega, hhi, hk⟩

lemma failedSince_self {w w' : World} (h : w'.asked = w.asked) : failedSince w w' = false := by
  simp [failedSince, h]

/-- An error is the failure of a request, and nothing else is. -/
def Signals (m : Build α) : Prop :=
  ∀ w, m.wp (fun _ => True) (fun _ w' => Later w w' ∧ failedSince w w' = false)
    (fun _ w' => Later w w' ∧ failedSince w w' = true) w

lemma Signals.pure (a : α) : Signals (Pure.pure a : Build α) :=
  fun w => ⟨.refl w, failedSince_self rfl⟩

lemma Signals.get : Signals (Run.get : Build World) := fun w => ⟨.refl w, failedSince_self rfl⟩

lemma Signals.fault : Signals (Run.fault : Build α) := fun _ => trivial

lemma Signals.unchecked : ∀ x : Option α, Signals (Run.unchecked x : Build α)
  | some a => .pure a
  | none => .fault

lemma Signals.modify {f : World → World} (halloc : ∀ w, (f w).alloc = w.alloc)
    (hasked : ∀ w, (f w).asked = w.asked) : Signals (Run.modify f : Build Unit) :=
  fun w => ⟨⟨halloc w, (hasked w).ge⟩, failedSince_self (hasked w)⟩

lemma Signals.bind {m : Build α} {f : α → Build β} (hm : Signals m) (hf : ∀ a, Signals (f a)) :
    Signals (m >>= f) := by
  intro w
  rw [Run.wp_bind]
  refine (hm w).mono ?_ (fun _ _ h => h) fun _ h => h
  rintro a w1 ⟨hl, hok⟩
  refine (hf a w1).mono ?_ ?_ fun _ h => h
  · rintro b w2 ⟨hl', hok'⟩
    exact ⟨hl.trans hl', by rw [failedSince_trans hl hl', hok, hok']; rfl⟩
  · rintro _ w2 ⟨hl', hfail⟩
    exact ⟨hl.trans hl', by rw [failedSince_trans hl hl', hfail, Bool.or_true]⟩

lemma Signals.onError {m : Build α} (hm : Signals m) {f : World → World}
    (hf : ∀ w, (f w).alloc = w.alloc ∧ (f w).asked = w.asked) : Signals (m.onError f) := by
  intro w
  rw [Run.wp_onError]
  refine (hm w).mono (fun _ _ h => h) ?_ fun _ h => h
  rintro _ w' ⟨hl, hfail⟩
  obtain ⟨halloc, hasked⟩ := hf w'
  refine ⟨⟨halloc.trans hl.alloc, hl.asked.trans hasked.ge⟩, ?_⟩
  rwa [failedSince, hasked]

lemma signals_request : Signals request :=
  fun w => by
    unfold request Run.wp
    have hlater : Later w { w with asked := w.asked + 1 } := ⟨rfl, Nat.le_succ _⟩
    cases hk : w.alloc w.asked with
    | true =>
        simp only [hk, if_true]
        refine ⟨hlater, ?_⟩
        rw [← Bool.not_eq_true, failedSince_iff]
        rintro ⟨k, hlo, hhi, hfail⟩
        obtain rfl : k = w.asked := by simp only at hhi; omega
        rw [hk] at hfail
        exact Bool.noConfusion hfail
    | false =>
        simp only [hk, Bool.false_eq_true, if_false]
        exact ⟨hlater, failedSince_iff.mpr ⟨w.asked, le_rfl, Nat.lt_succ_self _, hk⟩⟩

lemma signals_incref (o : ObjId) : Signals (incref o) := .modify (fun _ => rfl) fun _ => rfl

lemma signals_acquire (refs : List ObjId) : Signals (Run.modify (acquire refs)) :=
  .modify (fun _ => rfl) fun _ => rfl

lemma signals_release (refs : List ObjId) : Signals (Run.modify (release refs)) :=
  .modify (fun _ => rfl) fun _ => rfl

lemma signals_newObject : Signals newObject :=
  signals_request.bind fun _ => Signals.get.bind fun _ =>
    Signals.bind (.modify (fun _ => rfl) fun _ => rfl) fun _ => (signals_incref _).bind fun _ => .pure _

lemma signals_unicodeNew (n maxchar : ℕ) : Signals (unicodeNew n maxchar) :=
  signals_newObject.bind fun _ => .pure _

lemma signals_newAscii (b : Bytes) : Signals (newAscii b) := by
  refine (signals_unicodeNew _ _).bind fun o => ?_
  split
  · exact .pure _
  · exact .fault

lemma signals_newOfKind (size : ℕ) (s : Bytes) (chars maxchar : ℕ) :
    Signals (newOfKind size s chars maxchar) :=
  (signals_unicodeNew _ _).bind fun _ => (Signals.unchecked _).bind fun _ => .pure _

lemma signals_makeStr (s : Bytes) : Signals (makeStr s) := by
  unfold makeStr
  split
  · exact signals_newAscii s
  · unfold newNonAscii
    dsimp only
    split
    · unfold unicodeFromOrdinal
      split
      · exact signals_request.bind fun _ => (signals_incref _).bind fun _ => .pure _
      · exact (signals_unicodeNew _ _).bind fun _ => .pure _
    · split
      · exact signals_newOfKind _ _ _ _
      · split
        · exact signals_newOfKind _ _ _ _
        · exact signals_newOfKind _ _ _ _

lemma signals_replace (slots : KeyCache) (h : UInt64) (b : Bytes) :
    Signals (KeyCache.replace slots h b) := by
  refine (signals_newAscii b).bind fun o => (signals_incref _).bind fun _ => ?_
  have hset : Signals (do
      Run.modify fun w =>
        { w with keys := some (Function.update slots (KeyCache.index h) (h, some o)) }
      pure o : Build PyStr) :=
    Signals.bind (.modify (fun _ => rfl) fun _ => rfl) fun _ => .pure _
  split
  · exact Signals.bind (.modify (fun _ => rfl) fun _ => rfl) fun _ => hset
  · exact hset

lemma signals_get (b : Bytes) : Signals (KeyCache.get b) := by
  refine (Signals.unchecked _).bind fun h => Signals.get.bind fun w =>
    (Signals.unchecked _).bind fun slots => ?_
  split
  · exact (signals_incref _).bind fun _ => .pure _
  · exact signals_replace slots h b

lemma signals_keyStr (k : Bytes) : Signals (keyStr k) := by
  refine Signals.get.bind fun w => ?_
  split
  · exact signals_get k
  · exact signals_makeStr k

lemma signals_readNode (nodes : List Node) (i : ℕ) : Signals (readNode nodes i) :=
  (Signals.unchecked _).bind fun _ => Signals.bind (.modify (fun _ => rfl) fun _ => rfl) fun _ =>
    .pure _

lemma requests_dropStack (stack : List PartialContainer) (w : World) :
    (dropStack stack w).alloc = w.alloc ∧ (dropStack stack w).asked = w.asked := by
  induction stack generalizing w with
  | nil => exact ⟨rfl, rfl⟩
  | cons c stack ih => exact ih _

lemma signals_nextKey (nodes : List Node) (stack : List PartialContainer) (i : ℕ) :
    Signals (nextKey nodes stack i) := by
  cases stack with
  | nil => exact .pure _
  | cons top rest =>
      unfold nextKey
      dsimp only
      split
      · refine (signals_readNode nodes i).bind fun n => ?_
        cases n with
        | string k =>
            exact ((signals_keyStr k).onError (requests_dropStack _)).bind fun _ => .pure _
        | _ => exact .fault
      · exact .pure _

lemma signals_openNode (n : Node) : Signals (openNode n) := by
  cases n with
  | string s => exact (signals_makeStr s).bind fun _ => .pure _
  | static n =>
      cases n with
      | null => exact (signals_incref _).bind fun _ => .pure _
      | bool b => exact (signals_incref _).bind fun _ => .pure _
      | i64 v => exact signals_newObject.bind fun _ => .pure _
      | u64 v => exact signals_newObject.bind fun _ => .pure _
      | f64 v => exact signals_newObject.bind fun _ => .pure _
  | array len =>
      refine signals_newObject.bind fun id => ?_
      split <;> exact .pure _
  | object len =>
      refine signals_newObject.bind fun id => ?_
      split <;> exact .pure _

lemma signals_insert (top : PartialContainer) (rest : List PartialContainer) (val : PyValue) :
    Signals (insert top rest val) := by
  unfold insert
  split
  · split
    · split
      · exact .pure _
      · exact .fault
    · exact .fault
  · split
    · exact .fault
    · refine (Signals.unchecked _).bind fun key => ?_
      have hreq : Signals (request.onError (dropStack ({ top with key := none } :: rest) ∘
          release (key.id :: val.refs))) :=
        signals_request.onError fun w => requests_dropStack _ _
      refine hreq.bind fun _ => ?_
      dsimp only
      split
      · exact (signals_incref _).bind fun _ => (signals_acquire _).bind fun _ =>
          (signals_release _).bind fun _ => .pure _
      · exact (signals_acquire _).bind fun _ => (signals_release _).bind fun _ =>
          (signals_release _).bind fun _ => .pure _
  · exact .fault

lemma signals_close (val : PyValue) (stack : List PartialContainer) : Signals (close val stack) := by
  induction stack generalizing val with
  | nil => exact .pure _
  | cons top rest ih =>
      refine (signals_insert top rest val).bind fun top' => ?_
      dsimp only
      split
      · exact .pure _
      · exact ih _

lemma signals_loop (nodes : List Node) (fuel : ℕ) (stack : List PartialContainer) (i : ℕ) :
    Signals (loop nodes fuel stack i) := by
  induction fuel generalizing stack i with
  | zero => exact fun _ => trivial
  | succ fuel ih =>
      refine (signals_nextKey nodes stack i).bind fun p => (signals_readNode _ _).bind fun node =>
        ((signals_openNode node).onError (requests_dropStack _)).bind fun o => ?_
      cases o with
      | value v =>
          refine (signals_close v p.1).bind fun c => ?_
          cases c with
          | done v => exact .pure _
          | more stack => exact ih _ _
      | container c => exact ih _ _

/-- **An exception is pending after `build` exactly if it failed.** -/
lemma signals_build (nodes : List Node) : Signals (build nodes) := signals_loop nodes _ [] 0

/-! ## The thread between calls -/

/-- What a call of `loads` finds: a valid key cache, a scratch that nobody borrows, and no
exception. -/
structure Thread.Sound (s : Thread B) : Prop where
  keys : s.world.Valid
  unborrowed : s.scratch.borrowed = false
  exc : s.exc = none

/-- The same, with an exception that may have been set since. -/
structure Thread.Sane (s : Thread B) : Prop where
  keys : s.world.Valid
  unborrowed : s.scratch.borrowed = false

/-- Code over the world, from a thread. -/
lemma wp_lift {m : Build α} {C : Thread B → Prop} {Q : Option α → Thread B → Prop}
    {E : PendingPyErr → Thread B → Prop} {s : Thread B} :
    (lift m).wp C Q E s ↔ m.wp (fun w => C (s.after w)) (fun a w => Q (some a) (s.after w))
      (fun _ w => Q none (s.after w)) s.world := by
  unfold Run.wp lift
  cases m s.world <;> rfl

/-- A request, with the exception it sets where it fails. -/
lemma lift_request_spec {C : Thread B → Prop} {E : PendingPyErr → Thread B → Prop}
    {Q : Option Unit → Thread B → Prop} {s : Thread B}
    (hok : ∀ w, Later s.world w → w.keys = s.world.keys → Q (some ()) { s with world := w })
    (hfail : ∀ w, Later s.world w → w.keys = s.world.keys → failedSince s.world w = true →
      Q none { s with world := w, exc := some .failure }) :
    (lift request : Loads B _).wp C Q E s := by
  have hlater : Later s.world { s.world with asked := s.world.asked + 1 } := ⟨rfl, Nat.le_succ _⟩
  rw [wp_lift]
  have hsig := signals_request s.world
  unfold Run.wp request at hsig ⊢
  cases hk : s.world.alloc s.world.asked with
  | true =>
      simp only [hk, if_true] at hsig ⊢
      have := hok _ hlater rfl
      simpa only [Thread.after, hsig.2, Bool.false_eq_true, if_false] using this
  | false =>
      simp only [hk, Bool.false_eq_true, if_false] at hsig ⊢
      have := hfail _ hlater rfl hsig.2
      simpa only [Thread.after, hsig.2, if_true] using this

/-- Python code that runs on the way: it ends, with the thread sound again. -/
def Behaves (m : Loads B Unit) : Prop :=
  ∀ s, s.Sound → m.wp (fun _ => False) (fun _ s' => s'.Sound ∧ Later s.world s'.world)
    (fun _ _ => False) s

/-- The error is raised, or CPython failed a request for it. -/
def Raises (s s' : Thread B) (exc : Raised) : Prop :=
  s'.Sane ∧ Later s.world s'.world ∧
    (s'.exc = some exc ∨ s'.exc = some .failure ∧ failedSince s.world s'.world = true)

/-- Requests before the error is raised. -/
lemma Raises.after {s s1 s' : Thread B} {exc : Raised} (hl : Later s.world s1.world)
    (h : Raises s1 s' exc) : Raises s s' exc := by
  obtain ⟨hsane, hl', hexc⟩ := h
  refine ⟨hsane, hl.trans hl', hexc.imp_right fun ⟨hf, hfail⟩ => ⟨hf, ?_⟩⟩
  rw [failedSince_trans hl hl', hfail, Bool.or_true]

section Raise

variable {during : Loads B Unit} (hd : Behaves during) {E : PendingPyErr → Thread B → Prop}

include hd

lemma callDecodeError_spec (msg : String) (doc : Document) (pos : ℕ) {s : Thread B} (hs : s.Sound) :
    (callDecodeError during msg doc pos).wp (fun _ => False)
      (fun _ s' => Raises s s' (.decode msg doc pos)) E s := by
  unfold callDecodeError
  rw [Run.wp_bind]
  refine (hd s hs).mono ?_ (fun _ _ h => h.elim) fun _ h => h
  rintro _ s1 ⟨hs1, hl⟩
  rw [Run.wp_bind]
  refine lift_request_spec (fun w hl' hkeys => ?_) fun w hl' hkeys hfail => ?_
  · refine Raises.after hl ⟨⟨?_, hs1.unborrowed⟩, hl', Or.inl rfl⟩
    exact fun slots hslots => hs1.keys slots (hkeys ▸ hslots)
  · refine Raises.after hl ⟨⟨?_, hs1.unborrowed⟩, hl', Or.inr ⟨rfl, hfail⟩⟩
    exact fun slots hslots => hs1.keys slots (hkeys ▸ hslots)

lemma raiseDecodeError_spec (msg : String) (input : Bytes) (doc : Option StrObj) (bytePos : ℕ)
    {s : Thread B} (hs : s.Sound) :
    (raiseDecodeError during msg input doc bytePos).wp (fun _ => False)
      (fun _ s' => Raises s s' (.decode msg (document input doc) (charPos input bytePos))) E s := by
  -- the code behind the first request
  have hrest : ∀ s1 : Thread B, s1.Sound → Later s.world s1.world → (do
      let pyMsg ← lift request
      let pyPos ← lift request
      if pyMsg.isSome && pyPos.isSome then
        callDecodeError during msg (document input doc) (charPos input bytePos)
      else Pure.pure () : Loads B Unit).wp (fun _ => False)
      (fun _ s' => Raises s s' (.decode msg (document input doc) (charPos input bytePos))) E s1 := by
    intro s1 hs1 hl1
    have hkeys : ∀ {w : World}, w.keys = s1.world.keys → w.Valid :=
      fun hk slots hslots => hs1.keys slots (hk ▸ hslots)
    rw [Run.wp_bind]
    refine lift_request_spec (fun w2 hl2 hk2 => ?_) fun w2 hl2 hk2 hfail2 => ?_
    · rw [Run.wp_bind]
      refine lift_request_spec (fun w3 hl3 hk3 => ?_) fun w3 hl3 hk3 hfail3 => ?_
      · simp only [Option.isSome_some, Bool.and_self, if_true]
        have hs3 : Thread.Sound { s1 with world := w3 } :=
          ⟨hkeys (hk3.trans hk2), hs1.unborrowed, hs1.exc⟩
        exact (callDecodeError_spec hd _ _ _ hs3).mono
          (fun _ s' h => .after ((hl1.trans hl2).trans hl3) h) (fun _ _ h => h) fun _ h => h
      · refine Raises.after (hl1.trans hl2) ⟨⟨hkeys (hk3.trans hk2), hs1.unborrowed⟩, hl3,
          Or.inr ⟨rfl, hfail3⟩⟩
    · rw [Run.wp_bind]
      refine lift_request_spec (fun w3 hl3 hk3 => ?_) fun w3 hl3 hk3 _ => ?_
      all_goals
        refine Raises.after hl1 ⟨⟨hkeys (hk3.trans hk2), hs1.unborrowed⟩, hl2.trans hl3,
          Or.inr ⟨rfl, ?_⟩⟩
        rw [failedSince_trans hl2 hl3, hfail2, Bool.true_or]
  unfold raiseDecodeError
  cases doc with
  | some d => exact hrest s hs (.refl _)
  | none =>
      simp only [Option.isSome_none, Bool.false_eq_true, if_false]
      rw [Run.wp_bind]
      refine lift_request_spec (fun w hl hk => ?_) fun w hl hk hfail => ?_
      · exact hrest _ ⟨fun slots hslots => hs.keys slots (hk ▸ hslots), hs.unborrowed, hs.exc⟩ hl
      · exact ⟨⟨fun slots hslots => hs.keys slots (hk ▸ hslots), hs.unborrowed⟩, hl,
          Or.inr ⟨rfl, hfail⟩⟩

end Raise

/-! ## The answer -/

/-- What `run` gives for an input: the value, or the error that it raises. -/
def answerOf (parse : Bytes → Except (ErrorType × ℕ) Tree) (input : Bytes) (doc : Option StrObj) :
    Except Raised Value :=
  if input.all isBlank then
    .error (.decode "Input is a zero-length, empty document" (document input doc) (charPos input 0))
  else
    match parse input with
    | .ok t => .ok t.value
    | .error (e, i) => .error (.decode (describe e) (document input doc) (charPos input i))

/-- What `loads` gives for an argument. -/
def answer (parse : Bytes → Except (ErrorType × ℕ) Tree) : Arg → Except Raised Value
  | .bytes b => answerOf parse b none
  | .str s =>
      if s.chars.any fun c => decide (Utf8.IsSurrogate c) then
        .error (.decode "str is not valid UTF-8: surrogates not allowed" (.str s) 0)
      else answerOf parse (Utf8.encodeAll s.chars) (some s)
  | .byteArray b => answerOf parse b none
  | .memoryView (some b) => answerOf parse b none
  | .memoryView none => .error .failure
  | .other => .error (.decode "Input must be bytes, bytearray, memoryview, or str" (.replaced []) 0)

/-- A call that began in `s` returned the value of the answer `x`, with no exception pending. -/
def Returned (x : Except Raised Value) (s : Thread B) (v : PyValue) (s' : Thread B) : Prop :=
  s'.Sound ∧ Later s.world s'.world ∧ ∃ y, x = .ok y ∧ IsValue v y

/-- A call that began in `s` raised the error of the answer `x`; or CPython failed a request of
the call, and some error is pending. -/
def Raised.By (x : Except Raised Value) (s s' : Thread B) : Prop :=
  s'.Sane ∧ Later s.world s'.world ∧ s'.exc.isSome ∧
    ((∃ exc, x = .error exc ∧ s'.exc = some exc) ∨ failedSince s.world s'.world = true)

/-- The call gives the answer. -/
def Answers (x : Except Raised Value) (m : Loads B PyValue) (s : Thread B) : Prop :=
  m.wp (fun _ => False) (Returned x s) (fun _ s' => Raised.By x s s') s

lemma Raises.by {s s' : Thread B} {exc : Raised} (h : Raises s s' exc) :
    Raised.By (.error exc) s s' := by
  obtain ⟨hsane, hl, hexc | ⟨hf, hfail⟩⟩ := h
  · exact ⟨hsane, hl, by rw [hexc]; rfl, Or.inl ⟨exc, rfl, hexc⟩⟩
  · exact ⟨hsane, hl, by rw [hf]; rfl, Or.inr hfail⟩

/-- Steps before the call. -/
lemma Answers.after {s s1 : Thread B} (hl : Later s.world s1.world) {x : Except Raised Value}
    {m : Loads B PyValue} (h : Answers x m s1) :
    m.wp (fun _ => False) (Returned x s) (fun _ s' => Raised.By x s s') s1 := by
  refine Run.wp.mono h ?_ ?_ fun _ h => h
  · rintro v s' ⟨hs', hl', hv⟩
    exact ⟨hs', hl.trans hl', hv⟩
  · rintro _ s' ⟨hs', hl', hexc, hx⟩
    refine ⟨hs', hl.trans hl', hexc, hx.imp_right fun hfail => ?_⟩
    rw [failedSince_trans hl hl', hfail, Bool.or_true]

/-- `build` over the tape of a tree. -/
lemma build_spec (t : Tree) {w : World} (hw : w.Valid) (hreads : w.reads = []) :
    (build t.tape).wp (fun _ => False)
      (fun v w' => IsValue v t.value ∧ w'.Valid ∧ Later w w' ∧ failedSince w w' = false)
      (fun _ w' => w'.Valid ∧ Later w w' ∧ failedSince w w' = true) w := by
  have hcustody : Custody (build t.tape) [] PyValue.refs (fun _ => True) [] :=
    custody_loop _ _ 0 fun _ hc => absurd hc List.not_mem_nil
  refine ((gives_build t w ⟨rfl, hw, hreads⟩).and
    ((hcustody w hw).and (signals_build t.tape w))).mono ?_ ?_ fun _ h => h
  · rintro v w' ⟨⟨hv, -⟩, ⟨-, hvalid⟩, hl, hok⟩
    exact ⟨hv, hvalid, hl, hok⟩
  · rintro _ w' ⟨-, ⟨-, hvalid⟩, hl, hfail⟩
    exact ⟨hvalid, hl, hfail⟩

section Call

variable {p : Parser B} {parse : Bytes → Except (ErrorType × ℕ) Tree} (hp : p.Reads parse)

include hp

/-- The parser's error, or the value that was built from its tape. -/
lemma parse_spec (input : Bytes) {s : Thread B} (hs : s.Sound) :
    (Decode.parse p input).wp (fun _ => False)
      (fun r s' => s'.Sane ∧ Later s.world s'.world ∧
        ((∃ e, parse input = .error e ∧ r = .error e ∧ s'.exc = none) ∨
        (∃ t v, parse input = .ok t ∧ r = .ok (some v) ∧ IsValue v t.value ∧ s'.exc = none) ∨
        (∃ t, parse input = .ok t ∧ r = .ok none ∧ s'.exc = some .failure ∧
          failedSince s.world s'.world = true))) (fun _ _ => False) s := by
  unfold Decode.parse
  rw [Run.wp_bind, Run.wp_get, if_neg (by rw [hs.unborrowed]; exact Bool.false_ne_true)]
  have hresult := hp.result input s.scratch.buffers
  have htape := hp.tape input s.scratch.buffers
  generalize p.fillTape input s.scratch.buffers [] = r at hresult htape ⊢
  dsimp only
  rw [Run.wp_bind, Run.wp_modify]
  cases hparse : parse input with
  | error e =>
      rw [hparse] at hresult
      rw [hresult]
      exact ⟨⟨hs.keys, rfl⟩, ⟨rfl, le_rfl⟩, Or.inl ⟨e, rfl, rfl, hs.exc⟩⟩
  | ok t =>
      rw [hparse] at hresult
      rw [hresult, htape t hparse]
      simp only [Except.map, Run.wp_bind, wp_lift]
      refine (build_spec t (w := { s.world with reads := [] }) hs.keys rfl).mono ?_ ?_ fun _ h => h
      · rintro v w ⟨hv, hvalid, hl, hok⟩
        refine ⟨⟨hvalid, rfl⟩, ⟨hl.alloc, hl.asked⟩, Or.inr (Or.inl ⟨t, v, rfl, rfl, hv, ?_⟩)⟩
        simp only [Thread.after, hok, Bool.false_eq_true, if_false]
        exact hs.exc
      · rintro _ w ⟨hvalid, hl, hfail⟩
        refine ⟨⟨hvalid, rfl⟩, ⟨hl.alloc, hl.asked⟩, Or.inr (Or.inr ⟨t, rfl, rfl, ?_, hfail⟩)⟩
        simp only [Thread.after, hfail, if_true]

variable {during : Loads B Unit} (hd : Behaves during)

include hd

omit hp in
/-- An error that is raised, and then the null result. -/
lemma raise_answers {msg : String} {input : Bytes} {doc : Option StrObj} {bytePos : ℕ} {s : Thread B}
    (hs : s.Sound) : Answers (.error (.decode msg (document input doc) (charPos input bytePos)))
      (do raiseDecodeError during msg input doc bytePos; Run.throw ⟨⟩) s := by
  unfold Answers
  rw [Run.wp_bind]
  exact (raiseDecodeError_spec hd msg input doc bytePos hs).mono (fun _ _ h => h.by)
    (fun _ _ h => h) fun _ h => h

lemma run_answers (input : Bytes) (doc : Option StrObj) {s : Thread B} (hs : s.Sound) :
    Answers (answerOf parse input doc) (Decode.run p during input doc) s := by
  unfold answerOf Decode.run
  by_cases hblank : input.all isBlank = true
  · rw [if_pos hblank, if_pos hblank]
    exact raise_answers hd hs
  · rw [if_neg hblank, if_neg hblank]
    unfold Answers
    rw [Run.wp_bind]
    refine (parse_spec hp input hs).mono ?_ (fun _ _ h => h.elim) fun _ h => h
    rintro r s1 ⟨hsane, hl, ⟨⟨e, i⟩, hparse, rfl, hexc⟩ | ⟨t, v, hparse, rfl, hv, hexc⟩ |
      ⟨t, hparse, rfl, hexc, hfail⟩⟩
    · rw [hparse]
      exact (raise_answers hd ⟨hsane.keys, hsane.unborrowed, hexc⟩).after hl
    · rw [hparse]
      exact ⟨⟨hsane.keys, hsane.unborrowed, hexc⟩, hl, _, rfl, hv⟩
    · exact ⟨hsane, hl, by rw [hexc]; rfl, Or.inr hfail⟩

/-- **`loads` gives its answer** on every thread that is between calls. -/
lemma loads_answers (arg : Arg) {s : Thread B} (hs : s.Sound) :
    Answers (answer parse arg) (Decode.loads p during arg) s := by
  cases arg with
  | bytes b => exact run_answers hp hd b none hs
  | str t =>
      have hnone : ∀ s1 : Thread B, s1.Sane → Answers
          (.error (.decode "str is not valid UTF-8: surrogates not allowed" (.str t) 0)) (do
            setExc none
            raiseDecodeError during "str is not valid UTF-8: surrogates not allowed" [] (some t) 0
            Run.throw ⟨⟩) s1 := by
        intro s1 hs1
        unfold Answers
        rw [Run.wp_bind]
        exact (raise_answers (s := { s1 with exc := none }) hd ⟨hs1.keys, hs1.unborrowed, rfl⟩)
      unfold Decode.loads Decode.asUtf8 answer
      dsimp only
      split
      · exact hnone { s with exc := some .failure } ⟨hs.keys, hs.unborrowed⟩
      · split
        · exact run_answers hp hd _ (some t) hs
        · unfold Answers
          simp only [Run.wp_bind]
          refine lift_request_spec (fun w hl hk => ?_) fun w hl hk hfail => ?_
          · have hs1 : Thread.Sound { s with world := w } :=
              ⟨fun slots h => hs.keys slots (hk ▸ h), hs.unborrowed, hs.exc⟩
            exact (run_answers hp hd _ (some t) hs1).after hl
          · have hs1 : Thread.Sane { s with world := w, exc := some .failure } :=
              ⟨fun slots h => hs.keys slots (hk ▸ h), hs.unborrowed⟩
            simp only [Option.map_none, Run.wp_pure]
            refine Run.wp.mono (hnone _ hs1) ?_ ?_ fun _ h => h
            · rintro _ _ ⟨-, -, _, hx, -⟩
              exact absurd hx (by simp)
            · rintro _ s' ⟨hsane, hl', hexc, -⟩
              refine ⟨hsane, hl.trans hl', hexc, Or.inr ?_⟩
              rw [failedSince_trans hl hl', hfail, Bool.true_or]
  | byteArray b => exact run_answers hp hd b none hs
  | memoryView b =>
      cases b with
      | some b => exact run_answers hp hd b none hs
      | none => exact ⟨⟨hs.keys, hs.unborrowed⟩, ⟨rfl, le_rfl⟩, rfl, Or.inl ⟨_, rfl, rfl⟩⟩
  | other => exact raise_answers hd hs

end Call

/-! ## Earlier calls -/

lemma ValidCache.clear (slots : KeyCache) : ValidCache slots.clear :=
  fun _ _ h => absurd h (by simp [KeyCache.clear])

lemma valid_clearKeys (w : World) : (clearKeys w).Valid := by
  unfold clearKeys World.Valid
  split
  · rintro slots' hslots'
    obtain rfl := Option.some.inj hslots'
    exact .clear _
  · next hnone =>
    rw [hnone]
    exact fun _ h => absurd h (by simp)

lemma later_clearKeys (w : World) : Later w (clearKeys w) := by
  unfold clearKeys
  split
  · exact ⟨rfl, le_rfl⟩
  · exact .refl w

variable {p : Parser B} {parse : Bytes → Except (ErrorType × ℕ) Tree}

mutual

/-- Whatever is done on a thread, and however it ends, the thread is sound after it. -/
lemma behaves_run (hp : p.Reads parse) : ∀ act : Act, Behaves (act.run p)
  | .loads arg during => by
      intro s hs
      have h := loads_answers hp (behaves_runAll hp during) arg hs
      unfold Answers at h
      unfold Run.wp Act.run attempt at *
      cases hrun : Decode.loads p (runAll p during) arg s with
      | ok v s' =>
          rw [hrun] at h
          exact ⟨h.1, h.2.1⟩
      | error e s' =>
          rw [hrun] at h
          exact ⟨⟨h.1.keys, h.1.unborrowed, rfl⟩, h.2.1⟩
      | fault s' => rw [hrun] at h; exact h
      | starved s' => rw [hrun] at h; exact h
  | .clear => fun s hs => ⟨⟨valid_clearKeys _, hs.unborrowed, hs.exc⟩, later_clearKeys _⟩

lemma behaves_runAll (hp : p.Reads parse) : ∀ acts : List Act, Behaves (runAll p acts)
  | [] => fun s hs => ⟨hs, .refl _⟩
  | act :: acts => by
      intro s hs
      unfold runAll
      rw [Run.wp_bind]
      refine (behaves_run hp act s hs).mono ?_ (fun _ _ h => h) fun _ h => h
      rintro _ s1 ⟨hs1, hl⟩
      refine (behaves_runAll hp acts s1 hs1).mono ?_ (fun _ _ h => h) fun _ h => h
      rintro _ s2 ⟨hs2, hl'⟩
      exact ⟨hs2, hl.trans hl'⟩

end

/-- A fresh interpreter, on a thread that has parsed or not: an empty key cache, or none. -/
structure Thread.Fresh (s : Thread B) : Prop where
  keys : ∀ slots ∈ s.world.keys, ∀ ix, (slots ix).2 = none
  unborrowed : s.scratch.borrowed = false
  exc : s.exc = none

lemma Thread.Fresh.sound {s : Thread B} (h : s.Fresh) : s.Sound :=
  ⟨fun slots hslots ix o ho => absurd (h.keys slots hslots ix ▸ ho) (by simp), h.unborrowed, h.exc⟩

/-- The key caches that come about by looking keys up and by clearing. -/
inductive KeyCache.Reached : KeyCache → Prop
  | new {slots : KeyCache} (h : ∀ ix, (slots ix).2 = none) : Reached slots
  | get {slots slots' : KeyCache} {b : Bytes} {w w' : World} {o : PyStr} (h : Reached slots)
      (hw : w.keys = some slots) (hb : isAscii b = true) (hrun : KeyCache.get b w = .ok o w')
      (hw' : w'.keys = some slots') : Reached slots'
  | failed {slots slots' : KeyCache} {b : Bytes} {w w' : World} {e : PendingPyErr} (h : Reached slots)
      (hw : w.keys = some slots) (hb : isAscii b = true) (hrun : KeyCache.get b w = .error e w')
      (hw' : w'.keys = some slots') : Reached slots'
  | clear {slots : KeyCache} (h : Reached slots) : Reached slots.clear

lemma KeyCache.Reached.valid {slots : KeyCache} (h : slots.Reached) : ValidCache slots := by
  have hget : ∀ {slots : KeyCache} {b : Bytes} {w : World}, ValidCache slots →
      w.keys = some slots → isAscii b = true → (KeyCache.get b).wp (fun _ => True)
        (fun _ w' => w'.Valid) (fun _ w' => w'.Valid) w := by
    intro slots b w hv hw hb
    have hvalid : w.Valid := fun slots' h' => by
      obtain rfl := Option.some.inj (hw.symm.trans h')
      exact hv
    have hcustody : Custody (KeyCache.get b) [] (fun o => [o.id]) (fun _ => True) [] := custody_get hb
    exact (hcustody w hvalid).mono (fun _ _ h => h.2) (fun _ _ h => h.2)
      fun _ h => h
  induction h with
  | new h => exact fun ix o ho => absurd (h ix ▸ ho) (by simp)
  | get _ hw hb hrun hw' ih =>
      have h := hget ih hw hb
      rw [Run.wp, hrun] at h
      exact h _ hw'
  | failed _ hw hb hrun hw' ih =>
      have h := hget ih hw hb
      rw [Run.wp, hrun] at h
      exact h _ hw'
  | clear _ _ => exact .clear _

/-- **`loads` does not depend on what was done before.**  Let anything have been done on a thread
since its interpreter was fresh: calls of `loads` that returned or failed, whatever requests of
theirs CPython failed and whatever their errors ran, and clearings of the key cache.  Then `loads`
gives the answer that it gives in a fresh interpreter, a function of its argument, unless CPython
fails a request of the call itself.  In particular a key that comes through the cache is the key,
whatever its slot holds and whatever hashes coincide, and is the one made without the cache. -/
theorem loads_history_independent {p : Parser B} {parse : Bytes → Except (ErrorType × ℕ) Tree}
    (hp : p.Reads parse) :
    (∀ (history : List Act) (s0 : Thread B), s0.Fresh → ∃ s, runAll p history s0 = .ok () s ∧
      ∀ (arg : Arg) (during during1 : List Act) (s1 : Thread B), s1.Fresh →
        Answers (answer parse arg) (Decode.loads p (runAll p during) arg) s ∧
        Answers (answer parse arg) (Decode.loads p (runAll p during1) arg) s1) ∧
    ∀ slots : KeyCache, slots.Reached → ∀ w : World, w.keys = some slots →
      (∀ s : List ℕ, (∀ c ∈ s, c < 0x80) → s.length ≤ CACHE_MAX_KEY →
        (KeyCache.get (Utf8.encodeAll s)).wp (fun _ => False) (fun o _ => o.text = canonical s)
          (fun _ w' => failedSince w w' = true) w) ∧
      ∀ s : List ℕ, (∀ c ∈ s, Utf8.IsScalar c) →
        (keyStr (Utf8.encodeAll s)).wp (fun _ => False) (fun o _ => o.text = canonical s)
          (fun _ w' => failedSince w w' = true) w ∧
        (makeStr (Utf8.encodeAll s)).wp (fun _ => False) (fun o _ => o.text = canonical s)
          (fun _ w' => failedSince w w' = true) w := by
  constructor
  · intro history s0 h0
    rcases (behaves_runAll hp history s0 h0.sound).cases with ⟨_, s, hrun, hs, -⟩ | ⟨_, _, _, h⟩
    · refine ⟨s, hrun, fun arg during during1 s1 h1 => ⟨?_, ?_⟩⟩
      · exact loads_answers hp (behaves_runAll hp during) arg hs
      · exact loads_answers hp (behaves_runAll hp during1) arg h1.sound
    · exact h.elim
  · intro slots hslots w hw
    have hready : Ready w.alloc w.reads w := ⟨rfl, fun slots' h' => by
      obtain rfl := Option.some.inj (hw.symm.trans h')
      exact hslots.valid, rfl⟩
    -- a key that is made, or a request that failed
    have hkey : ∀ {m : Build PyStr} {s : List ℕ}, m.wp (fun _ => False)
        (fun o w' => o.text = canonical s ∧ Ready w.alloc w.reads w')
        (fun _ _ => ∃ k, w.alloc k = false) w → Signals m → m.wp (fun _ => False)
        (fun o _ => o.text = canonical s) (fun _ w' => failedSince w w' = true) w :=
      fun hm hsig => (hm.and (hsig w)).mono (fun _ _ h => h.1.1) (fun _ _ h => h.2.2) fun _ h => h
    refine ⟨fun s hs _ => hkey (gives_get hs hready hw) (signals_get _), fun s hs => ⟨?_, ?_⟩⟩
    · exact hkey (gives_keyStr hs w hready) (signals_keyStr _)
    · exact hkey (gives_makeStr hs w hready) (signals_makeStr _)

/-- `{"k":[]}` -/
def keyDoc : Bytes := [123, 34, 107, 34, 58, 91, 93, 125]

lemma isScalar_k : ∀ c ∈ [107], Utf8.IsScalar c := by decide

def keyTree : Tree := .object [(⟨[107], isScalar_k⟩, .array [])]

/-- A parser of this document alone. -/
def keyParser : Parser Unit where
  fillTape input _ _ :=
    if input = keyDoc then (.ok (), input, (), keyTree.tape) else (.error (.eof, 0), input, (), [])

/-- A thread of a fresh interpreter whose fourth request fails. -/
def freshThread : Thread Unit :=
  ⟨⟨[], (), [], false⟩, ⟨fun k => decide (k ≠ 3), 0, 0, some fun _ => (0, none), [], [], []⟩, none⟩

/-- The trees that it reads. -/
lemma keyParser_reads : keyParser.Reads fun input =>
    if input = keyDoc then .ok keyTree else .error (.eof, 0) := by
  constructor
  · intro input b
    simp only [keyParser]
    split <;> rfl
  · intro input b t ht
    simp only [keyParser]
    split at ht
    · next h =>
      obtain rfl := Except.ok.inj ht
      rw [if_pos h]
    · exact absurd ht (by simp)

lemma fresh_freshThread : freshThread.Fresh :=
  ⟨fun slots hslots ix => by
    obtain rfl := Option.some.inj hslots
    rfl, rfl, rfl⟩

/-- After a call that failed, with another one made while its error was constructed, which left its key in
the cache, the document is read, and it is the dict with this key. -/
theorem loads_history_independent_failed :
    ∃ s, runAll keyParser [.loads (.bytes [91]) [.loads (.bytes keyDoc) []]] freshThread = .ok () s ∧
      Answers (.ok (.dict [(.str [107], .list [])])) (Decode.loads keyParser (runAll keyParser [])
        (.bytes keyDoc)) s := by
  obtain ⟨s, hrun, hs⟩ := (loads_history_independent keyParser_reads).1
    [.loads (.bytes [91]) [.loads (.bytes keyDoc) []]] freshThread fresh_freshThread
  exact ⟨s, hrun, (hs (.bytes keyDoc) [] [] freshThread fresh_freshThread).1⟩

end Isojson.Decode
