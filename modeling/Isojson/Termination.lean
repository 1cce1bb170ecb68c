import Isojson.ErrorProtocol
import Isojson.Library.Fuel
import Isojson.SortKeys

/-!
# Termination

A graph of objects may be cyclic, and `default` may make new objects for ever, so nothing in the
document decreases.  What bounds a call are the two counters.  A container is entered below 254 and
a result of `default` is serialized below 255, so that the pair decreases along every path, and each
container has finitely many items as long as no code changes it.

`Level d k w` is the invariant of a writer: the counters are `d` and `k`, and the containers are as
in the heap `w`.  The recursion runs beside one that watches it (`Env.watched`).
-/

namespace Isojson

open Run

variable {Obj H : Type} {a : Allocator} {α β : Type}

/-! ## Containers that nothing changes -/

/-- The lists and dicts of one heap are in the other as they were. -/
structure Runtime.SameContainers (rt : Runtime Obj H) (h h' : H) : Prop where
  list : ∀ o items, (rt.view h o).body = .list items → (rt.view h' o).body = .list items
  dict : ∀ o slots, (rt.view h o).body = .dict slots → (rt.view h' o).body = .dict slots

lemma Runtime.SameContainers.refl (rt : Runtime Obj H) (h : H) : rt.SameContainers h h :=
  ⟨fun _ _ h => h, fun _ _ h => h⟩

lemma Runtime.SameContainers.trans {rt : Runtime Obj H} {h h1 h2 : H} (h01 : rt.SameContainers h h1)
    (h12 : rt.SameContainers h1 h2) : rt.SameContainers h h2 :=
  ⟨fun o items ho => h12.list o items (h01.list o items ho),
    fun o slots ho => h12.dict o slots (h01.dict o slots ho)⟩

/-- No code that runs in a request changes a container that is there.  It may make new ones. -/
def Runtime.KeepsContainers (rt : Runtime Obj H) : Prop :=
  ∀ c w, rt.SameContainers w.heap (rt.reply c w).2.heap

/-- `d` containers are open, `k` results of `default` are being serialized, and the containers are
as in `w`. -/
structure Level (rt : Runtime Obj H) (d k : ℕ) (w : H) (s : St Obj H a) : Prop where
  depth : s.depth = d
  results : s.defaultDepth = k
  heap : rt.SameContainers w s.world.heap

section Asks

variable {rt : Runtime Obj H} {d k : ℕ} {w : H} {m : Encode Obj H a α}

/-- What only asks goes by no fuel. -/
lemma Asks.ended (h : Asks rt m) : Ends (fun _ => True) m fun _ _ => True := by
  induction h with
  | pure x => exact .pure fun _ h => h
  | throw x => exact .throw x
  | fault => exact .fault
  | record evs => exact .modify fun _ h => h
  | setExc exc => exact .modify fun _ h => h
  | ask e he c =>
      intro s _
      unfold Host.ask
      rcases e.rt.reply c s.world with ⟨o | exc, w⟩ <;> trivial
  | look e he o k hk hdict ih => exact fun s _ => ih _ _ trivial
  | get k hk hstate ih => exact .get_bind fun s _ => ih s
  | bind hm hk ihm ihk => exact ihm.bind ihk
  | dropping hm o ih => exact ih.onExit

lemma Asks.ends (h : Asks rt m) (hkeep : rt.KeepsContainers) :
    Ends (Level rt d k w) m fun _ => Level rt d k w := by
  have hlevel : ∀ s s' : St Obj H a, Asked rt s s' → Level rt d k w s → Level rt d k w s' := by
    intro s s' hasked hs
    refine ⟨?_, ?_, ?_⟩
    · exact (congrArg (fun f => f.2.1) hasked.frame).trans hs.depth
    · exact (congrArg (fun f => f.2.2.1) hasked.frame).trans hs.results
    · apply Runtime.Reach.keeps (P := fun w1 => rt.SameContainers w w1.heap) _ hasked.world hs.heap
      exact fun c w1 hw => hw.trans (hkeep c w1)
  have hend : Ends (Level rt d k w) m fun _ _ => True := fun s _ => h.ended s trivial
  have hkept : ∀ s, Level rt d k w s →
      wp (fun _ => True) m (fun _ => Level rt d k w) (fun _ _ => True) s := fun s hs =>
    (h.asked s).mono (fun _ s' hasked => hlevel s s' hasked hs) (fun _ _ _ => trivial)
      fun _ _ => trivial
  exact (hend.and hkept).mono fun _ _ hx => hx.2

end Asks

/-! ## Code that goes by no fuel -/

section Code

variable {rt : Runtime Obj H} {d k : ℕ} {w : H}

lemma ends_event (ev : Event Obj) :
    Ends (Level rt d k w) (event ev : Encode Obj H a Unit) fun _ => Level rt d k w :=
  .modify fun _ hs => ⟨hs.depth, hs.results, hs.heap⟩

lemma ends_setExc (exc : Option (Exc Obj)) :
    Ends (Level rt d k w) (setExc exc : Encode Obj H a Unit) fun _ => Level rt d k w :=
  .modify fun _ hs => ⟨hs.depth, hs.results, hs.heap⟩

lemma ends_emit (f : Buffer a → Buffer a) :
    Ends (Level rt d k w) (emit f : Encode Obj H a Unit) fun _ => Level rt d k w :=
  .modify fun _ hs => ⟨hs.depth, hs.results, hs.heap⟩

lemma ends_leave : Ends (Level rt (d + 1) k w) (Env.leave : Encode Obj H a Unit)
    fun _ => Level rt d k w := by
  refine .modify fun s hs => ⟨?_, hs.results, hs.heap⟩
  show s.depth - 1 = d
  rw [hs.depth, Nat.add_sub_cancel]

lemma ends_cached {f : H → TypeCache Obj → Except Obj α × TypeCache Obj} :
    Ends (Level rt d k w) (Env.cached f : Encode Obj H a α) fun _ => Level rt d k w := by
  refine .get_bind fun s _ => ?_
  have hstore : Ends (Level rt d k w)
      (Run.modify fun s1 => { s1 with world := { s1.world with
        types := (f s.world.heap s.world.types).2 } } : Encode Obj H a Unit)
      fun _ => Level rt d k w := .modify fun _ hs => ⟨hs.depth, hs.results, hs.heap⟩
  refine hstore.bind fun _ => ?_
  split
  · exact .pure fun _ hs => hs
  · exact (ends_setExc _).bind fun _ => .throw _

lemma ends_datetimeGroup [DecidableEq Obj] (rt' : Runtime Obj H) :
    Ends (Level rt d k w) (Env.datetimeGroup rt' : Encode Obj H a _) fun _ => Level rt d k w := by
  refine .get_bind fun s _ => ?_
  by_cases h : s.world.types.wrongCapsule rt' s.world.heap
  · rw [if_pos h]
    exact (ends_setExc _).bind fun _ => (ends_setExc _).bind fun _ => ends_cached
  · rw [if_neg h]
    exact ends_cached

namespace Env

variable (e : Env Obj H)

lemma ends_look (o : Obj) :
    Ends (Level rt d k w) (e.look o : Encode Obj H a _) fun _ => Level rt d k w :=
  fun _ hs => ⟨hs.depth, hs.results, hs.heap⟩

lemma ends_breakLine :
    Ends (Level rt d k w) (e.breakLine : Encode Obj H a _) fun _ => Level rt d k w := by
  refine .get_bind fun s _ => ?_
  by_cases h : e.indent = true
  · rw [if_pos h]
    exact ends_emit _
  · rw [if_neg h]
    exact .pure fun _ hs => hs

lemma ends_close (c : UInt8) : Ends (Level rt (d + 1) k w)
    (leave >>= fun _ => e.breakLine >>= fun _ => emit (·.push c) : Encode Obj H a Unit)
    fun _ => Level rt d k w :=
  ends_leave.bind fun _ => e.ends_breakLine.bind fun _ => ends_emit _

lemma ends_date (obj : Obj) :
    Ends (Level rt d k w) (e.date obj : Encode Obj H a _) fun _ => Level rt d k w := by
  refine (e.ends_look obj).bind fun p => ?_
  split
  · exact .get_bind fun s _ => (Ends.unchecked fun _ _ hs => hs).bind fun _ => ends_emit _
  · exact .fault

variable (hkeep : e.rt.KeepsContainers)

include hkeep

lemma ends_fail (msg : String) :
    Ends (Level e.rt d k w) (e.fail msg : Encode Obj H a α) fun _ => Level e.rt d k w :=
  (e.asks_fail msg).ends hkeep

lemma ends_str (obj : Obj) :
    Ends (Level e.rt d k w) (e.str obj : Encode Obj H a _) fun _ => Level e.rt d k w := by
  refine (e.ends_look obj).bind fun p => ?_
  split
  · refine .get_bind fun s _ => (ends_emit _).bind fun _ => ?_
    split
    · exact .pure fun _ hs => hs
    · exact e.ends_fail hkeep _
  · exact .fault

lemma ends_intOutside64Bits (obj : Obj) (z : ℤ) :
    Ends (Level e.rt d k w) (e.intOutside64Bits obj z : Encode Obj H a _)
      fun _ => Level e.rt d k w := by
  unfold intOutside64Bits
  split
  · exact e.ends_fail hkeep _
  · refine ((e.asks_toBase _ _ _ _).ends hkeep).bind fun text => ?_
    cases text with
    | none => exact .throw _
    | some text =>
        have hread := (e.asks_utf8Of (a := a) text).ends hkeep (d := d) (k := k) (w := w)
        have htext : Ends (Level e.rt d k w) (e.utf8Text text : Encode Obj H a _)
            fun _ => Level e.rt d k w := hread.bind fun _ => ends_emit _
        exact .onExit (htext.mono fun _ _ hs => ⟨hs.depth, hs.results, hs.heap⟩)

lemma ends_int (obj : Obj) :
    Ends (Level e.rt d k w) (e.int obj : Encode Obj H a _) fun _ => Level e.rt d k w := by
  refine (e.ends_look obj).bind fun p => ?_
  split
  · next z _ =>
    split
    · refine .get_bind fun s _ => ?_
      split
      · exact .throw _
      · split
        · exact e.ends_fail hkeep _
        · exact ends_emit _
    · split
      · have hprobe : Ends (Level e.rt d k w) (asUnsignedLongLong z : Encode Obj H a ℤ)
            fun _ => Level e.rt d k w := by
          unfold asUnsignedLongLong
          split
          · exact .pure fun _ hs => hs
          · exact (ends_setExc _).bind fun _ => .pure fun _ hs => hs
        refine hprobe.bind fun u => .get_bind fun s _ => ?_
        split
        · exact ends_emit _
        · exact (ends_setExc _).bind fun _ => e.ends_intOutside64Bits hkeep obj z
      · exact e.ends_intOutside64Bits hkeep obj z
  · exact .fault

lemma ends_datetime (obj : Obj) :
    Ends (Level e.rt d k w) (e.datetime obj : Encode Obj H a _) fun _ => Level e.rt d k w := by
  refine (e.ends_look obj).bind fun p => ?_
  split
  · refine (ends_event _).bind fun _ => ((e.asks_utcoffsetOf _ _ _ _).ends hkeep).bind fun offset =>
      (ends_event _).bind fun _ => .get_bind fun s _ => ?_
    exact (Ends.unchecked fun _ _ hs => hs).bind fun _ => ends_emit _
  · exact .fault

lemma ends_time (obj : Obj) :
    Ends (Level e.rt d k w) (e.time obj : Encode Obj H a _) fun _ => Level e.rt d k w := by
  refine (e.ends_look obj).bind fun p => ?_
  split
  · refine (ends_event _).bind fun _ => ((e.asks_utcoffsetOf _ _ _ _).ends hkeep).bind fun offset =>
      (ends_event _).bind fun _ => .get_bind fun s _ => ?_
    exact (Ends.unchecked fun _ _ hs => hs).bind fun _ => ends_emit _
  · exact .fault

/-! ### numpy -/

omit hkeep in
lemma ends_walkArray {iface : PyArrayInterface} {elem : ElementType} {unit : Option Dt64Unit}
    (hnd : 0 < iface.nd) (hunit : UnitInRange unit) :
    Ends (Level rt d k w) (e.walkArray iface elem unit : Encode Obj H a _)
      fun _ => Level rt d k w := by
  intro s hs
  rcases e.walkArray_spec iface elem hnd hunit s with
    ⟨doc, out, -, hrun, -⟩ | ⟨reason, out, -, hrun, -⟩
  · rw [hrun]
    exact ⟨hs.depth, hs.results, hs.heap⟩
  · rw [hrun]
    exact ⟨hs.depth, hs.results, hs.heap⟩

lemma ends_serializeHeld (obj capsule : Obj) (iface : PyArrayInterface) :
    Ends (Level e.rt d k w) (e.serializeHeld obj capsule iface : Encode Obj H a _)
      fun _ => Level e.rt d k w := by
  unfold serializeHeld
  split
  · exact ((e.asks_arrayDecline obj iface _).ends hkeep).bind fun _ => .pure fun _ hs => hs
  · next elem hclass =>
    refine (((e.asks_arrayUnit obj elem iface.shape).ends hkeep).and fun s _ =>
      e.arrayUnit_known obj elem iface.shape s).bind fun r => ?_
    cases r with
    | error reason => exact .pure fun _ hs => hs.1
    | ok unit =>
        rintro s ⟨hs, hknown⟩
        exact (ends_event _).bind (fun _ => e.ends_walkArray (nd_pos_of_classify hclass)
          (hknown unit rfl).1) s hs

lemma ends_serializeArray (obj : Obj) :
    Ends (Level e.rt d k w) (e.serializeArray obj : Encode Obj H a _) fun _ => Level e.rt d k w := by
  refine ((e.asks_arrayStruct obj).ends hkeep).bind fun p => ?_
  refine Ends.onExit ?_
  exact (e.ends_serializeHeld hkeep obj p.1 p.2).mono fun _ _ hs => ⟨hs.depth, hs.results, hs.heap⟩

lemma ends_serializeScalar (obj : Obj) (elem : ElementType) :
    Ends (Level e.rt d k w) (e.serializeScalar obj elem : Encode Obj H a _)
      fun _ => Level e.rt d k w := by
  have hrest : ∀ unit : Option Dt64Unit, Ends (Level e.rt d k w)
      (e.scalarElement obj elem unit : Encode Obj H a (Option Decline)) fun _ => Level e.rt d k w := by
    intro unit
    refine (e.ends_look obj).bind fun p => ?_
    split
    · refine .get_bind fun s _ => ?_
      split
      · exact .fault
      · exact .pure fun _ hs => hs
      · exact (ends_emit _).bind fun _ => .pure fun _ hs => hs
    · exact .fault
  rw [serializeScalar_eq]
  split
  · refine ((e.asks_dt64Unit obj).ends hkeep).bind fun r => ?_
    cases r with
    | error reason => exact .pure fun _ hs => hs
    | ok unit => exact hrest (some unit)
  · exact hrest none

omit hkeep in
lemma ends_recognizeNumpy [DecidableEq Obj] (ty : Option Obj) :
    Ends (Level e.rt d k w) (e.recognizeNumpy ty : Encode Obj H a _) fun _ => Level e.rt d k w := by
  refine .get_bind fun s _ => ?_
  split
  · exact .pure fun _ hs => hs
  · split
    · exact .pure fun _ hs => hs
    · have hmark : Ends (Level e.rt d k w)
          (Run.modify fun s => { s with npRechecked := true } : Encode Obj H a Unit)
          fun _ => Level e.rt d k w := .modify fun _ hs => ⟨hs.depth, hs.results, hs.heap⟩
      exact hmark.bind fun _ => ends_cached

lemma ends_datetimeLike [DecidableEq Obj] {obj : Obj} {p : PyObj Obj} {dt : DtTypes Obj}
    {write : Encode Obj H a Unit} (hw : e.datetimeLike obj p dt = some write) :
    Ends (Level e.rt d k w) write fun _ => Level e.rt d k w := by
  unfold datetimeLike at hw
  split_ifs at hw
  · exact Option.some.inj hw ▸ e.ends_datetime hkeep obj
  · exact Option.some.inj hw ▸ e.ends_date obj
  · exact Option.some.inj hw ▸ e.ends_time hkeep obj

lemma ends_numpyWriter [DecidableEq Obj] {obj : Obj} {ty : Option Obj} {np : NumpyTypes Obj}
    {write : Encode Obj H a (Option Decline)} (hw : e.numpyWriter obj ty np = some write) :
    Ends (Level e.rt d k w) write fun _ => Level e.rt d k w := by
  unfold numpyWriter at hw
  split at hw
  · exact Option.some.inj hw ▸ e.ends_serializeArray hkeep obj
  · obtain ⟨elem, -, rfl⟩ := Option.map_eq_some_iff.mp hw
    exact e.ends_serializeScalar hkeep obj elem

end Env

end Code

/-! ## Containers -/

namespace Env

variable (e : Env Obj H) {d k : ℕ} {w : H} {self self' : ℕ → Obj → Encode Obj H a Unit}

/-- The recursion, and the one that watches it, settle at a level and come back to it. -/
def SettlesAt (d k : ℕ) (self self' : ℕ → Obj → Encode Obj H a Unit) : Prop :=
  ∀ w o, Settled (Level e.rt d k w) (self · o) (self' · o) fun _ => Level e.rt d k w

/-- A container is entered below the limit. -/
lemma ends_enter : Ends (Level e.rt d k w) (e.enter : Encode Obj H a _) fun _ s =>
    d + 1 ≤ e.maxDepth ∧ Level e.rt (d + 1) k w s := by
  refine .get_bind fun s hs => ?_
  by_cases hfull : e.maxDepth ≤ s.depth
  · rw [if_pos hfull]
    intro s1 _
    obtain ⟨s', hrun, -⟩ := (e.fail_run "Recursion limit reached" s1 : ∃ s', (e.fail _ :
      Encode Obj H a Unit) s1 = .error ⟨⟩ s' ∧ _)
    rw [hrun]
    trivial
  · rw [if_neg hfull]
    refine .modify fun s1 hs1 => ⟨?_, congrArg (· + 1) hs1.depth, hs1.results, hs1.heap⟩
    have hdepth := hs.depth
    omega

/-- A container, from entering it on. -/
lemma settled_enter {m m' : ℕ → Encode Obj H a Unit}
    (hm : d + 1 ≤ e.maxDepth → Settled (Level e.rt (d + 1) k w) m m' fun _ => Level e.rt d k w) :
    Settled (Level e.rt d k w) (fun n => e.enter >>= fun _ => m n) (fun n => e.enter >>= fun _ => m' n)
      fun _ => Level e.rt d k w :=
  e.ends_enter.settled.bind fun _ s hs => hm hs.1 s hs.2

/-- An empty container. -/
lemma ends_empty (text : Bytes) : Ends (Level e.rt (d + 1) k w)
    (leave >>= fun _ => emit (·.extend text) : Encode Obj H a Unit) fun _ => Level e.rt d k w :=
  ends_leave.bind fun _ => ends_emit _

/-- The comma in front of an item. -/
lemma settled_comma {p : Prop} [Decidable p] {m m' : ℕ → Encode Obj H a Unit}
    (hm : Settled (Level e.rt d k w) m m' fun _ => Level e.rt d k w) :
    Settled (Level e.rt d k w) (fun n => if p then emit (·.push 44) >>= fun _ => m n else m n)
      (fun n => if p then emit (·.push 44) >>= fun _ => m' n else m' n)
      fun _ => Level e.rt d k w :=
  .ite (fun _ => .after (ends_emit _) fun _ => hm) fun _ => hm

lemma settled_guarded (hself : e.SettlesAt d k self self') :
    e.SettlesAt d k (fun n => e.guarded (self n)) (fun n => e.guarded (self' n)) := by
  intro w item
  refine .ite (fun _ => ?_) fun _ => hself w item
  refine .after (e.ends_look item) fun p => .ite (fun _ => hself w item) fun _ => ?_
  refine .after ((ends_event _).bind fun _ => ends_event _) fun _ => .onExit ?_
  exact (hself w item).mono (fun _ hs => hs) fun _ _ hs => ⟨hs.depth, hs.results, hs.heap⟩

lemma settled_entryValue (hself : e.SettlesAt d k self self') (key value : Obj) :
    Settled (Level e.rt d k w) (fun n => e.entryValue (self n) key value)
      (fun n => e.entryValue (self' n) key value) fun _ => Level e.rt d k w := by
  refine .ite (fun _ => ?_) fun _ => hself w value
  refine .after (e.ends_look value) fun p => .ite (fun _ => hself w value) fun _ => ?_
  refine .after ((ends_event _).bind fun _ => ends_event _) fun _ => .onExit ?_
  exact (e.settled_guarded hself w value).mono (fun _ hs => hs)
    fun _ _ hs => ⟨hs.depth, hs.results, hs.heap⟩

lemma SettlesAt.shift (hself : e.SettlesAt d k self self') :
    e.SettlesAt d k (fun n => self (n + 1)) (fun n => self' (n + 1)) := fun w o => (hself w o).shift

/-! ### Lists and tuples -/

/-- The items are those that the list had. -/
lemma ends_listItems {obj : Obj} {items : List Obj} (hobj : (e.rt.view w obj).body = .list items) :
    Ends (Level e.rt d k w) (e.listItems obj : Encode Obj H a _)
      fun x s => x = items ∧ Level e.rt d k w s := by
  intro s hs
  have hnow := hs.heap.list obj items hobj
  have hrun : e.listItems obj s = .ok items { s with log := s.log ++ [.read (.obj obj)] } := by
    have hlook : e.look obj s =
        .ok (e.rt.view s.world.heap obj) { s with log := s.log ++ [.read (.obj obj)] } := rfl
    unfold listItems
    rw [bind_of_ok hlook, hnow]
    rfl
  rw [hrun]
  exact ⟨rfl, hs.depth, hs.results, hs.heap⟩

/-- The loop ends with the items that the list has: `rest` of them are left. -/
lemma settled_listLoop {obj : Obj} {items : List Obj}
    (hobj : (e.rt.view w obj).body = .list items) (rest i : ℕ) (hrest : items.length ≤ i + rest)
    (hself : e.SettlesAt d k self self') :
    Settled (Level e.rt d k w) (fun n => e.listLoop (self n) obj n i)
      (fun n => e.listLoop (self' n) obj n i) fun _ => Level e.rt d k w := by
  induction rest generalizing i self self' with
  | zero =>
      refine .succ (.after (e.ends_listItems hobj) ?_)
      rintro x s ⟨rfl, hs⟩
      have hend : x[i]? = none := List.getElem?_eq_none hrest
      simp only [hend]
      exact (Ends.pure fun _ hs => hs).settled s hs
  | succ rest ih =>
      refine .succ (.after (e.ends_listItems hobj) ?_)
      rintro x s ⟨rfl, hs⟩
      cases hitem : x[i]? with
      | none => exact (Ends.pure fun _ hs => hs).settled s hs
      | some item =>
          refine e.settled_comma (.after e.ends_breakLine fun _ => .after (ends_event _) fun _ => ?_) s hs
          refine .bind (e.settled_guarded hself.shift w item) fun _ => ?_
          exact ih (i + 1) (by omega) hself.shift

lemma settled_list {obj : Obj} {items : List Obj}
    (hobj : (e.rt.view w obj).body = .list items)
    (hself : d + 1 ≤ e.maxDepth → e.SettlesAt (d + 1) k self self') :
    Settled (Level e.rt d k w) (fun n => e.list (self n) n obj) (fun n => e.list (self' n) n obj)
      fun _ => Level e.rt d k w := by
  refine .after (e.ends_listItems hobj) ?_
  rintro x s ⟨rfl, hs⟩
  refine Settled.ite (fun _ => ?_) (fun _ => ?_) s hs
  · exact e.settled_enter fun _ => (e.ends_empty _).settled
  · refine e.settled_enter fun hroom => .after (ends_emit _) fun _ => ?_
    refine .bind (e.settled_listLoop hobj x.length 0 (by omega) (hself hroom)) fun _ => ?_
    exact (e.ends_close 93).settled

lemma settled_tupleLoop (obj : Obj) (i : ℕ) (items : List Obj) (hself : e.SettlesAt d k self self') :
    Settled (Level e.rt d k w) (fun n => e.tupleLoop (self n) obj i items)
      (fun n => e.tupleLoop (self' n) obj i items) fun _ => Level e.rt d k w := by
  induction items generalizing i with
  | nil =>
      have hdone : Ends (Level e.rt d k w) (Pure.pure () : Encode Obj H a Unit)
          fun _ => Level e.rt d k w := .pure fun _ hs => hs
      exact hdone.settled
  | cons item items ih =>
      refine e.settled_comma (.after e.ends_breakLine fun _ => .after (ends_event _) fun _ =>
        .after (ends_event _) fun _ => ?_)
      exact .bind (hself w item) fun _ => ih (i + 1)

lemma settled_tuple (obj : Obj)
    (hself : d + 1 ≤ e.maxDepth → e.SettlesAt (d + 1) k self self') :
    Settled (Level e.rt d k w) (fun n => e.tuple (self n) obj) (fun n => e.tuple (self' n) obj)
      fun _ => Level e.rt d k w := by
  refine .after (ends_event _) fun _ => e.settled_enter fun hroom => ?_
  refine Settled.ite (fun _ => (e.ends_empty _).settled) fun _ => .after (ends_emit _) fun _ => ?_
  exact .bind (e.settled_tupleLoop obj 0 _ (hself hroom)) fun _ => (e.ends_close 93).settled

/-! ### Dicts -/

/-- The slots are those that the dict had. -/
lemma ends_dictSlots {obj : Obj} {slots : List (Option (Entry Obj))}
    (hobj : (e.rt.view w obj).body = .dict slots) :
    Ends (Level e.rt d k w) (e.dictSlots obj : Encode Obj H a _)
      fun x s => x = slots ∧ Level e.rt d k w s := by
  intro s hs
  have hnow := hs.heap.dict obj slots hobj
  have hrun : e.dictSlots obj s = .ok slots { s with log := s.log ++ [.read (.obj obj)] } := by
    have hlook : e.look obj s =
        .ok (e.rt.view s.world.heap obj) { s with log := s.log ++ [.read (.obj obj)] } := rfl
    unfold dictSlots
    rw [bind_of_ok hlook, hnow]
    rfl
  rw [hrun]
  exact ⟨rfl, hs.depth, hs.results, hs.heap⟩

/-- A step of `PyDict_Next` goes on, and within the slots. -/
lemma lt_of_nextEntry {slots : List (Option (Entry Obj))} {pos next : ℕ} {kv : Entry Obj}
    (h : nextEntry slots pos = some (next, kv)) : pos < next ∧ next ≤ slots.length := by
  obtain ⟨⟨n, kv'⟩, hfirst, hnext⟩ := Option.map_eq_some_iff.mp h
  obtain ⟨-, hpos, hle⟩ := firstEntry_some hfirst
  obtain ⟨rfl, -⟩ := Prod.mk.inj hnext
  rw [List.length_drop] at hle
  omega

section Keys

variable (hkeep : e.rt.KeepsContainers)

include hkeep

lemma ends_writeKey (key : Obj) (first : Bool) :
    Ends (Level e.rt d k w) (e.writeKey key first : Encode Obj H a Unit)
      fun _ => Level e.rt d k w := by
  have hrest : Ends (Level e.rt d k w) (do
      e.breakLine
      e.str key
      if e.indent then emit (·.extend [58, 32]) else emit (·.push 58) : Encode Obj H a Unit)
      fun _ => Level e.rt d k w := by
    refine e.ends_breakLine.bind fun _ => (e.ends_str hkeep key).bind fun _ => ?_
    by_cases h : e.indent = true
    · rw [if_pos h]
      exact ends_emit _
    · rw [if_neg h]
      exact ends_emit _
  cases first with
  | true => exact hrest
  | false => exact (ends_emit _).bind fun _ => hrest

/-- The loop ends with the slots that the dict has: `rest` of them are left. -/
lemma settled_dictLoop {obj : Obj} {slots : List (Option (Entry Obj))}
    (hobj : (e.rt.view w obj).body = .dict slots) (rest pos : ℕ) (first : Bool)
    (hrest : slots.length ≤ pos + rest) (hself : e.SettlesAt d k self self') :
    Settled (Level e.rt d k w) (fun n => e.dictLoop (self n) obj n pos first)
      (fun n => e.dictLoop (self' n) obj n pos first) fun _ => Level e.rt d k w := by
  induction rest generalizing pos first self self' with
  | zero =>
      refine .succ (.after (e.ends_dictSlots hobj) ?_)
      rintro x s ⟨rfl, hs⟩
      cases hnext : nextEntry x pos with
      | none => exact (Ends.pure fun _ hs => hs).settled s hs
      | some next =>
          obtain ⟨next, kv⟩ := next
          have hlt := lt_of_nextEntry hnext
          omega
  | succ rest ih =>
      refine .succ (.after (e.ends_dictSlots hobj) ?_)
      rintro x s ⟨rfl, hs⟩
      cases hnext : nextEntry x pos with
      | none => exact (Ends.pure fun _ hs => hs).settled s hs
      | some next =>
          obtain ⟨next, key, value⟩ := next
          have hlt := lt_of_nextEntry hnext
          refine Settled.after (ends_event _) (fun _ => .after (ends_event _) fun _ =>
            .after (e.ends_look key) fun p => ?_) s hs
          cases p.body with
          | str t =>
              refine .after (e.ends_writeKey hkeep key first) fun _ => ?_
              refine .bind (e.settled_entryValue hself.shift key value) fun _ => ?_
              exact ih next false (by omega) hself.shift
          | _ => exact (e.ends_fail hkeep _).settled

lemma settled_sortedLoop (first : Bool) (entries : List (Entry Obj))
    (hself : e.SettlesAt d k self self') :
    Settled (Level e.rt d k w) (fun n => e.sortedLoop (self n) first entries)
      (fun n => e.sortedLoop (self' n) first entries) fun _ => Level e.rt d k w := by
  induction entries generalizing first with
  | nil =>
      have hdone : Ends (Level e.rt d k w) (Pure.pure () : Encode Obj H a Unit)
          fun _ => Level e.rt d k w := .pure fun _ hs => hs
      exact hdone.settled
  | cons entry entries ih =>
      refine .after (e.ends_writeKey hkeep entry.1 first) fun _ => ?_
      exact .bind (hself w entry.2) fun _ => ih false

lemma settled_dictSorted {obj : Obj} {slots : List (Option (Entry Obj))}
    (hobj : (e.rt.view w obj).body = .dict slots) (hself : e.SettlesAt d k self self') :
    Settled (Level e.rt d k w) (fun n => e.dictSorted (self n) obj)
      (fun n => e.dictSorted (self' n) obj) fun _ => Level e.rt d k w := by
  refine .after (e.ends_dictSlots hobj) ?_
  rintro x s ⟨rfl, hs⟩
  refine Settled.after ((asks_holdEntries obj _).ends hkeep) (fun _ => .onExit ?_) s hs
  have hwrite : Settled (Level e.rt d k w) (fun n => e.writeSorted (self n) x.reduceOption)
      (fun n => e.writeSorted (self' n) x.reduceOption) fun _ => Level e.rt d k w :=
    .after ((e.asks_keyedEntries _).ends hkeep) fun keyed => e.settled_sortedLoop hkeep true _ hself
  refine hwrite.mono (fun _ hs => hs) fun _ s1 hs1 => ?_
  obtain ⟨log, h⟩ := release_eq x.reduceOption s1
  rw [h]
  exact ⟨hs1.depth, hs1.results, hs1.heap⟩

lemma settled_dict {obj : Obj} {slots : List (Option (Entry Obj))}
    (hobj : (e.rt.view w obj).body = .dict slots)
    (hself : d + 1 ≤ e.maxDepth → e.SettlesAt (d + 1) k self self') :
    Settled (Level e.rt d k w) (fun n => e.dict (self n) n obj) (fun n => e.dict (self' n) n obj)
      fun _ => Level e.rt d k w := by
  refine .after (ends_event _) fun _ => e.settled_enter fun hroom => .after (e.ends_dictSlots hobj) ?_
  rintro x s ⟨rfl, hs⟩
  refine Settled.ite (fun _ => (e.ends_empty _).settled) (fun _ => .after (ends_emit _) fun _ => ?_) s hs
  refine .ite (fun _ => ?_) fun _ => ?_
  · exact .bind (e.settled_dictSorted hkeep hobj (hself hroom)) fun _ => (e.ends_close 125).settled
  · refine .bind (e.settled_dictLoop hkeep hobj x.length 0 true (by omega) (hself hroom)) fun _ => ?_
    exact (e.ends_close 125).settled

end Keys

/-! ## `default` -/

/-- `default` answers below the limit. -/
lemma ends_invokeDefault (hkeep : e.rt.KeepsContainers) (obj : Obj) :
    Ends (Level e.rt d k w) (e.invokeDefault obj : Encode Obj H a _)
      fun r s => Level e.rt d k w s ∧ ∀ x, r = .ok x → k + 1 ≤ MAX_DEFAULT_DEPTH := by
  refine ((e.asks_invokeDefault obj).ends hkeep).and (C := fun _ => True) (E := fun _ _ => True) ?_
  intro s hs
  apply wp_of_returns
  rintro r s' hrun x rfl
  by_contra hfull
  -- at the limit the run returns an error
  have htoo : MAX_DEFAULT_DEPTH ≤ s.defaultDepth := by
    rw [hs.results]
    omega
  have hwp : wp (fun _ => True) (e.invokeDefault obj : Encode Obj H a _)
      (fun r _ => r = .error .tooDeep) (fun _ _ => True) s := by
    unfold invokeDefault
    rw [wp_bind, wp_get, if_pos htoo, wp_bind]
    exact wp_of_returns fun _ _ _ => rfl
  exact nomatch hwp.of_ok hrun

lemma settled_serializeDefaultResult (r : Obj) (hself : e.SettlesAt d (k + 1) self self') :
    Settled (Level e.rt d k w) (fun n => serializeDefaultResult (self n) r)
      (fun n => serializeDefaultResult (self' n) r) fun _ => Level e.rt d k w := by
  have hdeeper : Ends (Level e.rt d k w)
      (Run.modify fun s => { s with defaultDepth := s.defaultDepth + 1 } : Encode Obj H a Unit)
      fun _ => Level e.rt d (k + 1) w :=
    .modify fun _ hs => ⟨hs.depth, congrArg (· + 1) hs.results, hs.heap⟩
  refine .after hdeeper fun _ => .onExit ?_
  refine (hself w r).mono (fun _ hs => hs) fun _ s hs => ⟨hs.depth, ?_, hs.heap⟩
  show s.defaultDepth - 1 = k
  rw [hs.results, Nat.add_sub_cancel]

section Dispatch

variable (hkeep : e.rt.KeepsContainers)
  (hitem : d + 1 ≤ e.maxDepth → e.SettlesAt (d + 1) k self self')
  (hresult : k + 1 ≤ MAX_DEFAULT_DEPTH → e.SettlesAt d (k + 1) self self')

include hkeep hresult

lemma settled_callDefault (obj : Obj) :
    Settled (Level e.rt d k w) (fun n => e.callDefault (self n) obj)
      (fun n => e.callDefault (self' n) obj) fun _ => Level e.rt d k w := by
  unfold callDefault
  cases e.default with
  | none => exact .after (e.ends_look obj) fun p => (e.ends_fail hkeep _).settled
  | some f =>
      refine .after (e.ends_invokeDefault hkeep obj) fun r => ?_
      cases r with
      | ok r =>
          exact fun s hs => e.settled_serializeDefaultResult r (hresult (hs.2 r rfl)) s hs.1
      | error x => exact (Ends.throw _).settled

lemma settled_callDefaultDeclined (obj : Obj) (reason : Decline) :
    Settled (Level e.rt d k w) (fun n => e.callDefaultDeclined (self n) obj reason)
      (fun n => e.callDefaultDeclined (self' n) obj reason) fun _ => Level e.rt d k w := by
  have hnote : Ends (Level e.rt d k w) (e.addNote e.guard (declineNote reason) >>= fun _ =>
      Run.throw ⟨⟩ : Encode Obj H a Unit) fun _ => Level e.rt d k w :=
    ((e.asks_addNote _ _).ends hkeep).bind fun _ => .throw _
  unfold callDefaultDeclined
  cases e.default with
  | none => exact .after ((e.asks_raiseTypeError _).ends hkeep) fun _ => hnote.settled
  | some f =>
      refine .after (e.ends_invokeDefault hkeep obj) fun r => ?_
      cases r with
      | ok r =>
          exact fun s hs => e.settled_serializeDefaultResult r (hresult (hs.2 r rfl)) s hs.1
      | error x =>
          cases x with
          | tooDeep => exact (Ends.throw _).settled
          | raised => exact hnote.settled.mono (fun _ hs => hs.1) fun _ _ hs => hs

variable [DecidableEq Obj]

lemma settled_numpyOrDefault (obj : Obj) (p : PyObj Obj) :
    Settled (Level e.rt d k w) (fun n => e.numpyOrDefault (self n) obj p)
      (fun n => e.numpyOrDefault (self' n) obj p) fun _ => Level e.rt d k w := by
  refine .ite (fun _ => ?_) fun _ => e.settled_callDefault hkeep hresult obj
  refine .after (e.ends_recognizeNumpy _) fun r => ?_
  cases hw : r.bind (e.numpyWriter obj p.cls) with
  | none => exact e.settled_callDefault hkeep hresult obj
  | some write =>
      obtain ⟨np, -, hw⟩ := Option.bind_eq_some_iff.mp hw
      refine .after (e.ends_numpyWriter hkeep hw) fun reason => ?_
      cases reason with
      | none =>
          have hdone : Ends (Level e.rt d k w) (Pure.pure () : Encode Obj H a Unit)
              fun _ => Level e.rt d k w := .pure fun _ hs => hs
          exact hdone.settled
      | some reason => exact e.settled_callDefaultDeclined hkeep hresult obj reason

lemma settled_lateDatetime (obj : Obj) (p : PyObj Obj) :
    Settled (Level e.rt d k w) (fun n => e.lateDatetime (self n) obj p)
      (fun n => e.lateDatetime (self' n) obj p) fun _ => Level e.rt d k w := by
  refine .get_bind fun s _ => .ite (fun _ => ?_) fun _ => e.settled_numpyOrDefault hkeep hresult obj p
  refine .after (ends_datetimeGroup e.rt) fun dt => ?_
  have hset : Ends (Level e.rt d k w)
      (Run.modify fun s => { s with dt := dt } : Encode Obj H a Unit) fun _ => Level e.rt d k w :=
    .modify fun _ hs => ⟨hs.depth, hs.results, hs.heap⟩
  refine .after hset fun _ => ?_
  cases hw : dt.bind (e.datetimeLike obj p) with
  | none => exact e.settled_numpyOrDefault hkeep hresult obj p
  | some write =>
      obtain ⟨dt, -, hw⟩ := Option.bind_eq_some_iff.mp hw
      exact (e.ends_datetimeLike hkeep hw).settled

include hitem

lemma settled_serializeOther (obj : Obj) :
    Settled (Level e.rt d k w) (fun n => e.serializeOther (self n) n obj (e.rt.view w obj))
      (fun n => e.serializeOther (self' n) n obj (e.rt.view w obj)) fun _ => Level e.rt d k w := by
  refine .get_bind fun s _ => ?_
  cases hw : s.dt.bind (e.datetimeLike obj (e.rt.view w obj)) with
  | some write =>
      obtain ⟨dt, -, hw⟩ := Option.bind_eq_some_iff.mp hw
      exact (e.ends_datetimeLike hkeep hw).settled
  | none =>
      have hlate := e.settled_lateDatetime hkeep hresult obj (e.rt.view w obj) (w := w)
      by_cases hpass : hasOpt e.opts optPassthroughSubclass = true
      · simpa only [subclassLike, if_pos hpass] using hlate
      · cases hbody : (e.rt.view w obj).body with
        | str t => simpa only [subclassLike, if_neg hpass, hbody] using (e.ends_str hkeep obj).settled
        | int z => simpa only [subclassLike, if_neg hpass, hbody] using (e.ends_int hkeep obj).settled
        | dict slots =>
            simpa only [subclassLike, if_neg hpass, hbody] using e.settled_dict hkeep hbody hitem
        | list items =>
            simpa only [subclassLike, if_neg hpass, hbody] using e.settled_list hbody hitem
        | _ => simpa only [subclassLike, if_neg hpass, hbody] using hlate

/-- **One object** settles at the level it is at. -/
lemma settled_serializeBody : e.SettlesAt d k (fun n => e.serializeBody (self n) n)
    fun n => e.serializeBody (self' n) n := by
  intro w obj s hs
  -- the object is seen in the heap as it is now
  have hlook : Ends (fun s1 => s1.world.heap = s.world.heap ∧ Level e.rt d k s.world.heap s1)
      (e.look obj : Encode Obj H a _)
      fun p s1 => p = e.rt.view s.world.heap obj ∧ Level e.rt d k s.world.heap s1 := by
    rintro s1 ⟨hheap, hs1⟩
    exact ⟨congrArg (e.rt.view · obj) hheap, hs1.depth, hs1.results, hs1.heap⟩
  have hbody : Settled (fun s1 => s1.world.heap = s.world.heap ∧ Level e.rt d k s.world.heap s1)
      (fun n => e.serializeBody (self n) n obj) (fun n => e.serializeBody (self' n) n obj)
      fun _ => Level e.rt d k s.world.heap := by
    refine .after hlook fun p => ?_
    rintro s1 ⟨rfl, hs1⟩
    revert s1
    have hother := e.settled_serializeOther hkeep hitem hresult obj (w := s.world.heap)
    cases hcls : (e.rt.view s.world.heap obj).cls with
    | some c => exact hother
    | none =>
        cases hbody : (e.rt.view s.world.heap obj).body with
        | none => exact (ends_emit _).settled
        | bool b =>
            cases b with
            | true => exact (ends_emit _).settled
            | false => exact (ends_emit _).settled
        | int z => exact (e.ends_int hkeep obj).settled
        | float bits => exact (ends_emit _).settled
        | str t => exact (e.ends_str hkeep obj).settled
        | list items => exact e.settled_list hbody hitem
        | dict slots => exact e.settled_dict hkeep hbody hitem
        | tuple => exact e.settled_tuple obj hitem
        | _ => exact hother
  refine (hbody.mono (fun _ h => h) fun _ s' hs' => ?_) s ⟨rfl, hs.depth, hs.results, .refl _ _⟩
  exact ⟨hs'.depth, hs'.results, hs.heap.trans hs'.heap⟩

end Dispatch

/-! ## The watch -/

/-- A re-entry that is watched, where `opened` containers are open and `results` results of `default`
are being serialized: it is for an item of one container more or for one result more, as the
counters say too, and within the limits. -/
def watch (self : ℕ → ℕ → Obj → Encode Obj H a Unit) (opened results : ℕ) (obj : Obj) :
    Encode Obj H a Unit := do
  let s ← Run.get
  if s.depth = opened + 1 ∧ s.defaultDepth = results ∧ opened + 1 ≤ e.maxDepth then
    self (opened + 1) results obj
  else if s.depth = opened ∧ s.defaultDepth = results + 1 ∧ results + 1 ≤ MAX_DEFAULT_DEPTH then
    self opened (results + 1) obj
  else Run.fault

/-- `serialize`, with every re-entry watched. -/
def watched [DecidableEq Obj] : ℕ → ℕ → ℕ → Obj → Encode Obj H a Unit
  | 0, _, _, _ => Run.starve
  | fuel + 1, opened, results, obj =>
      e.serializeBody (e.watch (watched fuel) opened results) fuel obj

lemma watch_item {self : ℕ → ℕ → Obj → Encode Obj H a Unit} (hroom : d + 1 ≤ e.maxDepth) (obj : Obj)
    {s : St Obj H a} (hs : Level e.rt (d + 1) k w s) :
    e.watch self d k obj s = self (d + 1) k obj s := by
  unfold watch
  rw [bind_of_ok (get_apply s), if_pos ⟨hs.depth, hs.results, hroom⟩]

lemma watch_result {self : ℕ → ℕ → Obj → Encode Obj H a Unit} (hroom : k + 1 ≤ MAX_DEFAULT_DEPTH)
    (obj : Obj) {s : St Obj H a} (hs : Level e.rt d (k + 1) w s) :
    e.watch self d k obj s = self d (k + 1) obj s := by
  have hdepth := hs.depth
  unfold watch
  rw [bind_of_ok (get_apply s), if_neg (by omega), if_pos ⟨hs.depth, hs.results, hroom⟩]

/-- **Every path ends**: with each container and each result of `default`, what is left of the two
limits decreases. -/
lemma settled_serialize [DecidableEq Obj] (hkeep : e.rt.KeepsContainers) (left d k : ℕ)
    (hleft : e.maxDepth - d + (MAX_DEFAULT_DEPTH - k) ≤ left) :
    e.SettlesAt (a := a) d k e.serialize (e.watched · d k) := by
  induction left using Nat.strong_induction_on generalizing d k with
  | _ left ih =>
      intro w obj
      refine .succ ?_
      refine e.settled_serializeBody hkeep (fun hroom w o => ?_) (fun hroom w o => ?_) w obj
      · refine (ih (left - 1) (by omega) (d + 1) k (by omega) w o).congr fun n s hs => ?_
        exact e.watch_item hroom o hs
      · refine (ih (left - 1) (by omega) d (k + 1) (by omega) w o).congr fun n s hs => ?_
        exact e.watch_result hroom o hs

end Env

/-! ## Refusals -/

/-- Each of the runs ends with the same `TypeError`.  Nothing is written, no Python code runs, and
nothing is borrowed from any container. -/
def Host.Refuses {ι : Type} (h : Host Obj H) (msg : String) (m : ι → Encode Obj H a Unit)
    (s : St Obj H a) : Prop :=
  ∃ s' log, (∀ i, m i s = .error ⟨⟩ s') ∧ s'.out = s.out ∧ s'.exc = some (h.raisedFor msg s.world) ∧
    s'.log = s.log ++ log ∧
    ∀ ev ∈ log, (∀ guard c, ev ≠ .python guard c) ∧ ∀ container item, ev ≠ .borrow container item

section Refusals

variable {s : St Obj H a}

lemma Host.refuses_fail (h : Host Obj H) (msg : String) (s : St Obj H a) :
    h.Refuses msg (fun _ : Unit => h.fail msg) s := by
  have hwp : wp (fun _ => False) (h.fail msg : Encode Obj H a Unit) (fun _ _ => False)
      (fun _ s' => s'.out = s.out ∧ s'.exc = some (h.raisedFor msg s.world) ∧
        ∃ log, s'.log = s.log ++ log ∧ ∀ ev ∈ log, (∀ guard c, ev ≠ .python guard c) ∧
          ∀ container item, ev ≠ .borrow container item) s := by
    unfold fail raiseTypeError raisedFor
    rw [wp_bind, wp_bind]
    refine h.wp_request (fun text w hr => ?_) fun exc w hr => ?_
    · rw [hr]
      exact ⟨rfl, rfl, [.take (.obj text), .drop (.obj text)], by simp, by simp⟩
    · rw [hr]
      exact ⟨rfl, rfl, [], by simp, by simp⟩
  rcases hwp.cases with ⟨_, _, -, hno⟩ | ⟨err, s', hrun, hout, hexc, log, hlog, hquiet⟩
  · exact hno.elim
  · exact ⟨s', log, fun _ => hrun, hout, hexc, hlog, hquiet⟩

/-- A look at the container itself comes before the refusal. -/
lemma Host.Refuses.after_read {ι : Type} {h : Host Obj H} {msg : String} {m : ι → Encode Obj H a Unit}
    {o : Obj} (hfail : h.Refuses msg (fun _ : Unit => h.fail msg)
      ({ s with log := s.log ++ [.read (.obj o)] } : St Obj H a))
    (hm : ∀ i s', (h.fail msg : Encode Obj H a Unit) { s with log := s.log ++ [.read (.obj o)] } =
      .error ⟨⟩ s' → m i s = .error ⟨⟩ s') : h.Refuses msg m s := by
  obtain ⟨s', log, hrun, hout, hexc, hlog, hquiet⟩ := hfail
  refine ⟨s', .read (.obj o) :: log, fun i => hm i s' (hrun ()), hout, hexc, ?_, ?_⟩
  · rw [hlog]
    simp
  · intro ev hev
    rcases List.mem_cons.mp hev with rfl | hev
    · exact ⟨fun _ _ => by simp, fun _ _ => by simp⟩
    · exact hquiet ev hev

namespace Env

variable (e : Env Obj H)

lemma enter_refuses {s1 s' : St Obj H a}
    (hrun : (e.fail "Recursion limit reached" : Encode Obj H a Unit) s1 = .error ⟨⟩ s')
    (hfull : e.maxDepth ≤ s1.depth) : e.enter s1 = .error ⟨⟩ s' := by
  unfold enter
  rw [bind_of_ok (get_apply s1), if_pos hfull]
  exact hrun

/-- **The container beyond the limit** is refused before its items are looked at. -/
lemma list_refuses (hfull : e.maxDepth ≤ s.depth) {obj : Obj} {items : List Obj}
    (hobj : (e.rt.view s.world.heap obj).body = .list items) :
    e.Refuses "Recursion limit reached"
      (fun i : (Obj → Encode Obj H a Unit) × ℕ => e.list i.1 i.2 obj) s := by
  refine (e.refuses_fail _ _).after_read (o := obj) fun i s' hrun => ?_
  have hitems : e.listItems obj s = .ok items { s with log := s.log ++ [.read (.obj obj)] } := by
    have hlook : e.look obj s =
        .ok (e.rt.view s.world.heap obj) { s with log := s.log ++ [.read (.obj obj)] } := rfl
    unfold listItems
    rw [bind_of_ok hlook, hobj]
    rfl
  have henter := e.enter_refuses hrun hfull
  unfold list
  rw [bind_of_ok hitems]
  by_cases hempty : items.length = 0
  · rw [if_pos hempty]
    exact bind_of_error henter
  · rw [if_neg hempty]
    exact bind_of_error henter

lemma tuple_refuses (hfull : e.maxDepth ≤ s.depth) (obj : Obj) :
    e.Refuses "Recursion limit reached" (fun self : Obj → Encode Obj H a Unit => e.tuple self obj) s := by
  refine (e.refuses_fail _ _).after_read (o := obj) fun self s' hrun => ?_
  show (e.enter >>= fun _ => _) ({ s with log := s.log ++ [.read (.obj obj)] } : St Obj H a) = _
  exact bind_of_error (e.enter_refuses hrun hfull)

lemma dict_refuses (hfull : e.maxDepth ≤ s.depth) (obj : Obj) :
    e.Refuses "Recursion limit reached"
      (fun i : (Obj → Encode Obj H a Unit) × ℕ => e.dict i.1 i.2 obj) s := by
  refine (e.refuses_fail _ _).after_read (o := obj) fun i s' hrun => ?_
  show (e.enter >>= fun _ => _) ({ s with log := s.log ++ [.read (.obj obj)] } : St Obj H a) = _
  exact bind_of_error (e.enter_refuses hrun hfull)

/-- At the limit `default` is not called. -/
lemma invokeDefault_tooDeep (hfull : MAX_DEFAULT_DEPTH ≤ s.defaultDepth) (obj : Obj)
    {k : Except DefaultError Obj → Encode Obj H a Unit} (hk : k (.error .tooDeep) = Run.throw ⟨⟩) :
    (e.invokeDefault obj >>= k) s = e.fail "default serializer exceeds recursion limit" s := by
  have hsame : (e.invokeDefault obj >>= k) s =
      ((e.raiseTypeError "default serializer exceeds recursion limit" >>= fun _ =>
        Pure.pure (.error .tooDeep)) >>= k) s := by
    have hinvoke : (e.invokeDefault obj : Encode Obj H a _) s =
        (e.raiseTypeError "default serializer exceeds recursion limit" >>= fun _ =>
          Pure.pure (.error .tooDeep)) s := by
      unfold invokeDefault
      rw [bind_of_ok (get_apply s), if_pos hfull]
    show Run.bind _ k s = Run.bind _ k s
    unfold Run.bind
    rw [hinvoke]
  rw [hsame, bind_assoc]
  simp only [pure_bind, hk]
  rfl

/-- **The result of `default` beyond the limit** is refused without a call of `default`. -/
lemma callDefault_refuses (hfull : MAX_DEFAULT_DEPTH ≤ s.defaultDepth) {f : Obj}
    (hdefault : e.default = some f) (obj : Obj) :
    e.Refuses "default serializer exceeds recursion limit"
      (fun self : Obj → Encode Obj H a Unit => e.callDefault self obj) s := by
  obtain ⟨s', log, hrun, hrest⟩ := e.refuses_fail "default serializer exceeds recursion limit" s
  refine ⟨s', log, fun self => ?_, hrest⟩
  unfold callDefault
  rw [hdefault]
  exact (e.invokeDefault_tooDeep hfull obj rfl).trans (hrun ())

lemma callDefaultDeclined_refuses (hfull : MAX_DEFAULT_DEPTH ≤ s.defaultDepth) {f : Obj}
    (hdefault : e.default = some f) (obj : Obj) (reason : Decline) :
    e.Refuses "default serializer exceeds recursion limit"
      (fun self : Obj → Encode Obj H a Unit => e.callDefaultDeclined self obj reason) s := by
  obtain ⟨s', log, hrun, hrest⟩ := e.refuses_fail "default serializer exceeds recursion limit" s
  refine ⟨s', log, fun self => ?_, hrest⟩
  unfold callDefaultDeclined
  rw [hdefault]
  exact (e.invokeDefault_tooDeep hfull obj rfl).trans (hrun ())

end Env

end Refusals

/-! ## `dumps` -/

namespace Host

variable (h : Host Obj H)

/-- What keeps every level ends from every state. -/
lemma ends_of_levels {m : Encode Obj H a α}
    (hm : ∀ d k w, Ends (Level h.rt d k w) m fun _ => Level h.rt d k w) :
    Ends (fun _ => True) m fun _ _ => True := by
  intro s _
  exact (hm s.depth s.defaultDepth s.world.heap s ⟨rfl, rfl, .refl _ _⟩).mono fun _ _ _ => trivial

variable [DecidableEq Obj]

/-- The encoder starts with no container open and no result of `default` being serialized. -/
lemma ends_start (hint : ℕ) (default : Option Obj) (opts : UInt32) :
    Ends (fun _ => True) (h.start hint default opts : Encode Obj H a _)
      fun e s => (e.toHost = h ∧ e.maxDepth = MAX_DEPTH) ∧ s.depth = 0 ∧ s.defaultDepth = 0 := by
  refine (h.ends_of_levels fun d k w => ends_datetimeGroup h.rt).bind fun dt => ?_
  cases Buffer.new a hint with
  | none =>
      have hset : Ends (fun _ => True) (setExc (some (.system "MemoryError")) : Encode Obj H a Unit)
          fun _ _ => True := .modify fun _ h => h
      exact hset.bind fun _ => .throw _
  | some out =>
      have hstart : Ends (fun _ => True) (Run.modify fun s =>
          { s with out := out, depth := 0, defaultDepth := 0, dt := dt, npRechecked := false } :
          Encode Obj H a Unit) fun _ s => s.depth = 0 ∧ s.defaultDepth = 0 :=
        .modify fun _ _ => ⟨rfl, rfl⟩
      exact hstart.bind fun _ => .pure fun _ hs => ⟨⟨rfl, rfl⟩, hs⟩

omit [DecidableEq Obj] in
lemma ends_finish : Ends (fun _ => True) (finish : Encode Obj H a Bytes) fun _ _ => True := by
  refine .get_bind fun s _ => ?_
  have hmem : Ends (fun _ => True) (Run.unchecked s.out.raw.finish : Encode Obj H a _)
      fun _ _ => True := .unchecked fun _ _ h => h
  refine hmem.bind fun f => ?_
  cases f.result with
  | some o => exact .pure fun _ h => h
  | none =>
      have hset : Ends (fun _ => True) (setExc (some (.system "MemoryError")) : Encode Obj H a Unit)
          fun _ _ => True := .modify fun _ h => h
      exact hset.bind fun _ => .throw _

variable (hkeep : h.rt.KeepsContainers)

include hkeep

lemma settled_dumpsObject (hint : ℕ) (obj : Obj) (default : Option Obj) (opts : UInt32) :
    Settled (fun _ => True) (fun n => h.dumpsObject (a := a) hint n obj default opts)
      (fun n => h.dumpsObject hint n obj default opts) fun _ _ => True := by
  refine .after (h.ends_start hint default opts) fun e => ?_
  rintro s ⟨⟨rfl, hmax⟩, hdepth, hresults⟩
  have hobj : Settled (fun s : St Obj H a => s.depth = 0 ∧ s.defaultDepth = 0)
      (fun n => e.serialize n obj) (fun n => e.serialize n obj) fun _ _ => True := by
    intro s1 hs1
    have hlevel : Level e.rt 0 0 s1.world.heap s1 := ⟨hs1.1, hs1.2, .refl _ _⟩
    exact (((e.settled_serialize hkeep _ 0 0 le_rfl _ obj).left).mono (fun _ hs => hs)
      fun _ _ _ => trivial) s1 hlevel
  refine hobj.bind (fun _ => .ite (fun _ => .after ?_ fun _ => ends_finish.settled)
    fun _ => ends_finish.settled) s ⟨hdepth, hresults⟩
  exact .modify fun _ h => h

lemma settled_dumps (hint : ℕ) (args : List Obj) (kw : List (String × Obj)) :
    Settled (fun _ => True) (fun n => h.dumps (a := a) hint n args kw)
      (fun n => h.dumps hint n args kw) fun _ _ => True := by
  unfold dumps
  cases args with
  | nil => exact (h.asks_fail _).ended.settled
  | cons obj rest =>
      refine .ite (fun _ => (h.asks_fail _).ended.settled) fun _ => ?_
      refine .after (h.reports_keywordArgs _ kw _).2.ended fun given => ?_
      refine .after (h.reports_dropNone _).2.ended fun default => ?_
      refine .after (h.reports_checkDefault default).2.ended fun _ => ?_
      refine .after (h.reports_dropNone _).2.ended fun option => ?_
      refine .after (h.asks_parseOpts option).ended fun opts => ?_
      exact h.settled_dumpsObject hkeep hint obj default opts

end Host

/-- The limits in one call.  Every object is serialized in finitely many steps, with every re-entry
within the limits, and where that succeeds, both counters are back.  At the limits `default` is not
called, and a container is not looked into. -/
structure Env.KeepsLimits [DecidableEq Obj] (e : Env Obj H) (a : Allocator) : Prop where
  settles : ∀ obj (s : St Obj H a), Steady e.rt s → s.exc = none →
    ∃ N, ∃ o : Outcome (St Obj H a) PendingPyErr Unit, o.Answers ∧
      (∀ n, N ≤ n → e.serialize n obj s = o ∧ e.watched n s.depth s.defaultDepth obj s = o) ∧
      ∀ s', o = .ok () s' → s'.depth = s.depth ∧ s'.defaultDepth = s.defaultDepth
  default_refused : ∀ f, e.default = some f → ∀ obj (s : St Obj H a),
    MAX_DEFAULT_DEPTH ≤ s.defaultDepth →
    e.Refuses "default serializer exceeds recursion limit"
      (fun self : Obj → Encode Obj H a Unit => e.callDefault self obj) s ∧
    ∀ reason, e.Refuses "default serializer exceeds recursion limit"
      (fun self : Obj → Encode Obj H a Unit => e.callDefaultDeclined self obj reason) s
  container_refused : ∀ obj (s : St Obj H a), MAX_DEPTH ≤ s.depth →
    (∀ items, (e.rt.view s.world.heap obj).body = .list items →
      e.Refuses "Recursion limit reached"
        (fun i : (Obj → Encode Obj H a Unit) × ℕ => e.list i.1 i.2 obj) s) ∧
    e.Refuses "Recursion limit reached" (fun self : Obj → Encode Obj H a Unit => e.tuple self obj) s ∧
    e.Refuses "Recursion limit reached"
      (fun i : (Obj → Encode Obj H a Unit) × ℕ => e.dict i.1 i.2 obj) s

lemma Env.keepsLimits [DecidableEq Obj] (e : Env Obj H) (hl : e.rt.Layouts)
    (hkeep : e.rt.KeepsContainers) (hmax : e.maxDepth = MAX_DEPTH) : e.KeepsLimits a where
  settles obj s hs hexc := by
    have hsettles := e.settled_serialize (a := a) hkeep _ s.depth s.defaultDepth le_rfl
      s.world.heap obj s ⟨rfl, rfl, .refl _ _⟩
    obtain ⟨N, o, hanswers, hended, hrun⟩ :=
      hsettles.answers fun n => e.obeys_serialize hl n obj s hs hexc
    refine ⟨N, o, hanswers, hrun, ?_⟩
    rintro s' rfl
    exact ⟨hended.depth, hended.results⟩
  default_refused f hf obj s hfull :=
    ⟨e.callDefault_refuses hfull hf obj, e.callDefaultDeclined_refuses hfull hf obj⟩
  container_refused obj s hfull := by
    rw [← hmax] at hfull
    exact ⟨fun _ hobj => e.list_refuses hfull hobj, e.tuple_refuses hfull obj,
      e.dict_refuses hfull obj⟩

/-- **`dumps` terminates.**  Take any graph of objects, with cycles or without, any arguments and
options, and any code that runs in the call, `default` or other, which answers or raises, and leaves
the containers that are there as they are.  Then every call of `dumps` returns or raises, and the
encoder it runs keeps the limits. -/
theorem dumps_terminates [DecidableEq Obj] (h : Host Obj H) (hl : h.rt.Layouts)
    (hkeep : h.rt.KeepsContainers) :
    (∀ hint args kw (s : St Obj H a), s.world.types.Fits h.rt → s.exc = none →
      ∃ N, ∃ o : Outcome (St Obj H a) PendingPyErr Bytes, o.Answers ∧
        ∀ n, N ≤ n → h.dumps hint n args kw s = o) ∧
    ∀ e : Env Obj H, e.toHost = h → e.maxDepth = MAX_DEPTH → e.KeepsLimits a := by
  constructor
  · intro hint args kw s hs hexc
    obtain ⟨N, o, hanswers, -, hrun⟩ := (h.settled_dumps hkeep hint args kw s trivial).answers
      fun n => h.dumps_protocol hl hint n args kw hs hexc
    exact ⟨N, o, hanswers, fun n hn => (hrun n hn).1⟩
  · rintro e rfl hmax
    exact e.keepsLimits hl hkeep hmax

/-- A list that holds itself, and an object for `default`. -/
def listOfItself : Snapshot ℕ where
  view
    | 0 => ⟨none, "list", .list [0, 1]⟩
    | 3 => ⟨none, "NoneType", .none⟩
    | _ => ⟨none, "object", .other⟩
  tupleItems _ := []
  pyNone := 3
  memory _ := 0
  answer _ := .ok 1

/-- The list that holds itself is refused, and so is the object that `default` answers with itself. -/
theorem dumps_terminates_cyclic :
    (∃ N, ∃ o : Outcome (St ℕ Unit Allocator.plain) PendingPyErr Bytes, o.Answers ∧
      ∀ n, N ≤ n → listOfItself.host.dumps 0 n [0] [] (listOfItself.state ⟨none, none⟩) = o) ∧
    ∃ N, ∃ o : Outcome (St ℕ Unit Allocator.plain) PendingPyErr Bytes, o.Answers ∧
      ∀ n, N ≤ n → listOfItself.host.dumps 0 n [1, 2] [] (listOfItself.state ⟨none, none⟩) = o :=
  have hkeep : listOfItself.host.rt.KeepsContainers := fun _ _ => .refl _ _
  ⟨(dumps_terminates listOfItself.host listOfItself.layouts hkeep).1 0 [0] [] _
      (TypeCache.fits_empty _) rfl,
    (dumps_terminates listOfItself.host listOfItself.layouts hkeep).1 0 [1, 2] [] _
      (TypeCache.fits_empty _) rfl⟩

/-! ## A list that grows -/

/-- The list `0` holds a `datetime`, whose tzinfo appends it once more each time it is asked.  The heap
counts how often. -/
def growing : Runtime ℕ ℕ where
  view h
    | 0 => ⟨none, "list", .list (List.replicate (h + 1) 1)⟩
    | 1 => ⟨some 10, "datetime.datetime", .datetime ⟨2000, 1, 1, by decide, by decide⟩
        ⟨12, 34, 56, 7, by decide, by decide, by decide, by decide⟩ 2⟩
    | 3 => ⟨none, "datetime.timedelta", .delta ⟨0, 3600, 0, by decide, by decide⟩⟩
    | 4 => ⟨none, "NoneType", .none⟩
    | _ => ⟨some 11, "object", .other⟩
  tupleItems _ := []
  pyNone := 4
  memory _ _ := 0
  callable _ _ := true
  reply
    | .utcoffset _ _, w => (.ok 3, { w with heap := w.heap + 1 })
    | .default _, w => (.ok 4, w)
    | .newText _, w => (.ok 5, w)
    | _, w => (.raised 6, w)
  pylong _ _ := false
  modules := 7
  getItem _ _ _ := .missing
  moduleDict _ _ := none
  datetimeApi _ _ := none
  ownUtcoffset_valid _ _ _ _ h := absurd (congrArg Prod.fst h) (by simp)
  str_valid _ _ _ _ h := absurd (congrArg Prod.fst h) (by simp)
  toBase_decimal _ _ _ _ _ _ h := absurd (congrArg Prod.fst h) (by simp)

def growingTypes : DtTypes ℕ := ⟨10, 12, 13⟩

def growingHost : Host ℕ ℕ := ⟨growing, .portable, true, Formats.plain⟩

/-- With a `default` that answers `None`, and the datetime types loaded. -/
def growingEnv : Env ℕ ℕ := ⟨growingHost, some 8, 0, true, MAX_DEPTH⟩

def growingState : St ℕ ℕ Allocator.plain where
  out := Buffer.plain
  depth := 0
  defaultDepth := 0
  dt := none
  npRechecked := false
  world := ⟨0, ⟨some (9, growingTypes), none⟩⟩
  exc := none
  log := []

/-- The list has grown by one item. -/
def Grown (s s' : St ℕ ℕ Allocator.plain) : Prop :=
  s'.world.heap = s.world.heap + 1 ∧ s'.dt = s.dt

lemma growing_layouts : growing.Layouts where
  fixed h h' o := by
    unfold growing
    dsimp only
    split <;> rfl
  datetimeApi _ _ _ h := absurd h (Option.not_mem_none _)
  readNumpy _ _ np h :=
    absurd h (by simp [Runtime.readNumpy, Runtime.readNames, growing, Except.map])
  reply c w h := by
    cases c <;> exact h

lemma growing_fits : growingState.world.types.Fits growing where
  dt := by
    rintro _ ⟨⟩
    refine ⟨fun h o => ?_, fun h o => ?_, fun h o => ?_⟩ <;>
      (unfold growing growingTypes; dsimp only; split <;> simp [Body.layout])
  np _ h := absurd h (Option.not_mem_none _)

lemma datetime_grows (s : St ℕ ℕ Allocator.plain) :
    wp (fun _ => True) (growingEnv.datetime 1) (fun _ s' => Grown s s') (fun _ _ => False) s := by
  obtain ⟨s1, hs1⟩ : ∃ s1 : St ℕ ℕ Allocator.plain, s1 =
      { s with log := s.log ++ [.read (.obj 1)] ++ [.borrow 1 2] } := ⟨_, rfl⟩
  have hoffset : ∃ us s2, growingEnv.utcoffsetOf 1 2 1 "datetime" s1 = .ok (some us) s2 ∧
      Grown s s2 := by
    rw [hs1]
    exact ⟨_, _, rfl, rfl, rfl⟩
  obtain ⟨us, s2, hrun, hgrown⟩ := hoffset
  have hdatetime : ∀ out : Option (Buffer Allocator.plain), wp (fun _ => True) (do
      let out ← Run.unchecked out
      emit fun _ => out : Encode ℕ ℕ Allocator.plain Unit) (fun _ s' => Grown s s')
      (fun _ _ => False) { s2 with log := s2.log ++ [.read (.obj 1)] } := by
    intro out
    cases out with
    | none => trivial
    | some out => exact hgrown
  unfold Env.datetime
  rw [wp_bind, Host.wp_look]
  show wp _ (event (.borrow 1 2) >>= fun _ => growingEnv.utcoffsetOf 1 2 1 "datetime" >>= fun _ => _) _ _ _
  rw [wp_bind, wp_event, ← hs1, wp_bind_of_ok hrun]
  dsimp only
  rw [wp_bind, wp_event, wp_bind, wp_get]
  exact hdatetime _

/-- Whatever its fuel, the recursion does not get to the end of the list. -/
lemma serialize_grows (fuel : ℕ) (s : St ℕ ℕ Allocator.plain) (hs : s.dt = some growingTypes) :
    wp (fun _ => True) (growingEnv.serialize fuel 1) (fun _ s' => Grown s s') (fun _ _ => False) s := by
  cases fuel with
  | zero => trivial
  | succ fuel =>
      have hbody : growingEnv.serialize (fuel + 1) 1 s =
          growingEnv.datetime 1 { s with log := s.log ++ [.read (.obj 1)] } := by
        obtain ⟨out, depth, defaultDepth, dt, npRechecked, world, exc, log⟩ := s
        obtain rfl : dt = some growingTypes := hs
        rfl
      have hdatetime := datetime_grows { s with log := s.log ++ [.read (.obj 1)] }
      unfold wp at hdatetime ⊢
      rw [hbody]
      exact hdatetime

lemma listLoop_grows {self : ℕ → Encode ℕ ℕ Allocator.plain Unit}
    (hself : ∀ s, s.dt = some growingTypes →
      wp (fun _ => True) (self 1) (fun _ s' => Grown s s') (fun _ _ => False) s)
    (fuel : ℕ) {s : St ℕ ℕ Allocator.plain} (hs : s.dt = some growingTypes) :
    wp (fun _ => True) (growingEnv.listLoop self 0 fuel s.world.heap) (fun _ _ => False)
      (fun _ _ => False) s := by
  induction fuel generalizing s with
  | zero => trivial
  | succ fuel ih =>
      have hitem : (List.replicate (s.world.heap + 1) 1)[s.world.heap]? = some 1 := by
        simp
      -- the item, and then the list with one item more
      have hrest : ∀ s1 : St ℕ ℕ Allocator.plain, s1.dt = some growingTypes →
          s1.world.heap = s.world.heap →
          wp (fun _ => True) (do
            growingEnv.breakLine
            event (.borrow 0 1)
            growingEnv.guarded self 1
            growingEnv.listLoop self 0 fuel (s.world.heap + 1)) (fun _ _ => False)
            (fun _ _ => False) s1 := by
        intro s1 hs1 hheap
        show wp _ (Run.onExit (self 1) (·.dropped 1) >>= fun _ => _) _ _
          { s1 with log := s1.log ++ [.borrow 0 1] ++ [.read (.obj 1)] ++ [.read (.obj 1)] ++
            [.take (.obj 1)] }
        rw [wp_bind, wp_onExit]
        have hheld := hself { s1 with log := s1.log ++ [.borrow 0 1] ++ [.read (.obj 1)] ++
          [.read (.obj 1)] ++ [.take (.obj 1)] } hs1
        refine hheld.mono ?_ (fun _ _ h => h) fun _ h => h
        rintro _ s2 ⟨hheap2, hdt2⟩
        have hnext := @ih (s2.dropped 1) (hdt2.trans hs1)
        have hindex : (s2.dropped 1).world.heap = s.world.heap + 1 := by
          rw [← hheap]
          exact hheap2
        rwa [hindex] at hnext
      have hitems : growingEnv.listItems 0 s = .ok (List.replicate (s.world.heap + 1) 1)
          { s with log := s.log ++ [.read (.obj 0)] } := rfl
      unfold Env.listLoop
      rw [wp_bind_of_ok hitems]
      dsimp only
      rw [hitem]
      dsimp only
      by_cases hcomma : 0 < s.world.heap
      · rw [if_pos hcomma, wp_bind, wp_emit]
        exact hrest _ hs rfl
      · rw [if_neg hcomma]
        exact hrest _ hs rfl

lemma list_grows {self : ℕ → Encode ℕ ℕ Allocator.plain Unit}
    (hself : ∀ s, s.dt = some growingTypes →
      wp (fun _ => True) (self 1) (fun _ s' => Grown s s') (fun _ _ => False) s)
    (fuel : ℕ) {s : St ℕ ℕ Allocator.plain} (hs : s.dt = some growingTypes) (hdepth : s.depth = 0)
    (hheap : s.world.heap = 0) :
    wp (fun _ => True) (growingEnv.list self fuel 0) (fun _ _ => False) (fun _ _ => False) s := by
  have hitems : growingEnv.listItems 0 s = .ok (List.replicate (s.world.heap + 1) 1)
      { s with log := s.log ++ [.read (.obj 0)] } := rfl
  have hlen : ¬ (List.replicate (s.world.heap + 1) 1).length = 0 := by simp
  have henter : growingEnv.enter { s with log := s.log ++ [.read (.obj 0)] } =
      .ok () { s with depth := s.depth + 1, log := s.log ++ [.read (.obj 0)] } := by
    have hroom : ¬ growingEnv.maxDepth ≤ s.depth := by
      rw [hdepth]
      decide
    unfold Env.enter
    rw [bind_of_ok (get_apply _), if_neg hroom]
    rfl
  have hloop := listLoop_grows hself fuel
    (s := St.written { s with depth := s.depth + 1, log := s.log ++ [.read (.obj 0)] } (s.out.push 91)) hs
  have hindex : (St.written { s with depth := s.depth + 1, log := s.log ++ [.read (.obj 0)] }
      (s.out.push 91)).world.heap = 0 := hheap
  rw [hindex] at hloop
  unfold Env.list
  rw [wp_bind_of_ok hitems, if_neg hlen, wp_bind_of_ok henter, wp_bind, wp_emit, wp_bind]
  exact hloop.mono (fun _ _ h => False.elim h) (fun _ _ h => h) fun _ h => h

/-- **A list that grows** keeps `dumps` from ending, though `default` changes nothing: the list is read anew
at every item. -/
theorem dumps_grows :
    growing.Layouts ∧ growingState.world.types.Fits growing ∧ growingState.exc = none ∧
    (∀ x w, growing.SameContainers w.heap (growing.reply (.default x) w).2.heap) ∧
    ∀ n, ∃ s', growingHost.dumps 0 n [0, 8] [] growingState = .starved s' := by
  refine ⟨growing_layouts, growing_fits, rfl, fun _ _ => .refl _ _, fun n => ?_⟩
  have hcut : wp (fun _ => True) (growingHost.dumps 0 n [0, 8] [] : Encode ℕ ℕ Allocator.plain Bytes)
      (fun _ _ => False) (fun _ _ => False) growingState := by
    obtain ⟨s1, hstart, hdt, hdepth, hheap⟩ : ∃ s1, growingHost.dumps 0 n [0, 8] [] growingState =
        (growingEnv.serialize n 0 >>= fun _ => Host.finish) s1 ∧ s1.dt = some growingTypes ∧
        s1.depth = 0 ∧ s1.world.heap = 0 := ⟨_, rfl, rfl, rfl, rfl⟩
    unfold wp
    rw [hstart]
    show wp (fun _ => True) (growingEnv.serialize n 0 >>= fun _ => Host.finish) _ _ s1
    rw [wp_bind]
    cases n with
    | zero => trivial
    | succ n =>
        have hlist := list_grows (fun s hs => serialize_grows n s hs) n
          (s := { s1 with log := s1.log ++ [.read (.obj 0)] }) hdt hdepth hheap
        exact hlist.mono (fun _ _ h => False.elim h) (fun _ _ h => h) fun _ h => h
  have hsafe := growingHost.dumps_protocol growing_layouts 0 n [0, 8] [] growing_fits rfl
  unfold wp at hcut
  unfold Host.KeepsProtocol wlp at hsafe
  cases hrun : growingHost.dumps 0 n [0, 8] [] growingState with
  | ok out s' =>
      rw [hrun] at hcut
      exact hcut.elim
  | error x s' =>
      rw [hrun] at hcut
      exact hcut.elim
  | fault s' =>
      rw [hrun] at hsafe
      exact hsafe.elim
  | starved s' => exact ⟨s', rfl⟩

end Isojson
