import Isojson.NumpyText
import Isojson.Requests

/-!
# Arrays are written whole or not at all

`serialize_array` appends the layout of the whole array, or reports the first element in
row-major order that has no text and leaves the output and the depths as it found them.
-/

namespace Isojson

open Json Run

variable {Obj H : Type} {a : Allocator}

/-! ## The first element without a text -/

/-- The decline, if there is one. -/
def declined {α : Type} : Except Decline α → Option Decline
  | .error reason => some reason
  | .ok _ => none

@[simp] lemma declined_map {α β : Type} (f : α → β) (x : Except Decline α) :
    declined (x.map f) = declined x := by
  cases x <;> rfl

lemma declined_eq_some {α : Type} {x : Except Decline α} {reason : Decline} :
    declined x = some reason ↔ x = .error reason := by
  cases x <;> simp [declined]

/-- A row stops at its first decline. -/
lemma declined_mapM {α β : Type} (f : α → Except Decline β) (l : List α) :
    declined (l.mapM f) = l.findSome? fun x => declined (f x) := by
  induction l with
  | nil => rfl
  | cons x l ih =>
      rw [List.mapM_cons, List.findSome?_cons, ← ih]
      cases f x with
      | error reason => rfl
      | ok y => cases l.mapM f <;> rfl

lemma findSome?_flatMap {α β γ : Type} (f : β → Option γ) (g : α → List β) (l : List α) :
    (l.flatMap g).findSome? f = l.findSome? fun x => (g x).findSome? f := by
  induction l with
  | nil => rfl
  | cons x l ih =>
      rw [List.flatMap_cons, List.findSome?_append, List.findSome?_cons, ih]
      cases (g x).findSome? f <;> rfl

/-- **The first decline** of an array's document is that of its first element without a text, in
row-major order. -/
lemma declined_arrayDoc (text : ℤ → Except Decline Bytes) (dims : List (ℕ × ℤ)) (p : ℤ) :
    declined (arrayDoc text dims p) =
      (elementAddresses dims p).findSome? fun q => declined (text q) := by
  induction dims generalizing p with
  | nil =>
      rw [arrayDoc, declined_map, elementAddresses, List.findSome?_singleton]
  | cons dim rest ih =>
      obtain ⟨n, stride⟩ := dim
      rw [arrayDoc, declined_map, declined_mapM, elementAddresses, findSome?_flatMap]
      simp only [ih]

lemma dt64Text_eq_error_iff {opts : UInt32} {v : ℤ} {unit : Dt64Unit} {reason : Decline} :
    dt64Text opts v unit = .error reason ↔
      (dt64ToParts v unit = some (.error .genericUnit) ∧ reason = .genericUnit v) ∨
        (dt64ToParts v unit = some (.error .unrepresentable) ∧ reason = .unrepresentable v unit) := by
  unfold dt64Text
  rcases dt64ToParts v unit with _ | (_ | _) | (_ | p)
  · simp
  · simpa using eq_comm
  · simpa using eq_comm
  · simp
  · simp

/-- The elements that have no text: values of a generic unit and instants out of range. -/
lemma Leaves.text_error {l : Leaves} {n : ℕ} {reason : Decline} (h : l.text n = .error reason) :
    ∃ unit, l.unit = some unit ∧ dt64Text l.opts (signed 8 n) unit = .error reason := by
  obtain ⟨fmt, opts, elem, unit⟩ := l
  cases elem with
  | dt64 =>
      cases unit with
      | none => exact absurd h (by simp [text])
      | some unit =>
          refine ⟨unit, rfl, ?_⟩
          simp only [text] at h
          exact h
  | _ => exact absurd h (by simp [text, ElementType.intValue])

/-! ## `serialize_array` -/

namespace Env

variable (e : Env Obj H)

/-- A unit that was read from a dtype. -/
lemma dt64Unit_inRange (obj : Obj) (s : St Obj H a) :
    wp (fun _ => True) (e.dt64Unit obj) (fun r _ => ∀ unit, r = .ok unit → UnitInRange (some unit))
      (fun _ _ => True) s := by
  unfold dt64Unit
  rw [wp_bind]
  refine ((e.asks_dtypeStr obj).asked s).mono (fun dtype s' _ => ?_) (fun _ _ _ => trivial)
    fun _ _ => trivial
  split
  · next u hu =>
    rintro unit ⟨⟩
    exact unitInRange_of_parseDt64 hu
  · rintro unit ⟨⟩

/-- The end of `serialize_scalar`, where the unit is known. -/
def scalarElement (obj : Obj) (elem : ElementType) (unit : Option Dt64Unit) :
    Encode Obj H a (Option Decline) := do
  let p ← e.look obj
  match p.body with
  | .scalar data =>
      let s ← Run.get
      match (e.leaves elem unit).write s.out (Words.wordOf (data.take elem.size)) with
      | none => Run.fault
      | some (.error reason) => Pure.pure (some reason)
      | some (.ok out) => do
          emit fun _ => out
          Pure.pure none
  | _ => Run.fault

lemma serializeScalar_eq (obj : Obj) (elem : ElementType) :
    (e.serializeScalar obj elem : Encode Obj H a _) =
      if elem = .dt64 then
        e.dt64Unit obj >>= fun r => match r with
          | .error reason => Pure.pure (some reason)
          | .ok unit => e.scalarElement obj elem (some unit)
      else e.scalarElement obj elem none := by
  unfold serializeScalar
  split
  · refine congrArg (e.dt64Unit obj >>= ·) (funext fun r => ?_)
    cases r <;> rfl
  · rfl

/-- The unit is known wherever an element is read. -/
def UnitKnown (elem : ElementType) (unit : Option Dt64Unit) (shape : List ℕ) : Prop :=
  UnitInRange unit ∧ (elem = .dt64 → unit.isSome ∨ 0 ∈ shape)

lemma arrayUnit_known (obj : Obj) (elem : ElementType) (shape : List ℕ) (s : St Obj H a) :
    wp (fun _ => True) (e.arrayUnit obj elem shape)
      (fun r _ => ∀ unit, r = .ok unit → UnitKnown elem unit shape) (fun _ _ => True) s := by
  unfold arrayUnit
  split
  · rw [wp_bind]
    refine (e.dt64Unit_inRange obj s).mono (fun r s' h => ?_) (fun _ _ h => h) fun _ h => h
    rintro unit hunit
    cases r with
    | error reason => exact absurd hunit (by simp [Except.map])
    | ok u =>
        obtain rfl := Except.ok.inj hunit
        exact ⟨h u rfl, fun _ => Or.inl rfl⟩
  · next hcond =>
    rintro unit ⟨⟩
    refine ⟨fun u hu => absurd hu (Option.not_mem_none u), fun hdt => Or.inr ?_⟩
    by_contra hzero
    exact hcond ⟨hdt, hzero⟩

/-- What a run did that left the output and the depths as they were. -/
def Untouched (s s' : St Obj H a) : Prop :=
  s'.out.content = s.out.content ∧ s'.depth = s.depth ∧ s'.defaultDepth = s.defaultDepth

section Accepted

variable {obj capsule : Obj} {iface : PyArrayInterface} {elem : ElementType}
  {unit : Option Dt64Unit} {s s1 s2 : St Obj H a}
  (hiface : e.arrayStruct obj s = .ok (capsule, iface) s1)
  (hunit : e.arrayUnit obj elem iface.shape s1 = .ok (.ok unit) s2)

include hiface hunit

/-- Reading the interface and the unit writes nothing. -/
lemma frame_arrayUnit : s2.frame = s.frame :=
  (((e.asks_arrayUnit obj elem iface.shape).preserves s1).of_ok hunit).trans
    (((e.asks_arrayStruct obj).preserves s).of_ok hiface)

/-- An accepted array is walked. -/
lemma serializeArray_of_walk
    (hclass : classify iface.flags iface.nd iface.typekind iface.itemsize = .ok elem)
    {r : Option Decline} {s4 : St Obj H a}
    (hwalk : e.walkArray iface elem unit { s2 with log := s2.log ++ [.read (.obj capsule)] } =
      .ok r s4) : e.serializeArray obj s = .ok r (s4.dropped capsule) := by
  unfold serializeArray
  rw [bind_of_ok hiface]
  refine onExit_of_ok ?_
  unfold serializeHeld
  simp only [hclass]
  rw [bind_of_ok hunit]
  exact hwalk

end Accepted

/-- **Arrays are written whole or not at all.**  Take any accepted array: its interface and its
unit are read, and its elements lie at `elementAddresses`, in row-major order, in the memory at
the time of the walk.  If one of them has no text, `serialize_array` declines with the value and
the unit of the first such element, and the output's length and content and both depths are what
they were on entry; if none has, it returns with the layout of the whole array appended. -/
theorem serializeArray_whole_or_untouched (obj capsule : Obj) (iface : PyArrayInterface)
    (elem : ElementType) (unit : Option Dt64Unit) (s s1 s2 : St Obj H a)
    (hiface : e.arrayStruct obj s = .ok (capsule, iface) s1)
    (hclass : classify iface.flags iface.nd iface.typekind iface.itemsize = .ok elem)
    (hunit : e.arrayUnit obj elem iface.shape s1 = .ok (.ok unit) s2) :
    let text := (e.leaves elem unit).textAt (e.rt.memory s2.world.heap)
    let addresses := elementAddresses (iface.shape.zip iface.strides) iface.data
    (∀ reason, addresses.findSome? (fun p => declined (text p)) = some reason →
      ∃ s', e.serializeArray obj s = .ok (some reason) s' ∧ Untouched s s' ∧
        ∃ p ∈ addresses, ∃ v u, v = signed 8 (readNumber (e.rt.memory s2.world.heap) p elem.size) ∧
          unit = some u ∧
          ((dt64ToParts v u = some (.error .genericUnit) ∧ reason = .genericUnit v) ∨
            (dt64ToParts v u = some (.error .unrepresentable) ∧ reason = .unrepresentable v u))) ∧
    (addresses.findSome? (fun p => declined (text p)) = none →
      ∃ s' doc, e.serializeArray obj s = .ok none s' ∧
        arrayDoc text (iface.shape.zip iface.strides) iface.data = .ok doc ∧
        s'.out.content = s.out.content ++ doc.render e.indent s.depth ∧
        s'.depth = s.depth ∧ s'.defaultDepth = s.defaultDepth) := by
  intro text addresses
  have hfirst : declined (e.documentOf iface elem unit s2.world.heap) =
      addresses.findSome? fun p => declined (text p) := declined_arrayDoc text _ _
  -- nothing was written before the walk
  have hframe := e.frame_arrayUnit hiface hunit
  have hout : s2.out = s.out := congrArg Prod.fst hframe
  have hdepth : s2.depth = s.depth := congrArg (fun f => f.2.1) hframe
  have hdefault : s2.defaultDepth = s.defaultDepth := congrArg (fun f => f.2.2.1) hframe
  have hrange : UnitInRange unit := ((e.arrayUnit_known obj elem iface.shape s1).of_ok hunit unit rfl).1
  obtain ⟨s3, hs3⟩ : ∃ s3 : St Obj H a,
      s3 = { s2 with log := s2.log ++ [.read (.obj capsule)] } := ⟨_, rfl⟩
  have hheld : ∀ r s4, e.walkArray iface elem unit s3 = .ok r s4 →
      e.serializeArray obj s = .ok r (s4.dropped capsule) := fun r s4 hwalk =>
    e.serializeArray_of_walk hiface hunit hclass (hs3 ▸ hwalk)
  have hworld : s3.world = s2.world := by rw [hs3]
  rcases e.walkArray_spec iface elem (nd_pos_of_classify hclass) hrange s3 with
    ⟨doc, out, hdoc, hrun, hc⟩ | ⟨reason, out, hdoc, hrun, hc⟩
  · rw [hworld] at hdoc
    rw [hdoc] at hfirst
    refine ⟨fun reason h => ?_, fun _ => ⟨_, doc, hheld _ _ hrun, hdoc, ?_, ?_, ?_⟩⟩
    · rw [← hfirst] at h
      exact absurd h (by simp [declined])
    · rw [← hout, ← hdepth]
      subst hs3
      exact hc
    · subst hs3
      exact hdepth
    · subst hs3
      exact hdefault
  · rw [hworld] at hdoc
    rw [hdoc] at hfirst
    refine ⟨fun reason' h => ⟨_, hheld _ (s3.written out) ?_, ⟨?_, ?_, ?_⟩, ?_⟩, fun h => ?_⟩
    · rw [← hfirst] at h
      obtain rfl := Option.some.inj h
      exact hrun
    · rw [← hout]
      subst hs3
      exact hc
    · subst hs3
      exact hdepth
    · subst hs3
      exact hdefault
    · obtain ⟨p, hp, htext⟩ := List.exists_of_findSome?_eq_some h
      obtain ⟨u, hu, herror⟩ := Leaves.text_error (declined_eq_some.mp htext)
      exact ⟨p, hp, _, u, rfl, hu, dt64Text_eq_error_iff.mp herror⟩
    · rw [← hfirst] at h
      exact absurd h (by simp [declined])

end Env

/-- The dtype string of datetimes without a unit. -/
def genericDtype : StrObj where
  header := ⟨3, 0x64, none, Bytes.ascii "<M8"⟩
  chars := [60, 77, 56]
  holds := {
    code_points := by decide
    length_eq := rfl
    kind_eq := by decide
    narrow := by decide
    data_eq := by decide
    ascii := by decide
    cached := by decide }

/-- The interface of two datetimes in a row. -/
def twoDatetimes : PyArrayInterface where
  two := 2
  nd := 1
  typekind := 77
  itemsize := 8
  flags := 0x201
  shape := [2]
  strides := [8]
  data := 0
  length_shape := rfl
  length_strides := rfl

/-- An array of a NaT and of a one without a unit, its capsule, its dtype and the string of it. -/
def natThenOne : Snapshot ℕ where
  view
    | 1 => ⟨none, "PyCapsule", .capsule (some twoDatetimes)⟩
    | 3 => ⟨none, "str", .str genericDtype⟩
    | _ => ⟨none, "object", .other⟩
  tupleItems _ := []
  pyNone := 4
  memory p := if p = 7 then 0x80 else if p = 8 then 1 else 0
  answer
    | .getAttr 0 "__array_struct__" => .ok 1
    | .getAttr 0 "dtype" => .ok 2
    | _ => .ok 3

/-- The NaT is written as `null` before the value behind it is declined, and nothing of it
stays. -/
theorem serializeArray_nat_then_one :
    ∃ s', Env.serializeArray ⟨natThenOne.host, none, 0, true, MAX_DEPTH⟩ 0
        (natThenOne.state ⟨none, none⟩) = .ok (some (.genericUnit 1)) s' ∧ s'.out.content = [] := by
  obtain ⟨s', hrun, ⟨hc, -, -⟩, -⟩ := (Env.serializeArray_whole_or_untouched
    ⟨natThenOne.host, none, 0, true, MAX_DEPTH⟩ 0 1 twoDatetimes .dt64 (some ⟨.generic, 1⟩)
    (natThenOne.state ⟨none, none⟩) _ _ rfl rfl rfl).1 (.genericUnit 1) (by decide +kernel)
  exact ⟨s', hrun, hc⟩

end Isojson
