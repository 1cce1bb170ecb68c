import Isojson.Containers
import Isojson.Library.Inlining
import Isojson.SideEffects

/-!
# Shapes

What an object is to the encoder while Python code has no side effects (`Env.shape`): a text or the
array that it is written as, a container of other objects, or an object for `default`.
-/

namespace Isojson

open Json Run

variable {Obj H : Type} {a : Allocator}

/-! ## The numpy types -/

section Types

variable [DecidableEq Obj]

/-- The numpy group as `sys.modules` has it. -/
def Runtime.loadNumpy (rt : Runtime Obj H) (h : H) : Except Obj (Option (NumpyTypes Obj)) :=
  match rt.getItem h rt.modules "numpy" with
  | .failed exc => .error exc
  | .missing => .ok none
  | .found module =>
      match rt.moduleDict h module with
      | none => .ok none
      | some d => rt.readNumpy h d

namespace TypeCache

variable (rt : Runtime Obj H) (h : H) (c : TypeCache Obj)

/-- The group that numpy objects are told by: the cached one, or the one that will be. -/
def numpyGroup : Except Obj (Option (NumpyTypes Obj)) :=
  match c.np with
  | some (_, np) => .ok (some np)
  | none => rt.loadNumpy h

/-- The cached group was read from what is `sys.modules["numpy"]`. -/
def Current : Prop := ∀ p ∈ c.np, rt.getItem h rt.modules "numpy" = .found p.1

end TypeCache

end Types

/-- What the shapes go by: the heap, and the datetime and numpy types. -/
structure Scene (Obj H : Type) where
  heap : H
  dt : Option (DtTypes Obj)
  np : Except Obj (Option (NumpyTypes Obj))

/-! ## Leaves -/

namespace Env

variable (e : Env Obj H) (h : H)

def textShape (chars : List ℕ) : Shape Obj :=
  if chars.any fun c => decide (Utf8.IsSurrogate c) then .refused else .whole (.leaf (quoted chars))

def intShape (obj : Obj) (z : ℤ) : Shape Obj :=
  if hasOpt e.opts optStrictInteger ∧ ¬ (-9007199254740991 ≤ z ∧ z ≤ 9007199254740991) then .refused
  else if i64Min ≤ z ∧ z ≤ u64Max then .whole (.leaf (e.fmt.itoa z))
  else
    match e.rt.answer h (.toBase obj 10) with
    | .raised _ => .refused
    | .ok text =>
        match e.rt.answer h (.utf8 text) with
        | .raised _ => .refused
        | .ok _ => .whole (.leaf (Decimal.intText z))

def datetimeShape (obj : Obj) (body : Body Obj) : Shape Obj :=
  match body with
  | .datetime d t tzinfo =>
      match e.rt.offset h obj tzinfo obj with
      | none => .refused
      | some offset => .whole (.leaf (inQuotes (datetimeText ⟨d.y, d.mo, d.d, t.h, t.mi, t.s, t.us⟩
          (adjustedOffset e.opts offset) e.opts)))
  | _ => .refused

def dateShape (body : Body Obj) : Shape Obj :=
  match body with
  | .date d => .whole (.leaf (inQuotes (IsoTime.dateText d.y d.mo d.d)))
  | _ => .refused

def timeShape (obj : Obj) (body : Body Obj) : Shape Obj :=
  match body with
  | .time t tzinfo =>
      match e.rt.offset h obj tzinfo e.rt.pyNone with
      | none => .refused
      | some offset => .whole (.leaf (inQuotes
          (IsoTime.timeText t.h t.mi t.s (shownMicros e.opts t.us) ++ IsoTime.zoneText false offset)))
  | _ => .refused

/-! ## numpy -/

/-- The dtype string of an object, where it can be read. -/
def dtypeAnswer (obj : Obj) : Option Bytes :=
  match e.rt.answer h (.getAttr obj "dtype") with
  | .raised _ => none
  | .ok dtype =>
      match e.rt.answer h (.getAttr dtype "str") with
      | .raised _ => none
      | .ok s =>
          match (e.rt.view h s).body with
          | .str t =>
              if t.chars.any fun c => decide (Utf8.IsSurrogate c) then none
              else
                match e.rt.answer h (.utf8 s) with
                | .raised _ => none
                | .ok _ => some (Utf8.encodeAll t.chars)
          | _ => none

/-- What follows once the unit of datetime64 elements is read, if there are any. -/
def unitShape (obj : Obj) (needed : Bool) (k : Option Dt64Unit → Shape Obj) : Shape Obj :=
  if needed then
    match e.dtypeAnswer h obj with
    | none => .refused
    | some dtype =>
        match parseDt64 dtype with
        | none => .foreign
        | some unit => k (some unit)
  else k none

/-- What a numpy writer puts out, or declines. -/
def offerShape : Except Decline Doc → Shape Obj
  | .ok doc => .whole doc
  | .error _ => .foreign

/-- An array behind its capsule; one that is declined is for `default`. -/
def heldShape (obj : Obj) (iface : PyArrayInterface) : Shape Obj :=
  match classify iface.flags iface.nd iface.typekind iface.itemsize with
  | .error .notContiguous => .foreign
  | .error _ => if (e.dtypeAnswer h obj).isSome then .foreign else .refused
  | .ok elem =>
      e.unitShape h obj (decide (elem = .dt64 ∧ 0 ∉ iface.shape)) fun unit =>
        offerShape (e.documentOf iface elem unit h)

def arrayShape (obj : Obj) : Shape Obj :=
  match e.rt.answer h (.getAttr obj "__array_struct__") with
  | .raised _ => .refused
  | .ok capsule =>
      match (e.rt.view h capsule).body with
      | .capsule (some iface) => if iface.two = 2 then e.heldShape h obj iface else .refused
      | _ => .refused

def elementShape (body : Body Obj) (elem : ElementType) (unit : Option Dt64Unit) : Shape Obj :=
  match body with
  | .scalar data =>
      offerShape (((e.leaves elem unit).text (Words.wordOf (data.take elem.size))).map .leaf)
  | _ => .refused

def scalarShape (obj : Obj) (body : Body Obj) (elem : ElementType) : Shape Obj :=
  e.unitShape h obj (decide (elem = .dt64)) (e.elementShape body elem)

/-! ## Containers -/

/-- The key can be written. -/
def goodKey (key : Obj) : Bool := (keyError (e.rt.strChars h key)).isNone

/-- The text of a key, and the value. -/
def member (kv : Entry Obj) : Bytes × Obj := (quoted ((e.rt.strChars h kv.1).getD []), kv.2)

/-- With `OPT_SORT_KEYS` no member is written before all keys were checked. -/
def dictShape (slots : List (Option (Entry Obj))) : Shape Obj :=
  let entries := slots.reduceOption
  let complete := entries.all fun kv => e.goodKey h kv.1
  if hasOpt e.opts optSortKeys then
    if complete then .object ((sortByKey (e.rt.strChars h) entries).map (e.member h)) true
    else .object [] false
  else .object ((entries.takeWhile fun kv => e.goodKey h kv.1).map (e.member h)) complete

/-! ## Dispatch -/

variable [DecidableEq Obj]

def datetimeLikeShape (obj : Obj) (p : PyObj Obj) (dt : DtTypes Obj) : Option (Shape Obj) :=
  if hasOpt e.opts optPassthroughDatetime then none
  else if p.cls = some dt.datetime then some (e.datetimeShape h obj p.body)
  else if p.cls = some dt.date then some (dateShape p.body)
  else if p.cls = some dt.time then some (e.timeShape h obj p.body)
  else none

omit [DecidableEq Obj] in
def subclassShape (obj : Obj) (p : PyObj Obj) : Option (Shape Obj) :=
  if hasOpt e.opts optPassthroughSubclass then none
  else
    match p.body with
    | .str t => some (textShape t.chars)
    | .int z => some (e.intShape h obj z)
    | .dict slots => some (e.dictShape h slots)
    | .list items => some (.array items)
    | _ => none

def numpyWriterShape (obj : Obj) (p : PyObj Obj) (np : NumpyTypes Obj) : Option (Shape Obj) :=
  if p.cls = some np.ndarray then some (e.arrayShape h obj)
  else (np.scalar p.cls).map fun elem => e.scalarShape h obj p.body elem

def numpyShape (np : Except Obj (Option (NumpyTypes Obj))) (obj : Obj) (p : PyObj Obj) : Shape Obj :=
  if hasOpt e.opts optSerializeNumpy then
    match np with
    | .error _ => .refused
    | .ok np =>
        match (np.filter (·.contains p.cls)).bind (e.numpyWriterShape h obj p) with
        | none => .foreign
        | some shape => shape
  else .foreign

def otherShape (sc : Scene Obj H) (obj : Obj) (p : PyObj Obj) : Shape Obj :=
  match sc.dt.bind (e.datetimeLikeShape sc.heap obj p) with
  | some shape => shape
  | none =>
      match e.subclassShape sc.heap obj p with
      | some shape => shape
      | none => e.numpyShape sc.heap sc.np obj p

/-- **The shape of an object.** -/
def shape (sc : Scene Obj H) (obj : Obj) : Shape Obj :=
  let p := e.rt.view sc.heap obj
  match p.cls, p.body with
  | none, .str t => textShape t.chars
  | none, .int z => e.intShape sc.heap obj z
  | none, .float bits => .whole (.leaf (Buffer.f64Text e.fmt bits))
  | none, .bool b => .whole (.leaf (if b then Bytes.ascii "true" else Bytes.ascii "false"))
  | none, .none => .whole (.leaf (Bytes.ascii "null"))
  | none, .dict slots => e.dictShape sc.heap slots
  | none, .list items => .array items
  | none, .tuple => .array (e.rt.tupleItems obj)
  | _, _ => e.otherShape sc obj p

/-- What `default` replaces an object by. -/
def replace : Option (Obj → Option Obj) :=
  e.default.map fun _ x =>
    match e.rt.answer h (.default x) with
    | .ok r => some r
    | .raised _ => none

/-- **The documents** that objects are. -/
def reader (sc : Scene Obj H) : Reader Obj where
  shape := e.shape sc
  replace := e.replace sc.heap
  maxDepth := e.maxDepth
  maxChain := MAX_DEFAULT_DEPTH

end Env

/-! ## The writers -/

/-- A writer of objects of one shape, over one heap, puts out the document or raises. -/
abbrev PutsShape (h : H) (d : ℕ) (i : Bool) (shape : Shape Obj) (m : Encode Obj H a Unit) : Prop :=
  Puts (fun h' => h' = h) d i True (shape = .refused) (fun doc => shape = .whole doc) m

/-- The end of a writer of numpy objects, which puts out the document or declines and leaves the output
as it was. -/
def Offered (h : H) (d : ℕ) (i : Bool) (c : Bytes) (shape : Shape Obj) :
    Option Decline → St Obj H a → Prop
  | none, s => ∃ doc, shape = .whole doc ∧ At (fun h' => h' = h) d (c ++ doc.render i d) s
  | some _, s => shape = .foreign ∧ At (fun h' => h' = h) d c s

/-- A writer of numpy objects of one shape. -/
def OffersShape (h : H) (d : ℕ) (i : Bool) (shape : Shape Obj) (m : Encode Obj H a (Option Decline)) :
    Prop :=
  ∀ c s, At (fun h' => h' = h) d c s →
    wp (fun _ => True) m (Offered h d i c shape) (fun _ _ => shape = .refused) s

lemma Offered.logged {h : H} {d : ℕ} {i : Bool} {c : Bytes} {shape : Shape Obj} {r : Option Decline}
    {s : St Obj H a} (hr : Offered h d i c shape r s) (log : List (Event Obj)) :
    Offered h d i c shape r { s with log := log } := by
  cases r with
  | none =>
      obtain ⟨doc, hdoc, hs⟩ := hr
      exact ⟨doc, hdoc, hs.logged log⟩
  | some reason => exact ⟨hr.1, hr.2.logged log⟩

namespace Env

variable {e : Env Obj H} {h : H} {d : ℕ} {c : Bytes} {s : St Obj H a} {obj : Obj}

lemma puts_textShape {chars : List ℕ} (hview : e.rt.strChars h obj = some chars) :
    PutsShape h d e.indent (textShape chars) (e.str obj : Encode Obj H a Unit) := by
  have hshape : Writable (some chars) chars ↔
      ¬ (chars.any fun c => decide (Utf8.IsSurrogate c)) = true := by
    simp [Writable]
  refine e.puts_str (fun h' hh => hh ▸ hview) (fun hw => ?_) fun hw => ?_
  · rw [textShape, if_neg (hshape.mp hw)]
  · rw [textShape, if_pos (not_not.mp (mt hshape.mpr hw))]

/-! ### Requests -/

section Answers

variable (hrt : e.rt.SideEffectFree) (hs : At (fun h' => h' = h) d c s) {call : Call Obj}
  {Q : Option Obj → St Obj H a → Prop} {E : PendingPyErr → St Obj H a → Prop}

include hrt hs

lemma wp_ask_answer
    (hok : ∀ o s', e.rt.answer h call = .ok o → At (fun h' => h' = h) d c s' → Q (some o) s')
    (hraised : ∀ exc s', e.rt.answer h call = .raised exc → Q none s') :
    wp (fun _ => True) (e.ask call) Q E s := by
  have hheap := hs.heap
  refine e.wp_ask (fun o w hr => ?_) fun exc w hr => ?_
  · rw [hrt.reply_eq, hheap] at hr
    obtain ⟨ho, rfl⟩ := Prod.mk.inj hr
    exact hok o _ ho ⟨hs.content, hs.depth, hs.calm, hheap⟩
  · rw [hrt.reply_eq, hheap] at hr
    exact hraised exc _ (Prod.mk.inj hr).1

lemma wp_request_answer
    (hok : ∀ o s', e.rt.answer h call = .ok o → At (fun h' => h' = h) d c s' → Q (some o) s')
    (hraised : ∀ exc s', e.rt.answer h call = .raised exc → Q none s') :
    wp (fun _ => True) (e.request call) Q E s := by
  unfold Host.request
  rw [wp_bind]
  refine wp_ask_answer hrt hs (fun o s' ho hs' => ?_) fun exc s' hexc => hraised exc s' hexc
  rw [wp_bind, wp_event]
  exact hok o _ ho (hs'.logged _)

lemma wp_call_answer {g : Bool}
    (hok : ∀ o s', e.rt.answer h call = .ok o → At (fun h' => h' = h) d c s' → Q (some o) s')
    (hraised : ∀ exc s', e.rt.answer h call = .raised exc → Q none s') :
    wp (fun _ => True) (e.call g call) Q E s := by
  unfold Host.call
  rw [wp_bind, wp_event]
  exact wp_request_answer hrt (hs.logged _) hok hraised

end Answers

/-! ### Integers -/

section Int

variable {z : ℤ}

lemma putsShape_intOutside64Bits (hrt : e.rt.SideEffectFree)
    (hobj : (e.rt.view h obj).body = .int z) (hz : ¬ (i64Min ≤ z ∧ z ≤ u64Max)) :
    PutsShape h d e.indent (e.intShape h obj z) (e.intOutside64Bits obj z : Encode Obj H a Unit) := by
  have hwide : ¬ (-9007199254740991 ≤ z ∧ z ≤ 9007199254740991) := by
    unfold i64Min u64Max at hz
    omega
  by_cases hstrict : hasOpt e.opts optStrictInteger = true
  · unfold intOutside64Bits
    rw [if_pos hstrict]
    exact .fail (if_pos ⟨hstrict, hwide⟩)
  · intro c s hs
    have hheap := hs.heap
    rw [← hheap] at hobj
    rw [Bool.not_eq_true] at hstrict
    obtain ⟨log, hrun⟩ := intOutside64Bits_eq hobj hstrict
    have hshape : e.intShape h obj z = match e.rt.answer h (.toBase obj 10) with
        | .raised _ => .refused
        | .ok text =>
            match e.rt.answer h (.utf8 text) with
            | .raised _ => .refused
            | .ok _ => .whole (.leaf (Decimal.intText z)) := by
      rw [intShape, if_neg (by simp [hstrict]), if_neg hz]
    unfold wp
    rw [hrun, hrt.reply_eq, hheap, hshape]
    rcases e.rt.answer h (.toBase obj 10) with text | exc
    · dsimp only
      rw [hrt.reply_eq, hheap]
      rcases e.rt.answer h (.utf8 text) with o | exc
      · refine ⟨_, rfl, ?_⟩
        rw [Doc.render]
        have hput : At (fun h' => h' = h) d c { s with log := log } := hs.logged _
        exact hput.written fun b => b.content_extend _
      · rfl
    · rfl

lemma puts_intShape (hrt : e.rt.SideEffectFree) (hobj : (e.rt.view h obj).body = .int z) :
    PutsShape h d e.indent (e.intShape h obj z) (e.int obj : Encode Obj H a Unit) := by
  intro c s hs
  have hobj' : (e.rt.view s.world.heap obj).body = .int z := by rw [hs.heap, hobj]
  have hlooked : At (fun h' => h' = h) d c (looked s obj) := hs.logged _
  have hwrite : ∀ {E : Prop} {R : Doc → Prop}, R (.leaf (e.fmt.itoa z)) →
      Puts (fun h' => h' = h) d e.indent True E R (emit (·.writeInt e.fmt z) : Encode Obj H a Unit) :=
    fun hR => .emit (fun b => b.content_writeInt e.fmt z) hR
  by_cases hi64 : i64Min ≤ z ∧ z ≤ i64Max
  · refine e.wp_int_i64 hobj' hs.calm hi64.1 hi64.2 ?_
    have h64 : i64Min ≤ z ∧ z ≤ u64Max := ⟨hi64.1, hi64.2.trans (by decide)⟩
    split
    · next hbad =>
      rw [within53Bits_iff] at hbad
      exact Puts.fail (if_pos hbad) c _ hlooked
    · next hgood =>
      rw [within53Bits_iff] at hgood
      have hshape : e.intShape h obj z = .whole (.leaf (e.fmt.itoa z)) := by
        rw [intShape, if_neg hgood, if_pos h64]
      exact hwrite hshape c _ hlooked
  · have hwide : ¬ (-9007199254740991 ≤ z ∧ z ≤ 9007199254740991) := by
      unfold i64Min i64Max at hi64
      omega
    by_cases hu64 : hasOpt e.opts optStrictInteger = false ∧ i64Max < z ∧ z ≤ u64Max
    · obtain ⟨hstrict, hlo, hhi⟩ := hu64
      refine e.wp_int_u64 hobj' hs.calm hlo hhi hstrict ?_
      have hshape : e.intShape h obj z = .whole (.leaf (e.fmt.itoa z)) := by
        rw [intShape, if_neg (by simp [hstrict]), if_pos ⟨le_trans (by decide) hlo.le, hhi⟩]
      exact hwrite hshape c _ hlooked
    · by_cases hstrict : hasOpt e.opts optStrictInteger = true
      · refine e.wp_int_outside hobj' hs.calm hi64 (Or.inl hstrict) ?_
        have hshape : e.intShape h obj z = .refused := if_pos ⟨hstrict, hwide⟩
        unfold intOutside64Bits
        rw [if_pos hstrict]
        exact Puts.fail hshape c _ hlooked
      · have hbig : ¬ (i64Min ≤ z ∧ z ≤ u64Max) := by
          rintro ⟨hlo, hhi⟩
          refine hu64 ⟨by simpa using hstrict, ?_, hhi⟩
          by_contra hle
          exact hi64 ⟨hlo, Int.not_lt.mp hle⟩
        exact e.wp_int_outside hobj' hs.calm hi64 (Or.inr hbig)
          (putsShape_intOutside64Bits hrt hobj hbig c _ hlooked)

end Int

/-! ### Dates and times -/

section Times

/-- A leaf by what is known of its run. -/
lemma puts_leaf_of {m : Encode Obj H a Unit} {shape : Shape Obj} (hdepth : Preserves St.depth m)
    (hm : ∀ c s, At (fun h' => h' = h) d c s → wp (fun _ => True) m
      (fun _ s' => s'.exc = none ∧ s'.world.heap = h ∧ ∃ t, shape = .whole (.leaf t) ∧
        s'.out.content = s.out.content ++ t) (fun _ _ => shape = .refused) s) :
    PutsShape h d e.indent shape m := by
  intro c s hs
  refine ((hm c s hs).frame hdepth).mono ?_ (fun _ _ h => h.1) fun _ h => h
  rintro _ s' ⟨⟨hcalm, hheap, t, hshape, hcontent⟩, hd⟩
  refine ⟨.leaf t, hshape, ?_, hd.trans hs.depth, hcalm, hheap⟩
  rw [Doc.render, hcontent, hs.content]

lemma puts_datetimeShape (hrt : e.rt.SideEffectFree) :
    PutsShape h d e.indent (e.datetimeShape h obj (e.rt.view h obj).body)
      (e.datetime obj : Encode Obj H a Unit) := by
  refine puts_leaf_of (e.preserves_depth_datetime obj) fun c s hs => ?_
  cases hbody : (e.rt.view h obj).body with
  | datetime day t tzinfo =>
      have hview : (e.rt.view s.world.heap obj).body = .datetime day t tzinfo := by rw [hs.heap, hbody]
      have hspec := e.datetime_spec hview
      rw [hrt.offsetAnswer_eq, hs.heap] at hspec
      refine hspec.mono ?_ ?_ fun _ _ => trivial
      · rintro _ s' ⟨answer, hanswer, hcalm, hcontent⟩
        obtain ⟨offset, hoffset, heq⟩ := Option.map_eq_some_iff.mp hanswer
        obtain ⟨rfl, hworld⟩ := Prod.mk.inj heq
        exact ⟨hcalm hs.calm, by rw [← hworld, hs.heap], _, by rw [datetimeShape, hoffset], hcontent⟩
      · rintro _ s' ⟨hnone, -⟩
        rw [datetimeShape, Option.map_eq_none_iff.mp hnone]
  | _ =>
      unfold datetime
      rw [wp_bind, Host.wp_look, hs.heap, hbody]
      exact trivial

lemma puts_dateShape :
    PutsShape h d e.indent (dateShape (e.rt.view h obj).body) (e.date obj : Encode Obj H a Unit) := by
  refine puts_leaf_of (e.preserves_depth_date obj) fun c s hs => ?_
  cases hbody : (e.rt.view h obj).body with
  | date day =>
      have hview : (e.rt.view s.world.heap obj).body = .date day := by rw [hs.heap, hbody]
      refine (e.date_spec hview).mono ?_ (fun _ _ h => h.elim) fun _ _ => trivial
      rintro _ s' ⟨hworld, hcalm, hcontent⟩
      exact ⟨hcalm hs.calm, by rw [hworld, hs.heap], _, rfl, hcontent⟩
  | _ =>
      unfold date
      rw [wp_bind, Host.wp_look, hs.heap, hbody]
      exact trivial

lemma puts_timeShape (hrt : e.rt.SideEffectFree) :
    PutsShape h d e.indent (e.timeShape h obj (e.rt.view h obj).body)
      (e.time obj : Encode Obj H a Unit) := by
  refine puts_leaf_of (e.preserves_depth_time obj) fun c s hs => ?_
  cases hbody : (e.rt.view h obj).body with
  | time t tzinfo =>
      have hview : (e.rt.view s.world.heap obj).body = .time t tzinfo := by rw [hs.heap, hbody]
      have hspec := e.time_spec hview
      rw [hrt.offsetAnswer_eq, hs.heap] at hspec
      refine hspec.mono ?_ ?_ fun _ _ => trivial
      · rintro _ s' ⟨answer, hanswer, hcalm, hcontent⟩
        obtain ⟨offset, hoffset, heq⟩ := Option.map_eq_some_iff.mp hanswer
        obtain ⟨rfl, hworld⟩ := Prod.mk.inj heq
        exact ⟨hcalm hs.calm, by rw [← hworld, hs.heap], _, by rw [timeShape, hoffset], hcontent⟩
      · rintro _ s' ⟨hnone, -⟩
        rw [timeShape, Option.map_eq_none_iff.mp hnone]
  | _ =>
      unfold time
      rw [wp_bind, Host.wp_look, hs.heap, hbody]
      exact trivial

end Times

/-! ### Arrays and scalars -/

section Numpy

variable (hrt : e.rt.SideEffectFree) (hs : At (fun h' => h' = h) d c s) {E : Prop}

include hrt hs

lemma wp_dtypeAnswer {Q : Bytes → St Obj H a → Prop}
    (hok : ∀ b s', e.dtypeAnswer h obj = some b → At (fun h' => h' = h) d c s' → Q b s')
    (hnone : e.dtypeAnswer h obj = none → E) :
    wp (fun _ => True) (e.dtypeStr obj) Q (fun _ _ => E) s := by
  unfold dtypeStr
  rw [wp_bind]
  refine wp_call_answer hrt hs (fun dtype s1 hdtype hs1 => ?_) fun exc s1 hexc => ?_
  · dsimp only
    rw [wp_bind]
    refine wp_call_answer hrt hs1 (fun o s2 ho hs2 => ?_) fun exc s2 hexc => ?_
    · dsimp only
      rw [wp_bind, wp_decref, wp_onExit]
      have hs3 := (hs2.logged (s2.log ++ [.drop (.obj dtype)])).logged
        (s2.log ++ [.drop (.obj dtype)] ++ [.read (.obj o)])
      unfold utf8Of
      rw [wp_bind, Host.wp_look]
      dsimp only
      rw [hs2.heap]
      cases hbody : (e.rt.view h o).body with
      | str t =>
          dsimp only
          by_cases hsurr : (t.chars.any fun c => decide (Utf8.IsSurrogate c)) = true
          · rw [if_pos hsurr, wp_bind, wp_setExc]
            refine hnone ?_
            simp only [dtypeAnswer, hdtype, ho, hbody, if_pos hsurr]
          · rw [if_neg hsurr, wp_bind]
            refine wp_ask_answer hrt hs3 (fun r s4 hr hs4 => ?_) fun exc s4 hexc => ?_
            · refine hok _ _ ?_ (hs4.logged _)
              simp only [dtypeAnswer, hdtype, ho, hbody, if_neg hsurr, hr]
            · refine hnone ?_
              simp only [dtypeAnswer, hdtype, ho, hbody, if_neg hsurr, hexc]
      | _ =>
          dsimp only
          rw [wp_bind, wp_setExc]
          refine hnone ?_
          simp only [dtypeAnswer, hdtype, ho, hbody]
    · rw [wp_bind, wp_decref]
      refine hnone ?_
      simp only [dtypeAnswer, hdtype, hexc]
  · refine hnone ?_
    simp only [dtypeAnswer, hexc]

/-- The unit of datetime64 elements, and what follows from it for the shape. -/
lemma wp_dt64Unit_shape {Q : Except Decline Dt64Unit → St Obj H a → Prop}
    (hok : ∀ u s', (∀ k, e.unitShape h obj true k = k (some u)) → UnitInRange (some u) →
      At (fun h' => h' = h) d c s' → Q (.ok u) s')
    (herror : ∀ reason s', (∀ k, e.unitShape h obj true k = .foreign) →
      At (fun h' => h' = h) d c s' → Q (.error reason) s')
    (hE : (∀ k, e.unitShape h obj true k = .refused) → E) :
    wp (fun _ => True) (e.dt64Unit obj) Q (fun _ _ => E) s := by
  unfold dt64Unit
  rw [wp_bind]
  refine wp_dtypeAnswer hrt hs (fun dtype s1 hdtype hs1 => ?_) fun hnone => hE fun k => ?_
  · cases hparse : parseDt64 dtype with
    | none =>
        refine herror _ s1 (fun k => ?_) hs1
        simp only [unitShape, if_true, hdtype, hparse]
    | some u =>
        refine hok u s1 (fun k => ?_) (unitInRange_of_parseDt64 hparse) hs1
        simp only [unitShape, if_true, hdtype, hparse]
  · simp only [unitShape, if_true, hnone]

end Numpy

section Numpy

lemma offers_walkArray {iface : PyArrayInterface} {elem : ElementType} {unit : Option Dt64Unit}
    (hnd : 0 < iface.nd) (hunit : UnitInRange unit) :
    OffersShape h d e.indent (offerShape (e.documentOf iface elem unit h))
      (e.walkArray iface elem unit : Encode Obj H a _) := by
  intro c s hs
  unfold wp
  rcases e.walkArray_spec iface elem hnd hunit s with
    ⟨doc, out, hdoc, hrun, hc⟩ | ⟨reason, out, hdoc, hrun, hc⟩
  · rw [hs.heap] at hdoc
    rw [hs.content, hs.depth] at hc
    rw [hrun, hdoc]
    exact ⟨doc, rfl, hc, hs.depth, St.exc_written hs.calm out, hs.heap⟩
  · rw [hs.heap] at hdoc
    rw [hrun, hdoc]
    exact ⟨rfl, hc.trans hs.content, hs.depth, St.exc_written hs.calm out, hs.heap⟩

lemma offers_scalarElement {elem : ElementType} {unit : Option Dt64Unit} (hunit : UnitInRange unit) :
    OffersShape h d e.indent (e.elementShape (e.rt.view h obj).body elem unit)
      (e.scalarElement obj elem unit : Encode Obj H a _) := by
  intro c s hs
  unfold scalarElement elementShape
  rw [wp_bind, Host.wp_look, hs.heap]
  cases hbody : (e.rt.view h obj).body with
  | scalar data =>
      dsimp only
      rw [wp_bind, wp_get]
      rcases (e.leaves elem unit).write_spec hunit s.out (Words.wordOf (data.take elem.size)) with
        ⟨t, out, ht, hw, hc⟩ | ⟨reason, ht, hw⟩
      · rw [hw, ht]
        refine ⟨.leaf t, rfl, ?_, hs.depth, St.exc_written hs.calm out, hs.heap⟩
        rw [Doc.render]
        exact hc.trans (congrArg (· ++ t) hs.content)
      · rw [hw, ht]
        exact ⟨rfl, hs.logged _⟩
  | _ => exact trivial

variable (hrt : e.rt.SideEffectFree)

include hrt

lemma offers_heldShape (capsule : Obj) (iface : PyArrayInterface) :
    OffersShape h d e.indent (e.heldShape h obj iface)
      (e.serializeHeld obj capsule iface : Encode Obj H a _) := by
  intro c s hs
  unfold serializeHeld heldShape
  cases hclass : classify iface.flags iface.nd iface.typekind iface.itemsize with
  | error check =>
      have hdtype : ∀ f : Bytes → Decline, wp (fun _ => True)
          (e.dtypeStr obj >>= fun b => Pure.pure (some (f b)))
          (Offered h d e.indent c (if (e.dtypeAnswer h obj).isSome then .foreign else .refused))
          (fun _ _ => (if (e.dtypeAnswer h obj).isSome then .foreign else .refused : Shape Obj) = .refused)
          s := by
        intro f
        rw [wp_bind]
        refine wp_dtypeAnswer hrt hs (fun b s1 hb hs1 => ?_) fun hnone => ?_
        · rw [hb]
          exact ⟨rfl, hs1⟩
        · rw [hnone]
          rfl
      cases check <;> simp only [arrayDecline, bind_assoc, pure_bind]
      case notContiguous => exact ⟨rfl, hs⟩
      all_goals exact hdtype _
  | ok elem =>
      -- the walk, once the unit is known
      have hwalk : ∀ unit (s1 : St Obj H a), UnitInRange unit → At (fun h' => h' = h) d c s1 →
          wp (fun _ => True) (event (.read (.obj capsule)) >>= fun _ => e.walkArray iface elem unit)
            (Offered h d e.indent c (offerShape (e.documentOf iface elem unit h)))
            (fun _ _ => (offerShape (e.documentOf iface elem unit h) : Shape Obj) = .refused) s1 := by
        intro unit s1 hunit hs1
        rw [wp_bind, wp_event]
        exact offers_walkArray (nd_pos_of_classify hclass) hunit c _ (hs1.logged _)
      unfold arrayUnit
      dsimp only
      by_cases hneeded : elem = .dt64 ∧ 0 ∉ iface.shape
      · rw [if_pos hneeded, decide_eq_true hneeded, bind_assoc, wp_bind]
        refine wp_dt64Unit_shape hrt hs (fun u s1 hu hunit hs1 => ?_) (fun reason s1 hforeign hs1 => ?_)
          fun hrefused => hrefused _
        · rw [hu]
          exact hwalk (some u) s1 hunit hs1
        · exact ⟨hforeign _, hs1⟩
      · rw [if_neg hneeded, decide_eq_false hneeded]
        exact hwalk none s (fun u hu => absurd hu (Option.not_mem_none u)) hs

lemma offers_arrayShape :
    OffersShape h d e.indent (e.arrayShape h obj) (e.serializeArray obj : Encode Obj H a _) := by
  intro c s hs
  have hbad : ∀ (s1 : St Obj H a) {Q : Obj × PyArrayInterface → St Obj H a → Prop} {E : Prop}, E →
      wp (fun _ => True) (do
        e.raiseTypeErrorFromCurrent "numpy array is malformed"
        Run.throw ⟨⟩) Q (fun _ _ => E) s1 := by
    intro s1 Q E hE
    have hraise : wp (fun _ => True) (e.raiseTypeErrorFromCurrent "numpy array is malformed")
        (fun _ s' => s'.exc.isSome) (fun _ _ => E) s1 := e.raiseTypeErrorFromCurrent_spec _ s1
    rw [wp_bind]
    exact hraise.mono (fun _ _ _ => hE) (fun _ _ h => h) fun _ h => h
  unfold serializeArray arrayStruct arrayShape
  rw [wp_bind, wp_bind]
  refine wp_call_answer hrt hs (fun capsule s1 hcapsule hs1 => ?_) fun exc s1 hexc => ?_
  · rw [hcapsule, wp_bind, Host.wp_look]
    dsimp only
    rw [hs1.heap]
    have hs2 := hs1.logged (s1.log ++ [.read (.obj capsule)])
    cases hbody : (e.rt.view h capsule).body with
    | capsule o =>
        cases o with
        | none =>
            rw [wp_bind, wp_setExc, wp_bind, wp_decref]
            exact hbad _ rfl
        | some iface =>
            dsimp only
            by_cases htwo : iface.two = 2
            · rw [if_pos htwo, if_pos htwo, wp_pure, wp_onExit]
              exact (offers_heldShape hrt capsule iface c _ hs2).mono (fun r s3 h3 => h3.logged _)
                (fun _ _ h => h) fun _ h => h
            · rw [if_neg htwo, if_neg htwo, wp_bind, wp_decref]
              exact hbad _ rfl
    | _ =>
        rw [wp_bind, wp_setExc, wp_bind, wp_decref]
        exact hbad _ rfl
  · rw [hexc]
    rfl

lemma offers_scalarShape (elem : ElementType) :
    OffersShape h d e.indent (e.scalarShape h obj (e.rt.view h obj).body elem)
      (e.serializeScalar obj elem : Encode Obj H a _) := by
  intro c s hs
  rw [serializeScalar_eq, scalarShape]
  by_cases hdt : elem = .dt64
  · rw [if_pos hdt, decide_eq_true hdt, wp_bind]
    refine wp_dt64Unit_shape hrt hs (fun u s1 hu hunit hs1 => ?_) (fun reason s1 hforeign hs1 => ?_)
      fun hrefused => hrefused _
    · rw [hu]
      exact offers_scalarElement hunit c s1 hs1
    · exact ⟨hforeign _, hs1⟩
  · rw [if_neg hdt, decide_eq_false hdt]
    exact offers_scalarElement (fun u hu => absurd hu (Option.not_mem_none u)) c s hs

end Numpy

end Env

end Isojson
