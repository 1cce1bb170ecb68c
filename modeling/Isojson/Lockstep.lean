import Isojson.ErrorProtocol
import Isojson.Library.JsonLayout

/-!
# Two calls in step

Two runs of the encoder over the same document, that may differ in `OPT_INDENT_2` and, where the
keys are sorted, in the order in which the dicts hold their entries.  They make the same requests
in the same order, so their worlds stay alike (`Mirror`), and they append the layouts of one and
the same document (`WroteBoth`).
-/

namespace Isojson

open Json Run

variable {Obj H : Type} {a : Allocator} {α β : Type}

/-! ## Options that differ in the layout only -/

/-- The same options but for `OPT_INDENT_2`. -/
def Alike (o o' : UInt32) : Prop := o ||| optIndent2 = o' ||| optIndent2

lemma Alike.refl (o : UInt32) : Alike o o := rfl

lemma alike_indent (o : UInt32) : Alike o (o ||| optIndent2) := by
  rw [Alike, UInt32.or_assoc, UInt32.or_self]

lemma hasOpt_or_indent (o : UInt32) {bit : UInt32} (hbit : optIndent2 &&& bit = 0) :
    hasOpt (o ||| optIndent2) bit = hasOpt o bit := by
  have hand : (o ||| optIndent2) &&& bit = (o &&& bit) ||| (optIndent2 &&& bit) :=
    UInt32.toBitVec_inj.mp BitVec.and_or_distrib_right
  rw [Isojson.hasOpt, hand, hbit, UInt32.or_zero, Isojson.hasOpt]

lemma Alike.hasOpt {o o' : UInt32} (h : Alike o o') {bit : UInt32} (hbit : optIndent2 &&& bit = 0) :
    hasOpt o' bit = hasOpt o bit := by
  rw [← hasOpt_or_indent o' hbit, ← h, hasOpt_or_indent o hbit]

section Texts

variable {o o' : UInt32} (h : Alike o o')

include h

lemma Alike.shownMicros (us : ℕ) : shownMicros o' us = shownMicros o us := by
  unfold Isojson.shownMicros
  rw [h.hasOpt (by decide)]

lemma Alike.datetimeText (p : DateTimeParts) (offset : Option ℤ) :
    datetimeText p offset o' = datetimeText p offset o := by
  unfold Isojson.datetimeText
  rw [h.shownMicros, h.hasOpt (by decide)]

lemma Alike.adjustedOffset (offset : Option ℤ) : adjustedOffset o' offset = adjustedOffset o offset := by
  unfold Isojson.adjustedOffset
  rw [h.hasOpt (by decide)]

lemma Alike.dt64Text (v : ℤ) (unit : Dt64Unit) : dt64Text o' v unit = dt64Text o v unit := by
  unfold Isojson.dt64Text
  rw [h.hasOpt (by decide)]
  generalize dt64ToParts v unit = r
  rcases r with _ | (_ | _) | (_ | p)
  · rfl
  · rfl
  · rfl
  · rfl
  · exact congrArg _ (congrArg _ (h.datetimeText p _))

lemma Alike.leafText (fmt : Formats) (elem : ElementType) (unit : Option Dt64Unit) (n : ℕ) :
    Leaves.text ⟨fmt, o', elem, unit⟩ n = Leaves.text ⟨fmt, o, elem, unit⟩ n := by
  cases elem with
  | dt64 =>
      cases unit with
      | none => rfl
      | some unit => exact h.dt64Text (signed 8 n) unit
  | _ => rfl

end Texts

/-- The encoder under other options. -/
def Env.under (e : Env Obj H) (o : UInt32) : Env Obj H := { e with opts := o }

/-! ## Heaps alike -/

/-- The keys of a dict are pairwise different as texts. -/
def DistinctKeys (rt : Runtime Obj H) (h : H) (entries : List (Entry Obj)) : Prop :=
  entries.Pairwise fun kv kv' => ∀ t t', (rt.view h kv.1).body = .str t →
    (rt.view h kv'.1).body = .str t' → t.chars ≠ t'.chars

/-- The same object, or, where the keys are sorted, the same dict with its entries in another
order. -/
inductive Twin (rt : Runtime Obj H) (opts : UInt32) (h : H) : PyObj Obj → PyObj Obj → Prop
  | same (p : PyObj Obj) : Twin rt opts h p p
  | dict {p : PyObj Obj} {slots slots' : List (Option (Entry Obj))}
      (hsort : hasOpt opts optSortKeys = true) (hp : p.body = .dict slots)
      (hperm : slots.reduceOption.Perm slots'.reduceOption)
      (hkeys : DistinctKeys rt h slots.reduceOption) :
      Twin rt opts h p { p with body := .dict slots' }

lemma Twin.eq_or_dict {rt : Runtime Obj H} {opts : UInt32} {h : H} {p p' : PyObj Obj}
    (ht : Twin rt opts h p p') :
    p' = p ∨ ∃ slots slots', p.body = .dict slots ∧ p'.body = .dict slots' := by
  cases ht with
  | same => exact Or.inl rfl
  | dict hsort hp hperm hkeys => exact Or.inr ⟨_, _, hp, rfl⟩

lemma Twin.not_dict {rt : Runtime Obj H} {opts : UInt32} {h : H} {p p' : PyObj Obj}
    (ht : Twin rt opts h p p') (hp : ∀ slots, p.body ≠ .dict slots) : p' = p := by
  rcases ht.eq_or_dict with h | ⟨slots, slots', hp', -⟩
  · exact h
  · exact absurd hp' (hp slots)

lemma Twin.cls {rt : Runtime Obj H} {opts : UInt32} {h : H} {p p' : PyObj Obj}
    (ht : Twin rt opts h p p') : p'.cls = p.cls := by
  cases ht <;> rfl

lemma Twin.runsNoPython {rt : Runtime Obj H} {opts : UInt32} {h : H} {p p' : PyObj Obj}
    (ht : Twin rt opts h p p') : p'.runsNoPython = p.runsNoPython := by
  cases ht with
  | same => rfl
  | dict hsort hp hperm hkeys =>
      unfold PyObj.runsNoPython
      rw [hp]
      cases p.cls <;> rfl

/-- Heaps that `B` relates show the same objects, and requests lead from such heaps to such heaps
with the same answers. -/
structure Runtime.Twins (rt : Runtime Obj H) (opts : UInt32) (B : H → H → Prop) : Prop where
  view : ∀ {h h'}, B h h' → ∀ o, Twin rt opts h (rt.view h o) (rt.view h' o)
  memory : ∀ {h h'}, B h h' → rt.memory h' = rt.memory h
  callable : ∀ {h h'}, B h h' → rt.callable h' = rt.callable h
  getItem : ∀ {h h'}, B h h' → rt.getItem h' = rt.getItem h
  moduleDict : ∀ {h h'}, B h h' → rt.moduleDict h' = rt.moduleDict h
  datetimeApi : ∀ {h h'}, B h h' → rt.datetimeApi h' = rt.datetimeApi h
  reply : ∀ c {w w'}, B w.heap w'.heap → w'.types = w.types →
    (rt.reply c w').1 = (rt.reply c w).1 ∧ (rt.reply c w').2.types = (rt.reply c w).2.types ∧
      B (rt.reply c w).2.heap (rt.reply c w').2.heap

/-- One and the same heap. -/
lemma Runtime.twins_eq (rt : Runtime Obj H) (opts : UInt32) : rt.Twins opts Eq where
  view := by
    rintro h _ rfl o
    exact .same _
  memory := by
    rintro h _ rfl
    rfl
  callable := by
    rintro h _ rfl
    rfl
  getItem := by
    rintro h _ rfl
    rfl
  moduleDict := by
    rintro h _ rfl
    rfl
  datetimeApi := by
    rintro h _ rfl
    rfl
  reply := by
    rintro c ⟨h, types⟩ ⟨h', types'⟩ hh ht
    obtain rfl : h = h' := hh
    obtain rfl : types' = types := ht
    exact ⟨rfl, rfl, rfl⟩

/-! ## States alike -/

/-- The states differ in the output and the record at most, and in the heap as `B` allows. -/
structure Mirror (B : H → H → Prop) (s t : St Obj H a) : Prop where
  depth : t.depth = s.depth
  defaultDepth : t.defaultDepth = s.defaultDepth
  dt : t.dt = s.dt
  npRechecked : t.npRechecked = s.npRechecked
  types : t.world.types = s.world.types
  heap : B s.world.heap t.world.heap
  exc : t.exc = s.exc

section Mirror

variable {rt : Runtime Obj H} {opts : UInt32} {B : H → H → Prop} (hB : rt.Twins opts B)
  {m : Encode Obj H a α} {s t : St Obj H a}

include hB

/-- Requests from states alike are answered alike, and lead to states alike. -/
lemma Asks.mirrors (hm : Asks rt m) (h : Mirror B s t) :
    Both m m (fun x s1 y t1 => y = x ∧ Mirror B s1 t1) (Mirror B) s t := by
  induction hm generalizing s t with
  | pure x => exact ⟨rfl, h⟩
  | throw x => exact h
  | fault => trivial
  | record evs => exact ⟨rfl, h.depth, h.defaultDepth, h.dt, h.npRechecked, h.types, h.heap, h.exc⟩
  | setExc exc => exact ⟨rfl, h.depth, h.defaultDepth, h.dt, h.npRechecked, h.types, h.heap, rfl⟩
  | ask e he c =>
      subst he
      obtain ⟨hanswer, htypes, hheap⟩ := hB.reply c h.heap h.types
      unfold Both Host.ask
      rcases hs : e.rt.reply c s.world with ⟨o | exc, w⟩ <;>
        rcases ht : e.rt.reply c t.world with ⟨o' | exc', w'⟩ <;>
        rw [hs, ht] at hanswer htypes hheap <;> simp only [Reply.ok.injEq, Reply.raised.injEq,
          reduceCtorEq] at hanswer <;> subst hanswer
      · exact ⟨rfl, h.depth, h.defaultDepth, h.dt, h.npRechecked, htypes, hheap, h.exc⟩
      · exact ⟨rfl, h.depth, h.defaultDepth, h.dt, h.npRechecked, htypes, hheap, rfl⟩
  | look e he o k hk hdict ih =>
      subst he
      have hlogged : Mirror B ({ s with log := s.log ++ [.read (.obj o)] })
          { t with log := t.log ++ [.read (.obj o)] } :=
        ⟨h.depth, h.defaultDepth, h.dt, h.npRechecked, h.types, h.heap, h.exc⟩
      have hsame : k (e.rt.view t.world.heap o) = k (e.rt.view s.world.heap o) := by
        generalize hp : e.rt.view s.world.heap o = p
        generalize hp' : e.rt.view t.world.heap o = p'
        have htwin := hB.view h.heap o
        rw [hp, hp'] at htwin
        cases htwin with
        | same => rfl
        | dict hsort hbody hperm hkeys => exact hdict p _ _ hbody
      show Both (k (e.rt.view s.world.heap o)) (k (e.rt.view t.world.heap o)) _ _ _ _
      rw [hsame]
      exact ih _ hlogged
  | get k hk hstate ih =>
      have hsame : k s = k t :=
        hstate s t h.exc.symm h.defaultDepth.symm (by rw [hB.callable h.heap])
      refine .get_bind ?_
      rw [← hsame]
      exact ih s h
  | bind hm hk ihm ihk =>
      refine (ihm h).bind ?_
      rintro x s1 _ t1 ⟨rfl, h1⟩
      exact ihk _ h1
  | dropping hm o ih =>
      refine Both.onExit ((ih h).mono ?_ ?_)
      · rintro x s1 y t1 ⟨hx, h1⟩
        exact ⟨hx, h1.depth, h1.defaultDepth, h1.dt, h1.npRechecked, h1.types, h1.heap, h1.exc⟩
      · exact fun s1 t1 h1 =>
          ⟨h1.depth, h1.defaultDepth, h1.dt, h1.npRechecked, h1.types, h1.heap, h1.exc⟩

end Mirror

/-- States alike, without an exception. -/
structure InStep (B : H → H → Prop) (s t : St Obj H a) : Prop extends Mirror B s t where
  calm : s.exc = none

/-- From states in step, both runs came to states in step at the same depth; the one appended `u`
and the other `v`. -/
structure WroteBoth (B : H → H → Prop) (u v : Bytes) (s t s1 t1 : St Obj H a) : Prop where
  inStep : InStep B s1 t1
  depth : s1.depth = s.depth
  left : s1.out.content = s.out.content ++ u
  right : t1.out.content = t.out.content ++ v

section WroteBoth

variable {B : H → H → Prop} {u v u' v' : Bytes} {s t s1 t1 s2 t2 : St Obj H a}

lemma WroteBoth.nil (h : InStep B s t) : WroteBoth B [] [] s t s t :=
  ⟨h, rfl, (List.append_nil _).symm, (List.append_nil _).symm⟩

lemma WroteBoth.trans (h : WroteBoth B u v s t s1 t1) (h' : WroteBoth B u' v' s1 t1 s2 t2) :
    WroteBoth B (u ++ u') (v ++ v') s t s2 t2 where
  inStep := h'.inStep
  depth := h'.depth.trans h.depth
  left := by rw [h'.left, h.left, List.append_assoc]
  right := by rw [h'.right, h.right, List.append_assoc]

/-- Nothing was written. -/
lemma WroteBoth.still (h : InStep B s1 t1) (hout : s1.out = s.out) (hdepth : s1.depth = s.depth)
    (hout' : t1.out = t.out) : WroteBoth B [] [] s t s1 t1 :=
  ⟨h, hdepth, by rw [hout, List.append_nil], by rw [hout', List.append_nil]⟩

/-- The frame is as it was. -/
lemma WroteBoth.of_frame (h : InStep B s1 t1) (hs : s1.frame = s.frame) (ht : t1.frame = t.frame) :
    WroteBoth B [] [] s t s1 t1 := by
  obtain ⟨hout, hdepth⟩ := St.frame_eq hs
  obtain ⟨hout', -⟩ := St.frame_eq ht
  exact .still h hout hdepth hout'

/-- Both outputs got longer. -/
lemma InStep.written (h : InStep B s t) {b c : Buffer a} (hb : b.content = s.out.content ++ u)
    (hc : c.content = t.out.content ++ v) : WroteBoth B u v s t (s.written b) (t.written c) := by
  refine ⟨⟨⟨h.depth, h.defaultDepth, h.dt, h.npRechecked, h.types, h.heap, ?_⟩, ?_⟩, rfl, hb, hc⟩
  · rw [St.exc_written h.calm, St.exc_written (h.exc.trans h.calm)]
  · exact St.exc_written h.calm _

/-- Both runs write, and append texts of their own. -/
lemma both_emit {f g : Buffer a → Buffer a} (hf : (f s.out).content = s.out.content ++ u)
    (hg : (g t.out).content = t.out.content ++ v) (h : InStep B s t) :
    Both (emit f : Encode Obj H a Unit) (emit g) (fun _ s1 _ t1 => WroteBoth B u v s t s1 t1)
      (fun _ _ => True) s t := h.written hf hg

/-- A run that does not return raises no matter how the other one does. -/
lemma both_raise {m : Encode Obj H a α} {m' : Encode Obj H a β} {Q : α → St Obj H a → β → St Obj H a → Prop}
    (h : wp (fun _ => False) m (fun _ _ => False) (fun _ _ => True) s)
    (h' : wp (fun _ => False) m' (fun _ _ => False) (fun _ _ => True) t) :
    Both m m' Q (fun _ _ => True) s t := by
  unfold wp at h h'
  unfold Both
  cases hs : m s <;> rw [hs] at h <;> cases ht : m' t <;> rw [ht] at h' <;>
    first | exact h.elim | exact h'.elim | trivial

lemma both_fail {e e' : Host Obj H} (msg : String) {Q : α → St Obj H a → β → St Obj H a → Prop} :
    Both (e.fail msg : Encode Obj H a α) (e'.fail msg : Encode Obj H a β) Q (fun _ _ => True) s t :=
  both_raise ((e.fail_spec msg s).mono (fun _ _ h => h) (fun _ _ _ => trivial) fun _ h => h)
    ((e'.fail_spec msg t).mono (fun _ _ h => h) (fun _ _ _ => trivial) fun _ h => h)

/-- An error behind what was written. -/
lemma both_emit_fail {e e' : Host Obj H} {f g : Buffer a → Buffer a} (msg : String)
    {Q : α → St Obj H a → β → St Obj H a → Prop} :
    Both (emit f >>= fun _ => e.fail msg : Encode Obj H a α)
      (emit g >>= fun _ => e'.fail msg : Encode Obj H a β) Q (fun _ _ => True) s t :=
  both_fail msg

end WroteBoth

/-! ## Documents in step -/

/-- Both runs appended the layout of the same document. -/
def WroteDoc (i i' : Bool) (B : H → H → Prop) (s t s1 t1 : St Obj H a) : Prop :=
  ∃ (doc : Doc) (n : Node), doc.Stands n ∧
    WroteBoth B (doc.render i s.depth) (doc.render i' s.depth) s t s1 t1

lemma WroteDoc.after {i i' : Bool} {B : H → H → Prop} {s t s1 t1 s2 t2 : St Obj H a}
    (h : WroteBoth B [] [] s t s1 t1) (hw : WroteDoc i i' B s1 t1 s2 t2) :
    WroteDoc i i' B s t s2 t2 := by
  obtain ⟨doc, n, hn, hw⟩ := hw
  rw [h.depth] at hw
  exact ⟨doc, n, hn, h.trans hw⟩

lemma WroteDoc.inStep {i i' : Bool} {B : H → H → Prop} {s t s1 t1 : St Obj H a}
    (hw : WroteDoc i i' B s t s1 t1) : InStep B s1 t1 := by
  obtain ⟨doc, n, hn, hw⟩ := hw
  exact hw.inStep

lemma WroteDoc.scalar {i i' : Bool} {B : H → H → Prop} {s t s1 t1 : St Obj H a} {u : Bytes}
    (hu : IsScalarText u) (hw : WroteBoth B u u s t s1 t1) : WroteDoc i i' B s t s1 t1 := by
  obtain ⟨n, hn⟩ := hu
  exact ⟨.leaf u, n, .leaf hn, hw⟩

/-- Runs that write the same document, where they return. -/
def WriteAlike (i i' : Bool) (B : H → H → Prop) (m m' : Encode Obj H a Unit) : Prop :=
  ∀ s t, InStep B s t →
    Both m m' (fun _ s1 _ t1 => WroteDoc i i' B s t s1 t1) (fun _ _ => True) s t

/-- Runs that write the same document, or decline for the same reason. -/
def DeclineAlike (i i' : Bool) (B : H → H → Prop) (m m' : Encode Obj H a (Option Decline)) : Prop :=
  ∀ s t, InStep B s t → Both m m' (fun r s1 r' t1 => r' = r ∧ match r with
    | none => WroteDoc i i' B s t s1 t1
    | some _ => WroteBoth B [] [] s t s1 t1) (fun _ _ => True) s t

/-- A run that is entered without an exception returns without one, with a result that `P`
holds of. -/
def Calm (P : α → Prop) (m : Encode Obj H a α) : Prop :=
  ∀ s, s.exc = none → wp (fun _ => True) m (fun x s' => s'.exc = none ∧ P x) (fun _ _ => True) s

lemma Reports.calm {m : Encode Obj H a α} (hm : Reports m) : Calm (fun _ => True) m :=
  fun s hs => (hm s hs).mono (fun _ _ h => ⟨h, trivial⟩) (fun _ _ _ => trivial) fun _ h => h.elim

lemma Calm.results {m : Encode Obj H a α} (hm : Calm (fun _ => True) m) {P : α → Prop}
    (h : ∀ s, wp (fun _ => True) m (fun x _ => P x) (fun _ _ => True) s) : Calm P m :=
  fun s hs => ((hm s hs).and (h s)).mono (fun _ _ h => ⟨h.1.1, h.2⟩) (fun _ _ _ => trivial)
    fun _ h => h

section Rules

variable {rt : Runtime Obj H} {opts : UInt32} {B : H → H → Prop} (hB : rt.Twins opts B)
  {i i' : Bool} {m m' : Encode Obj H a Unit} {s t : St Obj H a}

include hB

/-- Requests in step. -/
lemma Asks.both {P : α → Prop} {m : Encode Obj H a α} (hm : Asks rt m) (hc : Calm P m)
    (h : InStep B s t) : Both m m (fun x s1 y t1 => y = x ∧ P x ∧ WroteBoth B [] [] s t s1 t1)
      (fun _ _ => True) s t := by
  have hleft := (hc s h.calm).frame hm.preserves
  have hright := hm.preserves t
  refine (((hm.mirrors hB h.toMirror).mono (fun _ _ _ _ h => h) fun _ _ _ => trivial).and hleft
    hright).mono ?_ fun _ _ h => h
  rintro x s1 y t1 ⟨⟨hy, hmirror⟩, ⟨⟨hexc, hx⟩, hs1⟩, ht1⟩
  exact ⟨hy, hx, .of_frame ⟨hmirror, hexc⟩ hs1 ht1⟩

lemma WriteAlike.after {P : α → Prop} {m : Encode Obj H a α} {k k' : α → Encode Obj H a Unit}
    (hm : Asks rt m) (hc : Calm P m) (hk : ∀ x, P x → WriteAlike i i' B (k x) (k' x)) :
    WriteAlike i i' B (m >>= k) (m >>= k') := by
  intro s t h
  refine (hm.both hB hc h).bind ?_
  rintro x s1 _ t1 ⟨rfl, hx, h1⟩
  exact (hk _ hx s1 t1 h1.inStep).mono (fun _ _ _ _ hw => hw.after h1) fun _ _ h => h

/-- A look, and what follows. -/
lemma both_look {e e' : Host Obj H} (he : e.rt = rt) (he' : e'.rt = rt) {o : Obj}
    {k : PyObj Obj → Encode Obj H a α} {k' : PyObj Obj → Encode Obj H a β}
    {Q : α → St Obj H a → β → St Obj H a → Prop} (h : InStep B s t)
    (hk : ∀ p' s1 t1, Twin rt opts s.world.heap (rt.view s.world.heap o) p' →
      s1.world = s.world → WroteBoth B [] [] s t s1 t1 →
      Both (k (rt.view s.world.heap o)) (k' p') Q (fun _ _ => True) s1 t1) :
    Both (e.look o >>= k) (e'.look o >>= k') Q (fun _ _ => True) s t := by
  subst he
  show Both (k (e.rt.view s.world.heap o)) (k' (e'.rt.view t.world.heap o)) _ _
    { s with log := s.log ++ [.read (.obj o)] } { t with log := t.log ++ [.read (.obj o)] }
  rw [he']
  refine hk _ _ _ (hB.view h.heap o) rfl (.of_frame ⟨⟨h.depth, h.defaultDepth, h.dt, h.npRechecked,
    h.types, h.heap, h.exc⟩, h.calm⟩ rfl rfl)

lemma WriteAlike.look {e e' : Host Obj H} (he : e.rt = rt) (he' : e'.rt = rt) {o : Obj}
    {k k' : PyObj Obj → Encode Obj H a Unit}
    (hk : ∀ h p p', Twin rt opts h p p' → WriteAlike i i' B (k p) (k' p')) :
    WriteAlike i i' B (e.look o >>= k) (e'.look o >>= k') := by
  intro s t h
  refine both_look hB he he' h fun p' s1 t1 htwin _ h1 => ?_
  exact (hk _ _ p' htwin s1 t1 h1.inStep).mono (fun _ _ _ _ hw => hw.after h1) fun _ _ h => h

omit hB

lemma WriteAlike.fail {e e' : Host Obj H} (msg : String) :
    WriteAlike i i' B (e.fail msg : Encode Obj H a Unit) (e'.fail msg) :=
  fun _ _ _ => both_fail msg

lemma WriteAlike.fault : WriteAlike i i' B (Run.fault : Encode Obj H a Unit) Run.fault :=
  fun _ _ _ => trivial

/-- Both append the same scalar text. -/
lemma WriteAlike.emit {f : Buffer a → Buffer a} {u : Bytes} (hu : IsScalarText u)
    (hf : ∀ b, (f b).content = b.content ++ u) :
    WriteAlike i i' B (emit f : Encode Obj H a Unit) (Isojson.emit f) :=
  fun _ _ h => (both_emit (hf _) (hf _) h).mono (fun _ _ _ _ hw => .scalar hu hw) fun _ _ h => h

/-- Releases on the way out touch nothing but the record. -/
lemma WriteAlike.onExit {f g : St Obj H a → St Obj H a}
    (hf : ∀ s, ∃ log, f s = { s with log := log }) (hg : ∀ s, ∃ log, g s = { s with log := log })
    (hm : WriteAlike i i' B m m') : WriteAlike i i' B (Run.onExit m f) (Run.onExit m' g) := by
  intro s t h
  refine Both.onExit ((hm s t h).mono ?_ fun _ _ h => h)
  rintro _ s1 _ t1 ⟨doc, n, hn, hw⟩
  obtain ⟨log, hlog⟩ := hf s1
  obtain ⟨log', hlog'⟩ := hg t1
  rw [hlog, hlog']
  exact ⟨doc, n, hn, ⟨⟨hw.inStep.depth, hw.inStep.defaultDepth, hw.inStep.dt,
    hw.inStep.npRechecked, hw.inStep.types, hw.inStep.heap, hw.inStep.exc⟩, hw.inStep.calm⟩,
    hw.depth, hw.left, hw.right⟩

end Rules

/-! ## Leaves -/

namespace Env

variable {B : H → H → Prop} (e : Env Obj H) {o : UInt32} (ho : Alike e.opts o)
  (hB : e.rt.Twins e.opts B)

include hB

/-- A `str` is written as the same string text by both. -/
lemma str_both (obj : Obj) {s t : St Obj H a} (h : InStep B s t) :
    Both (e.str obj) ((e.under o).str obj) (fun _ s1 _ t1 => ∃ u chars, IsString u chars ∧
      WroteBoth B u u s t s1 t1) (fun _ _ => True) s t := by
  refine both_look hB rfl rfl h fun p' s1 t1 htwin _ h1 => ?_
  generalize e.rt.view s.world.heap obj = p at htwin ⊢
  rcases htwin.eq_or_dict with rfl | ⟨slots, slots', hp, hp'⟩
  · cases hbody : p'.body with
    | str x =>
        refine .get_bind ?_
        dsimp only
        by_cases henc : ∀ c ∈ x.chars, ¬ Utf8.IsSurrogate c
        · have hs := (s1.out.writeStr_ok_iff e.arch e.strfast x).mpr henc
          have ht : (t1.out.writeStr (e.under o).arch (e.under o).strfast x).1 = true :=
            (t1.out.writeStr_ok_iff e.arch e.strfast x).mpr henc
          refine (both_emit (s1.out.content_writeStr henc) (t1.out.content_writeStr henc)
            h1.inStep).bind fun _ s2 _ t2 h2 => ?_
          have hscalar : ∀ c ∈ x.chars, Utf8.IsScalar c :=
            fun c hc => ⟨x.holds.code_points c hc, henc c hc⟩
          rw [if_pos hs, if_pos ht]
          exact ⟨_, x.chars, isString_quoted hscalar, h1.trans h2⟩
        · have hs := mt (s1.out.writeStr_ok_iff e.arch e.strfast x).mp henc
          have ht : ¬ (t1.out.writeStr (e.under o).arch (e.under o).strfast x).1 = true :=
            mt (t1.out.writeStr_ok_iff e.arch e.strfast x).mp henc
          rw [if_neg hs, if_neg ht]
          exact both_emit_fail _
    | _ => trivial
  · rw [hp, hp']
    trivial

lemma writeAlike_str (i i' : Bool) (obj : Obj) :
    WriteAlike i i' B (e.str obj : Encode Obj H a Unit) ((e.under o).str obj) := by
  intro s t h
  refine (e.str_both hB obj h).mono ?_ fun _ _ h => h
  rintro _ s1 _ t1 ⟨u, chars, hu, hw⟩
  exact .scalar ⟨_, .string hu⟩ hw

include ho

/-- Both ask for the digits and for their text, and are answered alike. -/
lemma intOutside64Bits_both (i i' : Bool) {obj : Obj} {z : ℤ} {s t : St Obj H a}
    (hobj : (e.rt.view s.world.heap obj).body = .int z) (h : InStep B s t) :
    Both (e.intOutside64Bits obj z) ((e.under o).intOutside64Bits obj z)
      (fun _ s1 _ t1 => WroteDoc i i' B s t s1 t1) (fun _ _ => True) s t := by
  have hopt : hasOpt (e.under o).opts optStrictInteger = hasOpt e.opts optStrictInteger :=
    ho.hasOpt (by decide)
  have hview : e.rt.view t.world.heap obj = e.rt.view s.world.heap obj :=
    (hB.view h.heap obj).not_dict fun slots hslots => by simp [hobj] at hslots
  by_cases hstrict : hasOpt e.opts optStrictInteger = true
  · unfold intOutside64Bits
    rw [hopt, if_pos hstrict, if_pos hstrict]
    exact both_fail _
  · rw [Bool.not_eq_true] at hstrict
    obtain ⟨log, hs⟩ := intOutside64Bits_eq hobj hstrict
    obtain ⟨log', ht⟩ := intOutside64Bits_eq (e := e.under o) (s := t) (hview ▸ hobj)
      (hopt.trans hstrict)
    have hdigits := hB.reply (.toBase obj 10) h.heap h.types
    unfold Both
    rw [hs, ht, show (e.under o).rt = e.rt from rfl]
    revert hdigits
    rcases e.rt.reply (.toBase obj 10) s.world with ⟨text | exc, w⟩ <;>
      rcases e.rt.reply (.toBase obj 10) t.world with ⟨text' | exc', w'⟩ <;>
      rintro ⟨⟨⟩, htypes, hheap⟩
    · have hutf8 := hB.reply (.utf8 text) hheap htypes
      dsimp only
      revert hutf8
      rcases e.rt.reply (.utf8 text) w with ⟨u | exc, w1⟩ <;>
        rcases e.rt.reply (.utf8 text) w' with ⟨u' | exc', w1'⟩ <;>
        rintro ⟨⟨⟩, htypes1, hheap1⟩
      · have hmirror : InStep B { s with world := w1, log := log } { t with world := w1', log := log' } :=
          ⟨⟨h.depth, h.defaultDepth, h.dt, h.npRechecked, htypes1, hheap1, h.exc⟩, h.calm⟩
        have hwrite : WriteAlike i i' B (emit (·.extend (Decimal.intText z)) : Encode Obj H a Unit)
            (emit (·.extend (Decimal.intText z))) :=
          .emit ⟨_, .number (isNumber_intText z)⟩ fun b => Buffer.content_extend ..
        exact WroteDoc.after (.of_frame hmirror rfl rfl) (hwrite _ _ hmirror)
      · trivial
    · trivial

lemma writeAlike_int (hfmt : e.fmt.WriteNumbers) (i i' : Bool) (obj : Obj) :
    WriteAlike i i' B (e.int obj : Encode Obj H a Unit) ((e.under o).int obj) := by
  have hopt : hasOpt (e.under o).opts optStrictInteger = hasOpt e.opts optStrictInteger :=
    ho.hasOpt (by decide)
  have hput : ∀ z, i64Min ≤ z → z ≤ u64Max →
      WriteAlike i i' B (emit (·.writeInt e.fmt z) : Encode Obj H a Unit)
        (emit (·.writeInt (e.under o).fmt z)) :=
    fun z hlo hhi => .emit (hfmt.itoaText hlo hhi) fun b => b.content_writeInt e.fmt z
  intro s t h
  refine both_look hB rfl rfl h fun p' s1 t1 htwin hworld h1 => ?_
  have hafter : ∀ u1 u2, WroteDoc i i' B s1 t1 u1 u2 → WroteDoc i i' B s t u1 u2 :=
    fun _ _ hw => hw.after h1
  refine Both.mono (P := fun _ s2 _ t2 => WroteDoc i i' B s1 t1 s2 t2) (E := fun _ _ => True) ?_
    (fun _ s2 _ t2 hw => hafter s2 t2 hw) fun _ _ h => h
  generalize hp : e.rt.view s.world.heap obj = p at htwin ⊢
  rcases htwin.eq_or_dict with rfl | ⟨slots, slots', hp, hp'⟩
  · cases hbody : p'.body with
    | int z =>
        have hbig : ∀ s2 t2, WroteBoth B [] [] s1 t1 s2 t2 → s2.world = s.world →
            Both (e.intOutside64Bits obj z) ((e.under o).intOutside64Bits obj z)
              (fun _ s3 _ t3 => WroteDoc i i' B s1 t1 s3 t3) (fun _ _ => True) s2 t2 := by
          intro s2 t2 h2 hworld2
          have hview : (e.rt.view s2.world.heap obj).body = .int z := by rw [hworld2, hp, hbody]
          exact (e.intOutside64Bits_both ho hB i i' hview h2.inStep).mono
            (fun _ _ _ _ hw => hw.after h2) fun _ _ h => h
        have h := h1.inStep
        dsimp only
        split
        · next hz =>
          refine .get_bind ?_
          rw [h.exc, h.calm, hopt]
          split
          · trivial
          · split
            · exact both_fail _
            · exact hput z hz.1 (hz.2.trans (by decide)) s1 t1 h
        · rw [hopt]
          split
          · next hz =>
            unfold asUnsignedLongLong
            split
            · next hle =>
              rw [pure_bind, pure_bind]
              refine .get_bind ?_
              rw [if_pos (Or.inr (by rw [h.calm]; rfl)),
                if_pos (Or.inr (by rw [h.exc, h.calm]; rfl))]
              exact hput z (le_trans (by decide) hz.1.le) hle s1 t1 h
            · -- the error of the probe is cleared by both
              rw [bind_assoc, bind_assoc]
              refine .modify_bind ?_
              rw [pure_bind, pure_bind]
              refine .get_bind ?_
              rw [if_neg (by simp), if_neg (by simp)]
              have hcleared : WroteBoth B [] [] s1 t1 { s1 with exc := none } { t1 with exc := none } :=
                .of_frame ⟨⟨h.depth, h.defaultDepth, h.dt, h.npRechecked, h.types, h.heap, rfl⟩, rfl⟩
                  rfl rfl
              exact .modify_bind (hbig _ _ hcleared hworld)
          · exact hbig s1 t1 (.nil h) hworld
    | _ => trivial
  · rw [hp, hp']
    trivial

omit ho hB in
lemma calm_utcoffsetOf (obj tzinfo arg : Obj) (what : String) :
    Calm OffsetUnderADay (e.utcoffsetOf obj tzinfo arg what : Encode Obj H a _) := by
  intro s hs
  refine (e.utcoffsetOf_spec (C := fun _ => True) obj tzinfo arg what s).mono ?_
    (fun _ _ _ => trivial) fun _ h => h
  rintro answer s' ⟨hanswer, hexc⟩
  refine ⟨hexc.trans hs, ?_⟩
  rintro us rfl
  exact e.rt.offsetAnswer_lt hanswer

omit e ho hB in
/-- A text that a formatter makes, which fits. -/
lemma both_formatted {i i' : Bool} {x y : Option (Buffer a)} {u : Bytes} {s t : St Obj H a}
    (hu : ∃ chars, IsString u chars) (hx : ∃ b, x = some b ∧ b.content = s.out.content ++ u)
    (hy : ∃ b, y = some b ∧ b.content = t.out.content ++ u) (h : InStep B s t) :
    Both (Run.unchecked x >>= fun out => emit fun _ => out : Encode Obj H a Unit)
      (Run.unchecked y >>= fun out => emit fun _ => out)
      (fun _ s1 _ t1 => WroteDoc i i' B s t s1 t1) (fun _ _ => True) s t := by
  obtain ⟨chars, hchars⟩ := hu
  obtain ⟨b, rfl, hb⟩ := hx
  obtain ⟨c, rfl, hc⟩ := hy
  rw [unchecked_some, unchecked_some, pure_bind, pure_bind]
  exact (both_emit hb hc h).mono (fun _ _ _ _ hw => .scalar ⟨_, .string hchars⟩ hw) fun _ _ h => h

lemma writeAlike_datetime (i i' : Bool) (obj : Obj) :
    WriteAlike i i' B (e.datetime obj : Encode Obj H a Unit) ((e.under o).datetime obj) := by
  refine .look hB rfl rfl fun hp p p' htwin => ?_
  rcases htwin.eq_or_dict with rfl | ⟨slots, slots', hp, hp'⟩
  · cases hbody : p'.body with
    | datetime d x tzinfo =>
        refine .after hB (asks_event _) (reports_event _).calm fun _ _ => ?_
        refine .after hB (e.asks_utcoffsetOf obj tzinfo obj "datetime")
          (e.calm_utcoffsetOf obj tzinfo obj "datetime") fun answer hanswer => ?_
        refine .after hB (asks_event _) (reports_event _).calm fun _ _ => ?_
        intro s t h
        refine .get_bind ?_
        obtain ⟨b, hb, hc⟩ := writeDatetime_spec t.out ⟨d.y, d.mo, d.d, x.h, x.mi, x.s, x.us⟩
          (hanswer.adjusted o).fits o
        rw [ho.datetimeText, ho.adjustedOffset] at hc
        exact both_formatted (isString_datetime _ _ _)
          (writeDatetime_spec s.out ⟨d.y, d.mo, d.d, x.h, x.mi, x.s, x.us⟩
            (hanswer.adjusted e.opts).fits e.opts) ⟨b, hb, hc⟩ h
    | _ => exact .fault
  · rw [hp, hp']
    exact .fault

omit ho in
lemma writeAlike_date (i i' : Bool) (obj : Obj) :
    WriteAlike i i' B (e.date obj : Encode Obj H a Unit) ((e.under o).date obj) := by
  refine .look hB rfl rfl fun hp p p' htwin => ?_
  rcases htwin.eq_or_dict with rfl | ⟨slots, slots', hp, hp'⟩
  · cases hbody : p'.body with
    | date d =>
        intro s t h
        refine .get_bind ?_
        exact both_formatted (isString_date d) (writeDate_spec s.out d) (writeDate_spec t.out d) h
    | _ => exact .fault
  · rw [hp, hp']
    exact .fault

lemma writeAlike_time (i i' : Bool) (obj : Obj) :
    WriteAlike i i' B (e.time obj : Encode Obj H a Unit) ((e.under o).time obj) := by
  refine .look hB rfl rfl fun hp p p' htwin => ?_
  rcases htwin.eq_or_dict with rfl | ⟨slots, slots', hp, hp'⟩
  · cases hbody : p'.body with
    | time x tzinfo =>
        refine .after hB (asks_event _) (reports_event _).calm fun _ _ => ?_
        refine .after hB (e.asks_utcoffsetOf obj tzinfo e.rt.pyNone "time")
          (e.calm_utcoffsetOf obj tzinfo e.rt.pyNone "time") fun answer hanswer => ?_
        refine .after hB (asks_event _) (reports_event _).calm fun _ _ => ?_
        intro s t h
        refine .get_bind ?_
        obtain ⟨b, hb, hc⟩ := writeTime_spec t.out x hanswer.fits
          ((e.under o).opts &&& ~~~(optNaiveUtc ||| optUtcZ))
        have htext : timeOffsetText x answer ((e.under o).opts &&& ~~~(optNaiveUtc ||| optUtcZ)) =
            timeOffsetText x answer (e.opts &&& ~~~(optNaiveUtc ||| optUtcZ)) := by
          obtain ⟨hz, hm⟩ := hasOpt_timeOpts e.opts
          obtain ⟨hz', hm'⟩ := hasOpt_timeOpts (e.under o).opts
          have hmicros : hasOpt (e.under o).opts optOmitMicroseconds =
            hasOpt e.opts optOmitMicroseconds := ho.hasOpt (by decide)
          rw [timeOffsetText, timeOffsetText, shownMicros, shownMicros, hz, hz', hm, hm', hmicros]
        rw [htext] at hc
        refine both_formatted ?_ (writeTime_spec s.out x hanswer.fits _) ⟨b, hb, hc⟩ h
        exact isString_timeText x _ _ answer
    | _ => exact .fault
  · rw [hp, hp']
    exact .fault

/-! ## numpy -/

lemma documentOf_under (iface : PyArrayInterface) (elem : ElementType) (unit : Option Dt64Unit)
    {h h' : H} (hheap : B h h') :
    (e.under o).documentOf iface elem unit h' = e.documentOf iface elem unit h := by
  have htext : ((e.under o).leaves elem unit).textAt ((e.under o).rt.memory h') =
      (e.leaves elem unit).textAt (e.rt.memory h) := by
    funext p
    have hmemory : (e.under o).rt.memory h' = e.rt.memory h := hB.memory hheap
    rw [hmemory]
    exact ho.leafText e.fmt elem unit _
  rw [documentOf, documentOf, htext]

lemma declineAlike_walkArray (hfmt : e.fmt.WriteNumbers) {iface : PyArrayInterface}
    {elem : ElementType} {unit : Option Dt64Unit} (hnd : 0 < iface.nd)
    (hunit : UnitKnown elem unit iface.shape) :
    DeclineAlike e.indent (e.under o).indent B
      (e.walkArray iface elem unit : Encode Obj H a _) ((e.under o).walkArray iface elem unit) := by
  intro s t h
  have hdocs := e.documentOf_under ho hB iface elem unit h.heap
  unfold Both
  rcases e.walkArray_spec iface elem hnd hunit.1 s with
      ⟨doc, b, hdoc, hrun, hb⟩ | ⟨reason, b, hdoc, hrun, hb⟩ <;>
    rcases (e.under o).walkArray_spec iface elem hnd hunit.1 t with
      ⟨doc', c, hdoc', hrun', hc⟩ | ⟨reason', c, hdoc', hrun', hc⟩ <;>
    rw [hdocs, hdoc] at hdoc' <;> simp only [Except.ok.injEq, Except.error.injEq,
      reduceCtorEq] at hdoc' <;> subst hdoc' <;> rw [hrun, hrun']
  · obtain ⟨n, hn⟩ := e.documentOf_stands hfmt hunit hdoc
    rw [h.depth] at hc
    exact ⟨rfl, doc, n, hn, h.written hb hc⟩
  · exact ⟨rfl, h.written (by rw [hb, List.append_nil]) (by rw [hc, List.append_nil])⟩

lemma declineAlike_serializeHeld (hfmt : e.fmt.WriteNumbers) (obj capsule : Obj)
    (iface : PyArrayInterface) :
    DeclineAlike e.indent (e.under o).indent B (e.serializeHeld obj capsule iface : Encode Obj H a _)
      ((e.under o).serializeHeld obj capsule iface) := by
  unfold serializeHeld
  split
  · next check _ =>
    intro s t h
    refine ((e.asks_arrayDecline obj iface check).both hB (e.reports_arrayDecline obj iface check).calm
      h).bind ?_
    rintro reason s1 _ t1 ⟨rfl, -, h1⟩
    exact ⟨rfl, h1⟩
  · next elem hclass =>
    intro s t h
    refine ((e.asks_arrayUnit obj elem iface.shape).both hB
      ((e.reports_arrayUnit obj elem iface.shape).calm.results
        (e.arrayUnit_known obj elem iface.shape)) h).bind ?_
    rintro (reason | unit) s1 _ t1 ⟨rfl, hunit, h1⟩
    · exact ⟨rfl, h1⟩
    · refine ((asks_event _).both hB (reports_event _).calm h1.inStep).bind ?_
      rintro _ s2 _ t2 ⟨-, -, h2⟩
      refine (e.declineAlike_walkArray ho hB hfmt (nd_pos_of_classify hclass) (hunit unit rfl) s2 t2
        h2.inStep).mono ?_ fun _ _ h => h
      rintro (_ | reason) s3 _ t3 ⟨rfl, h3⟩
      · exact ⟨rfl, h3.after (h1.trans h2)⟩
      · exact ⟨rfl, (h1.trans h2).trans h3⟩

lemma declineAlike_serializeArray (hfmt : e.fmt.WriteNumbers) (obj : Obj) :
    DeclineAlike e.indent (e.under o).indent B (e.serializeArray obj : Encode Obj H a _)
      ((e.under o).serializeArray obj) := by
  intro s t h
  refine ((e.asks_arrayStruct obj).both hB (e.reports_arrayStruct obj).calm h).bind ?_
  rintro ⟨capsule, iface⟩ s1 _ t1 ⟨rfl, -, h1⟩
  refine Both.onExit ((e.declineAlike_serializeHeld ho hB hfmt obj capsule iface s1 t1
    h1.inStep).mono ?_ fun _ _ h => h)
  have hdropped : ∀ {u v : Bytes} {s2 t2 : St Obj H a}, WroteBoth B u v s1 t1 s2 t2 →
      WroteBoth B u v s1 t1 (s2.dropped capsule) (t2.dropped capsule) := fun h2 =>
    ⟨⟨⟨h2.inStep.depth, h2.inStep.defaultDepth, h2.inStep.dt, h2.inStep.npRechecked,
      h2.inStep.types, h2.inStep.heap, h2.inStep.exc⟩, h2.inStep.calm⟩, h2.depth, h2.left, h2.right⟩
  rintro (_ | reason) s2 _ t2 ⟨rfl, h2⟩
  · obtain ⟨doc, n, hn, h2⟩ := h2
    exact ⟨rfl, WroteDoc.after h1 ⟨doc, n, hn, hdropped h2⟩⟩
  · exact ⟨rfl, h1.trans (hdropped h2)⟩

/-- One element behind its unit, written by both or declined by both. -/
lemma both_scalarElement (hfmt : e.fmt.WriteNumbers) (obj : Obj) {elem : ElementType}
    {unit : Option Dt64Unit} (hunit : UnitKnown elem unit []) :
    DeclineAlike e.indent (e.under o).indent B (e.scalarElement obj elem unit : Encode Obj H a _)
      ((e.under o).scalarElement obj elem unit) := by
  intro s t h
  refine both_look hB rfl rfl h fun p' s1 t1 htwin _ h1 => ?_
  generalize e.rt.view s.world.heap obj = p at htwin ⊢
  rcases htwin.eq_or_dict with rfl | ⟨slots, slots', hp, hp'⟩
  · cases hbody : p'.body with
    | scalar data =>
        refine .get_bind ?_
        have hright := Leaves.write_spec ((e.under o).leaves elem unit) hunit.1 t1.out
          (Words.wordOf (data.take elem.size))
        have htext : ((e.under o).leaves elem unit).text (Words.wordOf (data.take elem.size)) =
          (e.leaves elem unit).text (Words.wordOf (data.take elem.size)) := ho.leafText ..
        rw [htext] at hright
        rcases Leaves.write_spec (e.leaves elem unit) hunit.1 s1.out
            (Words.wordOf (data.take elem.size)) with ⟨u, b, hu, hw, hb⟩ | ⟨reason, hu, hw⟩ <;>
          rcases hright with ⟨v, c, hv, hw', hc⟩ | ⟨reason', hv, hw'⟩ <;>
          rw [hu] at hv <;> simp only [Except.ok.injEq, Except.error.injEq, reduceCtorEq] at hv <;>
          subst hv <;> simp only [hw, hw']
        · have hlt : Words.wordOf (data.take elem.size) < 256 ^ elem.size :=
            (Words.wordOf_lt _).trans_le
              (Nat.pow_le_pow_right (by decide) (List.length_take_le ..))
          have hscalar := Leaves.isScalarText (l := e.leaves elem unit) hfmt
            (fun hdt => (hunit.2 hdt).resolve_right List.not_mem_nil) hlt hu
          refine (both_emit hb hc h1.inStep).bind fun _ s2 _ t2 h2 => ?_
          exact ⟨rfl, (WroteDoc.scalar hscalar h2).after h1⟩
        · exact ⟨rfl, h1⟩
    | _ => trivial
  · rw [hp, hp']
    trivial

lemma declineAlike_serializeScalar (hfmt : e.fmt.WriteNumbers) (obj : Obj) (elem : ElementType) :
    DeclineAlike e.indent (e.under o).indent B (e.serializeScalar obj elem : Encode Obj H a _)
      ((e.under o).serializeScalar obj elem) := by
  rw [serializeScalar_eq, serializeScalar_eq]
  split
  · intro s t h
    refine ((e.asks_dt64Unit obj).both hB ((e.reports_dt64Unit obj).calm.results
      (e.dt64Unit_inRange obj)) h).bind ?_
    rintro (reason | unit) s1 _ t1 ⟨rfl, hr, h1⟩
    · exact ⟨rfl, h1⟩
    · refine (e.both_scalarElement ho hB hfmt obj ⟨hr unit rfl, fun _ => Or.inl rfl⟩ s1 t1
        h1.inStep).mono ?_ fun _ _ h => h
      rintro (_ | reason) s2 _ t2 ⟨rfl, h2⟩
      · exact ⟨rfl, h2.after h1⟩
      · exact ⟨rfl, h1.trans h2⟩
  · next hdt =>
    exact e.both_scalarElement ho hB hfmt obj
      ⟨fun u hu => absurd hu (Option.not_mem_none u), fun h => absurd h hdt⟩

end Env

end Isojson
