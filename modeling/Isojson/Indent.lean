import Isojson.LockstepWriters

/-!
# `OPT_INDENT_2` only adds layout

Two calls of `dumps` in step, and from them the relation between the compact and the indented
output of a document.  The calls see the same replies of CPython and of Python code, which may be
anything; memory may run out in the one and not in the other, since the texts differ in length.
-/

namespace Isojson

open Json Run

variable {Obj H : Type} {a : Allocator} {α β : Type}

/-! ## Up to memory -/

/-- The run raised `MemoryError`. -/
def OutOfMemory (m : Encode Obj H a α) (s : St Obj H a) : Prop :=
  wp (fun _ => False) m (fun _ _ => False) (fun _ s' => s'.exc = some (.system "MemoryError")) s

/-- Both runs return, with results that `Q` relates, or neither of them does; unless memory ran out
in one of them. -/
def UpToMemory (m : Encode Obj H a α) (m' : Encode Obj H a β) (Q : α → β → Prop)
    (s t : St Obj H a) : Prop :=
  OutOfMemory m s ∨ OutOfMemory m' t ∨
    Both m m' (fun x _ y _ => Q x y) (fun _ _ => True) s t

section UpToMemory

variable {γ δ : Type} {m : Encode Obj H a α} {m' : Encode Obj H a β} {k : α → Encode Obj H a γ}
  {k' : β → Encode Obj H a δ} {P : α → St Obj H a → β → St Obj H a → Prop} {Q : γ → δ → Prop}
  {s t : St Obj H a}

/-- Runs in step, and what follows. -/
lemma UpToMemory.after (hm : Both m m' P (fun _ _ => True) s t)
    (hk : ∀ x s1 y t1, P x s1 y t1 → UpToMemory (k x) (k' y) Q s1 t1) :
    UpToMemory (m >>= k) (m' >>= k') Q s t := by
  show OutOfMemory (Run.bind m k) s ∨ OutOfMemory (Run.bind m' k') t ∨
    Both (Run.bind m k) (Run.bind m' k') _ _ s t
  unfold UpToMemory at hk
  unfold OutOfMemory Both wp Run.bind at *
  cases hs : m s <;> cases ht : m' t <;> rw [hs, ht] at hm <;>
    first | exact False.elim hm | exact hk _ _ _ _ hm | exact Or.inr (Or.inr trivial)

/-- A run that returned has its memory. -/
lemma OutOfMemory.not_ok {x : α} {s' : St Obj H a} (hm : m s = .ok x s') : ¬ OutOfMemory m s := by
  unfold OutOfMemory wp
  rw [hm]
  exact id

lemma UpToMemory.mono {Q Q' : α → β → Prop} (h : UpToMemory m m' Q s t)
    (hQ : ∀ x y, Q x y → Q' x y) : UpToMemory m m' Q' s t :=
  h.imp id fun h => h.imp id fun h => h.mono (fun x _ y _ => hQ x y) fun _ _ h => h

/-- What two calls returned is related. -/
lemma UpToMemory.of_ok {Q : α → β → Prop} (h : UpToMemory m m' Q s t) {x : α} {y : β}
    {s' t' : St Obj H a} (hm : m s = .ok x s') (hm' : m' t = .ok y t') : Q x y := by
  have hboth := (h.resolve_left (OutOfMemory.not_ok hm)).resolve_left (OutOfMemory.not_ok hm')
  unfold Both at hboth
  rwa [hm, hm'] at hboth

end UpToMemory

/-! ## `dumps` in step -/

/-- Both outputs are layouts of the same document, with or without a newline at the end. -/
def SameDocument (i i' newline : Bool) (b b' : Bytes) : Prop :=
  ∃ (doc : Doc) (n : Node), doc.Stands n ∧
    b = doc.render i 0 ++ (if newline then [10] else []) ∧
    b' = doc.render i' 0 ++ (if newline then [10] else [])

namespace Host

variable {B : H → H → Prop} (h : Host Obj H) {opts o : UInt32} {s t : St Obj H a}

lemma finish_ends (s : St Obj H a) :
    OutOfMemory (finish : Encode Obj H a Bytes) s ∨
      ∃ s', (finish : Encode Obj H a Bytes) s = .ok s.out.content s' := by
  obtain ⟨f, hf, -, hres, -⟩ := s.out.raw.finish_spec s.out.wf
  cases hresult : f.result with
  | none =>
      refine Or.inl ?_
      unfold OutOfMemory finish
      rw [wp_bind, wp_get, wp_bind, wp_unchecked hf, hresult]
      rfl
  | some bytes =>
      refine Or.inr ⟨s, ?_⟩
      unfold finish
      rw [bind_of_ok (get_apply s), hf, unchecked_some, pure_bind, hresult]
      exact congrArg (Outcome.ok · s) (hres bytes hresult).1

/-- Both outputs, finished. -/
lemma finish_upToMemory {Q : Bytes → Bytes → Prop} (hQ : Q s.out.content t.out.content) :
    UpToMemory (finish : Encode Obj H a Bytes) finish Q s t := by
  rcases finish_ends s with hs | ⟨s', hs⟩
  · exact Or.inl hs
  · rcases finish_ends t with ht | ⟨t', ht⟩
    · exact Or.inr (Or.inl ht)
    · refine Or.inr (Or.inr ?_)
      unfold Both
      rw [hs, ht]
      exact hQ

/-- The encoder, and the end of the output. -/
lemma write_upToMemory [DecidableEq Obj] (e : Env Obj H) (hfmt : e.fmt.WriteNumbers)
    (ho : Alike e.opts o) (hB : e.rt.Twins e.opts B) (newline : Bool) (fuel : ℕ) (obj : Obj)
    (hst : InStep B s t) (hdepth : s.depth = 0) (hs : s.out.content = []) (ht : t.out.content = []) :
    UpToMemory (do
        e.serialize fuel obj
        if newline then emit (·.push 10) else Pure.pure ()
        finish) (do
        (e.under o).serialize fuel obj
        if newline then emit (·.push 10) else Pure.pure ()
        finish)
      (SameDocument e.indent (e.under o).indent newline) s t := by
  refine .after (e.writeAlike_serialize ho hB hfmt fuel obj s t hst) ?_
  rintro _ s1 _ t1 ⟨doc, n, hn, hw⟩
  have hleft := hw.left
  have hright := hw.right
  rw [hs, hdepth, List.nil_append] at hleft
  rw [ht, hdepth, List.nil_append] at hright
  cases newline with
  | false => exact finish_upToMemory ⟨doc, n, hn, by simpa using hleft, by simpa using hright⟩
  | true =>
      refine .after (both_emit (u := [10]) (v := [10]) (Buffer.content_push ..)
        (Buffer.content_push ..) hw.inStep) ?_
      intro _ s2 _ t2 h2
      refine finish_upToMemory ⟨doc, n, hn, ?_, ?_⟩
      · rw [h2.left, hleft, if_pos rfl]
      · rw [h2.right, hright, if_pos rfl]

/-- **Calls in step.**  Under options alike and from heaps alike, two calls return layouts of the
same document, or neither returns. -/
lemma dumpsObject_upToMemory [DecidableEq Obj] (hfmt : h.fmt.WriteNumbers) (ho : Alike opts o)
    (hB : h.rt.Twins opts B) (hint hint' fuel : ℕ) (obj : Obj) (default : Option Obj)
    (hst : InStep B s t) :
    UpToMemory (h.dumpsObject hint fuel obj default opts)
      (h.dumpsObject hint' fuel obj default o)
      (SameDocument (hasOpt opts optIndent2) (hasOpt o optIndent2) (hasOpt opts optAppendNewline))
      s t := by
  have hnewline : hasOpt o optAppendNewline = hasOpt opts optAppendNewline := ho.hasOpt (by decide)
  have hnumpy : hasOpt o optSerializeNumpy = hasOpt opts optSerializeNumpy := ho.hasOpt (by decide)
  unfold dumpsObject start
  rw [hnewline, hnumpy, bind_assoc, bind_assoc]
  refine .after (both_datetimeGroup hB hst) ?_
  rintro _ s1 dt t1 ⟨rfl, h1⟩
  cases hbuf : Buffer.new a hint with
  | none => exact Or.inl rfl
  | some b =>
      cases hbuf' : Buffer.new a hint' with
      | none => exact Or.inr (Or.inl rfl)
      | some b' =>
          let guard := default.isSome || hasOpt opts optSerializeNumpy || dt.isSome
          have hinStep : InStep B
              { s1 with out := b, depth := 0, defaultDepth := 0, dt := dt, npRechecked := false }
              { t1 with out := b', depth := 0, defaultDepth := 0, dt := dt, npRechecked := false } :=
            ⟨⟨rfl, rfl, rfl, rfl, h1.inStep.types, h1.inStep.heap, h1.inStep.exc⟩, h1.inStep.calm⟩
          exact write_upToMemory ⟨h, default, opts, guard, MAX_DEPTH⟩ hfmt ho hB _ fuel obj hinStep rfl
            (Buffer.content_of_new hbuf) (Buffer.content_of_new hbuf')

end Host

/-! ## Layout -/

/-- `v` is the indented text of the document that `u` is the compact text of.  Without the line
breaks and spaces outside its string literals, `v` is `u`; and `v` is the lines of the document. -/
def Indents (u v : Bytes) : Prop :=
  stripLayout .outside v = u ∧ ∃ (doc : Doc) (n : Node), doc.Stands n ∧ u = doc.render false 0 ∧
    v = unlines (doc.lines 0 [] []) ∧ ∀ l ∈ doc.lines 0 [] [], 10 ∉ l.2

lemma indents_render {doc : Doc} {n : Node} (h : doc.Stands n) :
    Indents (doc.render false 0) (doc.render true 0) :=
  ⟨h.strip_render, doc, n, h, rfl, doc.render_eq_unlines, h.noBreak 0 (by simp) (by simp)⟩

lemma hasOpt_indented (opts : UInt32) : hasOpt (opts ||| optIndent2) optIndent2 = true := by
  have hbit : (opts ||| optIndent2) &&& optIndent2 = optIndent2 := by
    apply UInt32.toBitVec_inj.mp
    ext i hi
    simp only [UInt32.toBitVec_and, UInt32.toBitVec_or, BitVec.getElem_and, BitVec.getElem_or,
      Bool.and_eq_right_iff_imp, Bool.or_eq_true]
    exact Or.inr
  rw [hasOpt, hbit]
  rfl

/-- **`OPT_INDENT_2` only adds layout.**  Of two calls on the same object that differ in this option
alone, the one returns if and only if the other does, unless memory runs out in one of them.  What
they return is one document, compact and indented, with the same newline at the end. -/
theorem indent_only_adds_layout [DecidableEq Obj] (h : Host Obj H) (hfmt : h.fmt.WriteNumbers)
    (hint hint' fuel : ℕ) (obj : Obj) (default : Option Obj) {opts : UInt32}
    (hopts : hasOpt opts optIndent2 = false) {s : St Obj H a} (hs : s.exc = none) :
    UpToMemory (h.dumpsObject hint fuel obj default opts)
      (h.dumpsObject hint' fuel obj default (opts ||| optIndent2))
      (fun b b' => ∃ u v, Indents u v ∧
        b = u ++ (if hasOpt opts optAppendNewline then [10] else []) ∧
        b' = v ++ (if hasOpt opts optAppendNewline then [10] else [])) s s := by
  have hst : InStep Eq s s := ⟨⟨rfl, rfl, rfl, rfl, rfl, rfl, rfl⟩, hs⟩
  have hboth := h.dumpsObject_upToMemory hfmt (alike_indent opts) (h.rt.twins_eq opts) hint hint' fuel
    obj default hst
  rw [hopts, hasOpt_indented] at hboth
  refine hboth.mono ?_
  rintro _ _ ⟨doc, n, hn, rfl, rfl⟩
  exact ⟨_, _, indents_render hn, rfl, rfl⟩

/-- The list of a float and an empty dict, compact and indented. -/
theorem indent_only_adds_layout_list :
    ∃ s s', floatAndDict.host.dumpsObject 0 5 0 none 0 (floatAndDict.state ⟨none, none⟩) =
        .ok (Bytes.ascii "[0.0,\x7b\x7d]") s ∧
      floatAndDict.host.dumpsObject 0 5 0 none 1 (floatAndDict.state ⟨none, none⟩) =
        .ok (Bytes.ascii "[\n  0.0,\n  \x7b\x7d\n]") s' ∧
      Indents (Bytes.ascii "[0.0,\x7b\x7d]") (Bytes.ascii "[\n  0.0,\n  \x7b\x7d\n]") := by
  have hcompact : ∃ s, floatAndDict.host.dumpsObject 0 5 0 none 0 (floatAndDict.state ⟨none, none⟩) =
      .ok (Bytes.ascii "[0.0,\x7b\x7d]") s := ⟨_, rfl⟩
  have hindented : ∃ s, floatAndDict.host.dumpsObject 0 5 0 none 1 (floatAndDict.state ⟨none, none⟩) =
      .ok (Bytes.ascii "[\n  0.0,\n  \x7b\x7d\n]") s := ⟨_, rfl⟩
  obtain ⟨s, hs⟩ := hcompact
  obtain ⟨s', hs'⟩ := hindented
  have hboth := indent_only_adds_layout floatAndDict.host Formats.writeNumbers_plain 0 0 5 0 none
    (show hasOpt 0 optIndent2 = false from rfl) (s := floatAndDict.state ⟨none, none⟩) rfl
  obtain ⟨u, v, huv, hu, hv⟩ := hboth.of_ok hs hs'
  rw [if_neg (by decide), List.append_nil] at hu hv
  subst hu hv
  exact ⟨s, s', hs, hs', huv⟩

end Isojson
