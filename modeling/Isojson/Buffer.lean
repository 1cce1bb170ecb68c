import Isojson.Float

/-!
# The output buffer with its invariant

`Buffer a` is an `OutputBuffer` over the allocator `a` that keeps its invariant.  Every writer
of the encoder takes a `Buffer` to a `Buffer`, so it is total, and one lemma says what it does to
the content.
-/

namespace Isojson

/-- An allocator that serves every request with zeroed memory. -/
def Allocator.plain : Allocator := ⟨fun _ => true, fun _ _ => 0, fun _ => 0⟩

structure Buffer (a : Allocator) where
  raw : OutputBuffer
  wf : raw.WF
  alloc_eq : raw.alloc = a

namespace Buffer

variable {a : Allocator}

def content (b : Buffer a) : Bytes := b.raw.content

/-- The buffer for the thread's size hint. -/
def new (a : Allocator) (hint : ℕ) : Option (Buffer a) :=
  match h : OutputBuffer.new a hint with
  | some b => some ⟨b, (OutputBuffer.wf_new h).1, (OutputBuffer.wf_new h).2.2.2⟩
  | none => none

lemma content_of_new {hint : ℕ} {b : Buffer a} (h : new a hint = some b) : b.content = [] := by
  unfold new at h
  split at h
  · next raw hraw =>
    obtain rfl := Option.some.inj h
    exact (OutputBuffer.wf_new hraw).2.1
  · exact absurd h (by simp)

/-- A writer that returns a well-formed buffer with the text `t` behind the old content. -/
def append (b : Buffer a) (t : Bytes) (f : OutputBuffer → Option OutputBuffer)
    (h : ∃ b', f b.raw = some b' ∧ b'.WF ∧ b'.content = b.raw.content ++ t ∧
      b'.alloc = b.raw.alloc) : Buffer a where
  raw := (f b.raw).get (by obtain ⟨b', hb, -⟩ := h; rw [hb]; rfl)
  wf := by
    obtain ⟨b', hb, hwf, -⟩ := h
    simpa only [hb, Option.get_some] using hwf
  alloc_eq := by
    obtain ⟨b', hb, -, -, ha⟩ := h
    simpa only [hb, Option.get_some] using ha.trans b.alloc_eq

lemma content_append {b : Buffer a} {t : Bytes} {f : OutputBuffer → Option OutputBuffer}
    (h : ∃ b', f b.raw = some b' ∧ b'.WF ∧ b'.content = b.raw.content ++ t ∧
      b'.alloc = b.raw.alloc) : (b.append t f h).content = b.content ++ t := by
  obtain ⟨b', hb, -, hc, -⟩ := id h
  simpa only [content, append, hb, Option.get_some] using hc

def push (b : Buffer a) (c : UInt8) : Buffer a := b.append [c] (·.push c) (b.raw.push_spec b.wf c)

@[simp] lemma content_push (b : Buffer a) (c : UInt8) : (b.push c).content = b.content ++ [c] :=
  content_append _

def extend (b : Buffer a) (s : Bytes) : Buffer a :=
  b.append s (·.extendFromSlice s) (b.raw.extendFromSlice_spec b.wf s)

@[simp] lemma content_extend (b : Buffer a) (s : Bytes) :
    (b.extend s).content = b.content ++ s := content_append _

/-- Room for `n` more bytes. -/
def reserve (b : Buffer a) (n : ℕ) : Buffer a :=
  b.append [] (·.reserve n) (by
    obtain ⟨b', h, hwf, -, hc, ha, -⟩ := b.raw.reserve_spec b.wf n
    exact ⟨b', h, hwf, by rw [hc, List.append_nil], ha⟩)

@[simp] lemma content_reserve (b : Buffer a) (n : ℕ) : (b.reserve n).content = b.content :=
  (content_append _).trans (List.append_nil _)

/-- `small_copy`; a longer text would leave a gap between the two copies. -/
def smallCopy (b : Buffer a) (s : Bytes) (hs : s.length ≤ 32) : Buffer a :=
  b.append s (Isojson.smallCopy · s) (b.raw.smallCopy_spec b.wf hs)

@[simp] lemma content_smallCopy (b : Buffer a) {s : Bytes} (hs : s.length ≤ 32) :
    (b.smallCopy s hs).content = b.content ++ s := content_append _

/-- `small_copy` of a text whose length is not known before the call. -/
def smallCopy? (b : Buffer a) (s : Bytes) : Option (Buffer a) :=
  if hs : s.length ≤ 32 then some (b.smallCopy s hs) else none

/-- `write_int` -/
def writeInt (b : Buffer a) (fmt : Formats) (z : ℤ) : Buffer a :=
  b.smallCopy (fmt.itoa z) ((fmt.length_itoa z).trans (by decide))

@[simp] lemma content_writeInt (b : Buffer a) (fmt : Formats) (z : ℤ) :
    (b.writeInt fmt z).content = b.content ++ fmt.itoa z := content_smallCopy ..

def writeF64 (b : Buffer a) (fmt : Formats) (v : UInt64) : Buffer a :=
  if isFinite64 v then
    b.append (fmt.zmij64 v) (writeFinite fmt.zmijBuffer · (fmt.zmij64 v))
      (b.raw.writeFinite_spec b.wf (fmt.length_zmij64 v))
  else b.extend (Bytes.ascii "null")

/-- The text of a double. -/
def f64Text (fmt : Formats) (v : UInt64) : Bytes :=
  if isFinite64 v then fmt.zmij64 v else Bytes.ascii "null"

@[simp] lemma content_writeF64 (b : Buffer a) (fmt : Formats) (v : UInt64) :
    (b.writeF64 fmt v).content = b.content ++ f64Text fmt v := by
  unfold writeF64 f64Text
  split
  · exact content_append _
  · exact content_extend ..

def writeF32 (b : Buffer a) (fmt : Formats) (v : UInt32) : Buffer a :=
  if isFinite32 v then
    b.append (fmt.zmij32 v) (writeFinite fmt.zmijBuffer · (fmt.zmij32 v))
      (b.raw.writeFinite_spec b.wf (fmt.length_zmij32 v))
  else b.extend (Bytes.ascii "null")

/-- The text of a single. -/
def f32Text (fmt : Formats) (v : UInt32) : Bytes :=
  if isFinite32 v then fmt.zmij32 v else Bytes.ascii "null"

@[simp] lemma content_writeF32 (b : Buffer a) (fmt : Formats) (v : UInt32) :
    (b.writeF32 fmt v).content = b.content ++ f32Text fmt v := by
  unfold writeF32 f32Text
  split
  · exact content_append _
  · exact content_extend ..

/-- `set_len` back to an earlier length; a length past the written bytes would show others. -/
def truncate? (b : Buffer a) (n : ℕ) : Option (Buffer a) :=
  if hn : n ≤ b.raw.len then
    some ⟨b.raw.setLen n, (b.raw.setLen_spec b.wf hn).1, b.alloc_eq⟩
  else none

lemma truncate?_spec (b : Buffer a) {n : ℕ} (hn : n ≤ b.content.length) :
    ∃ b', b.truncate? n = some b' ∧ b'.content = b.content.take n := by
  have hlen : n ≤ b.raw.len := hn.trans (b.raw.length_content b.wf).le
  exact ⟨_, dif_pos hlen, (b.raw.setLen_spec b.wf hlen).2⟩

/-- The buffer that an allocator starts with which serves every request. -/
def plain : Buffer Allocator.plain where
  raw := (OutputBuffer.new Allocator.plain 0).get rfl
  wf := (OutputBuffer.wf_new (Option.some_get rfl).symm).1
  alloc_eq := rfl

lemma content_plain : plain.content = [] := rfl

end Buffer

/-! ## Strings -/

/-- A `str` as CPython holds it, with the code points it stands for. -/
structure StrObj where
  header : PyUnicode
  chars : List ℕ
  holds : header.Holds chars

/-- A string that UTF-8 can encode. -/
def StrObj.Encodable (s : StrObj) : Prop := ∀ c ∈ s.chars, ¬ Utf8.IsSurrogate c

namespace Buffer

variable {a : Allocator}

/-- `write_str`, without the error it raises where it returns `false`. -/
def writeStr (b : Buffer a) (arch : Arch) (enabled : Bool) (s : StrObj) : Bool × Buffer a :=
  have h := writeStr_spec arch enabled b.wf s.holds
  have hsome : (Isojson.writeStr arch enabled b.raw s.header).isSome := by
    obtain ⟨ok, out, hw, -⟩ := h
    rw [hw]
    rfl
  ((Isojson.writeStr arch enabled b.raw s.header |>.get hsome).1,
    { raw := (Isojson.writeStr arch enabled b.raw s.header |>.get hsome).2
      wf := by
        obtain ⟨ok, out, hw, hwf, -⟩ := h
        simpa only [hw, Option.get_some] using hwf
      alloc_eq := by
        obtain ⟨ok, out, hw, -, ha, -⟩ := h
        simpa only [hw, Option.get_some] using ha.trans b.alloc_eq })

lemma writeStr_ok_iff (b : Buffer a) (arch : Arch) (enabled : Bool) (s : StrObj) :
    (b.writeStr arch enabled s).1 = true ↔ s.Encodable := by
  obtain ⟨ok, out, hw, -, -, hok, -⟩ := Isojson.writeStr_spec arch enabled b.wf s.holds
  simpa only [writeStr, StrObj.Encodable, hw, Option.get_some] using hok

lemma content_writeStr (b : Buffer a) {arch : Arch} {enabled : Bool} {s : StrObj}
    (h : s.Encodable) :
    (b.writeStr arch enabled s).2.content = b.content ++ Json.quoted s.chars := by
  obtain ⟨ok, out, hw, -, -, hok, hc⟩ := Isojson.writeStr_spec arch enabled b.wf s.holds
  simpa only [writeStr, content, hw, Option.get_some] using hc (hok.mpr h)

end Buffer

end Isojson
