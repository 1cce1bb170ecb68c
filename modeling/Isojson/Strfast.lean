import Isojson.Escape

/-!
# `strfast.rs`: reading a `str`, and `write_str`

CPython holds a `str` in one of several forms, and `text` reads it in whichever form it is
found: from the object header when the self-check enabled that, else through the public API.
`PyUnicode.Holds` says which headers CPython may have for a sequence of code points, and
`writeStr_spec` that `write_str` writes the same text for all of them.
-/

namespace Isojson

open Words

/-! ## The code -/

def KIND_SHIFT : UInt32 := 2
def KIND_MASK : UInt32 := 0b111
def COMPACT : UInt32 := (1 : UInt32) <<< 5
def ASCII : UInt32 := (1 : UInt32) <<< 6

/-- What `strfast.rs` reads of a `str` object. -/
structure PyUnicode where
  length : ℕ
  state : UInt32
  /-- The cached UTF-8 of the compact header, when its pointer is not null. -/
  utf8 : Option Bytes
  /-- The characters: right behind the ASCII header or the compact header of a compact string,
  where `PyUnicode_DATA` points for any string. -/
  data : Bytes
  deriving DecidableEq

/-- The characters of a `str`, in whichever form CPython holds them. -/
inductive StrText
  | utf8 (b : Bytes)
  | latin1 (s : List UInt8)
  | ucs2 (s : List UInt16)
  | ucs4 (s : List UInt32)

/-- Whether the text has a code point UTF-8 can't encode. -/
def StrText.hasSurrogate (t : StrText) : Bool :=
  let surrogate (c : UInt32) : Bool := 0xD800 ≤ c && c ≤ 0xDFFF
  match t with
  | .utf8 _ => false
  | .latin1 _ => false
  | .ucs2 s => s.any fun c => surrogate c.toUInt32
  | .ucs4 s => s.any surrogate

def textOfKind (kind : UInt32) (data : Bytes) (n : ℕ) : StrText :=
  if kind = 1 then .latin1 ((readWords 1 n data).map UInt8.ofNat)
  else if kind = 2 then .ucs2 ((readWords 2 n data).map UInt16.ofNat)
  else .ucs4 ((readWords 4 n data).map UInt32.ofNat)

namespace PyUnicode

/-- `PyUnicode_KIND` -/
def kind (u : PyUnicode) : UInt32 := (u.state >>> KIND_SHIFT) &&& KIND_MASK

def layoutChars (u : PyUnicode) : Option StrText :=
  if u.state &&& (COMPACT ||| ASCII) = (COMPACT ||| ASCII) then
    some (.utf8 (u.data.take u.length))
  else if u.state &&& COMPACT = 0 then none
  else some (textOfKind u.kind u.data u.length)

def layoutText (u : PyUnicode) : Option StrText :=
  if u.state &&& (COMPACT ||| ASCII) = COMPACT then
    match u.utf8 with
    | some b => some (.utf8 b)
    | none => u.layoutChars
  else u.layoutChars

def apiText (u : PyUnicode) : StrText := textOfKind u.kind u.data u.length

/-- `text`; `enabled` is the outcome of the self-check. -/
def text (enabled : Bool) (u : PyUnicode) : StrText :=
  if enabled then
    match u.layoutText with
    | some t => t
    | none => u.apiText
  else u.apiText

end PyUnicode

/-- `write_str`; the caller's `TypeError` for a surrogate is raised where `false` is returned. -/
def writeStr (arch : Arch) (enabled : Bool) (out : OutputBuffer) (u : PyUnicode) :
    Option (Bool × OutputBuffer) :=
  match u.text enabled with
  | .utf8 b => do some (true, ← writeEscaped arch out b)
  | .latin1 s => writeEscapedUcs UInt8.toUInt32 1 out s
  | .ucs2 s => writeEscapedUcs UInt16.toUInt32 2 out s
  | .ucs4 s => writeEscapedUcs id 4 out s

/-! ## The forms of a string -/

/-- A header that CPython may have for the code points `s`: some kind that holds them all,
compact or not, and the UTF-8 text cached only where there is one. -/
structure PyUnicode.Holds (u : PyUnicode) (s : List ℕ) : Prop where
  code_points : ∀ c ∈ s, c < 0x110000
  length_eq : u.length = s.length
  kind_eq : u.kind = 1 ∨ u.kind = 2 ∨ u.kind = 4
  narrow : ∀ c ∈ s, c < 256 ^ u.kind.toNat
  data_eq : u.data = s.flatMap (leBytes u.kind.toNat)
  ascii : u.state &&& (COMPACT ||| ASCII) = (COMPACT ||| ASCII) →
    u.kind = 1 ∧ ∀ c ∈ s, c < 0x80
  cached : u.state &&& (COMPACT ||| ASCII) = COMPACT → ∀ b ∈ u.utf8,
    b = Utf8.encodeAll s ∧ ∀ c ∈ s, ¬ Utf8.IsSurrogate c

namespace PyUnicode

variable {u : PyUnicode} {s : List ℕ}

/-- The code points of characters read in some form. -/
inductive IsText (s : List ℕ) : StrText → Prop
  | utf8 (hs : ∀ c ∈ s, ¬ Utf8.IsSurrogate c) : IsText s (.utf8 (Utf8.encodeAll s))
  | latin1 {t : List UInt8} (ht : t.map (fun c => c.toUInt32.toNat) = s) : IsText s (.latin1 t)
  | ucs2 {t : List UInt16} (ht : t.map (fun c => c.toUInt32.toNat) = s) : IsText s (.ucs2 t)
  | ucs4 {t : List UInt32} (ht : t.map (fun c => (id c).toNat) = s) : IsText s (.ucs4 t)

/-- Units read from memory and widened are the code points again. -/
lemma map_readWords {T : Type} {f : ℕ → T} {g : T → ℕ} {k : ℕ} (hfg : ∀ c < 256 ^ k, g (f c) = c)
    (hs : ∀ c ∈ s, c < 256 ^ k) :
    ((readWords k s.length (s.flatMap (leBytes k))).map f).map g = s := by
  rw [readWords_flatMap hs, List.map_map]
  exact (List.map_congr_left fun c hc => hfg c (hs c hc)).trans (List.map_id _)

lemma Holds.textOfKind (h : u.Holds s) : IsText s (textOfKind u.kind u.data u.length) := by
  have hnarrow := h.narrow
  have hdata := h.data_eq
  rw [h.length_eq]
  unfold Isojson.textOfKind
  rcases h.kind_eq with hk | hk | hk <;> rw [hk] at hdata hnarrow ⊢ <;> rw [hdata]
  · rw [if_pos rfl]
    refine .latin1 (map_readWords (fun c hc => ?_) hnarrow)
    rw [UInt8.toNat_toUInt32, UInt8.toNat_ofNat']
    exact Nat.mod_eq_of_lt hc
  · rw [if_neg (by decide), if_pos rfl]
    refine .ucs2 (map_readWords (fun c hc => ?_) hnarrow)
    rw [UInt16.toNat_toUInt32, UInt16.toNat_ofNat']
    exact Nat.mod_eq_of_lt hc
  · rw [if_neg (by decide), if_neg (by decide)]
    refine .ucs4 (map_readWords (fun c hc => ?_) hnarrow)
    rw [id, UInt32.toNat_ofNat']
    exact Nat.mod_eq_of_lt hc

/-- The UTF-8 of an ASCII text is its one-byte units. -/
lemma encodeAll_of_ascii (hs : ∀ c ∈ s, c < 0x80) : Utf8.encodeAll s = s.flatMap (leBytes 1) := by
  refine List.flatMap_congr fun c hc => ?_
  have := hs c hc
  rw [Utf8.encode, if_pos this, leBytes, leBytes, Nat.mod_eq_of_lt (by omega)]

/-- **Whatever form is read**, it is a text of the code points the object holds. -/
lemma Holds.text (h : u.Holds s) (enabled : Bool) : IsText s (u.text enabled) := by
  have hchars : ∀ t ∈ u.layoutChars, IsText s t := by
    intro t ht
    unfold layoutChars at ht
    split at ht
    · next hascii =>
      obtain ⟨hk, hlt⟩ := h.ascii hascii
      have hdata := h.data_eq
      obtain rfl := Option.some.inj ht
      have hlen : (s.flatMap (leBytes 1)).length = s.length := by simp
      rw [hdata, h.length_eq, hk, show (1 : UInt32).toNat = 1 by rfl,
        List.take_of_length_le hlen.le, ← encodeAll_of_ascii hlt]
      exact .utf8 fun c hc hs => absurd (hlt c hc) (by have := hs.1; omega)
    · split at ht
      · exact absurd ht (by simp)
      · obtain rfl := Option.some.inj ht
        exact h.textOfKind
  have hlayout : ∀ t ∈ u.layoutText, IsText s t := by
    intro t ht
    unfold layoutText at ht
    split at ht
    · next hcompact =>
      cases hu : u.utf8 with
      | none =>
          rw [hu] at ht
          exact hchars t ht
      | some b =>
          rw [hu] at ht
          obtain ⟨rfl, hs⟩ := h.cached hcompact b hu
          obtain rfl := Option.some.inj ht
          exact .utf8 hs
    · exact hchars t ht
  unfold PyUnicode.text
  split
  · split
    · next t ht => exact hlayout t ht
    · exact h.textOfKind
  · exact h.textOfKind

/-- **`has_surrogate`** is right in every form. -/
lemma IsText.hasSurrogate_iff {t : StrText} (ht : IsText s t) :
    t.hasSurrogate = true ↔ ∃ c ∈ s, Utf8.IsSurrogate c := by
  have hrange : ∀ c : UInt32, (decide (0xD800 ≤ c) && decide (c ≤ 0xDFFF)) = true ↔
      Utf8.IsSurrogate c.toNat := by
    intro c
    rw [Bool.and_eq_true, decide_eq_true_eq, decide_eq_true_eq]
    exact isSurrogate_toNat c
  cases ht with
  | utf8 hs => simpa [StrText.hasSurrogate] using hs
  | @latin1 t ht =>
      subst ht
      have hlt := fun c : UInt8 => c.toNat_lt
      simp only [StrText.hasSurrogate, Bool.false_eq_true, List.mem_map, false_iff, not_exists,
        not_and, Utf8.IsSurrogate, UInt8.toNat_toUInt32]
      rintro _ ⟨c, -, rfl⟩ hge
      have := hlt c
      omega
  | ucs2 ht =>
      subst ht
      simp only [StrText.hasSurrogate, List.any_eq_true, hrange, List.mem_map,
        exists_exists_and_eq_and]
  | ucs4 ht =>
      subst ht
      simp only [StrText.hasSurrogate, List.any_eq_true, hrange, List.mem_map, id,
        exists_exists_and_eq_and]

end PyUnicode

/-! ## `write_str` -/

/-- `write_escaped_ucs` over the units of a text. -/
lemma writeEscapedUcs_text {T : Type} {into : T → UInt32} {size : ℕ} {units : List T} {s : List ℕ}
    {out : OutputBuffer} (h : out.WF) (hsize : size = 1 ∨ size = 2 ∨ size = 4)
    (hunits : (units.map fun c => (into c).toNat) = s) (hs : ∀ c ∈ s, c < 0x110000)
    (hnarrow : ∀ c : T, (into c).toNat < 256 ^ size) :
    ∃ ok out', writeEscapedUcs into size out units = some (ok, out') ∧ out'.WF ∧
      out'.alloc = out.alloc ∧ (ok = true ↔ ∀ c ∈ s, ¬ Utf8.IsSurrogate c) ∧
      (ok = true → out'.content = out.content ++ Json.quoted s) := by
  obtain ⟨ok, out', hw, hwf, ha, hok, hc, -⟩ := writeEscapedUcs_spec into h hsize units
    fun u hu => ⟨hs _ (hunits ▸ List.mem_map_of_mem hu), hnarrow u⟩
  rw [hunits] at hc
  refine ⟨ok, out', hw, hwf, ha, ?_, hc⟩
  rw [hok, ← hunits, List.forall_mem_map]

/-- **The specification of `write_str`**, with what the rest of the encoder needs of it. -/
lemma writeStr_spec (arch : Arch) (enabled : Bool) {out : OutputBuffer} (h : out.WF)
    {u : PyUnicode} {s : List ℕ} (hu : u.Holds s) :
    ∃ ok out', writeStr arch enabled out u = some (ok, out') ∧ out'.WF ∧
      out'.alloc = out.alloc ∧ (ok = true ↔ ∀ c ∈ s, ¬ Utf8.IsSurrogate c) ∧
      (ok = true → out'.content = out.content ++ Json.quoted s) := by
  have htext := hu.text enabled
  unfold writeStr
  cases hform : u.text enabled with
  | utf8 b =>
      rw [hform] at htext
      cases htext with
      | utf8 hs =>
          obtain ⟨out', hw, hwf, ha, hc⟩ := writeEscaped_spec arch h (Utf8.encodeAll s)
          simp only [hw, Option.bind_eq_bind, Option.bind_some]
          refine ⟨true, out', rfl, hwf, ha, by simpa using hs, fun _ => ?_⟩
          rw [hc, flatMap_byteText_encodeAll hu.code_points, Json.quoted]
          simp only [List.append_assoc]
  | latin1 t =>
      rw [hform] at htext
      cases htext with
      | latin1 ht =>
          exact writeEscapedUcs_text h (Or.inl rfl) ht hu.code_points fun c => by
            rw [UInt8.toNat_toUInt32]
            exact c.toNat_lt
  | ucs2 t =>
      rw [hform] at htext
      cases htext with
      | ucs2 ht =>
          exact writeEscapedUcs_text h (Or.inr (Or.inl rfl)) ht hu.code_points fun c => by
            rw [UInt16.toNat_toUInt32]
            exact c.toNat_lt
  | ucs4 t =>
      rw [hform] at htext
      cases htext with
      | ucs4 ht =>
          exact writeEscapedUcs_text h (Or.inr (Or.inr rfl)) ht hu.code_points fun c => c.toNat_lt

/-- **`write_str` writes the text of the code points, whichever form holds them.**  Without a
surrogate it appends the quoted text and nothing else; it reports a surrogate exactly when there
is one, and so does `has_surrogate`. -/
theorem writeStr_eq_quoted (arch : Arch) (enabled : Bool) (out : OutputBuffer) (h : out.WF)
    (u : PyUnicode) (s : List ℕ) (hu : u.Holds s) :
    ((∀ c ∈ s, ¬ Utf8.IsSurrogate c) →
      ∃ out', writeStr arch enabled out u = some (true, out') ∧
        out'.content = out.content ++ ([34] ++ s.flatMap Json.charText ++ [34])) ∧
    ((∃ c ∈ s, Utf8.IsSurrogate c) →
      ∃ out', writeStr arch enabled out u = some (false, out')) ∧
    ((u.text enabled).hasSurrogate = true ↔ ∃ c ∈ s, Utf8.IsSurrogate c) := by
  obtain ⟨ok, out', hw, -, -, hok, hc⟩ := writeStr_spec arch enabled h hu
  refine ⟨fun hs => ?_, fun ⟨c, hc, hs⟩ => ?_, (hu.text enabled).hasSurrogate_iff⟩
  · have htrue := hok.mpr hs
    exact ⟨out', htrue ▸ hw, hc htrue⟩
  · have hfalse : ok = false := by
      rw [← Bool.not_eq_true, hok]
      exact fun h => h c hc hs
    exact ⟨out', hfalse ▸ hw⟩

/-- The header of a compact two-byte `"é\n日"` without a cached UTF-8 text. -/
def sampleUcs2 : PyUnicode := ⟨3, 0x28, none, [0xE9, 0, 10, 0, 0xE5, 0x65]⟩

lemma sampleUcs2_holds : sampleUcs2.Holds [0xE9, 10, 0x65E5] where
  code_points := by decide
  length_eq := rfl
  kind_eq := by decide
  narrow := by decide
  data_eq := by decide
  ascii := by decide
  cached := by decide

/-- Its text in a fresh buffer. -/
theorem writeStr_eq_quoted_ucs2 :
    ∃ out out', OutputBuffer.new OutputBuffer.onlyFirst 0 = some out ∧
      writeStr .x86_64 true out sampleUcs2 = some (true, out') ∧
      out'.content = [34, 0xC3, 0xA9, 92, 110, 0xE6, 0x97, 0xA5, 34] := by
  obtain ⟨hwf, hc, -, -⟩ := @OutputBuffer.wf_new _ OutputBuffer.onlyFirst 0 rfl
  obtain ⟨out', hw, ht⟩ :=
    (writeStr_eq_quoted .x86_64 true _ hwf sampleUcs2 _ sampleUcs2_holds).1 (by decide)
  exact ⟨_, out', rfl, hw, ht.trans (by rw [hc]; decide)⟩

end Isojson
