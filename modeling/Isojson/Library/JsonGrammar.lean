import Isojson.Library.Decimal
import Isojson.Library.JsonText

/-!
# JSON texts

The grammar of RFC 8259, with the tree a text stands for (`Derives`), and documents with their
layout (`Doc.render`): compact, or indented by two spaces for each open container.  Every layout
of a document whose leaves are well formed is a JSON text (`Doc.Stands.derives`).

Numbers stay texts in the tree, so that a reader loses nothing.
-/

namespace Json

inductive Node
  | null
  | bool (b : Bool)
  | number (t : Bytes)
  | string (s : List ℕ)
  | array (items : List Node)
  | object (members : List (List ℕ × Node))

/-! ## The grammar -/

def isWs (b : UInt8) : Bool := b == 0x20 || b == 0x09 || b == 0x0A || b == 0x0D

def IsWs (t : Bytes) : Prop := ∀ b ∈ t, isWs b = true

/-- One or more digits. -/
def IsDigits (t : Bytes) : Prop := t ≠ [] ∧ ∀ b ∈ t, Decimal.IsDigit b

/-- `int`: zero, or digits that do not start with zero. -/
def IsIntPart (t : Bytes) : Prop := t = [48] ∨ (IsDigits t ∧ t.head? ≠ some 48)

/-- `[ frac ]` -/
def IsFrac (t : Bytes) : Prop := t = [] ∨ ∃ ds, IsDigits ds ∧ t = 46 :: ds

/-- `[ exp ]` -/
def IsExp (t : Bytes) : Prop :=
  t = [] ∨ ∃ e sign ds, (e = 101 ∨ e = 69) ∧ (sign = [] ∨ sign = [43] ∨ sign = [45]) ∧
    IsDigits ds ∧ t = e :: (sign ++ ds)

/-- `number = [ minus ] int [ frac ] [ exp ]` -/
def IsNumber (t : Bytes) : Prop :=
  ∃ minus int frac exp, (minus = [] ∨ minus = [45]) ∧ IsIntPart int ∧ IsFrac frac ∧ IsExp exp ∧
    t = minus ++ (int ++ (frac ++ exp))

def hexVal (b : UInt8) : Option ℕ :=
  if 48 ≤ b.toNat ∧ b.toNat ≤ 57 then some (b.toNat - 48)
  else if 97 ≤ b.toNat ∧ b.toNat ≤ 102 then some (b.toNat - 87)
  else if 65 ≤ b.toNat ∧ b.toNat ≤ 70 then some (b.toNat - 55)
  else none

/-- The value of four hexadecimal digits. -/
def hex4 (a b c d : UInt8) : Option ℕ := do
  let a ← hexVal a
  let b ← hexVal b
  let c ← hexVal c
  let d ← hexVal d
  some (((a * 16 + b) * 16 + c) * 16 + d)

/-- The character of a two-character escape. -/
def escaped (e : UInt8) : Option ℕ :=
  if e = 34 then some 0x22
  else if e = 92 then some 0x5C
  else if e = 47 then some 0x2F
  else if e = 98 then some 0x08
  else if e = 102 then some 0x0C
  else if e = 110 then some 0x0A
  else if e = 114 then some 0x0D
  else if e = 116 then some 0x09
  else none

/-- `char`, and the code point it stands for. -/
inductive IsChar : Bytes → ℕ → Prop
  | unescaped {c : ℕ} (hc : Utf8.IsScalar c) (hctrl : 0x20 ≤ c) (hq : c ≠ 0x22) (hb : c ≠ 0x5C) :
      IsChar (Utf8.encode c) c
  | short {e : UInt8} {c : ℕ} (h : escaped e = some c) : IsChar [92, e] c
  | hex {a b c d : UInt8} {x : ℕ} (h : hex4 a b c d = some x) (hs : ¬ Utf8.IsSurrogate x) :
      IsChar [92, 117, a, b, c, d] x
  | pair {a b c d a' b' c' d' : UInt8} {x y : ℕ} (h : hex4 a b c d = some x)
      (h' : hex4 a' b' c' d' = some y) (hx : 0xD800 ≤ x ∧ x < 0xDC00)
      (hy : 0xDC00 ≤ y ∧ y < 0xE000) :
      IsChar [92, 117, a, b, c, d, 92, 117, a', b', c', d']
        (0x10000 + (x - 0xD800) * 0x400 + (y - 0xDC00))

/-- The characters of a string between its quotes. -/
inductive IsChars : Bytes → List ℕ → Prop
  | nil : IsChars [] []
  | cons {t u : Bytes} {c : ℕ} {s : List ℕ} (h : IsChar t c) (hs : IsChars u s) :
      IsChars (t ++ u) (c :: s)

/-- `string` -/
def IsString (t : Bytes) (s : List ℕ) : Prop := ∃ u, IsChars u s ∧ t = [34] ++ u ++ [34]

mutual

/-- `value`, and the tree it stands for. -/
inductive Derives : Bytes → Node → Prop
  | null : Derives (Bytes.ascii "null") .null
  | true : Derives (Bytes.ascii "true") (.bool true)
  | false : Derives (Bytes.ascii "false") (.bool false)
  | number {t : Bytes} (h : IsNumber t) : Derives t (.number t)
  | string {t : Bytes} {s : List ℕ} (h : IsString t s) : Derives t (.string s)
  | emptyArray {w : Bytes} (hw : IsWs w) : Derives ([91] ++ w ++ [93]) (.array [])
  | array {t : Bytes} {ns : List Node} (h : Elements t ns) :
      Derives ([91] ++ t ++ [93]) (.array ns)
  | emptyObject {w : Bytes} (hw : IsWs w) : Derives ([123] ++ w ++ [125]) (.object [])
  | object {t : Bytes} {ms : List (List ℕ × Node)} (h : Members t ms) :
      Derives ([123] ++ t ++ [125]) (.object ms)

/-- `value *( value-separator value )`, with the white space around them. -/
inductive Elements : Bytes → List Node → Prop
  | one {w t w' : Bytes} {n : Node} (hw : IsWs w) (h : Derives t n) (hw' : IsWs w') :
      Elements (w ++ t ++ w') [n]
  | cons {w t w' u : Bytes} {n : Node} {ns : List Node} (hw : IsWs w) (h : Derives t n)
      (hw' : IsWs w') (hs : Elements u ns) : Elements (w ++ t ++ w' ++ [44] ++ u) (n :: ns)

/-- `member *( value-separator member )`, with the white space around them. -/
inductive Members : Bytes → List (List ℕ × Node) → Prop
  | one {w k v t w' : Bytes} {s : List ℕ} {n : Node} (hw : IsWs w) (hk : IsString k s)
      (hv : IsWs v) (h : Derives t n) (hw' : IsWs w') :
      Members (w ++ k ++ [58] ++ v ++ t ++ w') [(s, n)]
  | cons {w k v t w' u : Bytes} {s : List ℕ} {n : Node} {ms : List (List ℕ × Node)} (hw : IsWs w)
      (hk : IsString k s) (hv : IsWs v) (h : Derives t n) (hw' : IsWs w') (hs : Members u ms) :
      Members (w ++ k ++ [58] ++ v ++ t ++ w' ++ [44] ++ u) ((s, n) :: ms)

end

/-- A JSON text: one value with white space around it. -/
def IsText (t : Bytes) (n : Node) : Prop :=
  ∃ w u w', IsWs w ∧ Derives u n ∧ IsWs w' ∧ t = w ++ u ++ w'

/-- A scalar, which is written without white space around it. -/
inductive Scalar : Bytes → Node → Prop
  | null : Scalar (Bytes.ascii "null") .null
  | true : Scalar (Bytes.ascii "true") (.bool true)
  | false : Scalar (Bytes.ascii "false") (.bool false)
  | number {t : Bytes} (h : IsNumber t) : Scalar t (.number t)
  | string {t : Bytes} {s : List ℕ} (h : IsString t s) : Scalar t (.string s)

lemma Scalar.derives {t : Bytes} {n : Node} (h : Scalar t n) : Derives t n := by
  cases h with
  | null => exact .null
  | true => exact .true
  | false => exact .false
  | number h => exact .number h
  | string h => exact .string h

/-! ## Documents and their layout -/

/-- A document: leaves and keys are texts. -/
inductive Doc
  | leaf (t : Bytes)
  | arr (items : List Doc)
  | obj (members : List (Bytes × Doc))

/-- The line break and indentation in front of an item at `level`. -/
def sep (pretty : Bool) (level : ℕ) : Bytes :=
  if pretty then 10 :: List.replicate (2 * level) 32 else []

/-- What stands between a key and its value. -/
def colon (pretty : Bool) : Bytes := if pretty then [58, 32] else [58]

mutual

/-- The text of a document inside `level` open containers. -/
def Doc.render (pretty : Bool) (level : ℕ) : Doc → Bytes
  | .leaf t => t
  | .arr [] => [91, 93]
  | .arr (d :: ds) =>
      [91] ++ itemsText pretty (level + 1) true (d :: ds) ++ sep pretty level ++ [93]
  | .obj [] => [123, 125]
  | .obj (m :: ms) =>
      [123] ++ membersText pretty (level + 1) true (m :: ms) ++ sep pretty level ++ [125]

/-- The items of an array, each after a comma but the first. -/
def itemsText (pretty : Bool) (level : ℕ) (first : Bool) : List Doc → Bytes
  | [] => []
  | d :: ds =>
      (if first then [] else [44]) ++ sep pretty level ++ d.render pretty level ++
        itemsText pretty level false ds

/-- The members of an object, each after a comma but the first. -/
def membersText (pretty : Bool) (level : ℕ) (first : Bool) : List (Bytes × Doc) → Bytes
  | [] => []
  | (k, d) :: ms =>
      (if first then [] else [44]) ++ sep pretty level ++ k ++ colon pretty ++
        d.render pretty level ++ membersText pretty level false ms

end

mutual

/-- The tree a document stands for: its leaves are scalar texts and its keys string texts. -/
inductive Doc.Stands : Doc → Node → Prop
  | leaf {t : Bytes} {n : Node} (h : Scalar t n) : Doc.Stands (.leaf t) n
  | arr {ds : List Doc} {ns : List Node} (h : ItemsStand ds ns) : Doc.Stands (.arr ds) (.array ns)
  | obj {ms : List (Bytes × Doc)} {ns : List (List ℕ × Node)} (h : MembersStand ms ns) :
      Doc.Stands (.obj ms) (.object ns)

inductive ItemsStand : List Doc → List Node → Prop
  | nil : ItemsStand [] []
  | cons {d : Doc} {n : Node} {ds : List Doc} {ns : List Node} (h : d.Stands n)
      (hs : ItemsStand ds ns) : ItemsStand (d :: ds) (n :: ns)

inductive MembersStand : List (Bytes × Doc) → List (List ℕ × Node) → Prop
  | nil : MembersStand [] []
  | cons {k : Bytes} {s : List ℕ} {d : Doc} {n : Node} {ms : List (Bytes × Doc)}
      {ns : List (List ℕ × Node)} (hk : IsString k s) (h : d.Stands n) (hs : MembersStand ms ns) :
      MembersStand ((k, d) :: ms) ((s, n) :: ns)

end

/-! ## Layouts are JSON texts -/

lemma isWs_nil : IsWs [] := by simp [IsWs]

lemma isWs_sep (pretty : Bool) (level : ℕ) : IsWs (sep pretty level) := by
  unfold sep
  split
  · intro b hb
    rcases List.mem_cons.mp hb with rfl | hb
    · rfl
    · rw [List.eq_of_mem_replicate hb]
      rfl
  · exact isWs_nil

/-- The space between a colon and its value. -/
def gap (pretty : Bool) : Bytes := if pretty then [32] else []

lemma colon_eq (pretty : Bool) : colon pretty = 58 :: gap pretty := by
  cases pretty <;> rfl

lemma isWs_gap (pretty : Bool) : IsWs (gap pretty) := by
  cases pretty <;> simp [gap, IsWs, isWs]

mutual

theorem Doc.Stands.derives (pretty : Bool) : ∀ {d : Doc} {n : Node} (level : ℕ), d.Stands n →
    Derives (d.render pretty level) n
  | .leaf _, _, _, .leaf h => h.derives
  | .arr [], _, _, .arr .nil => .emptyArray (w := []) isWs_nil
  | .arr (d :: ds), _, level, .arr h => by
      rw [Doc.render, List.append_assoc [91]]
      exact .array (h.elements pretty (level + 1) (isWs_sep pretty level))
  | .obj [], _, _, .obj .nil => .emptyObject (w := []) isWs_nil
  | .obj (m :: ms), _, level, .obj h => by
      rw [Doc.render, List.append_assoc [123]]
      exact .object (h.members pretty (level + 1) (isWs_sep pretty level))

theorem ItemsStand.elements (pretty : Bool) : ∀ {d : Doc} {ds : List Doc} {ns : List Node}
    (level : ℕ) {w : Bytes}, ItemsStand (d :: ds) ns → IsWs w →
    Elements (itemsText pretty level true (d :: ds) ++ w) ns
  | d, [], _, level, w, .cons h .nil, hw => by
      have hone := Elements.one (isWs_sep pretty level) (h.derives pretty level) hw
      simpa [itemsText] using hone
  | d, d' :: ds, _, level, w, .cons h hs, hw => by
      have hcons := Elements.cons (isWs_sep pretty level) (h.derives pretty level) isWs_nil
        (hs.elements pretty level hw)
      simpa [itemsText, List.append_assoc] using hcons

theorem MembersStand.members (pretty : Bool) : ∀ {m : Bytes × Doc} {ms : List (Bytes × Doc)}
    {ns : List (List ℕ × Node)} (level : ℕ) {w : Bytes}, MembersStand (m :: ms) ns → IsWs w →
    Members (membersText pretty level true (m :: ms) ++ w) ns
  | (k, d), [], _, level, w, .cons hk h .nil, hw => by
      have hone := Members.one (isWs_sep pretty level) hk (isWs_gap pretty)
        (h.derives pretty level) hw
      simpa [membersText, colon_eq, List.append_assoc] using hone
  | (k, d), m :: ms, _, level, w, .cons hk h hs, hw => by
      have hcons := Members.cons (isWs_sep pretty level) hk (isWs_gap pretty)
        (h.derives pretty level) isWs_nil (hs.members pretty level hw)
      simpa [membersText, colon_eq, List.append_assoc] using hcons

end

/-! ## Leaves -/

/-- A decimal integer is a number text. -/
lemma isNumber_intText (z : ℤ) : IsNumber (Decimal.intText z) := by
  have hint : IsIntPart (Decimal.natText z.natAbs) := by
    rcases Nat.eq_zero_or_pos z.natAbs with h | h
    · rw [h, Decimal.natText_zero]
      exact Or.inl rfl
    · obtain ⟨b, t, ht, -, hb⟩ := Decimal.head_natText h
      refine Or.inr ⟨⟨Decimal.natText_ne_nil _, Decimal.isDigit_natText _⟩, ?_⟩
      rw [ht, List.head?_cons, ne_eq, Option.some.injEq]
      exact hb
  rw [Decimal.intText]
  split
  · exact ⟨[45], _, [], [], Or.inr rfl, hint, Or.inl rfl, Or.inl rfl, by simp⟩
  · exact ⟨[], _, [], [], Or.inl rfl, hint, Or.inl rfl, Or.inl rfl, by simp⟩

lemma hexVal_hexDigit : ∀ n < 16, hexVal (hexDigit n) = some n := by decide

lemma hexVal_zero : hexVal 48 = some 0 := by decide

/-- What the writer puts for a character is a character of the grammar. -/
lemma isChar_charText {c : ℕ} (hc : Utf8.IsScalar c) : IsChar (charText c) c := by
  unfold charText
  cases hs : shortEscape c with
  | some e =>
      refine .short ?_
      unfold shortEscape at hs
      split_ifs at hs with h1 h2 h3 h4 h5 h6 h7 <;> obtain rfl := Option.some.inj hs <;>
        subst c <;> rfl
  | none =>
      simp only
      unfold shortEscape at hs
      split_ifs at hs with h1 h2 h3 h4 h5 h6 h7
      split
      · next hlt =>
        refine .hex ?_ hc.2
        rw [hex4, hexVal_zero, hexVal_hexDigit _ (by omega), hexVal_hexDigit _ (by omega)]
        simp only [Option.bind_eq_bind, Option.bind_some, Option.some.injEq]
        omega
      · next hge => exact .unescaped hc (by omega) h1 h2

/-- **A quoted text** is a string text of its characters. -/
lemma isString_quoted {s : List ℕ} (hs : ∀ c ∈ s, Utf8.IsScalar c) : IsString (quoted s) s := by
  refine ⟨s.flatMap charText, ?_, rfl⟩
  induction s with
  | nil => exact .nil
  | cons c s ih =>
      obtain ⟨hc, hs⟩ := List.forall_mem_cons.mp hs
      rw [List.flatMap_cons]
      exact .cons (isChar_charText hc) (ih hs)

/-- ASCII characters that need no escape stand for themselves between quotes. -/
lemma isString_plain {t : Bytes}
    (h : ∀ b ∈ t, 0x20 ≤ b.toNat ∧ b.toNat < 0x80 ∧ b ≠ 34 ∧ b ≠ 92) :
    IsString ([34] ++ t ++ [34]) (t.map UInt8.toNat) := by
  refine ⟨t, ?_, rfl⟩
  induction t with
  | nil => exact .nil
  | cons b t ih =>
      obtain ⟨⟨hlo, hhi, hq, hb⟩, ht⟩ := List.forall_mem_cons.mp h
      have hne : ∀ c : UInt8, b ≠ c → b.toNat ≠ c.toNat := fun c hc h => hc (UInt8.toNat_inj.mp h)
      have henc : Utf8.encode b.toNat = [b] := by
        rw [Utf8.encode, if_pos hhi, UInt8.ofNat_toNat]
      have hc := IsChar.unescaped (c := b.toNat) ⟨by omega, fun hs => by have := hs.1; omega⟩ hlo
        (hne 34 hq) (hne 92 hb)
      rw [henc] at hc
      exact .cons hc (ih ht)

/-! ## JSON texts are UTF-8 -/

lemma IsWs.wellFormed {t : Bytes} (h : IsWs t) : Utf8.WellFormed t := by
  refine Utf8.wellFormed_of_ascii fun b hb => ?_
  have := h b hb
  simp only [isWs, Bool.or_eq_true, beq_iff_eq] at this
  rcases this with ((rfl | rfl) | rfl) | rfl <;> exact Nat.le_of_ble_eq_true rfl

/-- The bytes of a number. -/
def isNumberByte (b : UInt8) : Bool :=
  (48 ≤ b && b ≤ 57) || b == 43 || b == 45 || b == 46 || b == 69 || b == 101

lemma IsDigits.numberBytes {t : Bytes} (h : IsDigits t) : ∀ b ∈ t, isNumberByte b = true := by
  intro b hb
  have hd := h.2 b hb
  have hlo : (48 : UInt8) ≤ b := UInt8.le_iff_toNat_le.mpr hd.1
  have hhi : b ≤ (57 : UInt8) := UInt8.le_iff_toNat_le.mpr hd.2
  simp [isNumberByte, hlo, hhi]

lemma IsNumber.numberBytes {t : Bytes} (h : IsNumber t) : ∀ b ∈ t, isNumberByte b = true := by
  obtain ⟨minus, int, frac, exp, hminus, hint, hfrac, hexp, rfl⟩ := h
  simp only [List.forall_mem_append]
  refine ⟨?_, ?_, ?_, ?_⟩
  · rcases hminus with rfl | rfl <;> simp [isNumberByte]
  · rcases hint with rfl | ⟨h, -⟩
    · simp [isNumberByte]
    · exact h.numberBytes
  · rcases hfrac with rfl | ⟨ds, h, rfl⟩
    · simp
    · exact List.forall_mem_cons.mpr ⟨by decide, h.numberBytes⟩
  · rcases hexp with rfl | ⟨e, sign, ds, he, hsign, h, rfl⟩
    · simp
    · refine List.forall_mem_cons.mpr ⟨?_, List.forall_mem_append.mpr ⟨?_, h.numberBytes⟩⟩
      · rcases he with rfl | rfl <;> decide
      · rcases hsign with rfl | rfl | rfl <;> simp [isNumberByte]

lemma isNumberByte_lt {b : UInt8} (h : isNumberByte b = true) : b.toNat < 0x80 := by
  simp only [isNumberByte, Bool.or_eq_true, Bool.and_eq_true, decide_eq_true_eq, beq_iff_eq] at h
  rcases h with ((((h | rfl) | rfl) | rfl) | rfl) | rfl
  · exact lt_of_le_of_lt (UInt8.le_iff_toNat_le.mp h.2) (by decide)
  all_goals exact Nat.le_of_ble_eq_true rfl

lemma hexVal_lt {b : UInt8} {x : ℕ} (h : hexVal b = some x) : b.toNat < 0x80 ∧ x < 16 := by
  unfold hexVal at h
  split_ifs at h <;> obtain rfl := Option.some.inj h <;> omega

lemma hex4_some {a b c d : UInt8} {x : ℕ} (h : hex4 a b c d = some x) :
    x < 0x10000 ∧ ∀ e ∈ [a, b, c, d], e.toNat < 0x80 := by
  simp only [hex4, Option.bind_eq_bind, Option.bind_eq_some_iff, Option.some.injEq] at h
  obtain ⟨a', ha, b', hb, c', hc, d', hd, rfl⟩ := h
  have := hexVal_lt ha
  have := hexVal_lt hb
  have := hexVal_lt hc
  have := hexVal_lt hd
  simp only [List.mem_cons, List.not_mem_nil, or_false, forall_eq_or_imp, forall_eq]
  omega

lemma escaped_lt {e : UInt8} {c : ℕ} (h : escaped e = some c) : e.toNat < 0x80 := by
  unfold escaped at h
  split_ifs at h <;> subst e <;> exact Nat.le_of_ble_eq_true rfl

lemma wellFormed_byte {b : UInt8} (h : b < 0x80) : Utf8.WellFormed [b] :=
  Utf8.wellFormed_of_all (by simpa using h)

/-- `\u` and four hexadecimal digits. -/
lemma wellFormed_hex {a b c d : UInt8} {x : ℕ} (h : hex4 a b c d = some x) :
    Utf8.WellFormed ([92, 117] ++ [a, b, c, d]) :=
  (Utf8.wellFormed_of_all (by decide)).append (Utf8.wellFormed_of_ascii (hex4_some h).2)

lemma IsChar.wellFormed {t : Bytes} {c : ℕ} (h : IsChar t c) : Utf8.WellFormed t := by
  cases h with
  | unescaped hc => exact Utf8.wellFormed_encode hc
  | short h =>
      exact (wellFormed_byte (by decide)).append
        (Utf8.wellFormed_of_ascii (List.forall_mem_singleton.mpr (escaped_lt h)))
  | hex h => exact wellFormed_hex h
  | pair h h' => exact (wellFormed_hex h).append (wellFormed_hex h')

lemma IsString.wellFormed {t : Bytes} {s : List ℕ} (h : IsString t s) : Utf8.WellFormed t := by
  obtain ⟨u, hu, rfl⟩ := h
  have hq : Utf8.WellFormed [34] := wellFormed_byte (by decide)
  refine (hq.append ?_).append hq
  induction hu with
  | nil => exact Utf8.wellFormed_nil
  | cons h _ ih => exact h.wellFormed.append ih

mutual

/-- **JSON texts are well-formed UTF-8.** -/
theorem Derives.wellFormed : ∀ {t : Bytes} {n : Node}, Derives t n → Utf8.WellFormed t
  | _, _, .null => Utf8.wellFormed_of_all (by decide)
  | _, _, .true => Utf8.wellFormed_of_all (by decide)
  | _, _, .false => Utf8.wellFormed_of_all (by decide)
  | _, _, .number h => Utf8.wellFormed_of_ascii fun b hb => isNumberByte_lt (h.numberBytes b hb)
  | _, _, .string h => h.wellFormed
  | _, _, .emptyArray hw =>
      ((wellFormed_byte (by decide)).append hw.wellFormed).append (wellFormed_byte (by decide))
  | _, _, .array h =>
      ((wellFormed_byte (by decide)).append h.wellFormed).append (wellFormed_byte (by decide))
  | _, _, .emptyObject hw =>
      ((wellFormed_byte (by decide)).append hw.wellFormed).append (wellFormed_byte (by decide))
  | _, _, .object h =>
      ((wellFormed_byte (by decide)).append h.wellFormed).append (wellFormed_byte (by decide))

theorem Elements.wellFormed : ∀ {t : Bytes} {ns : List Node}, Elements t ns → Utf8.WellFormed t
  | _, _, .one hw h hw' => (hw.wellFormed.append h.wellFormed).append hw'.wellFormed
  | _, _, .cons hw h hw' hs =>
      (((hw.wellFormed.append h.wellFormed).append hw'.wellFormed).append
        (wellFormed_byte (by decide))).append hs.wellFormed

theorem Members.wellFormed : ∀ {t : Bytes} {ms : List (List ℕ × Node)}, Members t ms →
    Utf8.WellFormed t
  | _, _, .one hw hk hv h hw' =>
      ((((hw.wellFormed.append hk.wellFormed).append (wellFormed_byte (by decide))).append
        hv.wellFormed).append h.wellFormed).append hw'.wellFormed
  | _, _, .cons hw hk hv h hw' hs =>
      ((((((hw.wellFormed.append hk.wellFormed).append (wellFormed_byte (by decide))).append
        hv.wellFormed).append h.wellFormed).append hw'.wellFormed).append
          (wellFormed_byte (by decide))).append hs.wellFormed

end

/-! ## The trees that texts stand for -/

mutual

/-- The number of containers that are nested in each other. -/
def Node.depth : Node → ℕ
  | .null => 0
  | .bool _ => 0
  | .number _ => 0
  | .string _ => 0
  | .array ns => itemsDepth ns + 1
  | .object ms => membersDepth ms + 1

def itemsDepth : List Node → ℕ
  | [] => 0
  | n :: ns => max n.depth (itemsDepth ns)

def membersDepth : List (List ℕ × Node) → ℕ
  | [] => 0
  | (_, n) :: ms => max n.depth (membersDepth ms)

end

mutual

/-- The texts of the numbers in the tree. -/
def Node.numbers : Node → List Bytes
  | .number t => [t]
  | .array ns => itemsNumbers ns
  | .object ms => membersNumbers ms
  | _ => []

def itemsNumbers : List Node → List Bytes
  | [] => []
  | n :: ns => n.numbers ++ itemsNumbers ns

def membersNumbers : List (List ℕ × Node) → List Bytes
  | [] => []
  | (_, n) :: ms => n.numbers ++ membersNumbers ms

end

mutual

/-- All strings in the tree are texts. -/
def Node.IsTexts : Node → Prop
  | .string s => ∀ c ∈ s, Utf8.IsScalar c
  | .array ns => itemsTexts ns
  | .object ms => membersTexts ms
  | _ => True

def itemsTexts : List Node → Prop
  | [] => True
  | n :: ns => n.IsTexts ∧ itemsTexts ns

def membersTexts : List (List ℕ × Node) → Prop
  | [] => True
  | (s, n) :: ms => (∀ c ∈ s, Utf8.IsScalar c) ∧ n.IsTexts ∧ membersTexts ms

end

lemma isScalar_of_lt {c : ℕ} (h : c < 0xD800) : Utf8.IsScalar c := by
  unfold Utf8.IsScalar Utf8.IsSurrogate
  omega

lemma IsChar.isScalar {t : Bytes} {c : ℕ} (h : IsChar t c) : Utf8.IsScalar c := by
  cases h with
  | unescaped hc => exact hc
  | short h =>
      apply isScalar_of_lt
      unfold escaped at h
      split_ifs at h <;> (obtain rfl := Option.some.inj h; decide)
  | hex h hs =>
      have hlt := (hex4_some h).1
      exact ⟨by omega, hs⟩
  | pair h h' hx hy =>
      unfold Utf8.IsScalar Utf8.IsSurrogate
      omega

lemma IsChars.isScalar {t : Bytes} {s : List ℕ} (h : IsChars t s) : ∀ c ∈ s, Utf8.IsScalar c := by
  induction h with
  | nil => exact fun c hc => absurd hc List.not_mem_nil
  | cons h _ ih => exact List.forall_mem_cons.mpr ⟨h.isScalar, ih⟩

lemma IsString.isScalar {t : Bytes} {s : List ℕ} (h : IsString t s) : ∀ c ∈ s, Utf8.IsScalar c := by
  obtain ⟨u, hu, -⟩ := h
  exact hu.isScalar

mutual

/-- **A JSON text holds texts**: no escape and no pair of escapes makes a surrogate. -/
theorem Derives.isTexts : ∀ {t : Bytes} {n : Node}, Derives t n → n.IsTexts
  | _, _, .null => trivial
  | _, _, .true => trivial
  | _, _, .false => trivial
  | _, _, .number _ => trivial
  | _, _, .string h => h.isScalar
  | _, _, .emptyArray _ => trivial
  | _, _, .array h => h.isTexts
  | _, _, .emptyObject _ => trivial
  | _, _, .object h => h.isTexts

theorem Elements.isTexts : ∀ {t : Bytes} {ns : List Node}, Elements t ns → itemsTexts ns
  | _, _, .one _ h _ => ⟨h.isTexts, trivial⟩
  | _, _, .cons _ h _ hs => ⟨h.isTexts, hs.isTexts⟩

theorem Members.isTexts : ∀ {t : Bytes} {ms : List (List ℕ × Node)}, Members t ms → membersTexts ms
  | _, _, .one _ hk _ h _ => ⟨hk.isScalar, h.isTexts, trivial⟩
  | _, _, .cons _ hk _ h _ hs => ⟨hk.isScalar, h.isTexts, hs.isTexts⟩

end

end Json
