import Isojson.Library.JsonGrammar

/-!
# A JSON reader

A recursive-descent reader of RFC 8259 texts.  `read_isText`: it reads every text of the grammar
as the tree the grammar gives it.
-/

namespace Json

/-! ## The reader -/

def skipWs (t : Bytes) : Bytes := t.dropWhile isWs

def isDigitByte (b : UInt8) : Bool := 48 ≤ b && b ≤ 57

/-- Whether a text is an optional exponent. -/
def isExponent : Bytes → Bool
  | [] => true
  | e :: t =>
      let ds := match t with
        | [] => []
        | s :: ds => if s = 43 ∨ s = 45 then ds else t
      (e == 101 || e == 69) && !ds.isEmpty && ds.all isDigitByte

/-- Whether a text is an optional fraction and an optional exponent. -/
def isFraction : Bytes → Bool
  | [] => true
  | b :: t =>
      if b = 46 then !(t.takeWhile isDigitByte).isEmpty && isExponent (t.dropWhile isDigitByte)
      else isExponent (b :: t)

/-- Whether a text is a number without its sign. -/
def isUnsigned : Bytes → Bool
  | [] => false
  | b :: t =>
      if b = 48 then isFraction t
      else isDigitByte b && isFraction (t.dropWhile isDigitByte)

def isNumber : Bytes → Bool
  | [] => false
  | b :: t => if b = 45 then isUnsigned t else isUnsigned (b :: t)

/-- The rest of an escape behind `\u`. -/
def readHex : Bytes → Option (ℕ × Bytes)
  | a :: b :: c :: d :: t => do
      let x ← hex4 a b c d
      if 0xD800 ≤ x ∧ x < 0xDC00 then
        match t with
        | 92 :: 117 :: a :: b :: c :: d :: t => do
            let y ← hex4 a b c d
            if 0xDC00 ≤ y ∧ y < 0xE000 then
              some (0x10000 + (x - 0xD800) * 0x400 + (y - 0xDC00), t)
            else none
        | _ => none
      else if Utf8.IsSurrogate x then none
      else some (x, t)
  | _ => none

/-- One character of a string. -/
def readChar : Bytes → Option (ℕ × Bytes)
  | [] => none
  | b :: t =>
      if b = 92 then
        match t with
        | [] => none
        | e :: t => if e = 117 then readHex t else (escaped e).map fun c => (c, t)
      else do
        let (c, t) ← Utf8.decodeFirst (b :: t)
        if 0x20 ≤ c then some (c, t) else none

/-- The characters of a string up to its closing quote. -/
def readChars : ℕ → Bytes → Option (List ℕ × Bytes)
  | 0, _ => none
  | _ + 1, [] => none
  | fuel + 1, b :: t =>
      if b = 34 then some ([], t)
      else do
        let (c, t) ← readChar (b :: t)
        let (s, t) ← readChars fuel t
        some (c :: s, t)

def readString : Bytes → Option (List ℕ × Bytes)
  | [] => none
  | b :: t => if b = 34 then readChars (t.length + 1) t else none

/-- A literal name or a number. -/
def readScalar (t : Bytes) : Option (Node × Bytes) :=
  if Bytes.ascii "null" <+: t then some (.null, t.drop 4)
  else if Bytes.ascii "true" <+: t then some (.bool true, t.drop 4)
  else if Bytes.ascii "false" <+: t then some (.bool false, t.drop 5)
  else
    let number := t.takeWhile isNumberByte
    if isNumber number then some (.number number, t.dropWhile isNumberByte) else none

mutual

def readValue : ℕ → Bytes → Option (Node × Bytes)
  | 0, _ => none
  | _ + 1, [] => none
  | fuel + 1, b :: t =>
      if b = 34 then (readString (b :: t)).map fun (s, t) => (.string s, t)
      else if b = 91 then
        match skipWs t with
        | 93 :: t => some (.array [], t)
        | t => (readElements fuel t).map fun (ns, t) => (.array ns, t)
      else if b = 123 then
        match skipWs t with
        | 125 :: t => some (.object [], t)
        | t => (readMembers fuel t).map fun (ms, t) => (.object ms, t)
      else readScalar (b :: t)

/-- The elements of an array and its closing bracket. -/
def readElements : ℕ → Bytes → Option (List Node × Bytes)
  | 0, _ => none
  | fuel + 1, t => do
      let (n, t) ← readValue fuel (skipWs t)
      match skipWs t with
      | 44 :: t => do
          let (ns, t) ← readElements fuel t
          some (n :: ns, t)
      | 93 :: t => some ([n], t)
      | _ => none

/-- The members of an object and its closing brace. -/
def readMembers : ℕ → Bytes → Option (List (List ℕ × Node) × Bytes)
  | 0, _ => none
  | fuel + 1, t => do
      let (s, t) ← readString (skipWs t)
      match skipWs t with
      | 58 :: t => do
          let (n, t) ← readValue fuel (skipWs t)
          match skipWs t with
          | 44 :: t => do
              let (ms, t) ← readMembers fuel t
              some ((s, n) :: ms, t)
          | 125 :: t => some ([(s, n)], t)
          | _ => none
      | _ => none

end

/-- The tree of a JSON text. -/
def read (t : Bytes) : Option Node := do
  let (n, rest) ← readValue (t.length + 1) (skipWs t)
  if skipWs rest = [] then some n else none

/-! ## White space -/

lemma skipWs_append {w : Bytes} (hw : IsWs w) {t : Bytes} (ht : ∀ b ∈ t.head?, isWs b = false) :
    skipWs (w ++ t) = t := by
  rw [skipWs, List.dropWhile_append_of_pos hw]
  cases t with
  | nil => rfl
  | cons b t => rw [List.dropWhile_cons_of_neg (by simpa using ht b rfl)]

/-! ## Numbers -/

lemma isDigitByte_iff {b : UInt8} : isDigitByte b = true ↔ Decimal.IsDigit b := by
  rw [isDigitByte, Bool.and_eq_true, decide_eq_true_eq, decide_eq_true_eq, UInt8.le_iff_toNat_le,
    UInt8.le_iff_toNat_le]
  rfl

lemma IsDigits.all {t : Bytes} (h : IsDigits t) : t.all isDigitByte = true :=
  List.all_eq_true.mpr fun b hb => isDigitByte_iff.mpr (h.2 b hb)

lemma isExponent_of {t : Bytes} (h : IsExp t) : isExponent t = true := by
  rcases h with rfl | ⟨e, sign, ds, he, hsign, h, rfl⟩
  · rfl
  · have he' : (e == 101 || e == 69) = true := by rcases he with rfl | rfl <;> rfl
    have hne : ds.isEmpty = false := by simpa using h.1
    have hds : (match sign ++ ds with
        | [] => []
        | s :: ds' => if s = 43 ∨ s = 45 then ds' else sign ++ ds) = ds := by
      rcases hsign with rfl | rfl | rfl
      · obtain ⟨d, ds', rfl⟩ := List.exists_cons_of_ne_nil h.1
        have hd := h.2 d (List.mem_cons_self ..)
        rw [List.nil_append]
        simp only
        rw [if_neg]
        rintro (rfl | rfl) <;> exact absurd hd (by decide)
      · rfl
      · rfl
    simp only [isExponent, he', Bool.true_and]
    rw [hds, hne, h.all]
    rfl

/-- A digit does not start an exponent. -/
lemma IsExp.head {t : Bytes} (h : IsExp t) : ∀ b ∈ t.head?, isDigitByte b = false ∧ b ≠ 46 := by
  rcases h with rfl | ⟨e, sign, ds, he, -, -, rfl⟩
  · simp
  · rintro b ⟨⟩
    rcases he with rfl | rfl <;> decide

/-- Digits, and then something else. -/
lemma span_digits {ds t : Bytes} (hd : ∀ b ∈ ds, Decimal.IsDigit b)
    (ht : ∀ b ∈ t.head?, isDigitByte b = false) :
    (ds ++ t).takeWhile isDigitByte = ds ∧ (ds ++ t).dropWhile isDigitByte = t := by
  have hd' : ∀ b ∈ ds, isDigitByte b = true := fun b hb => isDigitByte_iff.mpr (hd b hb)
  rw [List.takeWhile_append_of_pos hd', List.dropWhile_append_of_pos hd']
  cases t with
  | nil => simp
  | cons b t =>
      have hb := ht b rfl
      rw [List.takeWhile_cons_of_neg (by simpa using hb),
        List.dropWhile_cons_of_neg (by simpa using hb)]
      simp

lemma isFraction_of {frac exp : Bytes} (hf : IsFrac frac) (he : IsExp exp) :
    isFraction (frac ++ exp) = true := by
  have hexp := isExponent_of he
  rcases hf with rfl | ⟨ds, h, rfl⟩
  · rw [List.nil_append]
    cases exp with
    | nil => rfl
    | cons b t =>
        rw [isFraction, if_neg (he.head b rfl).2]
        exact hexp
  · obtain ⟨h1, h2⟩ := span_digits h.2 fun b hb => (he.head b hb).1
    have hne : ds.isEmpty = false := by simpa using h.1
    rw [List.cons_append, isFraction, if_pos rfl, h1, h2, hexp, hne]
    rfl

lemma isUnsigned_of {int frac exp : Bytes} (hi : IsIntPart int) (hf : IsFrac frac)
    (he : IsExp exp) : isUnsigned (int ++ (frac ++ exp)) = true := by
  have hfrac := isFraction_of hf he
  rcases hi with rfl | ⟨h, hhead⟩
  · rw [List.singleton_append, isUnsigned, if_pos rfl, hfrac]
  · obtain ⟨d, ds, rfl⟩ := List.exists_cons_of_ne_nil h.1
    have hd := isDigitByte_iff.mpr (h.2 d (List.mem_cons_self ..))
    have hrest : ∀ b ∈ (frac ++ exp).head?, isDigitByte b = false := by
      rcases hf with rfl | ⟨ds, -, rfl⟩
      · exact fun b hb => (he.head b hb).1
      · rintro b ⟨⟩
        decide
    obtain ⟨-, h2⟩ := span_digits (fun b hb => h.2 b (List.mem_cons_of_mem _ hb)) hrest
    rw [List.cons_append, isUnsigned, if_neg (by simpa using hhead), hd, h2, hfrac]
    rfl

/-- **Numbers** of the grammar are accepted. -/
lemma isNumber_of {t : Bytes} (h : IsNumber t) : isNumber t = true := by
  obtain ⟨minus, int, frac, exp, hminus, hint, hfrac, hexp, rfl⟩ := h
  have hu := isUnsigned_of hint hfrac hexp
  rcases hminus with rfl | rfl
  · rw [List.nil_append]
    cases ht : int ++ (frac ++ exp) with
    | nil => rw [ht] at hu; exact hu
    | cons b t =>
        rw [ht] at hu
        have hb : b ≠ 45 := by
          rintro rfl
          exact absurd hu (by simp [isUnsigned, isDigitByte])
        rw [isNumber, if_neg hb, hu]
  · rw [List.singleton_append, isNumber, if_pos rfl, hu]

/-! ## Strings -/

/-- The first byte of a character that stands for itself. -/
lemma encode_head {c : ℕ} (hc : Utf8.IsScalar c) (hq : c ≠ 0x22) (hb : c ≠ 0x5C) :
    ∃ b t, Utf8.encode c = b :: t ∧ b ≠ 34 ∧ b ≠ 92 := by
  obtain ⟨b, t, ht⟩ := List.exists_cons_of_ne_nil (Utf8.encode_ne_nil c)
  refine ⟨b, t, ht, ?_⟩
  rcases Nat.lt_or_ge c 0x80 with hlt | hge
  · rw [Utf8.encode, if_pos hlt] at ht
    obtain ⟨rfl, -⟩ := List.cons.inj ht
    have hto := Utf8.ofNat_toNat_of_lt (n := c) (by omega)
    constructor
    · intro h
      rw [h] at hto
      exact hq hto.symm
    · intro h
      rw [h] at hto
      exact hb hto.symm
  · have hhigh := Utf8.encode_high hge hc.1 b (by rw [ht]; exact List.mem_cons_self ..)
    constructor
    · rintro rfl
      exact absurd hhigh (by decide)
    · rintro rfl
      exact absurd hhigh (by decide)

lemma IsChar.head {t : Bytes} {c : ℕ} (h : IsChar t c) : ∃ b u, t = b :: u ∧ b ≠ 34 := by
  cases h with
  | unescaped hc hctrl hq hb =>
      obtain ⟨b, u, ht, h34, -⟩ := encode_head hc hq hb
      exact ⟨b, u, ht, h34⟩
  | short => exact ⟨92, _, rfl, by decide⟩
  | hex => exact ⟨92, _, rfl, by decide⟩
  | pair => exact ⟨92, _, rfl, by decide⟩

/-- **Characters** of the grammar are read back. -/
lemma readChar_of {t : Bytes} {c : ℕ} (h : IsChar t c) (rest : Bytes) :
    readChar (t ++ rest) = some (c, rest) := by
  cases h with
  | unescaped hc hctrl hq hb =>
      obtain ⟨b, u, ht, -, h92⟩ := encode_head hc hq hb
      have hfirst := Utf8.decodeFirst_encode hc rest
      rw [ht] at hfirst ⊢
      rw [List.cons_append] at hfirst ⊢
      simp only [readChar, if_neg h92, hfirst, Option.bind_eq_bind, Option.bind_some, if_pos hctrl]
  | @short e c h =>
      have he : e ≠ 117 := by
        rintro rfl
        simp [escaped] at h
      simp only [List.cons_append, List.nil_append, readChar, if_true, if_neg he, h, Option.map_some]
  | hex h hs =>
      simp only [List.cons_append, List.nil_append, readChar, if_true, readHex, h,
        Option.bind_eq_bind, Option.bind_some]
      rw [if_neg fun hx => hs ⟨hx.1, by omega⟩, if_neg hs]
  | pair h h' hx hy =>
      simp only [List.cons_append, List.nil_append, readChar, if_true, readHex, h, h',
        Option.bind_eq_bind, Option.bind_some, if_pos hx, if_pos hy]

lemma readChars_of {u : Bytes} {s : List ℕ} (h : IsChars u s) (rest : Bytes) {fuel : ℕ}
    (hfuel : u.length < fuel) : readChars fuel (u ++ 34 :: rest) = some (s, rest) := by
  induction h generalizing fuel with
  | nil =>
      obtain ⟨fuel, rfl⟩ := Nat.exists_eq_succ_of_ne_zero (Nat.ne_of_gt hfuel)
      rw [List.nil_append, readChars, if_pos rfl]
  | @cons t u c s h hs ih =>
      obtain ⟨fuel, rfl⟩ := Nat.exists_eq_succ_of_ne_zero (Nat.ne_zero_of_lt hfuel)
      obtain ⟨b, t', rfl, hb⟩ := h.head
      have hchar := readChar_of h (u ++ 34 :: rest)
      rw [List.length_append, List.length_cons] at hfuel
      rw [List.append_assoc, List.cons_append] at *
      rw [readChars, if_neg hb, hchar]
      simp only [Option.bind_eq_bind, Option.bind_some]
      rw [ih (by omega)]
      rfl

/-- **Strings** of the grammar are read back. -/
lemma readString_of {t : Bytes} {s : List ℕ} (h : IsString t s) (rest : Bytes) :
    readString (t ++ rest) = some (s, rest) := by
  obtain ⟨u, hu, rfl⟩ := h
  have hread := @readChars_of _ _ hu rest ((u ++ 34 :: rest).length + 1)
    (by rw [List.length_append]; omega)
  simp only [List.cons_append, List.append_assoc, List.nil_append, readString, if_true]
  exact hread

lemma IsString.head {t : Bytes} {s : List ℕ} (h : IsString t s) : ∃ u, t = 34 :: u := by
  obtain ⟨u, -, rfl⟩ := h
  exact ⟨u ++ [34], by simp⟩

/-! ## Values -/

/-- What may follow a number: anything that is not part of one. -/
def Ends (rest : Bytes) : Prop := ∀ b ∈ rest.head?, isNumberByte b = false

lemma ends_append {w : Bytes} (hw : IsWs w) {t : Bytes} (ht : Ends t) : Ends (w ++ t) := by
  cases w with
  | nil => exact ht
  | cons b w =>
      rintro _ ⟨⟩
      have := hw b (List.mem_cons_self ..)
      simp only [isWs, Bool.or_eq_true, beq_iff_eq] at this
      rcases this with ((rfl | rfl) | rfl) | rfl <;> rfl

lemma readScalar_number {t : Bytes} (h : IsNumber t) {rest : Bytes} (hrest : Ends rest) :
    readScalar (t ++ rest) = some (.number t, rest) := by
  have hall := h.numberBytes
  have hspan : (t ++ rest).takeWhile isNumberByte = t ∧ (t ++ rest).dropWhile isNumberByte = rest := by
    rw [List.takeWhile_append_of_pos hall, List.dropWhile_append_of_pos hall]
    cases rest with
    | nil => simp
    | cons b rest =>
        have hb := hrest b rfl
        rw [List.takeWhile_cons_of_neg (by simpa using hb),
          List.dropWhile_cons_of_neg (by simpa using hb)]
        simp
  have hvalid := isNumber_of h
  obtain ⟨b, u, rfl⟩ : ∃ b u, t = b :: u := by
    cases t with
    | nil => simp [isNumber] at hvalid
    | cons b u => exact ⟨b, u, rfl⟩
  have hb := hall b (List.mem_cons_self ..)
  have hname : ∀ (c : UInt8) (name tl : Bytes), name = c :: tl → isNumberByte c = false →
      ¬ name <+: b :: u ++ rest := by
    rintro c _ tl rfl hc ⟨v, hv⟩
    rw [List.cons_append, List.cons_append] at hv
    obtain ⟨rfl, -⟩ := List.cons.inj hv
    rw [hb] at hc
    exact absurd hc (by decide)
  have hnull := hname 110 (Bytes.ascii "null") _ rfl rfl
  have htrue := hname 116 (Bytes.ascii "true") _ rfl rfl
  have hfalse := hname 102 (Bytes.ascii "false") _ rfl rfl
  rw [readScalar, if_neg hnull, if_neg htrue, if_neg hfalse]
  simp only [hspan.1, hspan.2, hvalid, if_true]

/-- The first byte of a value tells what the value is. -/
lemma head_of_derives {t : Bytes} {n : Node} (h : Derives t n) :
    ∃ b u, t = b :: u ∧ isWs b = false ∧ b ≠ 93 ∧ b ≠ 125 := by
  cases h with
  | null => exact ⟨110, _, rfl, rfl, by decide, by decide⟩
  | true => exact ⟨116, _, rfl, rfl, by decide, by decide⟩
  | false => exact ⟨102, _, rfl, rfl, by decide, by decide⟩
  | number h =>
      have hvalid := isNumber_of h
      cases t with
      | nil => simp [isNumber] at hvalid
      | cons b u =>
          refine ⟨b, u, rfl, ?_⟩
          have hb := h.numberBytes b (List.mem_cons_self ..)
          have hne : ∀ c, isNumberByte c = false → b ≠ c := by
            rintro c hc rfl
            rw [hb] at hc
            exact absurd hc (by decide)
          refine ⟨?_, hne _ rfl, hne _ rfl⟩
          simp only [isWs, Bool.or_eq_false_iff, beq_eq_false_iff_ne]
          exact ⟨⟨⟨hne _ rfl, hne _ rfl⟩, hne _ rfl⟩, hne _ rfl⟩
  | string h =>
      obtain ⟨u, rfl⟩ := h.head
      exact ⟨34, u, rfl, rfl, by decide, by decide⟩
  | emptyArray hw => exact ⟨91, _, rfl, rfl, by decide, by decide⟩
  | array h => exact ⟨91, _, rfl, rfl, by decide, by decide⟩
  | emptyObject hw => exact ⟨123, _, rfl, rfl, by decide, by decide⟩
  | object h => exact ⟨123, _, rfl, rfl, by decide, by decide⟩

lemma skipWs_byte {w rest : Bytes} {b : UInt8} (hw : IsWs w) (hb : isWs b = false) :
    skipWs (w ++ b :: rest) = b :: rest := by
  exact skipWs_append hw (by simpa using hb)

lemma skipWs_value {w t rest : Bytes} {n : Node} (hw : IsWs w) (h : Derives t n) :
    skipWs (w ++ (t ++ rest)) = t ++ rest := by
  obtain ⟨b, u, rfl, hb, -⟩ := head_of_derives h
  exact skipWs_byte hw hb

lemma skipWs_string {w t rest : Bytes} {s : List ℕ} (hw : IsWs w) (h : IsString t s) :
    skipWs (w ++ (t ++ rest)) = t ++ rest := by
  obtain ⟨u, rfl⟩ := h.head
  exact skipWs_byte hw rfl

lemma skipWs_skipWs (t : Bytes) : skipWs (skipWs t) = skipWs t := List.dropWhile_idempotent isWs t

/-- The white space in front of a body is skipped twice. -/
lemma readElements_skipWs (fuel : ℕ) (t : Bytes) :
    readElements fuel (skipWs t) = readElements fuel t := by
  cases fuel with
  | zero => rfl
  | succ fuel => rw [readElements, readElements, skipWs_skipWs]

lemma readMembers_skipWs (fuel : ℕ) (t : Bytes) :
    readMembers fuel (skipWs t) = readMembers fuel t := by
  cases fuel with
  | zero => rfl
  | succ fuel => rw [readMembers, readMembers, skipWs_skipWs]

/-- A body in brackets starts with its first value. -/
lemma Elements.head {t : Bytes} {ns : List Node} (h : Elements t ns) :
    ∃ b u, (∀ rest, skipWs (t ++ rest) = b :: (u ++ rest)) ∧ b ≠ 93 := by
  cases h with
  | @one w t w' n hw h hw' =>
      obtain ⟨b, u, rfl, hb, hne, -⟩ := head_of_derives h
      refine ⟨b, u ++ w', fun rest => ?_, hne⟩
      have := @skipWs_byte _ (u ++ (w' ++ rest)) _ hw hb
      simpa [List.append_assoc] using this
  | @cons w t w' v n ns hw h hw' hs =>
      obtain ⟨b, u, rfl, hb, hne, -⟩ := head_of_derives h
      refine ⟨b, u ++ (w' ++ 44 :: v), fun rest => ?_, hne⟩
      have := @skipWs_byte _ (u ++ (w' ++ 44 :: (v ++ rest))) _ hw hb
      simpa [List.append_assoc] using this

lemma Members.head {t : Bytes} {ms : List (List ℕ × Node)} (h : Members t ms) :
    ∃ u, ∀ rest, skipWs (t ++ rest) = 34 :: (u ++ rest) := by
  cases h with
  | @one w k v t w' s n hw hk hv h hw' =>
      obtain ⟨u, rfl⟩ := hk.head
      refine ⟨u ++ (58 :: (v ++ (t ++ w'))), fun rest => ?_⟩
      have := @skipWs_byte _ (u ++ (58 :: (v ++ (t ++ (w' ++ rest))))) 34 hw rfl
      simpa [List.append_assoc] using this
  | @cons w k v t w' u' s n ms hw hk hv h hw' hs =>
      obtain ⟨u, rfl⟩ := hk.head
      refine ⟨u ++ (58 :: (v ++ (t ++ (w' ++ 44 :: u')))), fun rest => ?_⟩
      have := @skipWs_byte _ (u ++ (58 :: (v ++ (t ++ (w' ++ 44 :: (u' ++ rest)))))) 34 hw rfl
      simpa [List.append_assoc] using this

mutual

/-- **Values** of the grammar are read back, with what follows them left over. -/
theorem readValue_of : ∀ {t : Bytes} {n : Node}, Derives t n → ∀ {fuel : ℕ} {rest : Bytes},
    t.length < fuel → Ends rest → readValue fuel (t ++ rest) = some (n, rest)
  | _, _, .null, fuel + 1, rest, _, _ => rfl
  | _, _, .true, fuel + 1, rest, _, _ => rfl
  | _, _, .false, fuel + 1, rest, _, _ => rfl
  | t, _, .number h, fuel + 1, rest, _, hrest => by
      have hread := readScalar_number h hrest
      have hvalid := isNumber_of h
      cases t with
      | nil => simp [isNumber] at hvalid
      | cons b u =>
          have hb := h.numberBytes b (List.mem_cons_self ..)
          have hne : ∀ c, isNumberByte c = false → b ≠ c := by
            rintro c hc rfl
            rw [hb] at hc
            exact absurd hc (by decide)
          rw [List.cons_append] at hread ⊢
          rw [readValue, if_neg (hne 34 rfl), if_neg (hne 91 rfl), if_neg (hne 123 rfl), hread]
  | t, _, .string h, fuel + 1, rest, _, _ => by
      have hread := readString_of h rest
      obtain ⟨u, rfl⟩ := h.head
      rw [List.cons_append] at hread ⊢
      rw [readValue, if_pos rfl, hread]
      rfl
  | _, _, .emptyArray hw, fuel + 1, rest, _, _ => by
      have hskip := @skipWs_byte _ rest 93 hw rfl
      simp only [List.cons_append, List.nil_append, List.append_assoc, readValue,
        show (91 : UInt8) ≠ 34 by decide, if_true, if_false, hskip]
  | _, _, @Derives.array t ns h, fuel + 1, rest, hfuel, _ => by
      obtain ⟨b, u, hskip, hb⟩ := h.head
      have hread := @readElements_of _ _ h fuel rest
        (by simp only [List.length_append, List.length_singleton] at hfuel; omega)
      have hskip := hskip (93 :: rest)
      simp only [List.cons_append, List.nil_append, List.append_assoc, readValue,
        show (91 : UInt8) ≠ 34 by decide, if_true, if_false, hskip]
      split
      · next heq => exact absurd (List.cons.inj heq).1 hb
      · rw [← hskip, readElements_skipWs, hread]
        rfl
  | _, _, .emptyObject hw, fuel + 1, rest, _, _ => by
      have hskip := @skipWs_byte _ rest 125 hw rfl
      simp only [List.cons_append, List.nil_append, List.append_assoc, readValue,
        show (123 : UInt8) ≠ 34 by decide, show (123 : UInt8) ≠ 91 by decide, if_true, if_false,
        hskip]
  | _, _, @Derives.object t ms h, fuel + 1, rest, hfuel, _ => by
      obtain ⟨u, hskip⟩ := h.head
      have hread := @readMembers_of _ _ h fuel rest
        (by simp only [List.length_append, List.length_singleton] at hfuel; omega)
      have hskip := hskip (125 :: rest)
      simp only [List.cons_append, List.nil_append, List.append_assoc, readValue,
        show (123 : UInt8) ≠ 34 by decide, show (123 : UInt8) ≠ 91 by decide, if_true, if_false,
        hskip]
      split
      · next heq => exact absurd (List.cons.inj heq).1 (by decide)
      · rw [← hskip, readMembers_skipWs, hread]
        rfl

theorem readElements_of : ∀ {t : Bytes} {ns : List Node}, Elements t ns → ∀ {fuel : ℕ}
    {rest : Bytes}, t.length + 1 < fuel → readElements fuel (t ++ 93 :: rest) = some (ns, rest)
  | _, _, @Elements.one w t w' n hw h hw', fuel + 1, rest, hfuel => by
      simp only [List.length_append] at hfuel
      have hread := @readValue_of _ _ h fuel (w' ++ 93 :: rest) (by omega)
        (ends_append hw' (by simp [Ends, isNumberByte]))
      have hskip := @skipWs_byte _ rest 93 hw' rfl
      simp only [List.append_assoc, readElements, skipWs_value hw h, hread, hskip,
        Option.bind_eq_bind, Option.bind_some]
  | _, _, @Elements.cons w t w' u n ns hw h hw' hs, fuel + 1, rest, hfuel => by
      simp only [List.length_append, List.length_singleton] at hfuel
      have hread := @readValue_of _ _ h fuel (w' ++ 44 :: (u ++ 93 :: rest)) (by omega)
        (ends_append hw' (by simp [Ends, isNumberByte]))
      have hskip := @skipWs_byte _ (u ++ 93 :: rest) 44 hw' rfl
      have hrest := @readElements_of _ _ hs fuel rest (by omega)
      simp only [List.append_assoc, List.cons_append, List.nil_append, readElements,
        skipWs_value hw h, hread, hskip, hrest, Option.bind_eq_bind, Option.bind_some]

theorem readMembers_of : ∀ {t : Bytes} {ms : List (List ℕ × Node)}, Members t ms → ∀ {fuel : ℕ}
    {rest : Bytes}, t.length + 1 < fuel → readMembers fuel (t ++ 125 :: rest) = some (ms, rest)
  | _, _, @Members.one w k v t w' s n hw hk hv h hw', fuel + 1, rest, hfuel => by
      simp only [List.length_append, List.length_singleton] at hfuel
      have hkey := readString_of hk (58 :: (v ++ (t ++ (w' ++ 125 :: rest))))
      have hread := @readValue_of _ _ h fuel (w' ++ 125 :: rest) (by omega)
        (ends_append hw' (by simp [Ends, isNumberByte]))
      have hskip := @skipWs_byte _ rest 125 hw' rfl
      have hcolon := @skipWs_byte _ (v ++ (t ++ (w' ++ 125 :: rest))) 58 isWs_nil rfl
      rw [List.nil_append] at hcolon
      simp only [List.append_assoc, List.cons_append, List.nil_append, readMembers,
        skipWs_string hw hk, hkey, hcolon, skipWs_value hv h, hread, hskip, Option.bind_eq_bind,
        Option.bind_some]
  | _, _, @Members.cons w k v t w' u s n ms hw hk hv h hw' hs, fuel + 1, rest, hfuel => by
      simp only [List.length_append, List.length_singleton] at hfuel
      have hkey := readString_of hk (58 :: (v ++ (t ++ (w' ++ 44 :: (u ++ 125 :: rest)))))
      have hread := @readValue_of _ _ h fuel (w' ++ 44 :: (u ++ 125 :: rest))
        (by omega) (ends_append hw' (by simp [Ends, isNumberByte]))
      have hskip := @skipWs_byte _ (u ++ 125 :: rest) 44 hw' rfl
      have hcolon := @skipWs_byte _ (v ++ (t ++ (w' ++ 44 :: (u ++ 125 :: rest)))) 58 isWs_nil rfl
      have hrest := @readMembers_of _ _ hs fuel rest (by omega)
      rw [List.nil_append] at hcolon
      simp only [List.append_assoc, List.cons_append, List.nil_append, readMembers,
        skipWs_string hw hk, hkey, hcolon, skipWs_value hv h, hread, hskip, hrest,
        Option.bind_eq_bind, Option.bind_some]

end

/-- **The reader reads every JSON text** as the tree of the grammar. -/
theorem read_isText {t : Bytes} {n : Node} (h : IsText t n) : read t = some n := by
  obtain ⟨w, u, w', hw, hu, hw', rfl⟩ := h
  have hread := @readValue_of _ _ hu ((w ++ u ++ w').length + 1) w'
    (by simp only [List.length_append]; omega)
    (by have := ends_append hw' (t := []) (by simp [Ends]); rwa [List.append_nil] at this)
  have hskip := skipWs_append hw' (t := []) (by simp)
  rw [List.append_nil] at hskip
  rw [read, List.append_assoc, skipWs_value hw hu, ← List.append_assoc, hread]
  simp only [Option.bind_eq_bind, Option.bind_some, hskip, if_true]

end Json
