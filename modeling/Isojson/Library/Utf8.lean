import Isojson.Library.Bytes

/-!
# UTF-8

The encoding of a code point (`encode`), a strict decoder of one character (`decodeFirst`) and
their round trip.  Code points are natural numbers, so that a lone surrogate can be written
down; `IsScalar` holds of those that UTF-8 can carry.
-/

namespace Utf8

/-! ## Code points -/

def IsSurrogate (c : ℕ) : Prop := 0xD800 ≤ c ∧ c ≤ 0xDFFF

instance : DecidablePred IsSurrogate := fun c => by unfold IsSurrogate; infer_instance

/-- A Unicode scalar value: a code point that is not a surrogate. -/
def IsScalar (c : ℕ) : Prop := c < 0x110000 ∧ ¬ IsSurrogate c

instance : DecidablePred IsScalar := fun c => by unfold IsScalar; infer_instance

/-- A text: code points that UTF-8 can carry. -/
abbrev Text := { s : List ℕ // ∀ c ∈ s, IsScalar c }

/-- A continuation byte of the low six bits of `x`. -/
def tail (x : ℕ) : UInt8 := UInt8.ofNat (0x80 + x % 64)

/-- The UTF-8 encoding of a code point. -/
def encode (c : ℕ) : Bytes :=
  if c < 0x80 then [UInt8.ofNat c]
  else if c < 0x800 then [UInt8.ofNat (0xC0 + c / 64), tail c]
  else if c < 0x10000 then [UInt8.ofNat (0xE0 + c / 4096), tail (c / 64), tail c]
  else [UInt8.ofNat (0xF0 + c / 262144), tail (c / 4096), tail (c / 64), tail c]

/-- The encoding of a text. -/
def encodeAll (s : List ℕ) : Bytes := s.flatMap encode

/-- A well-formed UTF-8 text: the encoding of some scalar values. -/
def WellFormed (t : Bytes) : Prop := ∃ s : List ℕ, (∀ c ∈ s, IsScalar c) ∧ t = encodeAll s

@[simp] lemma encodeAll_nil : encodeAll [] = [] := rfl

lemma encodeAll_append (s t : List ℕ) : encodeAll (s ++ t) = encodeAll s ++ encodeAll t :=
  List.flatMap_append

lemma encode_ne_nil (c : ℕ) : encode c ≠ [] := by
  unfold encode
  split_ifs <;> simp

lemma length_encode (c : ℕ) : (encode c).length =
    if c < 0x80 then 1 else if c < 0x800 then 2 else if c < 0x10000 then 3 else 4 := by
  unfold encode
  split_ifs <;> rfl

lemma tail_toNat (x : ℕ) : (tail x).toNat = 0x80 + x % 64 := by
  rw [tail, UInt8.toNat_ofNat']
  omega

lemma ofNat_toNat_of_lt {n : ℕ} (h : n < 256) : (UInt8.ofNat n).toNat = n := by
  rw [UInt8.toNat_ofNat']
  omega

/-- No byte of a multi-byte character is ASCII. -/
lemma encode_high {c : ℕ} (h : 0x80 ≤ c) (hc : c < 0x110000) :
    ∀ b ∈ encode c, 0x80 ≤ b.toNat := by
  unfold encode
  rw [if_neg (by omega)]
  split_ifs <;> intro b hb <;> simp only [List.mem_cons, List.not_mem_nil, or_false] at hb <;>
    rcases hb with rfl | rfl | rfl | rfl <;>
    first | (rw [tail_toNat]; omega) | (rw [ofNat_toNat_of_lt (by omega)]; omega)

lemma wellFormed_nil : WellFormed [] := ⟨[], by simp, rfl⟩

lemma WellFormed.append {t u : Bytes} (ht : WellFormed t) (hu : WellFormed u) :
    WellFormed (t ++ u) := by
  obtain ⟨s, hs, rfl⟩ := ht
  obtain ⟨s', hs', rfl⟩ := hu
  refine ⟨s ++ s', fun c hc => ?_, (encodeAll_append s s').symm⟩
  rcases List.mem_append.mp hc with hc | hc
  · exact hs c hc
  · exact hs' c hc

/-- The bytes of an ASCII text are its code points. -/
lemma encodeAll_toNat {t : Bytes} (h : ∀ b ∈ t, b.toNat < 0x80) :
    encodeAll (t.map UInt8.toNat) = t := by
  induction t with
  | nil => rfl
  | cons b t ih =>
      have hb := h b (List.mem_cons_self ..)
      rw [List.map_cons, encodeAll, List.flatMap_cons, encode, if_pos hb, UInt8.ofNat_toNat]
      exact congrArg (b :: ·) (ih fun x hx => h x (List.mem_cons_of_mem _ hx))

lemma lt_of_mem_toNat {t : Bytes} (h : ∀ b ∈ t, b.toNat < 0x80) {c : ℕ}
    (hc : c ∈ t.map UInt8.toNat) : c < 0x80 := by
  obtain ⟨b, hb, rfl⟩ := List.mem_map.mp hc
  exact h b hb

lemma isScalar_toNat {t : Bytes} (h : ∀ b ∈ t, b.toNat < 0x80) :
    ∀ c ∈ t.map UInt8.toNat, IsScalar c := by
  intro c hc
  have := lt_of_mem_toNat h hc
  exact ⟨by omega, by unfold IsSurrogate; omega⟩

/-- An ASCII text is well-formed. -/
lemma wellFormed_of_ascii {t : Bytes} (h : ∀ b ∈ t, b.toNat < 0x80) : WellFormed t :=
  ⟨t.map UInt8.toNat, isScalar_toNat h, (encodeAll_toNat h).symm⟩

lemma wellFormed_of_all {t : Bytes} (h : t.all (· < 0x80) = true) : WellFormed t :=
  wellFormed_of_ascii fun b hb =>
    UInt8.lt_iff_toNat_lt.mp (of_decide_eq_true (List.all_eq_true.mp h b hb))

lemma wellFormed_encode {c : ℕ} (h : IsScalar c) : WellFormed (encode c) :=
  ⟨[c], by simpa using h, by simp [encodeAll]⟩

/-! ## Decoding -/

/-- The low six bits of a continuation byte. -/
def tailBits (b : UInt8) : Option ℕ :=
  if 0x80 ≤ b.toNat ∧ b.toNat < 0xC0 then some (b.toNat - 0x80) else none

/-- The first character of a text, and what follows it; the shortest form only. -/
def decodeFirst : Bytes → Option (ℕ × Bytes)
  | [] => none
  | b :: t =>
      if b.toNat < 0x80 then some (b.toNat, t)
      else if b.toNat < 0xC0 then none
      else if b.toNat < 0xE0 then
        match t with
        | b1 :: t => do
            let c := (b.toNat - 0xC0) * 64 + (← tailBits b1)
            if 0x80 ≤ c then some (c, t) else none
        | _ => none
      else if b.toNat < 0xF0 then
        match t with
        | b1 :: b2 :: t => do
            let c := ((b.toNat - 0xE0) * 64 + (← tailBits b1)) * 64 + (← tailBits b2)
            if 0x800 ≤ c ∧ ¬ IsSurrogate c then some (c, t) else none
        | _ => none
      else
        match t with
        | b1 :: b2 :: b3 :: t => do
            let c := (((b.toNat - 0xF0) * 64 + (← tailBits b1)) * 64 + (← tailBits b2)) * 64 +
              (← tailBits b3)
            if 0x10000 ≤ c ∧ c < 0x110000 then some (c, t) else none
        | _ => none

lemma tailBits_tail (x : ℕ) : tailBits (tail x) = some (x % 64) := by
  have hx : 0x80 + x % 64 - 0x80 = x % 64 := by omega
  rw [tailBits, tail_toNat, if_pos (by omega), hx]

/-- **Round trip of one character.** -/
theorem decodeFirst_encode {c : ℕ} (h : IsScalar c) (rest : Bytes) :
    decodeFirst (encode c ++ rest) = some (c, rest) := by
  obtain ⟨hc, hs⟩ := h
  rw [encode]
  split_ifs with h1 h2 h3
  · have hb : (UInt8.ofNat c).toNat = c := ofNat_toNat_of_lt (by omega)
    simp only [List.cons_append, List.nil_append, decodeFirst, hb, h1, if_true]
  · have hb : (UInt8.ofNat (0xC0 + c / 64)).toNat = 0xC0 + c / 64 := ofNat_toNat_of_lt (by omega)
    simp only [List.cons_append, List.nil_append, decodeFirst, hb, tailBits_tail,
      Option.bind_eq_bind, Option.bind_some]
    rw [if_neg (by omega), if_neg (by omega), if_pos (by omega), if_pos (by omega)]
    simp only [Option.some.injEq, Prod.mk.injEq, and_true]
    omega
  · have hb : (UInt8.ofNat (0xE0 + c / 4096)).toNat = 0xE0 + c / 4096 :=
      ofNat_toNat_of_lt (by omega)
    have hv : ((0xE0 + c / 4096 - 0xE0) * 64 + c / 64 % 64) * 64 + c % 64 = c := by omega
    simp only [List.cons_append, List.nil_append, decodeFirst, hb, tailBits_tail,
      Option.bind_eq_bind, Option.bind_some, hv]
    rw [if_neg (by omega), if_neg (by omega), if_neg (by omega), if_pos (by omega),
      if_pos ⟨by omega, hs⟩]
  · have hb : (UInt8.ofNat (0xF0 + c / 262144)).toNat = 0xF0 + c / 262144 :=
      ofNat_toNat_of_lt (by omega)
    have hv : (((0xF0 + c / 262144 - 0xF0) * 64 + c / 4096 % 64) * 64 + c / 64 % 64) * 64 +
        c % 64 = c := by omega
    simp only [List.cons_append, List.nil_append, decodeFirst, hb, tailBits_tail,
      Option.bind_eq_bind, Option.bind_some, hv]
    rw [if_neg (by omega), if_neg (by omega), if_neg (by omega), if_neg (by omega),
      if_pos ⟨by omega, hc⟩]

/-- The characters of a text, up to its end or the first malformed one. -/
def charsN : ℕ → Bytes → List ℕ
  | 0, _ => []
  | n + 1, t =>
      match decodeFirst t with
      | some (c, t) => c :: charsN n t
      | none => []

def chars (t : Bytes) : List ℕ := charsN t.length t

lemma charsN_encodeAll {s : List ℕ} (hs : ∀ c ∈ s, IsScalar c) :
    ∀ n, s.length ≤ n → charsN n (encodeAll s) = s := by
  induction s with
  | nil =>
      intro n _
      cases n <;> rfl
  | cons c s ih =>
      intro n hn
      obtain ⟨hc, hs⟩ := List.forall_mem_cons.mp hs
      cases n with
      | zero => simp at hn
      | succ n =>
          have hfirst := decodeFirst_encode hc (encodeAll s)
          simp only [charsN, encodeAll, List.flatMap_cons] at hfirst ⊢
          simp only [hfirst]
          exact congrArg (c :: ·) (ih hs n (by simpa using hn))

lemma length_le_encodeAll (s : List ℕ) : s.length ≤ (encodeAll s).length := by
  induction s with
  | nil => simp
  | cons c s ih =>
      have hc := List.length_pos_iff.mpr (encode_ne_nil c)
      simp only [encodeAll, List.flatMap_cons, List.length_append, List.length_cons] at ih ⊢
      omega

/-- **Round trip of a text.** -/
theorem chars_encodeAll {s : List ℕ} (hs : ∀ c ∈ s, IsScalar c) : chars (encodeAll s) = s :=
  charsN_encodeAll hs _ (length_le_encodeAll s)

/-! ## What single bytes tell -/

/-- A byte that is not a continuation byte. -/
def isLead (b : UInt8) : Bool := b &&& 0xC0 != 0x80

lemma isLead_iff (b : UInt8) : isLead b = true ↔ b.toNat < 0x80 ∨ 0xC0 ≤ b.toNat := by
  have h : ∀ n < 256, (UInt8.ofNat n &&& 0xC0 != 0x80) = true ↔ n < 0x80 ∨ 0xC0 ≤ n := by
    decide +kernel
  have := h b.toNat b.toNat_lt
  rwa [UInt8.ofNat_toNat] at this

lemma isLead_tail (x : ℕ) : isLead (tail x) = false := by
  rw [← Bool.not_eq_true, isLead_iff, tail_toNat]
  omega

/-- The first byte of a character leads, and the rest does not. -/
lemma encode_lead {c : ℕ} (hc : c < 0x110000) :
    ∃ b u, encode c = b :: u ∧ isLead b = true ∧ ∀ x ∈ u, isLead x = false := by
  have hlead : ∀ n < 256, n < 0x80 ∨ 0xC0 ≤ n → isLead (UInt8.ofNat n) = true := by
    intro n hn h
    rw [isLead_iff, ofNat_toNat_of_lt hn]
    exact h
  unfold encode
  split_ifs <;>
    exact ⟨_, _, rfl, hlead _ (by omega) (by omega), by simp only [List.forall_mem_cons,
      isLead_tail, List.not_mem_nil, false_imp_iff, implies_true, and_self]⟩

/-- Every character has one lead byte, and any piece of it from the start has that byte. -/
lemma countP_isLead_take_encode {c i : ℕ} (hc : c < 0x110000) (hi : 0 < i) :
    ((encode c).take i).countP isLead = 1 := by
  obtain ⟨b, u, hbu, hb, hu⟩ := encode_lead hc
  obtain ⟨i, rfl⟩ := Nat.exists_eq_succ_of_ne_zero hi.ne'
  have hrest : (u.take i).countP isLead = 0 := by
    rw [List.countP_eq_zero]
    intro x hx
    rw [hu x (List.mem_of_mem_take hx)]
    exact Bool.false_ne_true
  rw [hbu, List.take_succ_cons, List.countP_cons_of_pos hb, hrest]

lemma countP_isLead_encode {c : ℕ} (hc : c < 0x110000) : (encode c).countP isLead = 1 := by
  have hpos : 0 < (encode c).length := List.length_pos_of_ne_nil (encode_ne_nil c)
  have htake := countP_isLead_take_encode hc hpos
  rwa [List.take_length] at htake

/-- The number of lead bytes is the number of characters. -/
lemma countP_isLead_encodeAll {s : List ℕ} (hs : ∀ c ∈ s, c < 0x110000) :
    (encodeAll s).countP isLead = s.length := by
  induction s with
  | nil => rfl
  | cons c s ih =>
      obtain ⟨hc, hs⟩ := List.forall_mem_cons.mp hs
      rw [encodeAll, List.flatMap_cons, List.countP_append, countP_isLead_encode hc, ← encodeAll,
        ih hs, List.length_cons, Nat.add_comm]

/-- **Positions.** Among the first `i` bytes of a text there are the lead bytes of the characters
that begin before the byte `i`. -/
lemma lt_countP_isLead_take_iff {s : List ℕ} {i k : ℕ} (hs : ∀ c ∈ s, c < 0x110000)
    (hk : k < s.length) :
    k < ((encodeAll s).take i).countP isLead ↔ (encodeAll (s.take k)).length < i := by
  induction s generalizing i k with
  | nil => exact absurd hk (Nat.not_lt_zero k)
  | cons c s ih =>
      obtain ⟨hc, hs⟩ := List.forall_mem_cons.mp hs
      obtain rfl | hi := Nat.eq_zero_or_pos i
      · simp
      have hcount : ((encodeAll (c :: s)).take i).countP isLead =
          1 + ((encodeAll s).take (i - (encode c).length)).countP isLead := by
        rw [encodeAll, List.flatMap_cons, List.take_append, List.countP_append,
          countP_isLead_take_encode hc hi, ← encodeAll]
      rw [hcount]
      cases k with
      | zero => simpa using hi
      | succ k =>
          have hlen : (encodeAll ((c :: s).take (k + 1))).length =
              (encode c).length + (encodeAll (s.take k)).length := by
            rw [List.take_succ_cons, encodeAll, List.flatMap_cons, List.length_append, ← encodeAll]
          have := ih (i := i - (encode c).length) hs (Nat.lt_of_succ_lt_succ hk)
          omega
/-- **The byte thresholds.** A character reaches the bytes from `k` on exactly from the code
point `m` on: those above ASCII, above Latin-1 and above the basic plane. -/
lemma exists_byte_ge_iff {c k m : ℕ} (hc : c < 0x110000)
    (h : (k = 0x80 ∧ m = 0x80) ∨ (k = 0xC4 ∧ m = 0x100) ∨ (k = 0xF0 ∧ m = 0x10000)) :
    (∃ b ∈ encode c, k ≤ b.toNat) ↔ m ≤ c := by
  unfold encode
  split_ifs <;> simp only [List.mem_cons, List.not_mem_nil, or_false, exists_eq_or_imp,
    exists_eq_left, tail_toNat] <;> rw [ofNat_toNat_of_lt (by omega)] <;> omega

lemma exists_byte_ge_encodeAll_iff {s : List ℕ} {k m : ℕ} (hs : ∀ c ∈ s, c < 0x110000)
    (h : (k = 0x80 ∧ m = 0x80) ∨ (k = 0xC4 ∧ m = 0x100) ∨ (k = 0xF0 ∧ m = 0x10000)) :
    (∃ b ∈ encodeAll s, k ≤ b.toNat) ↔ ∃ c ∈ s, m ≤ c := by
  simp only [encodeAll, List.mem_flatMap]
  constructor
  · rintro ⟨b, ⟨c, hc, hb⟩, hk⟩
    exact ⟨c, hc, (exists_byte_ge_iff (hs c hc) h).mp ⟨b, hb, hk⟩⟩
  · rintro ⟨c, hc, hm⟩
    obtain ⟨b, hb, hk⟩ := (exists_byte_ge_iff (hs c hc) h).mpr hm
    exact ⟨b, ⟨c, hc, hb⟩, hk⟩

/-! ## The order of texts -/

/-- A smaller character is encoded smaller, whatever follows. -/
lemma encode_append_lt {c d : ℕ} (h : c < d) (hd : d < 0x110000) (u v : List ℕ) :
    (encode c).map UInt8.toNat ++ u < (encode d).map UInt8.toNat ++ v := by
  unfold encode
  split_ifs <;> simp only [List.map_cons, List.map_nil, List.cons_append, List.nil_append,
    List.cons_lt_cons_iff, tail_toNat] <;>
    rw [ofNat_toNat_of_lt (by omega), ofNat_toNat_of_lt (by omega)] <;> omega

lemma encodeAll_lt {s t : List ℕ} (ht : ∀ c ∈ t, c < 0x110000) (h : s < t) :
    (encodeAll s).map UInt8.toNat < (encodeAll t).map UInt8.toNat := by
  induction t generalizing s with
  | nil => exact absurd h (List.not_lt_nil s)
  | cons d t ih =>
      obtain ⟨hd, htail⟩ := List.forall_mem_cons.mp ht
      cases s with
      | nil =>
          obtain ⟨b, u, hu⟩ := List.exists_cons_of_ne_nil (encode_ne_nil d)
          rw [encodeAll, encodeAll, List.flatMap_cons, hu]
          exact List.nil_lt_cons ..
      | cons c s =>
          simp only [encodeAll, List.flatMap_cons, List.map_append]
          rcases List.cons_lt_cons_iff.mp h with hlt | ⟨rfl, hlt⟩
          · exact encode_append_lt hlt hd _ _
          · exact List.append_left_lt (ih htail hlt)

/-- **The byte order** of UTF-8 texts is the order of their code points. -/
theorem encodeAll_le_iff {s t : List ℕ} (hs : ∀ c ∈ s, c < 0x110000) (ht : ∀ c ∈ t, c < 0x110000) :
    (encodeAll s).map UInt8.toNat ≤ (encodeAll t).map UInt8.toNat ↔ s ≤ t := by
  rcases lt_trichotomy s t with h | rfl | h
  · exact iff_of_true (encodeAll_lt ht h).le h.le
  · exact iff_of_true le_rfl le_rfl
  · exact iff_of_false (encodeAll_lt hs h).not_ge h.not_ge

end Utf8
