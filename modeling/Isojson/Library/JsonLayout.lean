import Isojson.Library.JsonGrammar

/-!
# The layout of JSON texts

Indentation adds nothing but layout.  A scanner that knows when it is inside a string literal
deletes the line breaks and the spaces outside, which leaves the compact text of a document
(`Doc.Stands.strip_render`), and the indented text is the lines of the document one by one, each
indented by two spaces for each container that is open around it (`Doc.render_eq_unlines`).
-/

namespace Json

/-! ## Deleting layout -/

/-- Where in a JSON text a scanner is. -/
inductive Place
  | outside
  | inside
  /-- Behind a backslash in a string literal. -/
  | escaped
  deriving DecidableEq

def Place.next : Place → UInt8 → Place
  | .outside, b => if b = 34 then .inside else .outside
  | .inside, b => if b = 34 then .outside else if b = 92 then .escaped else .inside
  | .escaped, _ => .inside

/-- The text without the line breaks and spaces outside string literals. -/
def stripLayout : Place → Bytes → Bytes
  | _, [] => []
  | p, b :: t =>
      if p = .outside ∧ (b = 10 ∨ b = 32) then stripLayout (p.next b) t
      else b :: stripLayout (p.next b) t

/-- The scanner turns `u` into `t`, and is outside again behind it. -/
def Strips (u t : Bytes) : Prop :=
  ∀ rest, stripLayout .outside (u ++ rest) = t ++ stripLayout .outside rest

lemma Strips.nil : Strips [] [] := fun _ => rfl

lemma Strips.append {u u' t t' : Bytes} (h : Strips u t) (h' : Strips u' t') :
    Strips (u ++ u') (t ++ t') := by
  intro rest
  rw [List.append_assoc, h, h', List.append_assoc]

lemma Strips.eq {u t : Bytes} (h : Strips u t) : stripLayout .outside u = t := by
  have := h []
  rwa [List.append_nil, stripLayout, List.append_nil] at this

lemma strips_cons {b : UInt8} (h : b ≠ 34) :
    Strips [b] (if b = 10 ∨ b = 32 then [] else [b]) := by
  intro rest
  rw [List.singleton_append, stripLayout, Place.next, if_neg h]
  by_cases hb : b = 10 ∨ b = 32 <;> simp [hb]

/-- A byte that is neither layout nor a quote. -/
def isMark (b : UInt8) : Bool := b != 34 && b != 10 && b != 32

lemma strips_mark {t : Bytes} (h : ∀ b ∈ t, isMark b = true) : Strips t t := by
  induction t with
  | nil => exact .nil
  | cons b t ih =>
      obtain ⟨hb, ht⟩ := List.forall_mem_cons.mp h
      simp only [isMark, Bool.and_eq_true, bne_iff_ne, ne_eq] at hb
      have hone := strips_cons hb.1.1
      rw [if_neg (by simp [hb.1.2, hb.2])] at hone
      exact hone.append (ih ht)

lemma strips_sep (pretty : Bool) (level : ℕ) : Strips (sep pretty level) [] := by
  have hspaces : ∀ n, Strips (List.replicate n 32) [] := by
    intro n
    induction n with
    | zero => exact .nil
    | succ n ih =>
        rw [List.replicate_succ]
        exact (strips_cons (b := 32) (by decide)).append ih
  unfold sep
  split
  · exact (strips_cons (b := 10) (by decide)).append (hspaces _)
  · exact .nil

lemma strips_colon (pretty : Bool) : Strips (colon pretty) [58] := by
  have hcolon : Strips [58] [58] := strips_mark (by simp [isMark])
  cases pretty
  · exact hcolon
  · exact hcolon.append (strips_cons (b := 32) (by decide))

lemma strips_comma (first : Bool) :
    Strips (if first then [] else [44]) (if first then [] else [44]) := by
  cases first
  · exact strips_mark (t := [44]) (by simp [isMark])
  · exact .nil

/-! ### Strings -/

/-- The scanner copies `u` inside a string literal, and is inside again behind it. -/
def CopiedInside (u : Bytes) : Prop :=
  ∀ rest, stripLayout .inside (u ++ rest) = u ++ stripLayout .inside rest

lemma CopiedInside.nil : CopiedInside [] := fun _ => rfl

lemma CopiedInside.append {u u' : Bytes} (h : CopiedInside u) (h' : CopiedInside u') :
    CopiedInside (u ++ u') := by
  intro rest
  rw [List.append_assoc, h, h', List.append_assoc]

lemma copiedInside_byte {b : UInt8} (hq : b ≠ 34) (hb : b ≠ 92) : CopiedInside [b] := by
  intro rest
  simp [stripLayout, Place.next, hq, hb]

lemma copiedInside_escape (e : UInt8) : CopiedInside [92, e] := by
  intro rest
  simp [stripLayout, Place.next]

lemma copiedInside_of_forall {t : Bytes} (h : ∀ b ∈ t, b ≠ 34 ∧ b ≠ 92) : CopiedInside t := by
  induction t with
  | nil => exact .nil
  | cons b t ih =>
      obtain ⟨hb, ht⟩ := List.forall_mem_cons.mp h
      exact (copiedInside_byte hb.1 hb.2).append (ih ht)

/-- An ASCII byte in the encoding of a character is that character. -/
lemma mem_encode_ascii {c : ℕ} (hc : Utf8.IsScalar c) {b : UInt8} (hb : b.toNat < 0x80)
    (hmem : b ∈ Utf8.encode c) : c = b.toNat := by
  have hlt : c < 0x80 := by
    by_contra hge
    have := Utf8.encode_high (Nat.le_of_not_lt hge) hc.1 b hmem
    omega
  rw [Utf8.encode, if_pos hlt, List.mem_singleton] at hmem
  rw [hmem, Utf8.ofNat_toNat_of_lt (by omega)]

lemma hex4_ne {a b c d : UInt8} {x : ℕ} (h : hex4 a b c d = some x) :
    ∀ e ∈ [a, b, c, d], e ≠ 34 ∧ e ≠ 92 ∧ e ≠ 10 := by
  have hval : ∀ e : UInt8, (hexVal e).isSome → e ≠ 34 ∧ e ≠ 92 ∧ e ≠ 10 := by
    intro e he
    refine ⟨?_, ?_, ?_⟩ <;> rintro rfl <;> exact absurd he (by decide)
  simp only [hex4, Option.bind_eq_bind, Option.bind_eq_some_iff] at h
  obtain ⟨w, ha, x, hb, y, hc, z, hd, -⟩ := h
  simp only [List.forall_mem_cons]
  exact ⟨hval a (by simp [ha]), hval b (by simp [hb]), hval c (by simp [hc]), hval d (by simp [hd]),
    by simp⟩

lemma IsChar.copiedInside {t : Bytes} {c : ℕ} (h : IsChar t c) : CopiedInside t := by
  have hhex : ∀ {a b c d : UInt8} {x : ℕ}, hex4 a b c d = some x → CopiedInside [a, b, c, d] :=
    fun h => copiedInside_of_forall fun e he => ⟨(hex4_ne h e he).1, (hex4_ne h e he).2.1⟩
  cases h with
  | unescaped hc hctrl hq hb =>
      refine copiedInside_of_forall fun b hmem => ⟨?_, ?_⟩ <;> rintro rfl
      · exact hq (mem_encode_ascii hc (by decide) hmem)
      · exact hb (mem_encode_ascii hc (by decide) hmem)
  | short h => exact copiedInside_escape _
  | hex h hs => exact (copiedInside_escape 117).append (hhex h)
  | pair h h' hx hy =>
      exact ((copiedInside_escape 117).append (hhex h)).append
        ((copiedInside_escape 117).append (hhex h'))

lemma IsChars.copiedInside {t : Bytes} {s : List ℕ} (h : IsChars t s) : CopiedInside t := by
  induction h with
  | nil => exact .nil
  | cons h _ ih => exact h.copiedInside.append ih

lemma IsString.strips {t : Bytes} {s : List ℕ} (h : IsString t s) : Strips t t := by
  obtain ⟨u, hu, rfl⟩ := h
  intro rest
  rw [List.append_assoc, List.append_assoc, List.singleton_append, stripLayout,
    if_neg (by decide), Place.next, if_pos rfl, hu.copiedInside]
  simp [stripLayout, Place.next]

/-- The bytes of a scalar text are copied. -/
lemma Scalar.strips {t : Bytes} {n : Node} (h : Scalar t n) : Strips t t := by
  cases h with
  | null | true | false => exact strips_mark (List.all_eq_true.mp rfl)
  | number h =>
      refine strips_mark fun b hb => ?_
      have hbyte := h.numberBytes b hb
      simp only [isMark, Bool.and_eq_true, bne_iff_ne, ne_eq]
      refine ⟨⟨?_, ?_⟩, ?_⟩ <;> rintro rfl <;> exact absurd hbyte (by decide)
  | string h => exact h.strips

/-! ### Documents -/

mutual

/-- The scanner turns the indented text of a document into the compact one. -/
lemma Doc.Stands.strips : ∀ {d : Doc} {n : Node} (level level' : ℕ), d.Stands n →
    Strips (d.render true level) (d.render false level')
  | .leaf _, _, _, _, .leaf h => h.strips
  | .arr [], _, _, _, .arr .nil => strips_mark (t := [91, 93]) (by simp [isMark])
  | .arr (d :: ds), _, level, level', .arr h => by
      rw [Doc.render, Doc.render]
      have hopen : Strips [91] [91] := strips_mark (by simp [isMark])
      have hclose : Strips [93] [93] := strips_mark (by simp [isMark])
      have hitems := h.strips true (level + 1) (level' + 1)
      simpa [sep] using ((hopen.append hitems).append (strips_sep true level)).append hclose
  | .obj [], _, _, _, .obj .nil => strips_mark (t := [123, 125]) (by simp [isMark])
  | .obj (m :: ms), _, level, level', .obj h => by
      rw [Doc.render, Doc.render]
      have hopen : Strips [123] [123] := strips_mark (by simp [isMark])
      have hclose : Strips [125] [125] := strips_mark (by simp [isMark])
      have hmembers := h.strips true (level + 1) (level' + 1)
      simpa [sep] using ((hopen.append hmembers).append (strips_sep true level)).append hclose

lemma ItemsStand.strips : ∀ {ds : List Doc} {ns : List Node} (first : Bool) (level level' : ℕ),
    ItemsStand ds ns → Strips (itemsText true level first ds) (itemsText false level' first ds)
  | [], _, _, _, _, .nil => .nil
  | d :: ds, _, first, level, level', .cons h hs => by
      rw [itemsText, itemsText]
      exact (((strips_comma first).append (strips_sep true level)).append
        (h.strips level level')).append (hs.strips false level level')

lemma MembersStand.strips : ∀ {ms : List (Bytes × Doc)} {ns : List (List ℕ × Node)} (first : Bool)
    (level level' : ℕ), MembersStand ms ns →
    Strips (membersText true level first ms) (membersText false level' first ms)
  | [], _, _, _, _, .nil => .nil
  | (k, d) :: ms, _, first, level, level', .cons hk h hs => by
      rw [membersText, membersText]
      exact (((((strips_comma first).append (strips_sep true level)).append hk.strips).append
        (strips_colon true)).append (h.strips level level')).append (hs.strips false level level')

end

/-- **Deleting the layout** of an indented document leaves the compact one. -/
theorem Doc.Stands.strip_render {d : Doc} {n : Node} (h : d.Stands n) :
    stripLayout .outside (d.render true 0) = d.render false 0 :=
  (h.strips 0 0).eq

/-! ## Lines -/

/-- A line of an indented text: how many containers are open around it, and what stands behind
its indentation. -/
abbrev Line := ℕ × Bytes

def Line.text (l : Line) : Bytes := List.replicate (2 * l.1) 32 ++ l.2

/-- Lines, with line breaks between them. -/
def unlines (ls : List Line) : Bytes := [10].intercalate (ls.map Line.text)

mutual

/-- The lines of a document inside `level` open containers.  `lead` is the key in front of it on
its first line, and `trail` the comma behind it on its last. -/
def Doc.lines (level : ℕ) (lead trail : Bytes) : Doc → List Line
  | .leaf t => [(level, lead ++ t ++ trail)]
  | .arr [] => [(level, lead ++ [91, 93] ++ trail)]
  | .arr (d :: ds) =>
      (level, lead ++ [91]) :: (itemLines (level + 1) (d :: ds) ++ [(level, [93] ++ trail)])
  | .obj [] => [(level, lead ++ [123, 125] ++ trail)]
  | .obj (m :: ms) =>
      (level, lead ++ [123]) :: (memberLines (level + 1) (m :: ms) ++ [(level, [125] ++ trail)])

/-- The lines of the items of an array: each item begins a line, and ends one. -/
def itemLines (level : ℕ) : List Doc → List Line
  | [] => []
  | d :: ds => d.lines level [] (if ds.isEmpty then [] else [44]) ++ itemLines level ds

/-- The lines of the members of an object: each member begins a line, and ends one. -/
def memberLines (level : ℕ) : List (Bytes × Doc) → List Line
  | [] => []
  | (k, d) :: ms =>
      d.lines level (k ++ [58, 32]) (if ms.isEmpty then [] else [44]) ++ memberLines level ms

end

/-- Lines, with a line break in front of each. -/
def brokenLines (ls : List Line) : Bytes := ls.flatMap fun l => 10 :: l.text

lemma brokenLines_append (ls ls' : List Line) :
    brokenLines (ls ++ ls') = brokenLines ls ++ brokenLines ls' := List.flatMap_append

lemma brokenLines_cons (level : ℕ) (t : Bytes) (ls : List Line) :
    brokenLines ((level, t) :: ls) = sep true level ++ t ++ brokenLines ls := by
  simp [brokenLines, Line.text, sep]

@[simp] lemma brokenLines_nil : brokenLines [] = [] := rfl

lemma brokenLines_eq (l : Line) (ls : List Line) :
    brokenLines (l :: ls) = 10 :: unlines (l :: ls) := by
  induction ls generalizing l with
  | nil => simp [brokenLines, unlines]
  | cons l' ls ih =>
      have hcons : brokenLines (l :: l' :: ls) = 10 :: l.text ++ brokenLines (l' :: ls) := rfl
      rw [hcons, ih, unlines, unlines]
      simp [List.intercalate]

/-- Items behind the first one begin with a comma. -/
lemma itemsText_false {d : Doc} {ds : List Doc} (pretty : Bool) (level : ℕ) :
    itemsText pretty level false (d :: ds) = [44] ++ itemsText pretty level true (d :: ds) := by
  simp [itemsText]

lemma membersText_false {m : Bytes × Doc} {ms : List (Bytes × Doc)} (pretty : Bool) (level : ℕ) :
    membersText pretty level false (m :: ms) = [44] ++ membersText pretty level true (m :: ms) := by
  simp [membersText]

mutual

lemma Doc.sep_render : ∀ (d : Doc) (level : ℕ) (lead trail : Bytes),
    sep true level ++ lead ++ d.render true level ++ trail = brokenLines (d.lines level lead trail)
  | .leaf t, level, lead, trail => by
      rw [Doc.render, Doc.lines, brokenLines_cons]
      simp
  | .arr [], level, lead, trail => by
      rw [Doc.render, Doc.lines, brokenLines_cons]
      simp
  | .arr (d :: ds), level, lead, trail => by
      rw [Doc.render, Doc.lines, brokenLines_cons, brokenLines_append, brokenLines_cons,
        ← itemsText_lines (d :: ds) (level + 1)]
      simp
  | .obj [], level, lead, trail => by
      rw [Doc.render, Doc.lines, brokenLines_cons]
      simp
  | .obj (m :: ms), level, lead, trail => by
      rw [Doc.render, Doc.lines, brokenLines_cons, brokenLines_append, brokenLines_cons,
        ← membersText_lines (m :: ms) (level + 1)]
      simp

lemma itemsText_lines : ∀ (ds : List Doc) (level : ℕ),
    itemsText true level true ds = brokenLines (itemLines level ds)
  | [], level => by rw [itemsText, itemLines, brokenLines_nil]
  | [d], level => by
      rw [itemLines, brokenLines_append, ← d.sep_render, itemsText, itemsText, itemLines]
      simp
  | d :: d' :: ds, level => by
      have ih := itemsText_lines (d' :: ds) level
      rw [itemLines, brokenLines_append, ← d.sep_render, ← ih, itemsText, itemsText_false]
      simp

lemma membersText_lines : ∀ (ms : List (Bytes × Doc)) (level : ℕ),
    membersText true level true ms = brokenLines (memberLines level ms)
  | [], level => by rw [membersText, memberLines, brokenLines_nil]
  | [(k, d)], level => by
      rw [memberLines, brokenLines_append, ← d.sep_render, membersText, membersText, memberLines]
      simp [colon]
  | (k, d) :: m :: ms, level => by
      have ih := membersText_lines (m :: ms) level
      rw [memberLines, brokenLines_append, ← d.sep_render, ← ih, membersText, membersText_false]
      simp [colon]

end

lemma Doc.lines_ne_nil (d : Doc) (level : ℕ) (lead trail : Bytes) :
    d.lines level lead trail ≠ [] := by
  rcases d with t | ds | ms
  · simp [Doc.lines]
  · cases ds <;> simp [Doc.lines]
  · cases ms <;> simp [Doc.lines]

/-- **The indented text** of a document is its lines. -/
theorem Doc.render_eq_unlines (d : Doc) : d.render true 0 = unlines (d.lines 0 [] []) := by
  obtain ⟨l, ls, hlines⟩ := List.exists_cons_of_ne_nil (d.lines_ne_nil 0 [] [])
  have hsep := d.sep_render 0 [] []
  rw [hlines, brokenLines_eq] at hsep
  rw [hlines]
  simpa [sep] using hsep

/-! ### No line break in a line -/

lemma IsChar.noBreak {t : Bytes} {c : ℕ} (h : IsChar t c) : 10 ∉ t := by
  have hhex : ∀ {a b c d : UInt8} {x : ℕ}, hex4 a b c d = some x → 10 ∉ [a, b, c, d] :=
    fun h hmem => (hex4_ne h _ hmem).2.2 rfl
  cases h with
  | unescaped hc hctrl hq hb =>
      intro hmem
      have := mem_encode_ascii hc (by decide) hmem
      rw [this] at hctrl
      exact absurd hctrl (by decide)
  | short h =>
      intro hmem
      simp only [List.mem_cons, List.not_mem_nil, or_false] at hmem
      rcases hmem with h92 | rfl
      · exact absurd h92 (by decide)
      · exact absurd h (by simp [Json.escaped])
  | hex h hs =>
      have := hhex h
      simp_all
  | pair h h' hx hy =>
      have := hhex h
      have := hhex h'
      simp_all

lemma IsString.noBreak {t : Bytes} {s : List ℕ} (h : IsString t s) : 10 ∉ t := by
  obtain ⟨u, hu, rfl⟩ := h
  have hchars : 10 ∉ u := by
    induction hu with
    | nil => exact List.not_mem_nil
    | cons h _ ih => simp [h.noBreak, ih]
  simp [hchars]

lemma Scalar.noBreak {t : Bytes} {n : Node} (h : Scalar t n) : 10 ∉ t := by
  cases h with
  | null | true | false => decide
  | number h => exact fun hmem => absurd (h.numberBytes _ hmem) (by decide)
  | string h => exact h.noBreak

lemma noBreak_comma (last : Bool) : (10 : UInt8) ∉ (if last then [] else [44] : Bytes) := by
  cases last <;> decide

mutual

/-- The lines of a document are whole lines of its text. -/
lemma Doc.Stands.noBreak : ∀ {d : Doc} {n : Node} (level : ℕ) {lead trail : Bytes}, d.Stands n →
    10 ∉ lead → 10 ∉ trail → ∀ l ∈ d.lines level lead trail, 10 ∉ l.2
  | .leaf _, _, level, lead, trail, .leaf h, hlead, htrail => by
      simp [Doc.lines, h.noBreak, hlead, htrail]
  | .arr [], _, level, lead, trail, .arr .nil, hlead, htrail => by
      simp [Doc.lines, hlead, htrail]
  | .arr (d :: ds), _, level, lead, trail, .arr h, hlead, htrail => by
      have hitems := h.noBreak (level + 1)
      simp only [Doc.lines, List.forall_mem_cons, List.forall_mem_append]
      exact ⟨by simp [hlead], hitems, by simp [htrail]⟩
  | .obj [], _, level, lead, trail, .obj .nil, hlead, htrail => by
      simp [Doc.lines, hlead, htrail]
  | .obj (m :: ms), _, level, lead, trail, .obj h, hlead, htrail => by
      have hmembers := h.noBreak (level + 1)
      simp only [Doc.lines, List.forall_mem_cons, List.forall_mem_append]
      exact ⟨by simp [hlead], hmembers, by simp [htrail]⟩

lemma ItemsStand.noBreak : ∀ {ds : List Doc} {ns : List Node} (level : ℕ), ItemsStand ds ns →
    ∀ l ∈ itemLines level ds, 10 ∉ l.2
  | [], _, _, .nil => by simp [itemLines]
  | d :: ds, _, level, .cons h hs => by
      rw [itemLines, List.forall_mem_append]
      exact ⟨h.noBreak level List.not_mem_nil (noBreak_comma _), hs.noBreak level⟩

lemma MembersStand.noBreak : ∀ {ms : List (Bytes × Doc)} {ns : List (List ℕ × Node)} (level : ℕ),
    MembersStand ms ns → ∀ l ∈ memberLines level ms, 10 ∉ l.2
  | [], _, _, .nil => by simp [memberLines]
  | (k, d) :: ms, _, level, .cons hk h hs => by
      rw [memberLines, List.forall_mem_append]
      exact ⟨h.noBreak level (by simp [hk.noBreak]) (noBreak_comma _), hs.noBreak level⟩

end

/-! ### Texts of one line -/

mutual

/-- A text that is not indented is one line. -/
lemma Doc.Stands.oneLine : ∀ {d : Doc} {n : Node} (level : ℕ), d.Stands n → 10 ∉ d.render false level
  | .leaf _, _, _, .leaf h => h.noBreak
  | .arr [], _, _, .arr .nil => by simp [Doc.render]
  | .arr (d :: ds), _, level, .arr h => by
      have hitems := h.oneLine true (level + 1)
      simp [Doc.render, sep, hitems]
  | .obj [], _, _, .obj .nil => by simp [Doc.render]
  | .obj (m :: ms), _, level, .obj h => by
      have hmembers := h.oneLine true (level + 1)
      simp [Doc.render, sep, hmembers]

lemma ItemsStand.oneLine : ∀ {ds : List Doc} {ns : List Node} (first : Bool) (level : ℕ),
    ItemsStand ds ns → 10 ∉ itemsText false level first ds
  | [], _, _, _, .nil => List.not_mem_nil
  | d :: ds, _, first, level, .cons h hs => by
      have hd := h.oneLine level
      have hds := hs.oneLine false level
      simp [itemsText, sep, noBreak_comma first, hd, hds]

lemma MembersStand.oneLine : ∀ {ms : List (Bytes × Doc)} {ns : List (List ℕ × Node)} (first : Bool)
    (level : ℕ), MembersStand ms ns → 10 ∉ membersText false level first ms
  | [], _, _, _, .nil => List.not_mem_nil
  | (k, d) :: ms, _, first, level, .cons hk h hs => by
      have hd := h.oneLine level
      have hms := hs.oneLine false level
      simp [membersText, sep, colon, noBreak_comma first, hk.noBreak, hd, hms]

end

/-- Lines that each end with a break are read back by splitting at the breaks, and nothing is left. -/
lemma splitOn_lines {lines : List Bytes} (h : ∀ l ∈ lines, 10 ∉ l) :
    (lines.map (· ++ [10])).flatten.splitOn 10 = lines ++ [[]] := by
  induction lines with
  | nil => exact List.splitOn_nil 10
  | cons l lines ih =>
      obtain ⟨hl, hlines⟩ := List.forall_mem_cons.mp h
      rw [List.map_cons, List.flatten_cons, List.append_assoc, List.singleton_append,
        List.splitOn_append_cons_self_of_not_mem hl, ih hlines, List.cons_append]

end Json
