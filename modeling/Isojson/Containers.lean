import Isojson.Keys
import Isojson.WellFormed

/-!
# Containers by their items

What a list, a tuple or a dict writes, by what its items and keys write, as long as the container
and its keys stay what they are.  A rule says how the run of a container ends if the runs of its
items end in given ways: with a document of a given kind, with an exception, or cut off.
-/

namespace Isojson

open Json Run

variable {Obj H : Type} {a : Allocator}

/-! ## Runs that put out a document -/

/-- The encoder has written `c` and is at depth `d`, without an exception, over a heap of `W`. -/
structure At (W : H → Prop) (d : ℕ) (c : Bytes) (s : St Obj H a) : Prop where
  content : s.out.content = c
  depth : s.depth = d
  calm : s.exc = none
  heap : W s.world.heap

section At

variable {W : H → Prop} {d : ℕ} {c t : Bytes} {s s' : St Obj H a}

/-- The record is no part of it. -/
lemma At.logged (h : At W d c s) (log : List (Event Obj)) : At W d c { s with log := log } :=
  ⟨h.content, h.depth, h.calm, h.heap⟩

lemma At.appended (h : At W d c s) (h' : Appended t s s') : At W d (c ++ t) s' where
  content := by rw [h'.content, h.content]
  depth := h'.depth.trans h.depth
  calm := h'.exc h.calm
  heap := by rw [h'.world]; exact h.heap

lemma At.written (h : At W d c s) {f : Buffer a → Buffer a}
    (hf : ∀ b, (f b).content = b.content ++ t) : At W d (c ++ t) (s.written (f s.out)) :=
  h.appended (.written hf s)

lemma At.deeper (h : At W d c s) : At W (d + 1) c { s with depth := s.depth + 1 } :=
  ⟨h.content, congrArg (· + 1) h.depth, h.calm, h.heap⟩

lemma At.shallower (h : At W (d + 1) c s) : At W d c { s with depth := s.depth - 1 } :=
  ⟨h.content, congrArg (· - 1) h.depth, h.calm, h.heap⟩

end At

/-- A run of `m` at depth `d` that returns puts out a document that `R` holds of, in the layout `i`;
one that raises meets `E`, and one that is cut off meets `C`. -/
def Puts (W : H → Prop) (d : ℕ) (i : Bool) (C E : Prop) (R : Doc → Prop) (m : Encode Obj H a Unit) :
    Prop :=
  ∀ c s, At W d c s → wp (fun _ => C) m (fun _ s' => ∃ doc, R doc ∧ At W d (c ++ doc.render i d) s')
    (fun _ _ => E) s

section Puts

variable {W : H → Prop} {d : ℕ} {i : Bool} {C E E' : Prop} {R R' : Doc → Prop}
  {m : Encode Obj H a Unit}

lemma Puts.mono (h : Puts W d i C E R m) (hE : E → E') (hR : ∀ doc, R doc → R' doc) :
    Puts W d i C E' R' m := fun c s hs =>
  (h c s hs).mono (fun _ _ ⟨doc, hdoc, hput⟩ => ⟨doc, hR doc hdoc, hput⟩) (fun _ _ h => hE h)
    fun _ h => h

lemma Puts.onExit (h : Puts W d i C E R m) {f : St Obj H a → St Obj H a}
    (hf : ∀ s, ∃ log, f s = { s with log := log }) : Puts W d i C E R (Run.onExit m f) := by
  intro c s hs
  rw [wp_onExit]
  refine (h c s hs).mono ?_ (fun _ _ h => h) fun _ h => h
  rintro _ s' ⟨doc, hdoc, hput⟩
  obtain ⟨log, hlog⟩ := hf s'
  rw [hlog]
  exact ⟨doc, hdoc, hput.logged log⟩

/-- A run that always fails. -/
lemma Puts.fail {e : Host Obj H} {msg : String} (hE : E) :
    Puts W d i C E R (e.fail msg : Encode Obj H a Unit) := fun _ s _ =>
  (e.fail_spec msg s).mono (fun _ _ h => h) (fun _ _ _ => hE) fun _ h => h

/-- A run that appends a text of its own. -/
lemma Puts.emit {f : Buffer a → Buffer a} {t : Bytes} (hf : ∀ b, (f b).content = b.content ++ t)
    (hR : R (.leaf t)) : Puts W d i C E R (emit f : Encode Obj H a Unit) := by
  intro c s hs
  rw [wp_emit]
  refine ⟨.leaf t, hR, ?_⟩
  rw [Doc.render]
  exact hs.written hf

end Puts

/-! ## Strings -/

/-- The code points of a `str`. -/
def Runtime.strChars (rt : Runtime Obj H) (h : H) (o : Obj) : Option (List ℕ) :=
  match (rt.view h o).body with
  | .str t => some t.chars
  | _ => none

lemma Runtime.strChars_of_str {rt : Runtime Obj H} {h : H} {o : Obj} {t : StrObj}
    (ht : (rt.view h o).body = .str t) : rt.strChars h o = some t.chars := by
  rw [strChars, ht]

lemma Runtime.strChars_eq_none {rt : Runtime Obj H} {h : H} {o : Obj}
    (hno : ∀ t, (rt.view h o).body = .str t → False) : rt.strChars h o = none := by
  unfold strChars
  split
  · next t ht => exact (hno t ht).elim
  · rfl

lemma Runtime.body_of_strChars {rt : Runtime Obj H} {h : H} {o : Obj} {chars : List ℕ}
    (hchars : rt.strChars h o = some chars) :
    ∃ t : StrObj, (rt.view h o).body = .str t ∧ t.chars = chars := by
  unfold strChars at hchars
  split at hchars
  · next t ht => exact ⟨t, ht, Option.some.inj hchars⟩
  · exact absurd hchars (by simp)

/-- The code points `cs` of a `str` can be written: there is no surrogate. -/
def Writable (chars : Option (List ℕ)) (cs : List ℕ) : Prop :=
  chars = some cs ∧ ∀ c ∈ cs, ¬ Utf8.IsSurrogate c

/-- The error of a key with the code points `chars`, or of one that is no `str`. -/
def keyError : Option (List ℕ) → Option String
  | none => some "Dict key must be str"
  | some cs => if cs.any fun c => decide (Utf8.IsSurrogate c) then some SURROGATES else none

lemma keyError_eq_none {chars : Option (List ℕ)} :
    keyError chars = none ↔ ∃ cs, Writable chars cs := by
  cases chars with
  | none => simp [keyError, Writable]
  | some cs => simp [keyError, Writable]

namespace Env

variable (e : Env Obj H) {W : H → Prop} {d : ℕ} {c : Bytes} {C : Prop} {s : St Obj H a}

/-- **The check of a key** finds the error that its code points have. -/
lemma keyCheck_error_iff {h : H} {key : Obj} {msg : String} :
    e.keyCheck h key = .error msg ↔ keyError (e.rt.strChars h key) = some msg := by
  unfold keyCheck
  split
  · next t ht =>
    have hsurr := (t.holds.text e.strfast).hasSurrogate_iff
    have hany : (t.chars.any fun c => decide (Utf8.IsSurrogate c)) = true ↔
        ∃ c ∈ t.chars, Utf8.IsSurrogate c := by simp
    rw [Runtime.strChars_of_str ht]
    dsimp only [keyError]
    by_cases hs : ∃ c ∈ t.chars, Utf8.IsSurrogate c
    · rw [if_pos (hsurr.mpr hs), if_pos (hany.mpr hs)]
      simp
    · rw [if_neg (mt hsurr.mp hs), if_neg (mt hany.mp hs)]
      split <;> simp
  · next hno =>
    rw [Runtime.strChars_eq_none hno]
    simp [keyError]

/-- A key that passes the check can be written. -/
lemma goodKey_iff {h : H} {key : Obj} :
    e.GoodKey h key ↔ ∃ cs, Writable (e.rt.strChars h key) cs := by
  rw [← keyError_eq_none, GoodKey]
  cases hk : e.keyCheck h key with
  | ok k =>
      refine iff_of_true ⟨k, rfl⟩ ?_
      by_contra hne
      obtain ⟨msg, hmsg⟩ := Option.ne_none_iff_exists'.mp hne
      exact absurd (hk.symm.trans (e.keyCheck_error_iff.mpr hmsg)) (by simp)
  | error msg =>
      rw [e.keyCheck_error_iff] at hk
      rw [hk]
      simp

/-- A `str` is put out as its string text, or raises for a surrogate. -/
lemma wp_str {obj : Obj} {chars : List ℕ} (hview : ∀ h, W h → e.rt.strChars h obj = some chars)
    (hs : At W d c s) {Q : Unit → St Obj H a → Prop} {E : Prop}
    (hok : Writable (some chars) chars → ∀ s', At W d (c ++ quoted chars) s' → Q () s')
    (hfail : ¬ Writable (some chars) chars → E) :
    wp (fun _ => C) (e.str obj) Q (fun _ _ => E) s := by
  obtain ⟨t, ht, rfl⟩ := Runtime.body_of_strChars (hview _ hs.heap)
  unfold str
  rw [wp_bind, Host.wp_look, ht]
  simp only [wp_bind, wp_get, wp_emit]
  have henc := s.out.writeStr_ok_iff e.arch e.strfast t
  split
  · next h =>
    refine hok ⟨rfl, henc.mp h⟩ _ ⟨?_, hs.depth, St.exc_written (s := { s with log := _ }) hs.calm _,
      hs.heap⟩
    rw [← hs.content]
    exact s.out.content_writeStr (henc.mp h)
  · next h =>
    have hE := hfail fun hw => h (henc.mpr hw.2)
    exact (e.fail_spec _ _).mono (fun _ _ h => h) (fun _ _ _ => hE) fun _ h => h

lemma puts_str {obj : Obj} {chars : List ℕ} (hview : ∀ h, W h → e.rt.strChars h obj = some chars)
    {E : Prop} {R : Doc → Prop} (hok : Writable (some chars) chars → R (.leaf (quoted chars)))
    (hfail : ¬ Writable (some chars) chars → E) :
    Puts W d e.indent C E R (e.str obj : Encode Obj H a Unit) := by
  intro c s hs
  refine e.wp_str hview hs (fun henc s' hput => ⟨_, hok henc, ?_⟩) hfail
  rwa [Doc.render]

/-! ## Entering and leaving -/

/-- Entering a container, where it is not refused. -/
lemma wp_entered (hs : At W d c s) {E : Prop} {Q : Unit → St Obj H a → Prop}
    (hfail : e.maxDepth ≤ d → E) (h : d < e.maxDepth → ∀ s', At W (d + 1) c s' → Q () s') :
    wp (fun _ => C) e.enter Q (fun _ _ => E) s := by
  unfold enter
  rw [wp_bind, wp_get, hs.depth]
  split
  · next hle =>
    exact (e.fail_spec _ _).mono (fun _ _ h => h) (fun _ s' _ => hfail hle) fun _ h => h
  · next hlt => exact h (Nat.lt_of_not_le hlt) _ hs.deeper

/-- The text of a container without items. -/
lemma wp_empty (hs : At W (d + 1) c s) {text : Bytes} {E : PendingPyErr → St Obj H a → Prop}
    {Q : Unit → St Obj H a → Prop} (h : ∀ s', At W d (c ++ text) s' → Q () s') :
    wp (fun _ => C) (leave >>= fun _ => emit (·.extend text)) Q E s := by
  rw [wp_bind, wp_leave, wp_emit]
  exact h _ (hs.shallower.written fun b => b.content_extend text)

/-- The end of a container with items. -/
lemma wp_closed (hs : At W (d + 1) c s) {b : UInt8} {E : PendingPyErr → St Obj H a → Prop}
    {Q : Unit → St Obj H a → Prop} (h : ∀ s', At W d (c ++ (sep e.indent d ++ [b])) s' → Q () s') :
    wp (fun _ => C) (leave >>= fun _ => e.breakLine >>= fun _ => emit (·.push b)) Q E s := by
  have hlevel : s.depth - 1 = d := by rw [hs.depth, Nat.add_sub_cancel]
  have hleft := hs.shallower
  rw [hlevel] at hleft
  refine e.wp_close fun s' hs' => h s' ?_
  rw [hlevel] at hs'
  exact hleft.appended hs'

/-! ## Sequences -/

section Sequences

variable {self : Obj → Encode Obj H a Unit} {E : Obj → Prop} {R : Obj → Doc → Prop}

/-- A held item is put out like a borrowed one. -/
lemma puts_guarded {item : Obj} (h : Puts W d e.indent C (E item) (R item) (self item)) :
    Puts W d e.indent C (E item) (R item) (e.guarded self item) := by
  unfold guarded
  split
  · intro c s hs
    rw [wp_bind, Host.wp_look]
    split
    · exact h c _ (hs.logged _)
    · exact (h.onExit fun s => ⟨_, rfl⟩) c _ ((hs.logged _).logged _)
  · exact h

/-- The comma and the line break in front of item `i`, and what follows. -/
lemma wp_separated {i : ℕ} {m : Encode Obj H a Unit} (hs : At W d c s) {Q : Unit → St Obj H a → Prop}
    {E : PendingPyErr → St Obj H a → Prop}
    (h : ∀ s', At W d (c ++ ((if i = 0 then [] else [44]) ++ sep e.indent d)) s' →
      wp (fun _ => C) m Q E s') :
    wp (fun _ => C) (if 0 < i then emit (·.push 44) >>= fun _ => e.breakLine >>= fun _ => m
      else e.breakLine >>= fun _ => m) Q E s := by
  refine e.wp_separator fun s' hs' => h s' ?_
  rw [hs.depth] at hs'
  exact hs.appended hs'

/-- The texts of an item and of the items behind it. -/
lemma at_items {first : Prop} [Decidable first] {i : ℕ} {doc : Doc} {docs : List Doc}
    (h : At W d (c ++ ((if first then [] else [44]) ++ sep e.indent d) ++ doc.render e.indent d ++
      itemsText e.indent d (i + 1 = 0) docs) s) :
    At W d (c ++ itemsText e.indent d first (doc :: docs)) s := by
  rw [itemsText]
  by_cases hfirst : first <;> simpa [hfirst] using h

lemma listLoop_puts {obj : Obj} {items : List Obj}
    (hview : ∀ h, W h → (e.rt.view h obj).body = .list items)
    (hself : ∀ item ∈ items, Puts W d e.indent C (E item) (R item) (self item)) (fuel i : ℕ)
    (hfuel : C ∨ items.length - i < fuel) (hs : At W d c s) :
    wp (fun _ => C) (e.listLoop self obj fuel i) (fun _ s' => ∃ docs,
      List.Forall₂ R (items.drop i) docs ∧ At W d (c ++ itemsText e.indent d (i = 0) docs) s')
      (fun _ _ => ∃ item ∈ items, E item) s := by
  induction fuel generalizing i c s with
  | zero => exact hfuel.resolve_right (Nat.not_lt_zero _)
  | succ fuel ih =>
      rw [listLoop]
      unfold listItems
      rw [wp_bind, wp_bind, Host.wp_look, hview _ hs.heap, wp_pure]
      cases hitem : items[i]? with
      | none =>
          have hdrop : items.drop i = [] := List.drop_eq_nil_of_le (List.getElem?_eq_none_iff.mp hitem)
          refine ⟨[], by rw [hdrop]; exact .nil, ?_⟩
          rw [itemsText, List.append_nil]
          exact hs.logged _
      | some item =>
          obtain ⟨hlt, rfl⟩ := List.getElem?_eq_some_iff.mp hitem
          have hmem : items[i] ∈ items := List.getElem_mem hlt
          refine e.wp_separated (hs.logged _) fun s1 hs1 => ?_
          rw [wp_bind, wp_event, wp_bind]
          refine (e.puts_guarded (hself _ hmem) _ _ (hs1.logged _)).mono ?_
            (fun _ _ h => ⟨_, hmem, h⟩) fun _ h => h
          rintro _ s2 ⟨doc, hdoc, hs2⟩
          refine (ih (i + 1) (hfuel.imp id fun h => by omega) hs2).mono ?_ (fun _ _ h => h)
            fun _ h => h
          rintro _ s3 ⟨docs, hdocs, hs3⟩
          refine ⟨doc :: docs, ?_, e.at_items hs3⟩
          rw [List.drop_eq_getElem_cons hlt]
          exact .cons hdoc hdocs

/-- The document of a sequence: its items' documents, at a depth that is not refused. -/
def ArrayOf (R : Obj → Doc → Prop) (d : ℕ) (items : List Obj) (doc : Doc) : Prop :=
  d < e.maxDepth ∧ ∃ docs, List.Forall₂ R items docs ∧ doc = .arr docs

/-- Where a sequence is refused, or one of its items raises. -/
def SequenceRaises (E : Obj → Prop) (d : ℕ) (items : List Obj) : Prop :=
  e.maxDepth ≤ d ∨ ∃ item ∈ items, E item

lemma at_array {docs : List Doc} (hne : docs ≠ [])
    (h : At W d (c ++ [91] ++ itemsText e.indent (d + 1) (0 = 0) docs ++ (sep e.indent d ++ [93])) s) :
    At W d (c ++ (Doc.arr docs).render e.indent d) s := by
  obtain ⟨doc, docs, rfl⟩ := List.exists_cons_of_ne_nil hne
  rw [Doc.render]
  simpa [List.append_assoc] using h

lemma puts_list {obj : Obj} {items : List Obj}
    (hview : ∀ h, W h → (e.rt.view h obj).body = .list items)
    (hself : ∀ item ∈ items, Puts W (d + 1) e.indent C (E item) (R item) (self item)) {fuel : ℕ}
    (hfuel : C ∨ items.length < fuel) :
    Puts W d e.indent C (e.SequenceRaises E d items) (e.ArrayOf R d items) (e.list self fuel obj) := by
  intro c s hs
  unfold list listItems
  rw [wp_bind, wp_bind, Host.wp_look, hview _ hs.heap, wp_pure]
  cases items with
  | nil =>
      rw [if_pos List.length_nil, wp_bind]
      refine e.wp_entered (hs.logged _) Or.inl fun hlt s1 hs1 => ?_
      exact wp_empty hs1 fun s2 hs2 => ⟨.arr [], ⟨hlt, [], .nil, rfl⟩, by rwa [Doc.render]⟩
  | cons item items =>
      rw [if_neg (by simp), wp_bind]
      refine e.wp_entered (hs.logged _) Or.inl fun hlt s1 hs1 => ?_
      rw [wp_bind, wp_emit, wp_bind]
      have hloop := e.listLoop_puts hview hself fuel 0 hfuel
        (hs1.written fun b => b.content_push 91)
      refine hloop.mono ?_ (fun _ _ h => Or.inr h) fun _ h => h
      rintro _ s2 ⟨docs, hdocs, hs2⟩
      refine e.wp_closed hs2 fun s3 hs3 => ⟨.arr docs, ⟨hlt, docs, hdocs, rfl⟩, e.at_array ?_ hs3⟩
      rintro rfl
      cases hdocs

lemma tupleLoop_puts (obj : Obj) {items : List Obj}
    (hself : ∀ item ∈ items, Puts W d e.indent C (E item) (R item) (self item)) (i : ℕ)
    (hs : At W d c s) :
    wp (fun _ => C) (e.tupleLoop self obj i items) (fun _ s' => ∃ docs,
      List.Forall₂ R items docs ∧ At W d (c ++ itemsText e.indent d (i = 0) docs) s')
      (fun _ _ => ∃ item ∈ items, E item) s := by
  induction items generalizing i c s with
  | nil =>
      refine ⟨[], .nil, ?_⟩
      rwa [itemsText, List.append_nil]
  | cons item items ih =>
      obtain ⟨hitem, hitems⟩ := List.forall_mem_cons.mp hself
      rw [tupleLoop]
      refine e.wp_separated hs fun s1 hs1 => ?_
      rw [wp_bind, wp_event, wp_bind, wp_event, wp_bind]
      refine (hitem _ _ ((hs1.logged _).logged _)).mono ?_
        (fun _ _ h => ⟨item, List.mem_cons_self, h⟩) fun _ h => h
      rintro _ s2 ⟨doc, hdoc, hs2⟩
      refine (ih hitems (i + 1) hs2).mono ?_
        (fun _ _ h => h.imp fun _ hx => ⟨List.mem_cons_of_mem _ hx.1, hx.2⟩) fun _ h => h
      rintro _ s3 ⟨docs, hdocs, hs3⟩
      exact ⟨doc :: docs, .cons hdoc hdocs, e.at_items hs3⟩

lemma puts_tuple {obj : Obj}
    (hself : ∀ item ∈ e.rt.tupleItems obj, Puts W (d + 1) e.indent C (E item) (R item) (self item)) :
    Puts W d e.indent C (e.SequenceRaises E d (e.rt.tupleItems obj))
      (e.ArrayOf R d (e.rt.tupleItems obj)) (e.tuple self obj) := by
  intro c s hs
  unfold tuple
  rw [wp_bind, wp_event]
  dsimp only
  generalize e.rt.tupleItems obj = items at hself ⊢
  rw [wp_bind]
  refine e.wp_entered (hs.logged _) Or.inl fun hlt s1 hs1 => ?_
  cases items with
  | nil =>
      rw [if_pos List.length_nil]
      exact wp_empty hs1 fun s2 hs2 => ⟨.arr [], ⟨hlt, [], .nil, rfl⟩, by rwa [Doc.render]⟩
  | cons item items =>
      rw [if_neg (by simp), wp_bind, wp_emit, wp_bind]
      have hloop := e.tupleLoop_puts obj hself 0 (hs1.written fun b => b.content_push 91)
      refine hloop.mono ?_ (fun _ _ h => Or.inr h) fun _ h => h
      rintro _ s2 ⟨docs, hdocs, hs2⟩
      refine e.wp_closed hs2 fun s3 hs3 => ⟨.arr docs, ⟨hlt, docs, hdocs, rfl⟩, e.at_array ?_ hs3⟩
      rintro rfl
      cases hdocs

end Sequences

/-! ## Dicts -/

section Dicts

variable {self : Obj → Encode Obj H a Unit} {E : Obj → Prop} {R : Obj → Doc → Prop}
  {K : Obj → Option (List ℕ)}

/-- A member as it is written: the code points of its key, and the document of its value. -/
abbrev Member := List ℕ × Doc

/-- The members as texts. -/
def memberTexts (ms : List Member) : List (Bytes × Doc) := ms.map fun m => (quoted m.1, m.2)

/-- `m` is the member of an entry whose key has the code points that `K` says. -/
def MemberOf (K : Obj → Option (List ℕ)) (R : Obj → Doc → Prop) (kv : Entry Obj) (m : Member) : Prop :=
  Writable (K kv.1) m.1 ∧ R kv.2 m.2

/-- The key of an entry can't be written, or its value raises. -/
def EntryRaises (K : Obj → Option (List ℕ)) (E : Obj → Prop) (kv : Entry Obj) : Prop :=
  (¬ ∃ cs, Writable (K kv.1) cs) ∨ E kv.2

/-- The key, and the colon behind it. -/
lemma wp_writeKey {key : Obj} {chars : List ℕ}
    (hview : ∀ h, W h → e.rt.strChars h key = some chars) {first : Bool} (hs : At W d c s)
    {Q : Unit → St Obj H a → Prop} {E : Prop}
    (hok : Writable (some chars) chars → ∀ s', At W d
      (c ++ ((if first then [] else [44]) ++ sep e.indent d ++ quoted chars ++ colon e.indent)) s' →
        Q () s')
    (hfail : ¬ Writable (some chars) chars → E) :
    wp (fun _ => C) (e.writeKey key first) Q (fun _ _ => E) s := by
  -- the key and the colon, behind the comma and the line break
  have hrest : ∀ s1, At W d (c ++ ((if first then [] else [44]) ++ sep e.indent d)) s1 →
      wp (fun _ => C) (e.str key >>= fun _ =>
        if e.indent then emit (·.extend [58, 32]) else emit (·.push 58)) Q (fun _ _ => E) s1 := by
    intro s1 hs1
    obtain ⟨f, hf, hcolon⟩ := e.exists_colon (a := a)
    rw [hf, wp_bind]
    refine e.wp_str hview hs1 (fun hw s2 hs2 => ?_) hfail
    rw [wp_emit]
    refine hok hw _ ?_
    have hput := hs2.written hcolon
    simpa only [List.append_assoc] using hput
  unfold writeKey
  cases first with
  | true =>
      simp only [if_true]
      rw [wp_bind]
      refine e.wp_breakLine fun s1 hs1 => hrest s1 ?_
      rw [hs.depth] at hs1
      exact hs.appended hs1
  | false =>
      simp only [Bool.false_eq_true, if_false]
      rw [wp_bind, wp_emit, wp_bind]
      have hcomma := hs.written (t := [44]) fun b => b.content_push 44
      refine e.wp_breakLine fun s1 hs1 => hrest s1 ?_
      rw [hcomma.depth] at hs1
      have hput := hcomma.appended hs1
      simpa [List.append_assoc] using hput

/-- The texts of a member and of the members behind it. -/
lemma at_members {first : Bool} {m : Member} {ms : List Member}
    (h : At W d (c ++ ((if first then [] else [44]) ++ sep e.indent d ++ quoted m.1 ++ colon e.indent) ++
      m.2.render e.indent d ++ membersText e.indent d false (memberTexts ms)) s) :
    At W d (c ++ membersText e.indent d first (memberTexts (m :: ms))) s := by
  rw [memberTexts, List.map_cons, membersText]
  simpa only [List.append_assoc, memberTexts] using h

/-- A held value is put out like a borrowed one. -/
lemma puts_entryValue {key value : Obj}
    (h : Puts W d e.indent C (E value) (R value) (self value)) :
    Puts W d e.indent C (E value) (R value) (e.entryValue self key value) := by
  unfold entryValue
  split
  · intro c s hs
    rw [wp_bind, Host.wp_look]
    split
    · exact h c _ (hs.logged _)
    · exact ((e.puts_guarded h).onExit fun s => ⟨_, rfl⟩) c _ ((hs.logged _).logged _)
  · exact h

lemma firstEntry_none {slots : List (Option (Entry Obj))} (h : firstEntry slots = none) :
    slots.reduceOption = [] := by
  induction slots with
  | nil => rfl
  | cons slot slots ih =>
      cases slot with
      | none => exact ih (by simpa [firstEntry] using h)
      | some kv => exact absurd h (by simp [firstEntry])

lemma firstEntry_some {slots : List (Option (Entry Obj))} {n : ℕ} {kv : Entry Obj}
    (h : firstEntry slots = some (n, kv)) :
    slots.reduceOption = kv :: (slots.drop n).reduceOption ∧ 0 < n ∧ n ≤ slots.length := by
  induction slots generalizing n with
  | nil => exact absurd h (by simp [firstEntry])
  | cons slot slots ih =>
      cases slot with
      | none =>
          obtain ⟨⟨m, kv'⟩, hm, heq⟩ := Option.map_eq_some_iff.mp h
          obtain ⟨rfl, rfl⟩ := Prod.mk.inj heq
          obtain ⟨hentries, -, hle⟩ := ih hm
          exact ⟨hentries, Nat.succ_pos _, Nat.succ_le_succ hle⟩
      | some kv' =>
          obtain ⟨rfl, rfl⟩ := Prod.mk.inj (Option.some.inj h)
          exact ⟨rfl, Nat.one_pos, Nat.succ_le_succ (Nat.zero_le _)⟩

lemma dictLoop_puts {obj : Obj} {slots : List (Option (Entry Obj))}
    (hview : ∀ h, W h → (e.rt.view h obj).body = .dict slots)
    (hkeys : ∀ kv ∈ slots.reduceOption, ∀ h, W h → e.rt.strChars h kv.1 = K kv.1)
    (hself : ∀ kv ∈ slots.reduceOption, Puts W d e.indent C (E kv.2) (R kv.2) (self kv.2))
    (fuel pos : ℕ) (first : Bool) (hfuel : C ∨ slots.length - pos < fuel) (hs : At W d c s) :
    wp (fun _ => C) (e.dictLoop self obj fuel pos first) (fun _ s' => ∃ ms,
      List.Forall₂ (MemberOf K R) (slots.drop pos).reduceOption ms ∧
        At W d (c ++ membersText e.indent d first (memberTexts ms)) s')
      (fun _ _ => ∃ kv ∈ slots.reduceOption, EntryRaises K E kv) s := by
  induction fuel generalizing pos first c s with
  | zero => exact hfuel.resolve_right (Nat.not_lt_zero _)
  | succ fuel ih =>
      rw [dictLoop]
      unfold dictSlots
      rw [wp_bind, wp_bind, Host.wp_look, hview _ hs.heap, wp_pure]
      have hsub : ((slots.drop pos).reduceOption).Sublist slots.reduceOption :=
        (List.drop_sublist pos slots).filterMap id
      cases hnext : nextEntry slots pos with
      | none =>
          have hnil := firstEntry_none (Option.map_eq_none_iff.mp hnext)
          refine ⟨[], by rw [hnil]; exact .nil, ?_⟩
          rw [memberTexts, List.map_nil, membersText, List.append_nil]
          exact hs.logged _
      | some next =>
          obtain ⟨pos', key, value⟩ := next
          obtain ⟨⟨n, kv⟩, hn, heq⟩ := Option.map_eq_some_iff.mp hnext
          obtain ⟨rfl, rfl⟩ := Prod.mk.inj heq
          obtain ⟨hentries, hpos, hle⟩ := firstEntry_some hn
          rw [List.length_drop] at hle
          rw [List.drop_drop] at hentries
          have hmem : (key, value) ∈ slots.reduceOption :=
            hsub.subset (by rw [hentries]; exact List.mem_cons_self)
          have hkey := hkeys _ hmem
          dsimp only
          rw [wp_bind, wp_event, wp_bind, wp_event, wp_bind, Host.wp_look]
          cases hK : K key with
          | none =>
              have hraises : ∃ kv ∈ slots.reduceOption, EntryRaises K E kv := by
                refine ⟨_, hmem, Or.inl ?_⟩
                rintro ⟨cs, hcs⟩
                exact absurd (hK.symm.trans hcs.1) (by simp)
              have hnone := (hkey _ hs.heap).trans hK
              unfold Runtime.strChars at hnone
              split
              · next t ht =>
                rw [ht] at hnone
                exact absurd hnone (by simp)
              · exact (e.fail_spec _ _).mono (fun _ _ h => h) (fun _ _ _ => hraises) fun _ h => h
          | some chars =>
              have hchars : ∀ h, W h → e.rt.strChars h key = some chars := fun h hh =>
                (hkey h hh).trans hK
              have hsome := hchars _ hs.heap
              unfold Runtime.strChars at hsome
              split
              · rw [wp_bind]
                refine e.wp_writeKey hchars ((((hs.logged _).logged _).logged _).logged _)
                  (fun hw s1 hs1 => ?_) fun hw => ?_
                · rw [wp_bind]
                  refine (e.puts_entryValue (hself _ hmem) _ _ hs1).mono ?_
                    (fun _ _ h => ⟨_, hmem, Or.inr h⟩) fun _ h => h
                  rintro _ s2 ⟨doc, hdoc, hs2⟩
                  refine (ih (pos + n) false (hfuel.imp id fun h => by omega) hs2).mono ?_
                    (fun _ _ h => h) fun _ h => h
                  rintro _ s3 ⟨ms, hms, hs3⟩
                  refine ⟨(chars, doc) :: ms, ?_, e.at_members hs3⟩
                  rw [hentries]
                  exact .cons ⟨by rw [hK]; exact hw, hdoc⟩ hms
                · refine ⟨_, hmem, Or.inl ?_⟩
                  rintro ⟨cs, hcs, hno⟩
                  obtain rfl : chars = cs := Option.some.inj (hK.symm.trans hcs)
                  exact hw ⟨rfl, hno⟩
              · next hno =>
                split at hsome
                · next t ht => exact absurd ht (hno t)
                · exact absurd hsome (by simp)

/-- The entries in the order of their keys' code points. -/
def sortByKey (K : Obj → Option (List ℕ)) (entries : List (Entry Obj)) : List (Entry Obj) :=
  entries.mergeSort fun x y => decide ((K x.1).getD [] ≤ (K y.1).getD [])

/-- The checked entries are sorted by their keys' code points. -/
lemma sorted_eq_sortByKey {h : H} {entries : List (Entry Obj)}
    (hgood : ∀ kv ∈ entries, e.GoodKey h kv.1)
    (hkeys : ∀ kv ∈ entries, e.rt.strChars h kv.1 = K kv.1) :
    ((entries.map (e.keyEntry h)).mergeSort keyLe).map Prod.snd = sortByKey K entries := by
  have hchars : ∀ kv ∈ entries, (e.keyEntry h kv).1.chars = (K kv.1).getD [] := by
    intro kv hkv
    obtain ⟨-, t, ht, hc⟩ := e.keyEntry_valid (hgood kv hkv)
    rw [hc, ← hkeys kv hkv, Runtime.strChars, ht, Option.getD_some]
  have hsort := List.map_mergeSort (r := fun x y => decide ((K x.1).getD [] ≤ (K y.1).getD []))
    (s := keyLe) (f := e.keyEntry h) (l := entries) fun x hx y hy => by
      have hiff := keyLe_iff (e.keyEntry_valid (hgood x hx)).1 (e.keyEntry_valid (hgood y hy)).1
      rw [hchars x hx, hchars y hy] at hiff
      exact Bool.eq_iff_iff.mpr (decide_eq_true_iff.trans hiff.symm)
  rw [← hsort, List.map_map]
  have hid : Prod.snd ∘ e.keyEntry h = id := funext fun kv => e.keyEntry_snd h kv
  rw [hid, List.map_id, sortByKey]

lemma sortedLoop_puts {entries : List (Entry Obj)}
    (hkeys : ∀ kv ∈ entries, ∀ h, W h → e.rt.strChars h kv.1 = K kv.1)
    (hgood : ∀ kv ∈ entries, ∃ cs, Writable (K kv.1) cs)
    (hself : ∀ kv ∈ entries, Puts W d e.indent C (E kv.2) (R kv.2) (self kv.2)) (first : Bool)
    (hs : At W d c s) :
    wp (fun _ => C) (e.sortedLoop self first entries) (fun _ s' => ∃ ms,
      List.Forall₂ (MemberOf K R) entries ms ∧
        At W d (c ++ membersText e.indent d first (memberTexts ms)) s')
      (fun _ _ => ∃ kv ∈ entries, E kv.2) s := by
  induction entries generalizing first c s with
  | nil =>
      refine ⟨[], .nil, ?_⟩
      rwa [memberTexts, List.map_nil, membersText, List.append_nil]
  | cons kv entries ih =>
      obtain ⟨key, value⟩ := kv
      obtain ⟨hkey, hkeys⟩ := List.forall_mem_cons.mp hkeys
      obtain ⟨⟨chars, hw⟩, hgood⟩ := List.forall_mem_cons.mp hgood
      obtain ⟨hvalue, hself⟩ := List.forall_mem_cons.mp hself
      rw [sortedLoop, wp_bind]
      refine e.wp_writeKey (fun h hh => (hkey h hh).trans hw.1) hs
        (fun _ s1 hs1 => ?_) fun hno => absurd ⟨rfl, hw.2⟩ hno
      rw [wp_bind]
      refine (hvalue _ _ hs1).mono ?_ (fun _ _ h => ⟨_, List.mem_cons_self, h⟩) fun _ h => h
      rintro _ s2 ⟨doc, hdoc, hs2⟩
      refine (ih hkeys hgood hself false hs2).mono ?_
        (fun _ _ h => h.imp fun _ hx => ⟨List.mem_cons_of_mem _ hx.1, hx.2⟩) fun _ h => h
      rintro _ s3 ⟨ms, hms, hs3⟩
      exact ⟨(chars, doc) :: ms, .cons ⟨hw, hdoc⟩ hms, e.at_members hs3⟩

lemma writeSorted_puts {entries : List (Entry Obj)}
    (hkeys : ∀ kv ∈ entries, ∀ h, W h → e.rt.strChars h kv.1 = K kv.1)
    (hself : ∀ kv ∈ entries, Puts W d e.indent C (E kv.2) (R kv.2) (self kv.2)) (hs : At W d c s) :
    wp (fun _ => C) (e.writeSorted self entries) (fun _ s' => ∃ ms,
      List.Forall₂ (MemberOf K R) (sortByKey K entries) ms ∧
        At W d (c ++ membersText e.indent d true (memberTexts ms)) s')
      (fun _ _ => ∃ kv ∈ entries, EntryRaises K E kv) s := by
  have hheap := hs.heap
  unfold writeSorted
  rcases e.keys_good_or_bad s.world.heap entries with hgood | ⟨good, kv, rest, msg, rfl, hgood, hbad⟩
  · have hperm : (sortByKey K entries).Perm entries := List.mergeSort_perm ..
    have hwritable : ∀ kv ∈ entries, ∃ cs, Writable (K kv.1) cs := by
      intro kv hkv
      rw [← hkeys kv hkv _ hheap]
      exact e.goodKey_iff.mp (hgood kv hkv)
    obtain ⟨log, hlog⟩ := foldl_readKey entries s
    rw [wp_bind_of_ok (e.keyedEntries_good hgood), hlog,
      e.sorted_eq_sortByKey hgood fun kv hkv => hkeys kv hkv _ hheap]
    have hloop := e.sortedLoop_puts (fun kv hkv => hkeys kv (hperm.mem_iff.mp hkv))
      (fun kv hkv => hwritable kv (hperm.mem_iff.mp hkv))
      (fun kv hkv => hself kv (hperm.mem_iff.mp hkv)) true (hs.logged log)
    exact hloop.mono (fun _ _ h => h)
      (fun _ _ ⟨kv, hkv, h⟩ => ⟨kv, hperm.mem_iff.mp hkv, Or.inr h⟩) fun _ h => h
  · have hmem : kv ∈ good ++ kv :: rest := List.mem_append_right _ List.mem_cons_self
    have hraises : ∃ x ∈ good ++ kv :: rest, EntryRaises K E x := by
      refine ⟨kv, hmem, Or.inl ?_⟩
      rw [← hkeys kv hmem _ hheap, ← e.goodKey_iff]
      rintro ⟨k, hk⟩
      exact absurd (hk.symm.trans hbad) (by simp)
    rw [wp_bind]
    unfold wp
    rw [e.keyedEntries_bad hgood hbad]
    exact (e.fail_spec msg _).mono (fun _ _ h => h) (fun _ _ _ => hraises) fun _ h => h

lemma dictSorted_puts {obj : Obj} {slots : List (Option (Entry Obj))}
    (hview : ∀ h, W h → (e.rt.view h obj).body = .dict slots)
    (hkeys : ∀ kv ∈ slots.reduceOption, ∀ h, W h → e.rt.strChars h kv.1 = K kv.1)
    (hself : ∀ kv ∈ slots.reduceOption, Puts W d e.indent C (E kv.2) (R kv.2) (self kv.2))
    (hs : At W d c s) :
    wp (fun _ => C) (e.dictSorted self obj) (fun _ s' => ∃ ms,
      List.Forall₂ (MemberOf K R) (sortByKey K slots.reduceOption) ms ∧
        At W d (c ++ membersText e.indent d true (memberTexts ms)) s')
      (fun _ _ => ∃ kv ∈ slots.reduceOption, EntryRaises K E kv) s := by
  unfold dictSorted dictSlots
  rw [wp_bind, wp_bind, Host.wp_look, hview _ hs.heap, wp_pure]
  obtain ⟨log, hlog⟩ := holdEntries_eq (a := a) obj slots.reduceOption
    { s with log := s.log ++ [.read (.obj obj)] }
  rw [wp_bind_of_ok hlog, wp_onExit]
  refine (e.writeSorted_puts hkeys hself (hs.logged log)).mono ?_ (fun _ _ h => h) fun _ h => h
  rintro _ s1 ⟨ms, hms, hs1⟩
  obtain ⟨log1, hlog1⟩ := release_eq slots.reduceOption s1
  rw [hlog1]
  exact ⟨ms, hms, hs1.logged log1⟩

/-- The entries of a dict in the order they are written in. -/
def writtenOrder (K : Obj → Option (List ℕ)) (entries : List (Entry Obj)) : List (Entry Obj) :=
  if hasOpt e.opts optSortKeys then sortByKey K entries else entries

/-- The document of a dict: its members in the order of the keys where that is asked for, at a depth
that is not refused. -/
def ObjectOf (K : Obj → Option (List ℕ)) (R : Obj → Doc → Prop) (d : ℕ) (entries : List (Entry Obj))
    (doc : Doc) : Prop :=
  d < e.maxDepth ∧ ∃ ms, List.Forall₂ (MemberOf K R) (e.writtenOrder K entries) ms ∧
    doc = .obj (memberTexts ms)

/-- Where a dict is refused, or one of its entries raises. -/
def DictRaises (K : Obj → Option (List ℕ)) (E : Obj → Prop) (d : ℕ) (entries : List (Entry Obj)) :
    Prop :=
  e.maxDepth ≤ d ∨ ∃ kv ∈ entries, EntryRaises K E kv

lemma at_object {ms : List Member} (hne : ms ≠ [])
    (h : At W d (c ++ [123] ++ membersText e.indent (d + 1) true (memberTexts ms) ++
      (sep e.indent d ++ [125])) s) :
    At W d (c ++ (Doc.obj (memberTexts ms)).render e.indent d) s := by
  obtain ⟨m, ms, rfl⟩ := List.exists_cons_of_ne_nil hne
  rw [memberTexts, List.map_cons] at h ⊢
  rw [Doc.render]
  simpa [List.append_assoc] using h

lemma puts_dict {obj : Obj} {slots : List (Option (Entry Obj))}
    (hview : ∀ h, W h → (e.rt.view h obj).body = .dict slots)
    (hkeys : ∀ kv ∈ slots.reduceOption, ∀ h, W h → e.rt.strChars h kv.1 = K kv.1)
    (hself : ∀ kv ∈ slots.reduceOption, Puts W (d + 1) e.indent C (E kv.2) (R kv.2) (self kv.2))
    {fuel : ℕ} (hfuel : C ∨ hasOpt e.opts optSortKeys = true ∨ slots.length < fuel) :
    Puts W d e.indent C (e.DictRaises K E d slots.reduceOption)
      (e.ObjectOf K R d slots.reduceOption) (e.dict self fuel obj) := by
  intro c s hs
  unfold dict
  rw [wp_bind, wp_event, wp_bind]
  refine e.wp_entered (hs.logged _) Or.inl fun hlt s1 hs1 => ?_
  unfold dictSlots
  rw [wp_bind, wp_bind, Host.wp_look, hview _ hs1.heap, wp_pure]
  have hempty : e.writtenOrder K [] = [] := by simp [writtenOrder, sortByKey]
  by_cases hnil : slots.reduceOption = []
  · rw [hnil, if_pos List.length_nil]
    refine wp_empty (hs1.logged _) fun s2 hs2 => ⟨.obj [], ⟨hlt, [], ?_, rfl⟩, by rwa [Doc.render]⟩
    rw [hempty]
    exact .nil
  · rw [if_neg (mt List.length_eq_zero_iff.mp hnil), wp_bind, wp_emit]
    have hopen := (hs1.logged (s1.log ++ [.read (.obj obj)])).written fun b => b.content_push 123
    -- the end, once the members were written
    have hclose : ∀ (s2 : St Obj H a) ms, List.Forall₂ (MemberOf K R) (e.writtenOrder K slots.reduceOption) ms →
        At W (d + 1) (c ++ [123] ++ membersText e.indent (d + 1) true (memberTexts ms)) s2 →
        wp (fun _ => C) (leave >>= fun _ => e.breakLine >>= fun _ => emit (·.push 125))
          (fun _ s' => ∃ doc, e.ObjectOf K R d slots.reduceOption doc ∧
            At W d (c ++ doc.render e.indent d) s')
          (fun _ _ => e.DictRaises K E d slots.reduceOption) s2 := by
      intro s2 ms hms hs2
      refine e.wp_closed hs2 fun s3 hs3 => ⟨_, ⟨hlt, ms, hms, rfl⟩, e.at_object ?_ hs3⟩
      rintro rfl
      have hlen := hms.length_eq
      unfold writtenOrder sortByKey at hlen
      split at hlen
      · rw [List.length_mergeSort] at hlen
        exact hnil (List.length_eq_zero_iff.mp hlen)
      · exact hnil (List.length_eq_zero_iff.mp hlen)
    split
    · next hsort =>
      have horder : e.writtenOrder K slots.reduceOption = sortByKey K slots.reduceOption := if_pos hsort
      rw [horder] at hclose
      rw [wp_bind]
      refine (e.dictSorted_puts hview hkeys hself hopen).mono ?_ (fun _ _ h => Or.inr h) fun _ h => h
      rintro _ s2 ⟨ms, hms, hs2⟩
      exact hclose s2 ms hms hs2
    · next hsort =>
      have horder : e.writtenOrder K slots.reduceOption = slots.reduceOption := if_neg hsort
      rw [horder] at hclose
      rw [wp_bind]
      refine (e.dictLoop_puts hview hkeys hself fuel 0 true ?_ hopen).mono ?_ (fun _ _ h => Or.inr h)
        fun _ h => h
      · exact hfuel.imp id fun h => h.resolve_left hsort
      · rintro _ s2 ⟨ms, hms, hs2⟩
        exact hclose s2 ms hms hs2

end Dicts

end Env

end Isojson
