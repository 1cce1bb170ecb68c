import Isojson.Requests

/-!
# Sorted keys

The keys of a dict are all checked before anything of it is written, in dict order, and then
sorted.  UTF-8 keys compare as bytes and others by code point, which is one order (`keyLe_iff`).
-/

namespace Isojson

open Run

variable {Obj H : Type} {a : Allocator}

namespace Env

/-! ## The order of keys -/

/-- The text of a key is that of its code points, and they can be encoded. -/
structure KeyText.Valid (k : KeyText) : Prop where
  scalar : ∀ c ∈ k.chars, Utf8.IsScalar c
  utf8 : ∀ b ∈ k.utf8, b = Utf8.encodeAll k.chars

/-- **The two comparisons of keys** agree with the order of the code points. -/
lemma keyLe_iff {x y : KeyText × Entry Obj} (hx : x.1.Valid) (hy : y.1.Valid) :
    keyLe x y = true ↔ x.1.chars ≤ y.1.chars := by
  obtain ⟨⟨_ | b, s⟩, kv⟩ := x <;> obtain ⟨⟨_ | c, t⟩, kv'⟩ := y
  · exact decide_eq_true_iff
  · exact decide_eq_true_iff
  · exact decide_eq_true_iff
  · obtain rfl : b = Utf8.encodeAll s := hx.utf8 b rfl
    obtain rfl : c = Utf8.encodeAll t := hy.utf8 c rfl
    exact decide_eq_true_iff.trans
      (Utf8.encodeAll_le_iff (fun c hc => (hx.scalar c hc).1) fun c hc => (hy.scalar c hc).1)

variable {keyed : List (KeyText × Entry Obj)}

/-- On valid keys the mixed comparison sorts by code points. -/
lemma mergeSort_keyLe (h : ∀ x ∈ keyed, x.1.Valid) :
    keyed.mergeSort keyLe = keyed.mergeSort fun x y => decide (x.1.chars ≤ y.1.chars) := by
  have hmap := List.map_mergeSort (r := keyLe) (s := fun x y => decide (x.1.chars ≤ y.1.chars))
    (f := id) (l := keyed) fun x hx y hy => Bool.eq_iff_iff.mpr
      ((keyLe_iff (h x hx) (h y hy)).trans decide_eq_true_iff.symm)
  rwa [List.map_id, List.map_id] at hmap

/-- The sorted keys stand in ascending order. -/
lemma pairwise_mergeSort_keyLe (h : ∀ x ∈ keyed, x.1.Valid) :
    (keyed.mergeSort keyLe).Pairwise fun x y => x.1.chars ≤ y.1.chars := by
  rw [mergeSort_keyLe h]
  refine (List.pairwise_mergeSort (fun x y z hxy hyz => ?_) (fun x y => ?_) keyed).imp
    fun h => decide_eq_true_iff.mp h
  · exact decide_eq_true (le_trans (decide_eq_true_iff.mp hxy) (decide_eq_true_iff.mp hyz))
  · rw [Bool.or_eq_true, decide_eq_true_iff, decide_eq_true_iff]
    exact le_total _ _

/-- Different keys stand in strictly ascending order. -/
lemma sorted_strictly (h : ∀ x ∈ keyed, x.1.Valid)
    (hne : keyed.Pairwise fun x y => x.1.chars ≠ y.1.chars) :
    (keyed.mergeSort keyLe).Pairwise fun x y => x.1.chars < y.1.chars := by
  have hdistinct : (keyed.mergeSort keyLe).Pairwise fun x y => x.1.chars ≠ y.1.chars :=
    (List.mergeSort_perm keyed keyLe).symm.pairwise hne fun h => h.symm
  exact ((pairwise_mergeSort_keyLe h).and hdistinct).imp fun h => lt_of_le_of_ne h.1 h.2

/-- The sorted list of different keys does not depend on the order they came in. -/
lemma mergeSort_keyLe_perm {keyed' : List (KeyText × Entry Obj)} (hperm : keyed.Perm keyed')
    (h : ∀ x ∈ keyed, x.1.Valid) (hne : keyed.Pairwise fun x y => x.1.chars ≠ y.1.chars) :
    keyed'.mergeSort keyLe = keyed.mergeSort keyLe := by
  have h' : ∀ x ∈ keyed', x.1.Valid := fun x hx => h x (hperm.mem_iff.mpr hx)
  have hne' := hperm.pairwise hne fun h => h.symm
  exact List.Perm.eq_of_pairwise
    (fun x y _ _ (hxy : x.1.chars < y.1.chars) (hyx : y.1.chars < x.1.chars) => absurd hyx hxy.asymm)
    (sorted_strictly h' hne') (sorted_strictly h hne)
    ((List.mergeSort_perm keyed' keyLe).trans (hperm.symm.trans (List.mergeSort_perm keyed keyLe).symm))

/-! ## The check of the keys -/

variable (e : Env Obj H)

/-- What `key_text` finds out about a key: its text, or the error it raises. -/
def keyCheck (h : H) (key : Obj) : Except String KeyText :=
  match (e.rt.view h key).body with
  | .str s =>
      let text := s.header.text e.strfast
      if text.hasSurrogate then .error SURROGATES
      else
        match text with
        | .utf8 b => .ok ⟨some b, s.chars⟩
        | _ => .ok ⟨none, s.chars⟩
  | _ => .error "Dict key must be str"

/-- The check goes by what the key shows. -/
lemma keyCheck_congr {h h' : H} {key : Obj} (hview : (e.rt.view h' key).body = (e.rt.view h key).body) :
    e.keyCheck h' key = e.keyCheck h key := by
  unfold keyCheck
  rw [hview]

/-- A key that passes the check. -/
def GoodKey (h : H) (key : Obj) : Prop := ∃ k, e.keyCheck h key = .ok k

/-- The state once a key was looked at. -/
def readKey (s : St Obj H a) (key : Obj) : St Obj H a := { s with log := s.log ++ [.read (.obj key)] }

lemma keyText_eq (key : Obj) (s : St Obj H a) :
    e.keyText key s = match e.keyCheck s.world.heap key with
      | .ok k => .ok k (readKey s key)
      | .error msg => e.fail msg (readKey s key) := by
  have hlook : e.look key s = .ok (e.rt.view s.world.heap key) (readKey s key) := rfl
  unfold keyText keyCheck
  rw [bind_of_ok hlook]
  cases (e.rt.view s.world.heap key).body with
  | str x =>
      dsimp only
      by_cases hsurr : (x.header.text e.strfast).hasSurrogate = true
      · rw [if_pos hsurr, if_pos hsurr]
      · rw [if_neg hsurr, if_neg hsurr]
        cases x.header.text e.strfast <;> rfl
  | _ => rfl

/-- A text that passes the check is the text of the key's code points, which can be encoded. -/
lemma keyCheck_valid {h : H} {key : Obj} {k : KeyText} (hk : e.keyCheck h key = .ok k) :
    k.Valid ∧ ∃ s, (e.rt.view h key).body = .str s ∧ k.chars = s.chars := by
  unfold keyCheck at hk
  split at hk
  · next s hs =>
    have htext := s.holds.text e.strfast
    have hsurr := htext.hasSurrogate_iff
    dsimp only at hk
    split at hk
    · exact absurd hk (by simp)
    · next hno =>
      have hscalar : ∀ c ∈ s.chars, Utf8.IsScalar c := fun c hc =>
        ⟨s.holds.code_points c hc, fun hcs => hno (hsurr.mpr ⟨c, hc, hcs⟩)⟩
      split at hk
      · next b hb =>
        obtain rfl := Except.ok.inj hk
        rw [hb] at htext
        refine ⟨⟨hscalar, ?_⟩, s, hs, rfl⟩
        rintro _ ⟨⟩
        cases htext with
        | utf8 _ => rfl
      · obtain rfl := Except.ok.inj hk
        exact ⟨⟨hscalar, fun _ h => absurd h (Option.not_mem_none _)⟩, s, hs, rfl⟩
  · exact absurd hk (by simp)

/-- An entry with the text of its key. -/
def keyEntry (h : H) (kv : Entry Obj) : KeyText × Entry Obj :=
  match e.keyCheck h kv.1 with
  | .ok k => (k, kv)
  | .error _ => (⟨none, []⟩, kv)

lemma keyEntry_snd (h : H) (kv : Entry Obj) : (e.keyEntry h kv).2 = kv := by
  unfold keyEntry
  split <;> rfl

lemma keyEntry_valid {h : H} {kv : Entry Obj} (hgood : e.GoodKey h kv.1) :
    (e.keyEntry h kv).1.Valid ∧
      ∃ s, (e.rt.view h kv.1).body = .str s ∧ (e.keyEntry h kv).1.chars = s.chars := by
  obtain ⟨k, hk⟩ := hgood
  have hentry : e.keyEntry h kv = (k, kv) := by rw [keyEntry, hk]
  rw [hentry]
  exact e.keyCheck_valid hk

/-- Looks at keys change nothing but the record. -/
lemma foldl_readKey (entries : List (Entry Obj)) (s : St Obj H a) :
    ∃ log, entries.foldl (fun s kv => readKey s kv.1) s = { s with log := log } := by
  induction entries generalizing s with
  | nil => exact ⟨s.log, rfl⟩
  | cons kv entries ih =>
      obtain ⟨log, h⟩ := ih (readKey s kv.1)
      exact ⟨log, h⟩

/-- **All keys pass.** -/
lemma keyedEntries_good {entries : List (Entry Obj)} {s : St Obj H a}
    (hgood : ∀ kv ∈ entries, e.GoodKey s.world.heap kv.1) :
    e.keyedEntries entries s =
      .ok (entries.map (e.keyEntry s.world.heap)) (entries.foldl (fun s kv => readKey s kv.1) s) := by
  induction entries generalizing s with
  | nil => rfl
  | cons kv entries ih =>
      obtain ⟨⟨k, hk⟩, hgood⟩ := List.forall_mem_cons.mp hgood
      have hkey : e.keyText kv.1 s = .ok k (readKey s kv.1) := by rw [keyText_eq, hk]
      have hrest := ih (s := readKey s kv.1) hgood
      rw [keyedEntries, bind_of_ok hkey, bind_of_ok hrest, List.map_cons, List.foldl_cons, keyEntry, hk]
      rfl

/-- **The first key that fails** is the one whose error is raised, and nothing was done before. -/
lemma keyedEntries_bad {good : List (Entry Obj)} {kv : Entry Obj} {rest : List (Entry Obj)}
    {msg : String} {s : St Obj H a} (hgood : ∀ x ∈ good, e.GoodKey s.world.heap x.1)
    (hbad : e.keyCheck s.world.heap kv.1 = .error msg) :
    e.keyedEntries (good ++ kv :: rest) s =
      e.fail msg ((good ++ [kv]).foldl (fun s x => readKey s x.1) s) := by
  have hfails : ∀ {α β : Type} (k : α → Encode Obj H a β) (s : St Obj H a),
      (e.fail msg >>= k) s = e.fail msg s := by
    intro α β k s
    unfold Host.fail
    rw [bind_assoc]
    rfl
  induction good generalizing s with
  | nil =>
      have hkey : e.keyText kv.1 s = e.fail msg (readKey s kv.1) := by rw [keyText_eq, hbad]
      rw [List.nil_append, keyedEntries]
      show Run.bind (e.keyText kv.1) _ s = _
      rw [Run.bind, hkey]
      exact hfails _ _
  | cons x good ih =>
      obtain ⟨⟨k, hk⟩, hgood⟩ := List.forall_mem_cons.mp hgood
      have hkey : e.keyText x.1 s = .ok k (readKey s x.1) := by rw [keyText_eq, hk]
      have hrest := ih (s := readKey s x.1) hgood hbad
      rw [List.cons_append, keyedEntries, bind_of_ok hkey]
      show Run.bind (e.keyedEntries _) _ _ = _
      rw [Run.bind, hrest]
      exact hfails _ _

/-- The entries of a dict are held without more ado. -/
lemma holdEntries_eq (obj : Obj) (entries : List (Entry Obj)) (s : St Obj H a) :
    ∃ log, holdEntries obj entries s = .ok () { s with log := log } := by
  induction entries generalizing s with
  | nil => exact ⟨s.log, rfl⟩
  | cons kv entries ih => exact ih _

/-- The keys all pass, or there is a first one that fails. -/
lemma keys_good_or_bad (h : H) (entries : List (Entry Obj)) :
    (∀ kv ∈ entries, e.GoodKey h kv.1) ∨ ∃ good kv rest msg, entries = good ++ kv :: rest ∧
      (∀ x ∈ good, e.GoodKey h x.1) ∧ e.keyCheck h kv.1 = .error msg := by
  induction entries with
  | nil => exact Or.inl fun _ h => absurd h List.not_mem_nil
  | cons kv entries ih =>
      cases hk : e.keyCheck h kv.1 with
      | error msg => exact Or.inr ⟨[], kv, entries, msg, rfl, fun _ h => absurd h List.not_mem_nil, hk⟩
      | ok k =>
          rcases ih with hgood | ⟨good, kv', rest, msg, rfl, hgood, hbad⟩
          · exact Or.inl (List.forall_mem_cons.mpr ⟨⟨k, hk⟩, hgood⟩)
          · exact Or.inr ⟨kv :: good, kv', rest, msg, rfl, List.forall_mem_cons.mpr ⟨⟨k, hk⟩, hgood⟩,
              hbad⟩

end Env

end Isojson
