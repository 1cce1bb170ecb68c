import Isojson.Keys
import Isojson.Lockstep

/-!
# Containers in step

The containers, `default` and the dispatch, up to `serialize` and `dumps`: two runs in step write
the same document, each in its own layout.
-/

namespace Isojson

open Json Run

variable {Obj H : Type} {a : Allocator} {α β : Type}

/-! ## Layout -/

section Layout

variable {B : H → H → Prop} {u v u' v' : Bytes} {s t s1 t1 s2 t2 s3 t3 : St Obj H a}

/-- Each run appended its own text. -/
lemma InStep.appended (h : InStep B s t) (hs : Appended u s s1) (ht : Appended v t t1) :
    WroteBoth B u v s t s1 t1 := by
  have hs2 := hs.rest
  have ht2 := ht.rest
  simp only [St.rest, Prod.mk.injEq] at hs2 ht2
  obtain ⟨hsd, hsdd, hsdt, hsnp, hsw, -⟩ := hs2
  obtain ⟨htd, htdd, htdt, htnp, htw, -⟩ := ht2
  have hexc := hs.exc h.calm
  refine ⟨⟨⟨?_, ?_, ?_, ?_, ?_, ?_, ?_⟩, hexc⟩, hsd, hs.content, ht.content⟩
  · rw [htd, hsd, h.depth]
  · rw [htdd, hsdd, h.defaultDepth]
  · rw [htdt, hsdt, h.dt]
  · rw [htnp, hsnp, h.npRechecked]
  · rw [htw, hsw, h.types]
  · rw [htw, hsw]
    exact h.heap
  · rw [ht.exc (h.exc.trans h.calm), hexc]

/-- The states inside a container that was entered. -/
def St.deeper (s : St Obj H a) : St Obj H a := { s with depth := s.depth + 1 }

/-- The states behind a container that was left. -/
def St.shallower (s : St Obj H a) : St Obj H a := { s with depth := s.depth - 1 }

lemma InStep.deeper (h : InStep B s t) : InStep B s.deeper t.deeper :=
  ⟨⟨congrArg (· + 1) h.depth, h.defaultDepth, h.dt, h.npRechecked, h.types, h.heap, h.exc⟩, h.calm⟩

lemma InStep.shallower (h : InStep B s t) : InStep B s.shallower t.shallower :=
  ⟨⟨congrArg (· - 1) h.depth, h.defaultDepth, h.dt, h.npRechecked, h.types, h.heap, h.exc⟩, h.calm⟩

/-- What was written inside a container, and behind it. -/
lemma WroteBoth.leave (h : WroteBoth B u v s.deeper t.deeper s1 t1)
    (h' : WroteBoth B u' v' s1.shallower t1.shallower s2 t2) :
    WroteBoth B (u ++ u') (v ++ v') s t s2 t2 where
  inStep := h'.inStep
  depth := h'.depth.trans (by
    show s1.depth - 1 = s.depth
    rw [h.depth]
    exact Nat.add_sub_cancel ..)
  left := by
    rw [h'.left, ← List.append_assoc]
    exact congrArg (· ++ u') h.left
  right := by
    rw [h'.right, ← List.append_assoc]
    exact congrArg (· ++ v') h.right

/-! ## Items and members -/

/-- Both runs wrote the items `docs`, from the item behind `first` on. -/
def BothItems (i i' : Bool) (B : H → H → Prop) (first : Prop) [Decidable first]
    (s t s1 t1 : St Obj H a) (docs : List Doc) : Prop :=
  (∃ ns, ItemsStand docs ns) ∧ WroteBoth B (itemsText i s.depth first docs)
    (itemsText i' s.depth first docs) s t s1 t1

lemma BothItems.nil {i i' : Bool} (first : Prop) [Decidable first] (h : InStep B s t) :
    BothItems i i' B first s t s t [] := by
  refine ⟨⟨_, .nil⟩, ?_⟩
  rw [itemsText, itemsText]
  exact .nil h

lemma BothItems.after {i i' : Bool} {first : Prop} [Decidable first] {docs : List Doc}
    {s1 t1 s2 t2 : St Obj H a} (h : WroteBoth B [] [] s t s1 t1)
    (hrest : BothItems i i' B first s1 t1 s2 t2 docs) : BothItems i i' B first s t s2 t2 docs := by
  obtain ⟨hns, hrest⟩ := hrest
  rw [h.depth] at hrest
  exact ⟨hns, h.trans hrest⟩

/-- One item, and the items behind it. -/
lemma BothItems.cons {i i' : Bool} (first : Prop) [Decidable first] {k : ℕ} {docs : List Doc}
    (h : WroteBoth B ((if first then [] else [44]) ++ sep i s.depth)
      ((if first then [] else [44]) ++ sep i' s.depth) s t s1 t1)
    (hw : WroteDoc i i' B s1 t1 s2 t2) (hrest : BothItems i i' B (k + 1 = 0) s2 t2 s3 t3 docs) :
    ∃ doc, BothItems i i' B first s t s3 t3 (doc :: docs) := by
  obtain ⟨doc, n, hn, hw⟩ := hw
  obtain ⟨⟨ns, hns⟩, hrest⟩ := hrest
  refine ⟨doc, ⟨_, .cons hn hns⟩, ?_⟩
  rw [hw.depth, h.depth] at hrest
  rw [h.depth] at hw
  have hall := (h.trans hw).trans hrest
  rw [itemsText, itemsText]
  by_cases hfirst : first <;> simpa [hfirst] using hall

/-- Items between brackets, at least one. -/
lemma WroteDoc.array {i i' : Bool} {docs : List Doc}
    (hne : docs ≠ []) (hopen : WroteBoth B [91] [91] s.deeper t.deeper s1 t1)
    (hitems : BothItems i i' B (0 = 0) s1 t1 s2 t2 docs)
    (hclose : WroteBoth B (sep i (s2.depth - 1) ++ [93]) (sep i' (s2.depth - 1) ++ [93])
      s2.shallower t2.shallower s3 t3) : WroteDoc i i' B s t s3 t3 := by
  obtain ⟨⟨ns, hns⟩, hitems⟩ := hitems
  have hdeep : s1.depth = s.depth + 1 := hopen.depth
  have hlevel : s2.depth - 1 = s.depth := by rw [hitems.depth, hdeep, Nat.add_sub_cancel]
  rw [hlevel] at hclose
  rw [hdeep] at hitems
  have hall := (hopen.trans hitems).leave hclose
  obtain ⟨d, ds, rfl⟩ := List.exists_cons_of_ne_nil hne
  refine ⟨.arr (d :: ds), _, .arr hns, ?_⟩
  rw [Doc.render, Doc.render]
  simpa [List.append_assoc] using hall

/-- Both runs wrote the members `ms`. -/
def BothMembers (i i' : Bool) (B : H → H → Prop) (first : Bool) (s t s1 t1 : St Obj H a)
    (ms : List (Bytes × Doc)) : Prop :=
  (∃ ns, MembersStand ms ns) ∧ WroteBoth B (membersText i s.depth first ms)
    (membersText i' s.depth first ms) s t s1 t1

lemma BothMembers.nil {i i' : Bool} (first : Bool) (h : InStep B s t) :
    BothMembers i i' B first s t s t [] := by
  refine ⟨⟨_, .nil⟩, ?_⟩
  rw [membersText, membersText]
  exact .nil h

lemma BothMembers.after {i i' first : Bool} {ms : List (Bytes × Doc)}
    (h : WroteBoth B [] [] s t s1 t1) (hrest : BothMembers i i' B first s1 t1 s2 t2 ms) :
    BothMembers i i' B first s t s2 t2 ms := by
  obtain ⟨hns, hrest⟩ := hrest
  rw [h.depth] at hrest
  exact ⟨hns, h.trans hrest⟩

/-- One member, and the members behind it. -/
lemma BothMembers.cons {i i' first : Bool} {k : Bytes} {chars : List ℕ} {ms : List (Bytes × Doc)}
    (hk : IsString k chars)
    (h : WroteBoth B ((if first then [] else [44]) ++ sep i s.depth ++ k ++ colon i)
      ((if first then [] else [44]) ++ sep i' s.depth ++ k ++ colon i') s t s1 t1)
    (hw : WroteDoc i i' B s1 t1 s2 t2) (hrest : BothMembers i i' B false s2 t2 s3 t3 ms) :
    ∃ doc, BothMembers i i' B first s t s3 t3 ((k, doc) :: ms) := by
  obtain ⟨doc, n, hn, hw⟩ := hw
  obtain ⟨⟨ns, hns⟩, hrest⟩ := hrest
  refine ⟨doc, ⟨_, .cons hk hn hns⟩, ?_⟩
  rw [hw.depth, h.depth] at hrest
  rw [h.depth] at hw
  rw [membersText, membersText]
  exact (h.trans hw).trans hrest

/-- Members between braces, at least one. -/
lemma WroteDoc.object {i i' : Bool} {ms : List (Bytes × Doc)}
    (hne : ms ≠ []) (hopen : WroteBoth B [123] [123] s.deeper t.deeper s1 t1)
    (hmembers : BothMembers i i' B true s1 t1 s2 t2 ms)
    (hclose : WroteBoth B (sep i (s2.depth - 1) ++ [125]) (sep i' (s2.depth - 1) ++ [125])
      s2.shallower t2.shallower s3 t3) : WroteDoc i i' B s t s3 t3 := by
  obtain ⟨⟨ns, hns⟩, hmembers⟩ := hmembers
  have hdeep : s1.depth = s.depth + 1 := hopen.depth
  have hlevel : s2.depth - 1 = s.depth := by rw [hmembers.depth, hdeep, Nat.add_sub_cancel]
  rw [hlevel] at hclose
  rw [hdeep] at hmembers
  have hall := (hopen.trans hmembers).leave hclose
  obtain ⟨m, ms, rfl⟩ := List.exists_cons_of_ne_nil hne
  refine ⟨.obj (m :: ms), _, .obj hns, ?_⟩
  rw [Doc.render, Doc.render]
  simpa [List.append_assoc] using hall

/-- The same entries, or different keys in another order. -/
def SameEntries (rt : Runtime Obj H) (h : H) (entries entries' : List (Entry Obj)) : Prop :=
  entries' = entries ∨ (entries.Perm entries' ∧ DistinctKeys rt h entries)

lemma SameEntries.perm {rt : Runtime Obj H} {h : H} {entries entries' : List (Entry Obj)}
    (hsame : SameEntries rt h entries entries') : entries.Perm entries' := by
  rcases hsame with rfl | ⟨hperm, -⟩
  · exact .refl _
  · exact hperm

lemma SameEntries.of_twin {rt : Runtime Obj H} {opts : UInt32} {h : H} {p p' : PyObj Obj}
    (ht : Twin rt opts h p p') {slots : List (Option (Entry Obj))} (hp : p.body = .dict slots) :
    ∃ slots', p'.body = .dict slots' ∧ SameEntries rt h slots.reduceOption slots'.reduceOption := by
  cases ht with
  | same => exact ⟨slots, hp, Or.inl rfl⟩
  | dict hsort hp' hperm hkeys =>
      obtain rfl := Body.dict.inj (hp.symm.trans hp')
      exact ⟨_, rfl, Or.inr ⟨hperm, hkeys⟩⟩

end Layout

/-! ## Lookups -/

section Lookups

variable {rt : Runtime Obj H} {opts : UInt32} {B : H → H → Prop} {s t : St Obj H a} {h h' : H}

/-- A lookup in the cache that has the same result in both heaps. -/
lemma both_cached {f g : H → TypeCache Obj → Except Obj α × TypeCache Obj}
    (hfg : ∀ h h' c, B h h' → g h' c = f h c) (h : InStep B s t) :
    Both (Env.cached f : Encode Obj H a α) (Env.cached g)
      (fun x s1 y t1 => y = x ∧ WroteBoth B [] [] s t s1 t1) (fun _ _ => True) s t := by
  have hsame : g t.world.heap t.world.types = f s.world.heap s.world.types := by
    rw [h.types, hfg _ _ _ h.heap]
  unfold Env.cached
  refine .get_bind ?_
  rw [hsame]
  refine .modify_bind ?_
  split
  · exact ⟨rfl, .of_frame ⟨⟨h.depth, h.defaultDepth, h.dt, h.npRechecked, rfl, h.heap, h.exc⟩,
      h.calm⟩ rfl rfl⟩
  · trivial

variable (hB : rt.Twins opts B)

include hB

lemma Runtime.Twins.readNames (hh : B h h') (d : Obj) (names : List String) :
    rt.readNames h' d names = rt.readNames h d names := by
  induction names with
  | nil => rfl
  | cons name names ih => rw [Runtime.readNames, Runtime.readNames, hB.getItem hh, ih]

lemma Runtime.Twins.findCapsule (hh : B h h') : rt.findCapsule h' = rt.findCapsule h := by
  rw [Runtime.findCapsule, Runtime.findCapsule, hB.getItem hh, hB.moduleDict hh]

lemma Runtime.Twins.datetime (hh : B h h') (c : TypeCache Obj) :
    c.datetime rt h' = c.datetime rt h := by
  unfold TypeCache.datetime Runtime.loadDatetime
  rw [hB.findCapsule hh, hB.datetimeApi hh]

lemma Runtime.Twins.wrongCapsule (hh : B h h') (c : TypeCache Obj) :
    c.wrongCapsule rt h' = c.wrongCapsule rt h := by
  unfold TypeCache.wrongCapsule
  rw [hB.findCapsule hh, hB.datetimeApi hh]

variable [DecidableEq Obj]

lemma Runtime.Twins.numpy (hh : B h h') (c : TypeCache Obj) (ty : Option Obj) :
    c.numpy rt h' ty = c.numpy rt h ty := by
  unfold TypeCache.numpy TypeCache.reloadNumpy Runtime.readNumpy
  simp only [hB.getItem hh, hB.moduleDict hh, hB.readNames hh]

lemma both_datetimeGroup (h : InStep B s t) :
    Both (Env.datetimeGroup rt : Encode Obj H a _) (Env.datetimeGroup rt)
      (fun x s1 y t1 => y = x ∧ WroteBoth B [] [] s t s1 t1) (fun _ _ => True) s t := by
  refine .get_bind ?_
  rw [h.types, hB.wrongCapsule h.heap]
  split
  · -- the error about a wrong capsule is cleared by both
    refine .modify_bind (.modify_bind ?_)
    have hcleared : WroteBoth B [] [] s t { s with exc := none } { t with exc := none } :=
      .of_frame ⟨⟨h.depth, h.defaultDepth, h.dt, h.npRechecked, h.types, h.heap, rfl⟩, rfl⟩ rfl rfl
    refine (both_cached (B := B) (fun _ _ c hh => hB.datetime hh c) hcleared.inStep).mono ?_ fun _ _ h => h
    rintro x s1 y t1 ⟨hx, h1⟩
    exact ⟨hx, hcleared.trans h1⟩
  · exact both_cached (B := B) (fun _ _ c hh => hB.datetime hh c) h

lemma both_recognizeNumpy (e : Env Obj H) {o : UInt32} (he : e.rt = rt) (ty : Option Obj)
    (h : InStep B s t) :
    Both (e.recognizeNumpy ty : Encode Obj H a _) ((e.under o).recognizeNumpy ty)
      (fun x s1 y t1 => y = x ∧ WroteBoth B [] [] s t s1 t1) (fun _ _ => True) s t := by
  subst he
  refine .get_bind ?_
  rw [h.types, h.npRechecked]
  split
  · exact ⟨rfl, .nil h⟩
  · split
    · exact ⟨rfl, .nil h⟩
    · refine .modify_bind ?_
      have hmarked : WroteBoth B [] [] s t { s with npRechecked := true }
          { t with npRechecked := true } :=
        .still ⟨⟨h.depth, h.defaultDepth, h.dt, rfl, h.types, h.heap, h.exc⟩, h.calm⟩ rfl rfl rfl
      refine (both_cached (B := B) (fun _ _ c hh => hB.numpy hh c ty) hmarked.inStep).mono ?_ fun _ _ h => h
      rintro x s1 y t1 ⟨hx, h1⟩
      exact ⟨hx, hmarked.trans h1⟩

end Lookups

namespace Env

variable {B : H → H → Prop} (e : Env Obj H) {o : UInt32} {s t : St Obj H a}

lemma both_breakLine (h : InStep B s t) :
    Both (e.breakLine : Encode Obj H a _) (e.under o).breakLine (fun _ s1 _ t1 =>
      WroteBoth B (sep e.indent s.depth) (sep (e.under o).indent s.depth) s t s1 t1)
      (fun _ _ => True) s t := by
  have hleft : wp (fun _ => False) e.breakLine
      (fun _ s1 => Appended (sep e.indent s.depth) s s1) (fun _ _ => False) s :=
    e.wp_breakLine fun _ hs1 => hs1
  have hright : wp (fun _ => False) (e.under o).breakLine
      (fun _ t1 => Appended (sep (e.under o).indent t.depth) t t1) (fun _ _ => False) t :=
    (e.under o).wp_breakLine fun _ ht1 => ht1
  refine (Both.of_wp hleft hright).mono ?_ fun _ _ h => h
  rintro _ s1 _ t1 ⟨hs1, ht1⟩
  rw [h.depth] at ht1
  exact h.appended hs1 ht1

/-- The comma and the line break in front of item `i`, and what follows. -/
lemma both_separator {i : ℕ} {m : Encode Obj H a α} {m' : Encode Obj H a β}
    {Q : α → St Obj H a → β → St Obj H a → Prop} (h : InStep B s t)
    (hk : ∀ s1 t1, WroteBoth B ((if i = 0 then [] else [44]) ++ sep e.indent s.depth)
      ((if i = 0 then [] else [44]) ++ sep (e.under o).indent s.depth) s t s1 t1 →
      Both m m' Q (fun _ _ => True) s1 t1) :
    Both (if 0 < i then emit (·.push 44) >>= fun _ => e.breakLine >>= fun _ => m
        else e.breakLine >>= fun _ => m)
      (if 0 < i then emit (·.push 44) >>= fun _ => (e.under o).breakLine >>= fun _ => m'
        else (e.under o).breakLine >>= fun _ => m') Q (fun _ _ => True) s t := by
  split
  · next hi =>
    rw [if_neg (Nat.ne_of_gt hi)] at hk
    refine (both_emit (Buffer.content_push ..) (Buffer.content_push ..) h).bind
      fun _ s1 _ t1 h1 => ?_
    refine (e.both_breakLine h1.inStep).bind fun _ s2 _ t2 h2 => hk s2 t2 ?_
    rw [h1.depth] at h2
    exact h1.trans h2
  · next hi =>
    rw [if_pos (Nat.eq_zero_of_not_pos hi)] at hk
    exact (e.both_breakLine h).bind fun _ s1 _ t1 h1 => hk s1 t1 h1

/-- Entering a container, where it is not refused. -/
lemma both_enter {k : Unit → Encode Obj H a α} {k' : Unit → Encode Obj H a β}
    {Q : α → St Obj H a → β → St Obj H a → Prop} (h : InStep B s t)
    (hk : Both (k ()) (k' ()) Q (fun _ _ => True) s.deeper t.deeper) :
    Both (e.enter >>= k) ((e.under o).enter >>= k') Q (fun _ _ => True) s t := by
  have henter : Both (e.enter : Encode Obj H a _) (e.under o).enter
      (fun _ s1 _ t1 => s1 = s.deeper ∧ t1 = t.deeper) (fun _ _ => True) s t := by
    refine .get_bind ?_
    have hmax : (e.under o).maxDepth = e.maxDepth := rfl
    rw [h.depth, hmax]
    split
    · exact both_fail _
    · exact ⟨rfl, rfl⟩
  refine henter.bind ?_
  rintro _ _ _ _ ⟨rfl, rfl⟩
  exact hk

/-- The end of a container. -/
lemma both_close (c : UInt8) (h : InStep B s t) :
    Both (leave >>= fun _ => e.breakLine >>= fun _ => emit (·.push c) : Encode Obj H a Unit)
      (leave >>= fun _ => (e.under o).breakLine >>= fun _ => emit (·.push c))
      (fun _ s1 _ t1 => WroteBoth B (sep e.indent (s.depth - 1) ++ [c])
        (sep (e.under o).indent (s.depth - 1) ++ [c]) s.shallower t.shallower s1 t1)
      (fun _ _ => True) s t := by
  refine .modify_bind ?_
  refine (e.both_breakLine h.shallower).bind fun _ s1 _ t1 h1 => ?_
  refine (both_emit (Buffer.content_push ..) (Buffer.content_push ..) h1.inStep).mono
    (fun _ s2 _ t2 h2 => ?_) fun _ _ h => h
  exact h1.trans h2

/-- The text of a container without items. -/
lemma both_empty {doc : Doc} {n : Node} (hn : doc.Stands n) {text : Bytes}
    (htext : ∀ pretty level, doc.render pretty level = text) {s1 t1 : St Obj H a}
    (h : WroteBoth B [] [] s.deeper t.deeper s1 t1) :
    Both (leave >>= fun _ => emit (·.extend text) : Encode Obj H a Unit)
      (leave >>= fun _ => emit (·.extend text))
      (fun _ s2 _ t2 => WroteDoc e.indent (e.under o).indent B s t s2 t2) (fun _ _ => True)
      s1 t1 := by
  refine .modify_bind ?_
  refine (both_emit (Buffer.content_extend ..) (Buffer.content_extend ..)
    h.inStep.shallower).mono (fun _ s2 _ t2 h2 => ⟨doc, n, hn, ?_⟩) fun _ _ h => h
  rw [htext, htext]
  exact h.leave h2

/-! ## Containers -/

section Containers

variable (ho : Alike e.opts o) (hB : e.rt.Twins e.opts B) {self self' : Obj → Encode Obj H a Unit}
  (hself : ∀ x, WriteAlike e.indent (e.under o).indent B (self x) (self' x))

include hB hself

lemma writeAlike_guarded (item : Obj) :
    WriteAlike e.indent (e.under o).indent B (e.guarded self item : Encode Obj H a Unit)
      ((e.under o).guarded self' item) := by
  unfold guarded
  have hguard : (e.under o).guard = e.guard := rfl
  rw [hguard]
  split
  · refine .look hB rfl rfl fun hp p p' htwin => ?_
    rw [htwin.runsNoPython]
    split
    · exact hself item
    · refine .after hB (asks_incref _) (reports_incref _).calm fun _ _ => ?_
      exact .onExit (fun s => ⟨_, rfl⟩) (fun s => ⟨_, rfl⟩) (hself item)
  · exact hself item

lemma writeAlike_entryValue (key value : Obj) :
    WriteAlike e.indent (e.under o).indent B (e.entryValue self key value : Encode Obj H a Unit)
      ((e.under o).entryValue self' key value) := by
  unfold entryValue
  have hguard : (e.under o).guard = e.guard := rfl
  rw [hguard]
  split
  · refine .look hB rfl rfl fun hp p p' htwin => ?_
    rw [htwin.runsNoPython]
    split
    · exact hself value
    · refine .after hB (asks_incref _) (reports_incref _).calm fun _ _ => ?_
      exact .onExit (fun s => ⟨_, rfl⟩) (fun s => ⟨_, rfl⟩) (e.writeAlike_guarded hB hself value)
  · exact hself value

lemma both_listLoop (obj : Obj) (fuel i : ℕ) (h : InStep B s t) :
    Both (e.listLoop self obj fuel i) ((e.under o).listLoop self' obj fuel i)
      (fun _ s1 _ t1 => ∃ docs, BothItems e.indent (e.under o).indent B (i = 0) s t s1 t1 docs ∧
        ∀ items, (e.rt.view s.world.heap obj).body = .list items → i < items.length → docs ≠ [])
      (fun _ _ => True) s t := by
  induction fuel generalizing i s t with
  | zero => trivial
  | succ fuel ih =>
      rw [listLoop, listLoop]
      unfold listItems
      rw [bind_assoc, bind_assoc]
      refine both_look hB rfl rfl h fun p' s1 t1 htwin _ h1 => ?_
      generalize e.rt.view s.world.heap obj = p at htwin ⊢
      rcases htwin.eq_or_dict with rfl | ⟨slots, slots', hp, hp'⟩
      · cases hbody : p'.body with
        | list items =>
            dsimp only
            rw [pure_bind, pure_bind]
            cases hitem : items[i]? with
            | none =>
                refine ⟨[], .after h1 (.nil (i = 0) h1.inStep), fun items' h' hlt => ?_⟩
                obtain rfl := Body.list.inj h'
                exact absurd hitem (by simp [hlt])
            | some item =>
                refine e.both_separator h1.inStep fun s2 t2 h2 => ?_
                refine ((asks_event _).both hB (reports_event _).calm h2.inStep).bind ?_
                rintro _ s3 _ t3 ⟨-, -, h3⟩
                refine (e.writeAlike_guarded hB hself item s3 t3 h3.inStep).bind
                  fun _ s4 _ t4 h4 => ?_
                refine (ih (i + 1) h4.inStep).mono ?_ fun _ _ h => h
                rintro _ s5 _ t5 ⟨docs, h5, -⟩
                obtain ⟨doc, hcons⟩ := BothItems.cons (i = 0) h2 (h4.after h3) h5
                exact ⟨doc :: docs, hcons.after h1, fun _ _ _ => List.cons_ne_nil _ _⟩
        | _ => trivial
      · rw [hp, hp']
        trivial

lemma writeAlike_list (fuel : ℕ) (obj : Obj) :
    WriteAlike e.indent (e.under o).indent B (e.list self fuel obj : Encode Obj H a Unit)
      ((e.under o).list self' fuel obj) := by
  intro s t h
  unfold list listItems
  rw [bind_assoc, bind_assoc]
  refine both_look hB rfl rfl h fun p' s1 t1 htwin hworld h1 => ?_
  generalize hview : e.rt.view s.world.heap obj = p at htwin ⊢
  rcases htwin.eq_or_dict with rfl | ⟨slots, slots', hp, hp'⟩
  · cases hbody : p'.body with
    | list items =>
        dsimp only
        rw [pure_bind, pure_bind]
        split
        · refine e.both_enter h1.inStep ?_
          have hstands : (Doc.arr []).Stands (.array []) := .arr .nil
          exact (e.both_empty hstands (fun _ _ => rfl) (.nil h1.inStep.deeper)).mono
            (fun _ _ _ _ hw => hw.after h1) fun _ _ h => h
        · next hlen =>
          refine e.both_enter h1.inStep ?_
          have hopen : WroteBoth B [91] [91] s1.deeper t1.deeper _ _ :=
            h1.inStep.deeper.written (Buffer.content_push ..) (Buffer.content_push ..)
          refine .modify_bind ?_
          refine (e.both_listLoop hB hself obj fuel 0 hopen.inStep).bind ?_
          rintro _ s3 _ t3 ⟨docs, h3, hne⟩
          refine (e.both_close 93 h3.2.inStep).mono (fun _ s4 _ t4 h4 => ?_) fun _ _ h => h
          refine .after h1 (.array (hne items ?_ (Nat.pos_of_ne_zero hlen)) hopen h3 h4)
          show (e.rt.view s1.world.heap obj).body = _
          rw [hworld, hview, hbody]
    | _ => trivial
  · rw [hp, hp']
    trivial

lemma both_tupleLoop (obj : Obj) (items : List Obj) (i : ℕ) (h : InStep B s t) :
    Both (e.tupleLoop self obj i items) ((e.under o).tupleLoop self' obj i items)
      (fun _ s1 _ t1 => ∃ docs, BothItems e.indent (e.under o).indent B (i = 0) s t s1 t1 docs ∧
        (items ≠ [] → docs ≠ [])) (fun _ _ => True) s t := by
  induction items generalizing i s t with
  | nil => exact ⟨[], .nil (i = 0) h, fun h => absurd rfl h⟩
  | cons item items ih =>
      rw [tupleLoop, tupleLoop]
      refine e.both_separator h fun s1 t1 h1 => ?_
      refine ((asks_event _).both hB (reports_event _).calm h1.inStep).bind ?_
      rintro _ s2 _ t2 ⟨-, -, h2⟩
      refine ((asks_event _).both hB (reports_event _).calm h2.inStep).bind ?_
      rintro _ s3 _ t3 ⟨-, -, h3⟩
      refine (hself item s3 t3 h3.inStep).bind fun _ s4 _ t4 h4 => ?_
      refine (ih (i + 1) h4.inStep).mono ?_ fun _ _ h => h
      rintro _ s5 _ t5 ⟨docs, h5, -⟩
      obtain ⟨doc, hcons⟩ := BothItems.cons (i = 0) h1 (h4.after (h2.trans h3)) h5
      exact ⟨doc :: docs, hcons, fun _ => List.cons_ne_nil _ _⟩

lemma writeAlike_tuple (obj : Obj) :
    WriteAlike e.indent (e.under o).indent B (e.tuple self obj : Encode Obj H a Unit)
      ((e.under o).tuple self' obj) := by
  refine .after hB (asks_event _) (reports_event _).calm fun _ _ => ?_
  intro s t h
  have hitems : (e.under o).rt.tupleItems obj = e.rt.tupleItems obj := rfl
  rw [hitems]
  refine e.both_enter h ?_
  split
  · have hstands : (Doc.arr []).Stands (.array []) := .arr .nil
    exact e.both_empty hstands (fun _ _ => rfl) (.nil h.deeper)
  · next hlen =>
    have hopen : WroteBoth B [91] [91] s.deeper t.deeper _ _ :=
      h.deeper.written (Buffer.content_push ..) (Buffer.content_push ..)
    refine .modify_bind ?_
    refine (e.both_tupleLoop hB hself obj (e.rt.tupleItems obj) 0 hopen.inStep).bind ?_
    rintro _ s2 _ t2 ⟨docs, h2, hne⟩
    refine (e.both_close 93 h2.2.inStep).mono (fun _ s3 _ t3 h3 => ?_) fun _ _ h => h
    exact .array (hne fun h => hlen (by rw [h, List.length_nil])) hopen h2 h3

omit hself in
lemma both_writeKey (key : Obj) (first : Bool) (h : InStep B s t) :
    Both (e.writeKey key first) ((e.under o).writeKey key first)
      (fun _ s1 _ t1 => ∃ k chars, IsString k chars ∧
        WroteBoth B ((if first then [] else [44]) ++ sep e.indent s.depth ++ k ++ colon e.indent)
          ((if first then [] else [44]) ++ sep (e.under o).indent s.depth ++ k ++
            colon (e.under o).indent) s t s1 t1) (fun _ _ => True) s t := by
  -- the key and what follows it, behind the comma
  have hkey : ∀ {u v : Bytes} {s1 t1 : St Obj H a}, WroteBoth B u v s t s1 t1 →
      Both (do
          e.breakLine
          e.str key
          if e.indent then emit (·.extend [58, 32]) else emit (·.push 58) : Encode Obj H a Unit)
        (do
          (e.under o).breakLine
          (e.under o).str key
          if (e.under o).indent then emit (·.extend [58, 32]) else emit (·.push 58))
        (fun _ s2 _ t2 => ∃ k chars, IsString k chars ∧
          WroteBoth B (u ++ sep e.indent s.depth ++ k ++ colon e.indent)
            (v ++ sep (e.under o).indent s.depth ++ k ++ colon (e.under o).indent) s t s2 t2)
        (fun _ _ => True) s1 t1 := by
    intro u v s1 t1 h1
    refine (e.both_breakLine h1.inStep).bind fun _ s2 _ t2 h2 => ?_
    rw [h1.depth] at h2
    refine (e.str_both hB key h2.inStep).bind ?_
    rintro _ s3 _ t3 ⟨k, chars, hk, h3⟩
    obtain ⟨f, hf, hfc⟩ := e.exists_colon (a := a)
    obtain ⟨g, hg, hgc⟩ := (e.under o).exists_colon (a := a)
    rw [hf, hg]
    refine (both_emit (hfc _) (hgc _) h3.inStep).mono (fun _ s4 _ t4 h4 => ⟨k, chars, hk, ?_⟩)
      fun _ _ h => h
    exact ((h1.trans h2).trans h3).trans h4
  unfold writeKey
  cases first with
  | true => exact hkey (.nil h)
  | false =>
      refine .modify_bind ?_
      exact hkey (h.written (Buffer.content_push ..) (Buffer.content_push ..))

/-- The loop over a dict in its own order, which both see the same. -/
lemma both_dictLoop (hsort : ¬ hasOpt e.opts optSortKeys = true) (obj : Obj) (fuel pos : ℕ)
    (first : Bool) (h : InStep B s t) :
    Both (e.dictLoop self obj fuel pos first) ((e.under o).dictLoop self' obj fuel pos first)
      (fun _ s1 _ t1 => ∃ ms, BothMembers e.indent (e.under o).indent B first s t s1 t1 ms ∧
        ∀ slots, (e.rt.view s.world.heap obj).body = .dict slots →
          (nextEntry slots pos).isSome → ms ≠ []) (fun _ _ => True) s t := by
  induction fuel generalizing pos first s t with
  | zero => trivial
  | succ fuel ih =>
      rw [dictLoop, dictLoop]
      unfold dictSlots
      rw [bind_assoc, bind_assoc]
      refine both_look hB rfl rfl h fun p' s1 t1 htwin _ h1 => ?_
      generalize e.rt.view s.world.heap obj = p at htwin ⊢
      cases htwin with
      | dict hsort' _ _ _ => exact absurd hsort' hsort
      | same =>
          cases hbody : p'.body with
          | dict slots =>
              dsimp only
              rw [pure_bind, pure_bind]
              cases hnext : nextEntry slots pos with
              | none =>
                  refine ⟨[], .after h1 (.nil first h1.inStep), fun slots' h' hsome => ?_⟩
                  obtain rfl := Body.dict.inj h'
                  rw [hnext] at hsome
                  exact absurd hsome Bool.false_ne_true
              | some entry =>
                  obtain ⟨pos', key, value⟩ := entry
                  dsimp only
                  refine ((asks_event _).both hB (reports_event _).calm h1.inStep).bind ?_
                  rintro _ s2 _ t2 ⟨-, -, h2⟩
                  refine ((asks_event _).both hB (reports_event _).calm h2.inStep).bind ?_
                  rintro _ s3 _ t3 ⟨-, -, h3⟩
                  refine both_look hB rfl rfl h3.inStep fun q' s4 t4 hkey _ h4 => ?_
                  generalize e.rt.view s3.world.heap key = q at hkey ⊢
                  rcases hkey.eq_or_dict with rfl | ⟨slots1, slots2, hq, hq'⟩
                  · cases hbody' : q'.body with
                    | str x =>
                        refine (e.both_writeKey hB key first h4.inStep).bind ?_
                        rintro _ s5 _ t5 ⟨k, chars, hk, h5⟩
                        refine (e.writeAlike_entryValue hB hself key value s5 t5 h5.inStep).bind
                          fun _ s6 _ t6 h6 => ?_
                        refine (ih pos' false h6.inStep).mono ?_ fun _ _ h => h
                        rintro _ s7 _ t7 ⟨ms, h7, -⟩
                        obtain ⟨doc, hcons⟩ := BothMembers.cons hk h5 h6 h7
                        exact ⟨(k, doc) :: ms, hcons.after (((h1.trans h2).trans h3).trans h4),
                          fun _ _ _ => List.cons_ne_nil _ _⟩
                    | _ => exact both_fail _
                  · rw [hq, hq']
                    exact both_fail _
          | _ => trivial

lemma both_sortedLoop (entries : List (Entry Obj)) (first : Bool) (h : InStep B s t) :
    Both (e.sortedLoop self first entries) ((e.under o).sortedLoop self' first entries)
      (fun _ s1 _ t1 => ∃ ms, BothMembers e.indent (e.under o).indent B first s t s1 t1 ms ∧
        (entries ≠ [] → ms ≠ [])) (fun _ _ => True) s t := by
  induction entries generalizing first s t with
  | nil => exact ⟨[], .nil first h, fun h => absurd rfl h⟩
  | cons kv entries ih =>
      obtain ⟨key, value⟩ := kv
      rw [sortedLoop, sortedLoop]
      refine (e.both_writeKey hB key first h).bind ?_
      rintro _ s1 _ t1 ⟨k, chars, hk, h1⟩
      refine (hself value s1 t1 h1.inStep).bind fun _ s2 _ t2 h2 => ?_
      refine (ih false h2.inStep).mono ?_ fun _ _ h => h
      rintro _ s3 _ t3 ⟨ms, h3, -⟩
      obtain ⟨doc, hcons⟩ := BothMembers.cons hk h1 h2 h3
      exact ⟨(k, doc) :: ms, hcons, fun _ => List.cons_ne_nil _ _⟩

omit hself in
/-- A key is checked with the same result by both. -/
lemma keyCheck_under {h h' : H} (hheap : B h h') (key : Obj) :
    (e.under o).keyCheck h' key = e.keyCheck h key := by
  show e.keyCheck h' key = e.keyCheck h key
  rcases (hB.view hheap key).eq_or_dict with hview | ⟨slots, slots', hp, hp'⟩
  · exact e.keyCheck_congr (congrArg PyObj.body hview)
  · unfold keyCheck
    rw [hp, hp']

omit hself in
/-- Both sort the entries alike. -/
lemma sorted_under {h h' : H} (hheap : B h h') {entries entries' : List (Entry Obj)}
    (hsame : SameEntries e.rt h entries entries') (hgood : ∀ kv ∈ entries, e.GoodKey h kv.1) :
    (entries'.map ((e.under o).keyEntry h')).mergeSort keyLe =
      (entries.map (e.keyEntry h)).mergeSort keyLe := by
  have hentry : (e.under o).keyEntry h' = e.keyEntry h := by
    funext kv
    unfold keyEntry
    rw [e.keyCheck_under hB hheap]
  rw [hentry]
  rcases hsame with rfl | ⟨hperm, hkeys⟩
  · rfl
  · refine mergeSort_keyLe_perm (hperm.map _) ?_ ?_
    · exact List.forall_mem_map.mpr fun kv hkv => (e.keyEntry_valid (hgood kv hkv)).1
    · refine List.pairwise_map.mpr (hkeys.imp_of_mem fun {kv kv'} hkv hkv' hne => ?_)
      obtain ⟨-, x, hx, hxc⟩ := e.keyEntry_valid (hgood kv hkv)
      obtain ⟨-, y, hy, hyc⟩ := e.keyEntry_valid (hgood kv' hkv')
      rw [hxc, hyc]
      exact hne x y hx hy

omit hB hself in
/-- The check of the keys raises. -/
lemma keyedEntries_raises {entries : List (Entry Obj)} {s : St Obj H a}
    (hbad : ¬ ∀ kv ∈ entries, e.GoodKey s.world.heap kv.1) :
    wp (fun _ => False) (e.keyedEntries entries) (fun _ _ => False) (fun _ _ => True) s := by
  obtain ⟨good, kv, rest, msg, rfl, hgood, hmsg⟩ :=
    (e.keys_good_or_bad s.world.heap entries).resolve_left hbad
  unfold wp
  rw [e.keyedEntries_bad hgood hmsg]
  exact (e.fail_spec msg _).mono (fun _ _ h => h) (fun _ _ _ => trivial) fun _ h => h

lemma both_writeSorted {entries entries' : List (Entry Obj)} (h : InStep B s t)
    (hsame : SameEntries e.rt s.world.heap entries entries') :
    Both (e.writeSorted self entries) ((e.under o).writeSorted self' entries')
      (fun _ s1 _ t1 => ∃ ms, BothMembers e.indent (e.under o).indent B true s t s1 t1 ms ∧
        (entries ≠ [] → ms ≠ [])) (fun _ _ => True) s t := by
  have hiff : (∀ kv ∈ entries', (e.under o).GoodKey t.world.heap kv.1) ↔
      ∀ kv ∈ entries, e.GoodKey s.world.heap kv.1 := by
    unfold GoodKey
    simp only [e.keyCheck_under hB h.heap, hsame.perm.mem_iff]
  by_cases hgood : ∀ kv ∈ entries, e.GoodKey s.world.heap kv.1
  · obtain ⟨log, hlog⟩ := foldl_readKey entries s
    obtain ⟨log', hlog'⟩ := foldl_readKey entries' t
    refine .bind_of_ok (e.keyedEntries_good hgood) ((e.under o).keyedEntries_good (hiff.mpr hgood)) ?_
    rw [e.sorted_under hB h.heap hsame hgood, hlog, hlog']
    have h1 : WroteBoth B [] [] s t { s with log := log } { t with log := log' } :=
      .of_frame ⟨⟨h.depth, h.defaultDepth, h.dt, h.npRechecked, h.types, h.heap, h.exc⟩, h.calm⟩
        rfl rfl
    refine (e.both_sortedLoop hB hself _ true h1.inStep).mono ?_ fun _ _ h => h
    rintro _ s2 _ t2 ⟨ms, h2, hne⟩
    refine ⟨ms, h2.after h1, fun hentries => hne fun hnil => hentries ?_⟩
    have hlen := congrArg List.length hnil
    rw [List.length_map, List.length_mergeSort, List.length_map] at hlen
    exact List.length_eq_zero_iff.mp hlen
  · have hleft : wp (fun _ => False) (e.writeSorted self entries) (fun _ _ => False)
        (fun _ _ => True) s := by
      unfold writeSorted
      rw [wp_bind]
      exact (e.keyedEntries_raises hgood).mono (fun _ _ h => h.elim) (fun _ _ h => h) fun _ h => h
    have hright : wp (fun _ => False) ((e.under o).writeSorted self' entries') (fun _ _ => False)
        (fun _ _ => True) t := by
      unfold writeSorted
      rw [wp_bind]
      exact ((e.under o).keyedEntries_raises (mt hiff.mp hgood)).mono (fun _ _ h => h.elim)
        (fun _ _ h => h) fun _ h => h
    exact both_raise hleft hright

lemma both_dictSorted (obj : Obj) (h : InStep B s t) :
    Both (e.dictSorted self obj) ((e.under o).dictSorted self' obj)
      (fun _ s1 _ t1 => ∃ ms, BothMembers e.indent (e.under o).indent B true s t s1 t1 ms ∧
        ∀ slots, (e.rt.view s.world.heap obj).body = .dict slots → slots.reduceOption ≠ [] → ms ≠ [])
      (fun _ _ => True) s t := by
  unfold dictSorted dictSlots
  rw [bind_assoc, bind_assoc]
  refine both_look hB rfl rfl h fun p' s1 t1 htwin hworld h1 => ?_
  cases hbody : (e.rt.view s.world.heap obj).body with
  | dict slots =>
      obtain ⟨slots', hbody', hsame⟩ := SameEntries.of_twin htwin hbody
      rw [hbody']
      dsimp only
      rw [pure_bind, pure_bind]
      obtain ⟨log, hlog⟩ := holdEntries_eq obj slots.reduceOption s1
      obtain ⟨log', hlog'⟩ := holdEntries_eq obj slots'.reduceOption t1
      refine .bind_of_ok hlog hlog' ?_
      have h2 : WroteBoth B [] [] s1 t1 { s1 with log := log } { t1 with log := log' } :=
        .of_frame ⟨⟨h1.inStep.depth, h1.inStep.defaultDepth, h1.inStep.dt, h1.inStep.npRechecked,
          h1.inStep.types, h1.inStep.heap, h1.inStep.exc⟩, h1.inStep.calm⟩ rfl rfl
      rw [← hworld] at hsame
      refine Both.onExit ((e.both_writeSorted hB hself h2.inStep hsame).mono ?_ fun _ _ h => h)
      rintro _ s3 _ t3 ⟨ms, ⟨hns, h3⟩, hne⟩
      obtain ⟨log3, hlog3⟩ := release_eq slots.reduceOption s3
      obtain ⟨log3', hlog3'⟩ := release_eq slots'.reduceOption t3
      rw [hlog3, hlog3']
      refine ⟨ms, .after (h1.trans h2) ⟨hns, ⟨⟨h3.inStep.depth, h3.inStep.defaultDepth,
        h3.inStep.dt, h3.inStep.npRechecked, h3.inStep.types, h3.inStep.heap, h3.inStep.exc⟩,
        h3.inStep.calm⟩, h3.depth, h3.left, h3.right⟩, fun slots'' h'' => ?_⟩
      obtain rfl := Body.dict.inj h''
      exact hne
  | _ =>
      have hsame := htwin.not_dict (by rw [hbody]; simp)
      rw [hsame, hbody]
      trivial

include ho

lemma writeAlike_dict (fuel : ℕ) (obj : Obj) :
    WriteAlike e.indent (e.under o).indent B (e.dict self fuel obj : Encode Obj H a Unit)
      ((e.under o).dict self' fuel obj) := by
  have hopt : hasOpt (e.under o).opts optSortKeys = hasOpt e.opts optSortKeys := ho.hasOpt (by decide)
  refine .after hB (asks_event _) (reports_event _).calm fun _ _ => ?_
  intro s t h
  refine e.both_enter h ?_
  unfold dictSlots
  rw [bind_assoc, bind_assoc]
  refine both_look hB rfl rfl h.deeper fun p' s1 t1 htwin hworld h1 => ?_
  cases hbody : (e.rt.view s.deeper.world.heap obj).body with
  | dict slots =>
      obtain ⟨slots', hbody', hsame⟩ := SameEntries.of_twin htwin hbody
      rw [hbody']
      dsimp only
      rw [pure_bind, pure_bind, ← hsame.perm.length_eq, hopt]
      split
      · have hstands : (Doc.obj []).Stands (.object []) := .obj .nil
        exact e.both_empty hstands (fun _ _ => rfl) h1
      · next hlen =>
        have hopen : WroteBoth B [123] [123] s1 t1 _ _ :=
          h1.inStep.written (Buffer.content_push ..) (Buffer.content_push ..)
        have hopen' : WroteBoth B [123] [123] s.deeper t.deeper _ _ := h1.trans hopen
        have hslots : ∀ b, (e.rt.view (s1.written b).world.heap obj).body = .dict slots := by
          intro b
          show (e.rt.view s1.world.heap obj).body = _
          rw [hworld, hbody]
        have hne : slots.reduceOption ≠ [] := fun h => hlen (by rw [h, List.length_nil])
        refine .modify_bind ?_
        split
        · refine (e.both_dictSorted hB hself obj hopen.inStep).bind ?_
          rintro _ s2 _ t2 ⟨ms, h2, hms⟩
          refine (e.both_close 125 h2.2.inStep).mono (fun _ s3 _ t3 h3 => ?_) fun _ _ h => h
          exact .object (hms slots (hslots _) hne) hopen' h2 h3
        · next hsort =>
          refine (e.both_dictLoop hB hself hsort obj fuel 0 true hopen.inStep).bind ?_
          rintro _ s2 _ t2 ⟨ms, h2, hms⟩
          refine (e.both_close 125 h2.2.inStep).mono (fun _ s3 _ t3 h3 => ?_) fun _ _ h => h
          refine .object (hms slots (hslots _) ?_) hopen' h2 h3
          rw [nextEntry, Option.isSome_map, List.drop_zero]
          exact firstEntry_isSome hne
  | _ =>
      have hsame := htwin.not_dict (by rw [hbody]; simp)
      rw [hsame, hbody]
      trivial

/-! ## `default` and the dispatch -/

omit ho hB in
lemma writeAlike_serializeDefaultResult (r : Obj) :
    WriteAlike e.indent (e.under o).indent B (serializeDefaultResult self r : Encode Obj H a Unit)
      (serializeDefaultResult self' r) := by
  intro s t h
  have hdeep : InStep B { s with defaultDepth := s.defaultDepth + 1 }
      { t with defaultDepth := t.defaultDepth + 1 } :=
    ⟨⟨h.depth, congrArg (· + 1) h.defaultDepth, h.dt, h.npRechecked, h.types, h.heap, h.exc⟩, h.calm⟩
  refine .modify_bind (Both.onExit ((hself r _ _ hdeep).mono ?_ fun _ _ h => h))
  rintro _ s1 _ t1 ⟨doc, n, hn, hw⟩
  exact ⟨doc, n, hn, ⟨⟨hw.inStep.depth, congrArg (· - 1) hw.inStep.defaultDepth, hw.inStep.dt,
    hw.inStep.npRechecked, hw.inStep.types, hw.inStep.heap, hw.inStep.exc⟩, hw.inStep.calm⟩,
    hw.depth, hw.left, hw.right⟩

omit ho hself in
/-- A call of `default`, and what follows. -/
lemma both_invokeDefault (obj : Obj) {k k' : Except DefaultError Obj → Encode Obj H a Unit}
    {Q : Unit → St Obj H a → Unit → St Obj H a → Prop} (h : InStep B s t)
    (hok : ∀ r s1 t1, WroteBoth B [] [] s t s1 t1 →
      Both (k (.ok r)) (k' (.ok r)) Q (fun _ _ => True) s1 t1)
    (herror : ∀ x s1 t1, Mirror B s1 t1 → s1.exc.isSome →
      Both (k (.error x)) (k' (.error x)) Q (fun _ _ => True) s1 t1) :
    Both (e.invokeDefault obj >>= k) ((e.under o).invokeDefault obj >>= k') Q (fun _ _ => True) s t := by
  have hasks := e.asks_invokeDefault (a := a) obj
  have hleft := (e.invokeDefault_spec obj h.calm).frame hasks.preserves
  have hboth := (((hasks.mirrors hB h.toMirror).mono (fun _ _ _ _ h => h) fun _ _ _ => trivial).and
    hleft (hasks.preserves t))
  refine hboth.bind ?_
  rintro (x | r) s1 _ t1 ⟨⟨rfl, hmirror⟩, ⟨hexc, hs1⟩, ht1⟩
  · exact herror x s1 t1 hmirror hexc
  · exact hok r s1 t1 (.of_frame ⟨hmirror, hexc⟩ hs1 ht1)

omit ho hself in
/-- The note of a decline, and the error that is raised with it. -/
lemma both_addNote (note : String) {Q : Unit → St Obj H a → Unit → St Obj H a → Prop}
    (h : Mirror B s t) :
    Both (e.addNote e.guard note >>= fun _ => Run.throw ⟨⟩ : Encode Obj H a Unit)
      ((e.under o).addNote (e.under o).guard note >>= fun _ => Run.throw ⟨⟩) Q (fun _ _ => True) s t := by
  refine (((e.asks_addNote e.guard note).mirrors hB h).mono (fun _ _ _ _ h => h)
    fun _ _ _ => trivial).bind ?_
  exact fun _ _ _ _ _ => trivial

omit ho in
lemma writeAlike_callDefault (obj : Obj) :
    WriteAlike e.indent (e.under o).indent B (e.callDefault self obj : Encode Obj H a Unit)
      ((e.under o).callDefault self' obj) := by
  unfold callDefault
  have hdefault : (e.under o).default = e.default := rfl
  rw [hdefault]
  cases e.default with
  | none =>
      intro s t h
      refine both_look hB rfl rfl h fun p' s1 t1 htwin _ h1 => ?_
      exact both_raise ((e.fail_spec _ _).mono (fun _ _ h => h) (fun _ _ _ => trivial) fun _ h => h)
        (((e.under o).fail_spec _ _).mono (fun _ _ h => h) (fun _ _ _ => trivial) fun _ h => h)
  | some f =>
      intro s t h
      refine e.both_invokeDefault hB obj h (fun r s1 t1 h1 => ?_) fun _ _ _ _ _ => trivial
      exact (e.writeAlike_serializeDefaultResult hself r s1 t1 h1.inStep).mono
        (fun _ _ _ _ hw => hw.after h1) fun _ _ h => h

omit ho in
lemma writeAlike_callDefaultDeclined (obj : Obj) (reason : Decline) :
    WriteAlike e.indent (e.under o).indent B
      (e.callDefaultDeclined self obj reason : Encode Obj H a Unit)
      ((e.under o).callDefaultDeclined self' obj reason) := by
  unfold callDefaultDeclined
  have hdefault : (e.under o).default = e.default := rfl
  rw [hdefault]
  cases e.default with
  | none =>
      intro s t h
      refine (((e.asks_raiseTypeError _).mirrors hB h.toMirror).mono (fun _ _ _ _ h => h)
        fun _ _ _ => trivial).bind ?_
      rintro _ s1 _ t1 ⟨-, h1⟩
      exact e.both_addNote hB _ h1
  | some f =>
      intro s t h
      refine e.both_invokeDefault hB obj h (fun r s1 t1 h1 => ?_) ?_
      · exact (e.writeAlike_serializeDefaultResult hself r s1 t1 h1.inStep).mono
          (fun _ _ _ _ hw => hw.after h1) fun _ _ h => h
      · rintro (_ | _) s1 t1 h1 -
        · trivial
        · exact e.both_addNote hB _ h1

section Dispatch

variable [DecidableEq Obj]

omit hself in
lemma datetimeLike_alike {p p' : PyObj Obj} (hcls : p'.cls = p.cls) (obj : Obj) (dt : DtTypes Obj) :
    Option.Rel (WriteAlike e.indent (e.under o).indent B)
      (e.datetimeLike obj p dt : Option (Encode Obj H a Unit)) ((e.under o).datetimeLike obj p' dt) := by
  have hopt : hasOpt (e.under o).opts optPassthroughDatetime = hasOpt e.opts optPassthroughDatetime :=
    ho.hasOpt (by decide)
  unfold datetimeLike
  rw [hopt, hcls]
  split
  · exact .none
  · split
    · exact .some (e.writeAlike_datetime ho hB _ _ obj)
    · split
      · exact .some (e.writeAlike_date hB _ _ obj)
      · split
        · exact .some (e.writeAlike_time ho hB _ _ obj)
        · exact .none

variable (hfmt : e.fmt.WriteNumbers)

include hfmt

omit [DecidableEq Obj] in
lemma subclassLike_alike {h : H} {p p' : PyObj Obj} (htwin : Twin e.rt e.opts h p p') (fuel : ℕ)
    (obj : Obj) : Option.Rel (WriteAlike e.indent (e.under o).indent B)
      (e.subclassLike self fuel obj p : Option (Encode Obj H a Unit))
      ((e.under o).subclassLike self' fuel obj p') := by
  have hopt : hasOpt (e.under o).opts optPassthroughSubclass = hasOpt e.opts optPassthroughSubclass :=
    ho.hasOpt (by decide)
  unfold subclassLike
  rw [hopt]
  split
  · exact .none
  · rcases htwin.eq_or_dict with rfl | ⟨slots, slots', hp, hp'⟩
    · cases p'.body with
      | str _ => exact .some (e.writeAlike_str hB _ _ obj)
      | int _ => exact .some (e.writeAlike_int ho hB hfmt _ _ obj)
      | dict _ => exact .some (e.writeAlike_dict ho hB hself fuel obj)
      | list _ => exact .some (e.writeAlike_list hB hself fuel obj)
      | _ => exact .none
    · rw [hp, hp']
      exact .some (e.writeAlike_dict ho hB hself fuel obj)

omit hself in
lemma numpyWriter_alike (ty : Option Obj) (np : NumpyTypes Obj) (obj : Obj) :
    Option.Rel (DeclineAlike e.indent (e.under o).indent B)
      (e.numpyWriter obj ty np : Option (Encode Obj H a _)) ((e.under o).numpyWriter obj ty np) := by
  unfold numpyWriter
  split
  · exact .some (e.declineAlike_serializeArray ho hB hfmt obj)
  · cases np.scalar ty with
    | none => exact .none
    | some elem => exact .some (e.declineAlike_serializeScalar ho hB hfmt obj elem)

lemma writeAlike_numpyOrDefault (obj : Obj) {p p' : PyObj Obj} (hcls : p'.cls = p.cls) :
    WriteAlike e.indent (e.under o).indent B (e.numpyOrDefault self obj p : Encode Obj H a Unit)
      ((e.under o).numpyOrDefault self' obj p') := by
  have hopt : hasOpt (e.under o).opts optSerializeNumpy = hasOpt e.opts optSerializeNumpy :=
    ho.hasOpt (by decide)
  unfold numpyOrDefault
  rw [hopt, hcls]
  split
  · intro s t h
    refine (both_recognizeNumpy hB e rfl p.cls h).bind ?_
    rintro _ s1 np t1 ⟨rfl, h1⟩
    have hwriter : Option.Rel (DeclineAlike e.indent (e.under o).indent B)
        (np.bind (e.numpyWriter obj p.cls) : Option (Encode Obj H a _))
        (np.bind ((e.under o).numpyWriter obj p.cls)) := by
      cases np with
      | none => exact .none
      | some np => exact e.numpyWriter_alike ho hB hfmt p.cls np obj
    revert hwriter
    generalize np.bind (e.numpyWriter obj p.cls) = w
    generalize np.bind ((e.under o).numpyWriter obj p.cls) = w'
    rintro (hw | _)
    · refine (hw s1 t1 h1.inStep).bind ?_
      rintro (_ | reason) s2 _ t2 ⟨rfl, h2⟩
      · exact h2.after h1
      · exact (e.writeAlike_callDefaultDeclined hB hself obj reason s2 t2 h2.inStep).mono
          (fun _ _ _ _ hw => hw.after (h1.trans h2)) fun _ _ h => h
    · exact (e.writeAlike_callDefault hB hself obj s1 t1 h1.inStep).mono
        (fun _ _ _ _ hw => hw.after h1) fun _ _ h => h
  · exact e.writeAlike_callDefault hB hself obj

lemma writeAlike_lateDatetime (obj : Obj) {p p' : PyObj Obj} (hcls : p'.cls = p.cls) :
    WriteAlike e.indent (e.under o).indent B (e.lateDatetime self obj p : Encode Obj H a Unit)
      ((e.under o).lateDatetime self' obj p') := by
  have hopt : hasOpt (e.under o).opts optPassthroughDatetime = hasOpt e.opts optPassthroughDatetime :=
    ho.hasOpt (by decide)
  have hguard : (e.under o).guard = e.guard := rfl
  intro s t h
  refine .get_bind ?_
  rw [hopt, hguard, h.dt]
  split
  · refine (both_datetimeGroup hB h).bind ?_
    rintro _ s1 dt t1 ⟨rfl, h1⟩
    have h2 : WroteBoth B [] [] s1 t1 { s1 with dt := dt } { t1 with dt := dt } :=
      .still ⟨⟨h1.inStep.depth, h1.inStep.defaultDepth, rfl, h1.inStep.npRechecked,
        h1.inStep.types, h1.inStep.heap, h1.inStep.exc⟩, h1.inStep.calm⟩ rfl rfl rfl
    refine .modify_bind ?_
    have hwriter : Option.Rel (WriteAlike e.indent (e.under o).indent B)
        (dt.bind (e.datetimeLike obj p) : Option (Encode Obj H a _))
        (dt.bind ((e.under o).datetimeLike obj p')) := by
      cases dt with
      | none => exact .none
      | some dt => exact e.datetimeLike_alike ho hB hcls obj dt
    revert hwriter
    generalize dt.bind (e.datetimeLike obj p) = w
    generalize dt.bind ((e.under o).datetimeLike obj p') = w'
    rintro (hw | _)
    · exact (hw _ _ h2.inStep).mono (fun _ _ _ _ hw => hw.after (h1.trans h2)) fun _ _ h => h
    · exact (e.writeAlike_numpyOrDefault ho hB hself hfmt obj hcls _ _ h2.inStep).mono
        (fun _ _ _ _ hw => hw.after (h1.trans h2)) fun _ _ h => h
  · exact e.writeAlike_numpyOrDefault ho hB hself hfmt obj hcls s t h

lemma writeAlike_serializeOther (fuel : ℕ) (obj : Obj) {h : H} {p p' : PyObj Obj}
    (htwin : Twin e.rt e.opts h p p') :
    WriteAlike e.indent (e.under o).indent B
      (e.serializeOther self fuel obj p : Encode Obj H a Unit)
      ((e.under o).serializeOther self' fuel obj p') := by
  intro s t h
  refine .get_bind ?_
  rw [h.dt]
  have hwriter : Option.Rel (WriteAlike e.indent (e.under o).indent B)
      (s.dt.bind (e.datetimeLike obj p) : Option (Encode Obj H a _))
      (s.dt.bind ((e.under o).datetimeLike obj p')) := by
    cases s.dt with
    | none => exact .none
    | some dt => exact e.datetimeLike_alike ho hB htwin.cls obj dt
  revert hwriter
  generalize s.dt.bind (e.datetimeLike obj p) = w
  generalize s.dt.bind ((e.under o).datetimeLike obj p') = w'
  rintro (hw | _)
  · exact hw s t h
  · have hsub := e.subclassLike_alike (a := a) ho hB hself hfmt htwin fuel obj
    revert hsub
    generalize e.subclassLike self fuel obj p = w
    generalize (e.under o).subclassLike self' fuel obj p' = w'
    rintro (hw | _)
    · exact hw s t h
    · exact e.writeAlike_lateDatetime ho hB hself hfmt obj htwin.cls s t h

lemma writeAlike_serializeBody (fuel : ℕ) (obj : Obj) :
    WriteAlike e.indent (e.under o).indent B (e.serializeBody self fuel obj : Encode Obj H a Unit)
      ((e.under o).serializeBody self' fuel obj) := by
  refine .look hB rfl rfl fun hp p p' htwin => ?_
  have hother := e.writeAlike_serializeOther (a := a) ho hB hself hfmt fuel obj htwin
  rcases htwin.eq_or_dict with rfl | ⟨slots, slots', hp, hp'⟩
  · split
    · exact e.writeAlike_str hB _ _ obj
    · exact e.writeAlike_int ho hB hfmt _ _ obj
    · next bits _ _ => exact .emit (hfmt.f64Text bits) fun b => b.content_writeF64 e.fmt bits
    · exact .emit (isScalarText_bool true) fun b => Buffer.content_extend ..
    · exact .emit (isScalarText_bool false) fun b => Buffer.content_extend ..
    · exact .emit isScalarText_null fun b => Buffer.content_extend ..
    · exact e.writeAlike_dict ho hB hself fuel obj
    · exact e.writeAlike_list hB hself fuel obj
    · exact e.writeAlike_tuple hB hself obj
    · exact hother
  · rw [hp, hp', htwin.cls]
    cases p.cls with
    | none => exact e.writeAlike_dict ho hB hself fuel obj
    | some cls => exact hother

end Dispatch

end Containers

/-- **`serialize` in step.**  Under options alike and from heaps alike, both runs append the same
document, or neither run returns. -/
lemma writeAlike_serialize [DecidableEq Obj] (ho : Alike e.opts o) (hB : e.rt.Twins e.opts B)
    (hfmt : e.fmt.WriteNumbers) (fuel : ℕ) (obj : Obj) :
    WriteAlike e.indent (e.under o).indent B (e.serialize fuel obj : Encode Obj H a Unit)
      ((e.under o).serialize fuel obj) := by
  induction fuel generalizing obj with
  | zero => exact fun _ _ _ => trivial
  | succ fuel ih => exact e.writeAlike_serializeBody ho hB ih hfmt fuel obj

end Env

end Isojson
