import Isojson.Library.JsonGrammar

/-!
# Graphs read as documents

A thing of a graph shows its shape one level deep.  It is read as a document, a container through what
it holds, and a foreign thing through what replaces it.  Two limits, on the containers that are open
around a thing and on the replacements that led to it, make an end of cycles (`Reader.read_eq`).

`Reader.Inlines.read_eq`: replacing the foreign things while a graph is read, or replacing them
beforehand, gives the same document.
-/

namespace Json

/-! ## Readings -/

/-- What a reading came to: the things that were replaced in it, in order, and the result unless it
failed. -/
structure Reading (α β : Type) where
  replaced : List α
  result : Option β

namespace Reading

variable {α β γ : Type}

def pure (y : β) : Reading α β := ⟨[], some y⟩

def fail : Reading α β := ⟨[], none⟩

def replacing (x : α) : Reading α Unit := ⟨[x], some ()⟩

def bind (m : Reading α β) (f : β → Reading α γ) : Reading α γ :=
  match m.result with
  | none => ⟨m.replaced, none⟩
  | some y => ⟨m.replaced ++ (f y).replaced, (f y).result⟩

/-- The items of a list, up to the first that fails. -/
def each (f : β → Reading α γ) : List β → Reading α (List γ)
  | [] => pure []
  | x :: xs => bind (f x) fun y => bind (each f xs) fun ys => pure (y :: ys)

lemma bind_of_some {m : Reading α β} {y : β} (h : m.result = some y) (f : β → Reading α γ) :
    bind m f = ⟨m.replaced ++ (f y).replaced, (f y).result⟩ := by
  rw [bind, h]

lemma bind_of_none {m : Reading α β} (h : m.result = none) (f : β → Reading α γ) :
    bind m f = ⟨m.replaced, none⟩ := by
  rw [bind, h]

lemma pure_bind (y : β) (f : β → Reading α γ) : bind (pure y) f = f y := bind_of_some rfl f

lemma bind_assoc {δ : Type} (m : Reading α β) (f : β → Reading α γ) (g : γ → Reading α δ) :
    bind (bind m f) g = bind m fun y => bind (f y) g := by
  cases h : m.result with
  | none =>
      rw [bind_of_none h, bind_of_none h]
      exact bind_of_none rfl g
  | some y =>
      rw [bind_of_some h, bind_of_some h]
      unfold bind
      cases (f y).result with
      | none => rfl
      | some z => rw [← List.append_assoc]

lemma bind_pair_of_some {δ : Type} {m : Reading α β} {y : β} (h : m.result = some y)
    (m' : Reading α γ) (g : β → γ → δ) : (bind m fun y => bind m' fun z => pure (g y z)) =
      ⟨m.replaced ++ m'.replaced, m'.result.map (g y)⟩ := by
  rw [bind_of_some h]
  cases hm' : m'.result with
  | none => rw [bind_of_none hm', Option.map_none]
  | some z =>
      rw [bind_of_some hm', Option.map_some]
      simp only [pure, List.append_nil]

lemma length_of_each {f : β → Reading α γ} {xs : List β} {ys : List γ}
    (h : (each f xs).result = some ys) : ys.length = xs.length := by
  induction xs generalizing ys with
  | nil =>
      obtain rfl := Option.some.inj h
      rfl
  | cons x xs ih =>
      rw [each] at h
      cases hx : (f x).result with
      | none =>
          rw [bind_of_none hx] at h
          exact absurd h (by simp)
      | some y =>
          rw [bind_pair_of_some hx] at h
          obtain ⟨ys, hys, rfl⟩ := Option.map_eq_some_iff.mp h
          rw [List.length_cons, List.length_cons, ih hys]

lemma result_bind {m : Reading α β} {f : β → Reading α γ} {z : γ} (h : (bind m f).result = some z) :
    ∃ y, m.result = some y ∧ (f y).result = some z := by
  cases hm : m.result with
  | none =>
      rw [bind_of_none hm] at h
      exact absurd h (by simp)
  | some y =>
      rw [bind_of_some hm] at h
      exact ⟨y, rfl, h⟩

lemma mem_result_each {f : β → Reading α γ} {xs : List β} {ys : List γ}
    (h : (each f xs).result = some ys) {y : γ} (hy : y ∈ ys) : ∃ x ∈ xs, (f x).result = some y := by
  induction xs generalizing ys with
  | nil =>
      obtain rfl := Option.some.inj h
      exact absurd hy List.not_mem_nil
  | cons x xs ih =>
      rw [each] at h
      obtain ⟨z, hz, h⟩ := result_bind h
      obtain ⟨zs, hzs, h⟩ := result_bind h
      obtain rfl := Option.some.inj h
      rcases List.mem_cons.mp hy with rfl | hy
      · exact ⟨x, List.mem_cons_self, hz⟩
      · obtain ⟨x', hx', hfx⟩ := ih hzs hy
        exact ⟨x', List.mem_cons_of_mem _ hx', hfx⟩

lemma mem_bind {m : Reading α β} {f : β → Reading α γ} {x : α} (h : x ∈ (bind m f).replaced) :
    x ∈ m.replaced ∨ ∃ y, x ∈ (f y).replaced := by
  cases hm : m.result with
  | none =>
      rw [bind_of_none hm] at h
      exact Or.inl h
  | some y =>
      rw [bind_of_some hm] at h
      exact (List.mem_append.mp h).imp_right fun h => ⟨y, h⟩

lemma mem_each {f : β → Reading α γ} {xs : List β} {x : α} (h : x ∈ (each f xs).replaced) :
    ∃ y, x ∈ (f y).replaced := by
  induction xs with
  | nil => exact absurd h List.not_mem_nil
  | cons y ys ih =>
      rw [each] at h
      rcases mem_bind h with h | ⟨_, h⟩
      · exact ⟨y, h⟩
      · rcases mem_bind h with h | ⟨_, h⟩
        · exact ih h
        · exact absurd h List.not_mem_nil

/-- The same result of a reading in which nothing was replaced. -/
def plain {δ : Type} (m : Reading α β) : Reading δ β := ⟨[], m.result⟩

lemma plain_bind {δ : Type} (m : Reading α β) (f : β → Reading α γ) :
    (bind m f).plain = bind (m.plain : Reading δ β) fun y => (f y).plain := by
  unfold plain
  cases h : m.result with
  | none => rw [bind_of_none h, bind_of_none rfl]
  | some y => rw [bind_of_some h, bind_of_some rfl, List.append_nil]

lemma each_plain {δ ε : Type} {P : β → δ → Prop} {xs : List β} {ys : List δ}
    (h : List.Forall₂ P xs ys) {f : β → Reading α γ} {g : δ → Reading ε γ}
    (hfg : ∀ x y, P x y → g y = (f x).plain) : each g ys = (each f xs).plain := by
  induction h with
  | nil => rfl
  | cons hxy _ ih =>
      rw [each, each, plain_bind, hfg _ _ hxy, ih]
      simp only [plain_bind]
      rfl

/-! ### Readings that replace nothing -/

/-- Nothing is replaced in the reading.  It comes to `y` if `P` holds, and else it fails. -/
structure Settles (m : Reading α β) (P : Prop) (y : β) : Prop where
  holds : P → m = pure y
  fails : ¬ P → m = fail

section Settles

variable {m : Reading α β} {P : Prop} {y : β}

lemma Settles.congr {Q : Prop} (h : m.Settles P y) (hPQ : P ↔ Q) : m.Settles Q y :=
  ⟨fun hQ => h.holds (hPQ.mpr hQ), fun hQ => h.fails (mt hPQ.mp hQ)⟩

lemma settles_pure (hP : P) : (pure y : Reading α β).Settles P y := ⟨fun _ => rfl, fun h => absurd hP h⟩

lemma settles_fail (hP : ¬ P) : (fail : Reading α β).Settles P y := ⟨fun h => absurd h hP, fun _ => rfl⟩

lemma Settles.map (h : m.Settles P y) (f : β → γ) : (bind m fun y => pure (f y)).Settles P (f y) := by
  constructor
  · intro hP
    rw [h.holds hP, pure_bind]
  · intro hP
    rw [h.fails hP]
    exact bind_of_none rfl _

lemma Settles.then_fail (h : m.Settles P y) : (bind m fun _ => (fail : Reading α γ)) = fail := by
  by_cases hP : P
  · rw [h.holds hP, pure_bind]
  · rw [h.fails hP]
    exact bind_of_none rfl _

/-- Items that settle one by one. -/
lemma settles_each {δ : Type} {f : β → Reading α γ} {P : δ → Prop} {g : δ → γ} {xs : List β}
    {ys : List δ} (h : List.Forall₂ (fun x y => (f x).Settles (P y) (g y)) xs ys) :
    (each f xs).Settles (∀ y ∈ ys, P y) (ys.map g) := by
  induction h with
  | nil => exact settles_pure fun y hy => absurd hy List.not_mem_nil
  | @cons x y xs ys hxy _ ih =>
      rw [each, List.map_cons, List.forall_mem_cons]
      constructor
      · rintro ⟨hy, hys⟩
        rw [hxy.holds hy, ih.holds hys, pure_bind, pure_bind]
      · intro hnot
        by_cases hy : P y
        · rw [hxy.holds hy, ih.fails fun hys => hnot ⟨hy, hys⟩, pure_bind]
          exact bind_of_none rfl _
        · rw [hxy.fails hy]
          exact bind_of_none rfl _

end Settles

/-! ### How far a reading came -/

/-- Of what is to be replaced, in order, the reading replaced what it came to, and all unless it failed. -/
structure CameTo (m : Reading α β) (l : List α) : Prop where
  isPrefix : m.replaced <+: l
  complete : m.result.isSome → m.replaced = l

section CameTo

variable {m : Reading α β} {l l' : List α}

lemma cameTo_fail : (fail : Reading α β).CameTo l :=
  ⟨List.nil_prefix, fun h => absurd h Bool.false_ne_true⟩

lemma CameTo.bind {f : β → Reading α γ} (h : m.CameTo l)
    (hf : ∀ y, m.result = some y → (f y).CameTo l') :
    (bind m f).CameTo (l ++ l') := by
  cases hm : m.result with
  | none =>
      rw [bind_of_none hm]
      exact ⟨h.isPrefix.trans (List.prefix_append l l'), fun h => absurd h Bool.false_ne_true⟩
  | some y =>
      rw [bind_of_some hm, h.complete (by rw [hm]; rfl)]
      have hy := hf y hm
      exact ⟨(List.prefix_append_right_inj l).mpr hy.isPrefix, fun hsome => by rw [hy.complete hsome]⟩

end CameTo

end Reading

/-! ## Readers -/

/-- A thing, one level deep. -/
inductive Shape (α : Type)
  /-- It has a document of its own. -/
  | whole (doc : Doc)
  /-- It can be read in no way. -/
  | refused
  | array (items : List α)
  /-- The members that come before the first bad key, if there is one. -/
  | object (members : List (Bytes × α)) (complete : Bool)
  /-- It has to be replaced. -/
  | foreign

/-- How the things of a graph are read: their shapes, what replaces the foreign ones, if anything does,
and how many containers and replacements may be nested. -/
structure Reader (α : Type) where
  shape : α → Shape α
  replace : Option (α → Option α)
  maxDepth : ℕ
  maxChain : ℕ

namespace Reader

open Reading

variable {α : Type} (r : Reader α)

/-- The replacement of a foreign thing that `k` replacements led to. -/
def replacement (k : ℕ) (x : α) : Reading α α :=
  match r.replace with
  | none => fail
  | some f =>
      if k < r.maxChain then
        bind (replacing x) fun _ => match f x with
          | some y => .pure y
          | none => fail
      else fail

/-- A container that `d` containers are open around. -/
def inside {β : Type} (d : ℕ) (m : Reading α β) : Reading α β := if d < r.maxDepth then m else fail

/-- A member of an object. -/
def readMember (f : α → Reading α Doc) (m : Bytes × α) : Reading α (Bytes × Doc) :=
  bind (f m.2) fun doc => .pure (m.1, doc)

/-- A thing of a given shape; `self` reads what is below. -/
def readShape (self : ℕ → ℕ → α → Reading α Doc) (d k : ℕ) (x : α) : Shape α → Reading α Doc
  | .whole doc => .pure doc
  | .refused => fail
  | .array items => r.inside d (bind (each (self (d + 1) k) items) fun docs => .pure (.arr docs))
  | .object members complete =>
      r.inside d (bind (each (readMember (self (d + 1) k)) members) fun docs =>
        if complete then .pure (.obj docs) else fail)
  | .foreign => bind (r.replacement k x) (self d (k + 1))

/-- One level of a reading. -/
def step (self : ℕ → ℕ → α → Reading α Doc) (d k : ℕ) (x : α) : Reading α Doc :=
  r.readShape self d k x (r.shape x)

def readWithin : ℕ → ℕ → ℕ → α → Reading α Doc
  | 0, _, _, _ => fail
  | n + 1, d, k, x => r.step (readWithin n) d k x

/-- The levels that are left. -/
def room (d k : ℕ) : ℕ := (r.maxDepth - d) + (r.maxChain - k)

/-- **The reading** of a thing, with `d` containers open around it and behind `k` replacements. -/
def read (d k : ℕ) (x : α) : Reading α Doc := r.readWithin (r.room d k + 1) d k x

variable {r}

lemma inside_congr {β : Type} {d : ℕ} {m m' : Reading α β} (h : d < r.maxDepth → m = m') :
    r.inside d m = r.inside d m' := by
  unfold inside
  split
  · next hd => exact h hd
  · rfl

lemma replacement_congr {k : ℕ} {x : α} {f g : α → Reading α Doc} (h : k < r.maxChain → f = g) :
    bind (r.replacement k x) f = bind (r.replacement k x) g := by
  by_cases hk : k < r.maxChain
  · rw [h hk]
  · have hnone : (r.replacement k x).result = none := by
      unfold replacement
      split
      · rfl
      · rw [if_neg hk]
        rfl
    rw [bind_of_none hnone, bind_of_none hnone]

lemma step_congr {f g : ℕ → ℕ → α → Reading α Doc} {d k : ℕ}
    (hdepth : d < r.maxDepth → f (d + 1) k = g (d + 1) k)
    (hchain : k < r.maxChain → f d (k + 1) = g d (k + 1)) (x : α) :
    r.step f d k x = r.step g d k x := by
  unfold step
  cases r.shape x with
  | whole doc => rfl
  | refused => rfl
  | array items => exact inside_congr fun hd => by rw [hdepth hd]
  | object members complete => exact inside_congr fun hd => by rw [hdepth hd]
  | foreign => exact replacement_congr hchain

/-- Beyond the levels that are left, nothing depends on the bound. -/
lemma readWithin_eq {n m d k : ℕ} (hn : r.room d k < n) (hm : r.room d k < m) :
    r.readWithin n d k = r.readWithin m d k := by
  induction n generalizing m d k with
  | zero => exact absurd hn (Nat.not_lt_zero _)
  | succ n ih =>
      obtain ⟨m, rfl⟩ := Nat.exists_eq_succ_of_ne_zero (Nat.ne_zero_of_lt hm)
      unfold room at ih hn hm
      funext x
      rw [readWithin, readWithin]
      apply step_congr
      · intro hd
        exact ih (by omega) (by omega)
      · intro hk
        exact ih (by omega) (by omega)

/-- **A reading, level by level.** -/
theorem read_eq (d k : ℕ) (x : α) : r.read d k x = r.step r.read d k x := by
  rw [read, readWithin]
  apply step_congr
  · intro hd
    funext y
    exact congrFun (readWithin_eq (by unfold room; omega) (Nat.lt_succ_self _)) y
  · intro hk
    funext y
    exact congrFun (readWithin_eq (by unfold room; omega) (Nat.lt_succ_self _)) y

lemma mem_inside {β : Type} {d : ℕ} {m : Reading α β} {x : α} (h : x ∈ (r.inside d m).replaced) :
    x ∈ m.replaced := by
  unfold inside at h
  split at h
  · exact h
  · exact absurd h List.not_mem_nil

lemma settles_inside {β : Type} {d : ℕ} {m : Reading α β} {P : Prop} {y : β} (h : m.Settles P y) :
    (r.inside d m).Settles (d < r.maxDepth ∧ P) y := by
  unfold inside
  split
  · next hd => exact h.congr (and_iff_right hd).symm
  · next hd => exact settles_fail fun h => hd h.1

lemma replacement_eq {k : ℕ} {f : α → Option α} {x x' : α} (hf : r.replace = some f) (hx' : f x = some x')
    (hk : k < r.maxChain) : r.replacement k x = ⟨[x], some x'⟩ := by
  simp only [replacement, hf, if_pos hk, hx']
  rfl

lemma eq_of_mem_replacement {k : ℕ} {x z : α} (h : z ∈ (r.replacement k x).replaced) : z = x := by
  unfold replacement at h
  split at h
  · exact absurd h List.not_mem_nil
  · split at h
    · rcases mem_bind h with h | ⟨_, h⟩
      · exact List.mem_singleton.mp h
      · split at h <;> exact absurd h List.not_mem_nil
    · exact absurd h List.not_mem_nil

/-- Only foreign things are replaced. -/
theorem foreign_of_replaced {d k : ℕ} {x z : α} (h : z ∈ (r.read d k x).replaced) :
    r.shape z = .foreign := by
  unfold read at h
  generalize r.room d k + 1 = n at h
  induction n generalizing d k x with
  | zero => exact absurd h List.not_mem_nil
  | succ n ih =>
      rw [readWithin, step] at h
      cases hx : r.shape x with
      | whole doc =>
          rw [hx] at h
          exact absurd h List.not_mem_nil
      | refused =>
          rw [hx] at h
          exact absurd h List.not_mem_nil
      | array items =>
          rw [hx] at h
          rcases mem_bind (mem_inside h) with h | ⟨_, h⟩
          · obtain ⟨y, hy⟩ := mem_each h
            exact ih hy
          · exact absurd h List.not_mem_nil
      | object members complete =>
          rw [hx] at h
          rcases mem_bind (mem_inside h) with h | ⟨_, h⟩
          · obtain ⟨m, hm⟩ := mem_each h
            rcases mem_bind hm with hm | ⟨_, hm⟩
            · exact ih hm
            · exact absurd hm List.not_mem_nil
          · split at h <;> exact absurd h List.not_mem_nil
      | foreign =>
          rw [hx] at h
          rcases mem_bind h with h | ⟨y, h⟩
          · rw [eq_of_mem_replacement h]
            exact hx
          · exact ih h

/-! ## Documents that stand for trees -/

variable {P : Bytes → Prop}

/-- A document stands for a tree that is at most `k` deep, with numbers of one kind. -/
def StandsWithin (P : Bytes → Prop) (k : ℕ) (doc : Doc) : Prop :=
  ∃ n, doc.Stands n ∧ n.depth ≤ k ∧ ∀ t ∈ n.numbers, P t

lemma StandsWithin.arr {k : ℕ} {docs : List Doc} (h : ∀ doc ∈ docs, StandsWithin P k doc) :
    StandsWithin P (k + 1) (.arr docs) := by
  obtain ⟨ns, hns, hdepth, hnumbers⟩ : ∃ ns, ItemsStand docs ns ∧ itemsDepth ns ≤ k ∧
      ∀ t ∈ itemsNumbers ns, P t := by
    induction docs with
    | nil => exact ⟨[], .nil, Nat.zero_le k, fun _ ht => absurd ht List.not_mem_nil⟩
    | cons doc docs ih =>
        obtain ⟨⟨n, hn, hdepth, hnumber⟩, hdocs⟩ := List.forall_mem_cons.mp h
        obtain ⟨ns, hns, hdepths, hnumbers⟩ := ih hdocs
        exact ⟨n :: ns, .cons hn hns, max_le hdepth hdepths,
          List.forall_mem_append.mpr ⟨hnumber, hnumbers⟩⟩
  exact ⟨.array ns, .arr hns, Nat.succ_le_succ hdepth, hnumbers⟩

lemma StandsWithin.obj {k : ℕ} {ms : List (Bytes × Doc)}
    (h : ∀ m ∈ ms, (∃ s, IsString m.1 s) ∧ StandsWithin P k m.2) : StandsWithin P (k + 1) (.obj ms) := by
  obtain ⟨ns, hns, hdepth, hnumbers⟩ : ∃ ns, MembersStand ms ns ∧ membersDepth ns ≤ k ∧
      ∀ t ∈ membersNumbers ns, P t := by
    induction ms with
    | nil => exact ⟨[], .nil, Nat.zero_le k, fun _ ht => absurd ht List.not_mem_nil⟩
    | cons m ms ih =>
        obtain ⟨⟨⟨s, hs⟩, n, hn, hdepth, hnumber⟩, hms⟩ := List.forall_mem_cons.mp h
        obtain ⟨ns, hns, hdepths, hnumbers⟩ := ih hms
        exact ⟨(s, n) :: ns, .cons hs hn hns, max_le hdepth hdepths,
          List.forall_mem_append.mpr ⟨hnumber, hnumbers⟩⟩
  exact ⟨.object ns, .obj hns, Nat.succ_le_succ hdepth, hnumbers⟩

lemma StandsWithin.mono {k k' : ℕ} {doc : Doc} (h : StandsWithin P k doc) (hle : k ≤ k') :
    StandsWithin P k' doc := by
  obtain ⟨n, hn, hdepth, hnumbers⟩ := h
  exact ⟨n, hn, hdepth.trans hle, hnumbers⟩

/-- A document of a thing's own stands for a tree that is at most `rank` deep, with numbers of one kind,
and its keys are texts of strings. -/
def Grounds (P : Bytes → Prop) (rank : ℕ) : Shape α → Prop
  | .whole doc => StandsWithin P rank doc
  | .object ms _ => ∀ m ∈ ms, ∃ s, IsString m.1 s
  | _ => True

/-- **What is read stands for a tree**, which is as deep as the containers may be nested, and a document
of a thing's own below. -/
theorem standsWithin_read {rank : ℕ} (hr : ∀ x, Grounds P rank (r.shape x)) {d k : ℕ} {x : α} {doc : Doc}
    (h : (r.read d k x).result = some doc) : StandsWithin P (r.maxDepth - d + rank) doc := by
  unfold read at h
  generalize r.room d k + 1 = n at h
  induction n generalizing d k x doc with
  | zero => exact absurd h (by simp [readWithin, fail])
  | succ n ih =>
      have hx := hr x
      rw [readWithin, step] at h
      -- what a container holds is one level deeper
      have hbelow : ∀ {γ : Type} {m : Reading α γ} {f : γ → Reading α Doc},
          (r.inside d (bind m f)).result = some doc →
          d < r.maxDepth ∧ ∃ ys, m.result = some ys ∧ (f ys).result = some doc := by
        intro γ m f hm
        unfold inside at hm
        split at hm
        · next hd => exact ⟨hd, result_bind hm⟩
        · exact absurd hm (by simp [fail])
      cases hshape : r.shape x with
      | whole doc' =>
          rw [hshape] at h hx
          obtain rfl := Option.some.inj h
          exact StandsWithin.mono hx (Nat.le_add_left ..)
      | refused =>
          rw [hshape] at h
          exact absurd h (by simp [readShape, fail])
      | array items =>
          rw [hshape] at h
          obtain ⟨hd, docs, hdocs, hdoc⟩ := hbelow h
          obtain rfl := Option.some.inj hdoc
          refine StandsWithin.mono (.arr fun doc hdoc => ?_)
            (show r.maxDepth - (d + 1) + rank + 1 ≤ _ by omega)
          obtain ⟨y, -, hy⟩ := mem_result_each hdocs hdoc
          exact ih hy
      | object members complete =>
          rw [hshape] at h hx
          obtain ⟨hd, ms, hms, hdoc⟩ := hbelow h
          cases complete with
          | false => exact absurd hdoc (by simp [fail])
          | true =>
              obtain rfl := Option.some.inj hdoc
              refine StandsWithin.mono (.obj fun m hm => ?_)
                (show r.maxDepth - (d + 1) + rank + 1 ≤ _ by omega)
              obtain ⟨m', hmem, hm'⟩ := mem_result_each hms hm
              obtain ⟨doc', hdoc', heq⟩ := result_bind hm'
              obtain rfl := Option.some.inj heq
              exact ⟨hx m' hmem, ih hdoc'⟩
      | foreign =>
          rw [hshape] at h
          obtain ⟨y, -, hy⟩ := result_bind h
          exact ih hy

/-! ## Inlining -/

variable {β : Type} {s : Reader β}

/-- One level of inlining: `y` has the shape of `x`, over things that `R` relates, or it is what `x` is
replaced by, inlined. -/
inductive Inlined (r : Reader α) (s : Reader β) (R : ℕ → α → β → Prop) (k : ℕ) (x : α) (y : β) : Prop
  | whole {doc : Doc} (hx : r.shape x = .whole doc) (hy : s.shape y = .whole doc)
  | refused (hx : r.shape x = .refused) (hy : s.shape y = .refused)
  | array {xs : List α} {ys : List β} (hx : r.shape x = .array xs) (hy : s.shape y = .array ys)
      (h : List.Forall₂ (R k) xs ys)
  | object {ms : List (Bytes × α)} {ns : List (Bytes × β)} {complete : Bool}
      (hx : r.shape x = .object ms complete) (hy : s.shape y = .object ns complete)
      (h : List.Forall₂ (fun m n => m.1 = n.1 ∧ R k m.2 n.2) ms ns)
  | replaced {f : α → Option α} {x' : α} (hx : r.shape x = .foreign) (hf : r.replace = some f)
      (hx' : f x = some x') (hk : k < r.maxChain) (h : R (k + 1) x' y)

/-- Related things are inlined, level by level; graphs with cycles may be related as well. -/
structure Inlines (r : Reader α) (s : Reader β) (R : ℕ → α → β → Prop) : Prop where
  maxDepth : s.maxDepth = r.maxDepth
  level : ∀ k x y, R k x y → Inlined r s R k x y

/-- **Inlining keeps the document.**  Whatever is foreign in a graph, its reading comes to the same
result as that of the graph in which it is replaced beforehand, and there nothing is left to replace. -/
theorem Inlines.read_eq {R : ℕ → α → β → Prop} (hR : Inlines r s R) {k : ℕ} {x : α} {y : β}
    (h : R k x y) (d k' : ℕ) : s.read d k' y = (r.read d k x).plain := by
  induction hn : r.room d k using Nat.strong_induction_on generalizing d k x y with
  | _ n ih =>
    subst hn
    have hmax := hR.maxDepth
    -- what a container holds has less room
    have hbelow : d < r.maxDepth → ∀ x y, R k x y →
        s.read (d + 1) k' y = (r.read (d + 1) k x).plain := fun hd x y hxy =>
      ih _ (by unfold room; omega) hxy (d + 1) rfl
    have hinside : ∀ {γ : Type} {m : Reading α γ} {m' : Reading β γ},
        (d < r.maxDepth → m' = m.plain) → s.inside d m' = (r.inside d m).plain := by
      intro γ m m' hm
      unfold inside
      rw [hmax]
      by_cases hd : d < r.maxDepth
      · rw [if_pos hd, if_pos hd, hm hd]
      · rw [if_neg hd, if_neg hd]
        rfl
    rw [r.read_eq]
    cases hR.level k x y h with
    | whole hx hy =>
        simp only [s.read_eq d k' y, step, readShape, hx, hy]
        rfl
    | refused hx hy =>
        simp only [s.read_eq d k' y, step, readShape, hx, hy]
        rfl
    | array hx hy hall =>
        simp only [s.read_eq d k' y, step, readShape, hx, hy]
        refine hinside fun hd => ?_
        rw [plain_bind, each_plain hall (hbelow hd)]
        rfl
    | @object ms ns complete hx hy hall =>
        simp only [s.read_eq d k' y, step, readShape, hx, hy]
        refine hinside fun hd => ?_
        rw [plain_bind]
        have heach := each_plain hall
          (f := readMember (r.read (d + 1) k)) (g := readMember (s.read (d + 1) k')) fun m n hmn => by
            rw [readMember, readMember, plain_bind, hbelow hd _ _ hmn.2, hmn.1]
            rfl
        rw [heach]
        cases complete <;> rfl
    | @replaced f x' hx hf hx' hk hxy =>
        simp only [step, readShape, hx, replacement_eq hf hx' hk]
        exact ih _ (by unfold room; omega) hxy d rfl

/-- `y` is `x` with every foreign thing replaced, behind `k` replacements. -/
def InlinesTo (r : Reader α) (s : Reader β) (k : ℕ) (x : α) (y : β) : Prop :=
  ∃ R, Inlines r s R ∧ R k x y

lemma InlinesTo.read_eq {k : ℕ} {x : α} {y : β} (h : InlinesTo r s k x y) (d k' : ℕ) :
    s.read d k' y = (r.read d k x).plain := by
  obtain ⟨R, hR, hxy⟩ := h
  exact hR.read_eq hxy d k'

/-! ### Occurrences -/

lemma CameTo.inside {γ : Type} {d : ℕ} {m : Reading α γ} {l : List α} (h : m.CameTo l) :
    (r.inside d m).CameTo l := by
  unfold Reader.inside
  split
  · exact h
  · exact cameTo_fail

end Reader

end Json
