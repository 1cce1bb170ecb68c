import Isojson.Library.Run

/-!
# References and what keeps them alive

Code that takes references to objects and gives them back, borrows objects out of others, and now
and then lets foreign code run, which may give back any reference that is not the code's own.

`Steps` is a discipline for such code, step by step: a ledger says what may be read and what is
owned.  `Safe` is what it is for: whatever is read after foreign code ran was kept alive meanwhile.
It does so where no foreign code is overlooked (`Steps.safe_iff`).  `Book.Minds` brings the
discipline to runs.
-/

namespace Ownership

variable {ρ : Type}

/-- Whether the code is prepared for foreign code that runs. -/
inductive Care
  | prepared
  | unprepared
  /-- The code takes it that no foreign code runs here. -/
  | overlooked
  deriving DecidableEq

/-- A step of the code, by what it does with references. -/
inductive Use (ρ : Type)
  | take (r : ρ)
  | drop (r : ρ)
  /-- `r` is borrowed from `container`. -/
  | borrow (container r : ρ)
  | read (r : ρ)
  /-- Foreign code runs and is passed `args`. -/
  | run (care : Care) (args : List ρ)
  deriving DecidableEq

/-- The code gets hold of `r`. -/
def Use.Gets (r : ρ) : Use ρ → Prop
  | .take s => s = r
  | .borrow _ s => s = r
  | _ => False

/-- The code looks into `r`. -/
def Use.Reads (r : ρ) : Use ρ → Prop
  | .read s => s = r
  | .borrow s _ => s = r
  | _ => False

def Use.taken : Use ρ → Option ρ
  | .take r => some r
  | _ => none

def Use.dropped : Use ρ → Option ρ
  | .drop r => some r
  | _ => none

/-! ## Safe traces -/

/-- Something keeps `r` alive: an owner, or an immutable object that is kept alive itself. -/
inductive Kept (inside : ρ → ρ → Prop) (O : ρ → Prop) : ρ → Prop
  | owned {r : ρ} (h : O r) : Kept inside O r
  | inside {r s : ρ} (hr : Kept inside O r) (h : inside r s) : Kept inside O s

/-- What the owners of a thing's owners keep alive, they keep alive. -/
lemma Kept.subst {inside : ρ → ρ → Prop} {O O' : ρ → Prop} {r : ρ} (h : Kept inside O r)
    (hO : ∀ s, O s → Kept inside O' s) : Kept inside O' r := by
  induction h with
  | owned h => exact hO _ h
  | inside _ hin ih => exact ih.inside hin

section Safe

variable [DecidableEq ρ]

/-- After the steps of the trace the code owns a reference to `r`. -/
def Owned (trace : List (Use ρ)) (r : ρ) : Prop :=
  (trace.filterMap Use.dropped).count r < (trace.filterMap Use.taken).count r

/-- The code has given back exactly the references that it took. -/
def Settled (trace : List (Use ρ)) : Prop :=
  ∀ r, (trace.filterMap Use.taken).count r = (trace.filterMap Use.dropped).count r

/-- After the steps of the trace a caller's reference, or one of the code's own, keeps `r` alive,
directly or through immutable objects. -/
def Alive (inside : ρ → ρ → Prop) (lent : ρ → Prop) (trace : List (Use ρ)) : ρ → Prop :=
  Kept inside fun r => lent r ∨ Owned trace r

/-- Foreign code runs only where the code is prepared for it.  At every such moment everything that
is passed on, and everything that is read later and not got hold of anew before that, is kept alive.
And what is given back was owned. -/
structure Safe (inside : ρ → ρ → Prop) (lent : ρ → Prop) (trace : List (Use ρ)) : Prop where
  guarded : ∀ g args, .run g args ∈ trace → g = .prepared
  args : ∀ before g args after, trace = before ++ .run g args :: after →
    ∀ r ∈ args, Alive inside lent before r
  later : ∀ before g args between u after r,
    trace = before ++ .run g args :: (between ++ u :: after) → u.Reads r →
      (∀ v ∈ between, ¬ v.Gets r) → Alive inside lent before r
  owned : ∀ before r after, trace = before ++ .drop r :: after → Owned before r

end Safe

/-! ## The discipline -/

/-- What the code may read, and the references it owns. -/
structure Ledger (ρ : Type) where
  valid : ρ → Prop
  held : Multiset ρ

section Steps

variable {inside : ρ → ρ → Prop} {O G G' : Prop} {N N' : ρ → Prop} {L L' L1 : Ledger ρ} {u : Use ρ}
  {l l' : List (Use ρ)}

/-- One step.  Foreign code may run if `G` holds, and leaves what `N` lends or the code owns.  Foreign
code that is overlooked, which is possible if `O` holds, leaves the ledger as it is. -/
inductive Step (inside : ρ → ρ → Prop) (O G : Prop) (N : ρ → Prop) :
    Ledger ρ → Use ρ → Ledger ρ → Prop
  | take (V : ρ → Prop) (R : Multiset ρ) (r : ρ) :
      Step inside O G N ⟨V, R⟩ (.take r) ⟨fun x => x = r ∨ V x, r ::ₘ R⟩
  | drop (V : ρ → Prop) (R : Multiset ρ) (r : ρ) : Step inside O G N ⟨V, r ::ₘ R⟩ (.drop r) ⟨V, R⟩
  | borrow {V : ρ → Prop} {c : ρ} (hc : V c) (R : Multiset ρ) (r : ρ) :
      Step inside O G N ⟨V, R⟩ (.borrow c r) ⟨fun x => x = r ∨ V x, R⟩
  | read {V : ρ → Prop} {r : ρ} (hr : V r) (R : Multiset ρ) :
      Step inside O G N ⟨V, R⟩ (.read r) ⟨V, R⟩
  | run (hG : G) (V : ρ → Prop) {R : Multiset ρ} {args : List ρ}
      (hargs : ∀ r ∈ args, Kept inside (fun x => N x ∨ x ∈ R) r) :
      Step inside O G N ⟨V, R⟩ (.run .prepared args)
        ⟨fun x => V x ∧ Kept inside (fun y => N y ∨ y ∈ R) x, R⟩
  | overlook (hO : O) (V : ρ → Prop) (R : Multiset ρ) (args : List ρ) :
      Step inside O G N ⟨V, R⟩ (.run .overlooked args) ⟨V, R⟩

inductive Steps (inside : ρ → ρ → Prop) (O G : Prop) (N : ρ → Prop) :
    Ledger ρ → List (Use ρ) → Ledger ρ → Prop
  | nil (L : Ledger ρ) : Steps inside O G N L [] L
  | cons {L L1 L' : Ledger ρ} {u : Use ρ} {l : List (Use ρ)} (h : Step inside O G N L u L1)
      (hl : Steps inside O G N L1 l L') : Steps inside O G N L (u :: l) L'

lemma Step.steps (h : Step inside O G N L u L') : Steps inside O G N L [u] L' := .cons h (.nil _)

lemma Steps.append (h : Steps inside O G N L l L1) (h' : Steps inside O G N L1 l' L') :
    Steps inside O G N L (l ++ l') L' := by
  induction h with
  | nil L => exact h'
  | cons hstep _ ih => exact .cons hstep (ih h')

/-- Where foreign code was overlooked, it can be. -/
lemma Steps.overlooks (h : Steps inside O G N L l L') {args : List ρ} (hmem : .run .overlooked args ∈ l) :
    O := by
  induction h with
  | nil L => exact absurd hmem List.not_mem_nil
  | cons hstep _ ih =>
      rcases List.mem_cons.mp hmem with rfl | hmem
      · cases hstep with
        | overlook hO => exact hO
      · exact ih hmem

/-- What is lent stays valid, and so does everything as long as no foreign code runs. -/
lemma Steps.persists (h : Steps inside O G N L l L') {r : ρ} (hr : L.valid r)
    (hN : G → Kept inside N r) : L'.valid r := by
  induction h with
  | nil L => exact hr
  | cons hstep _ ih =>
      apply ih
      cases hstep with
      | take => exact Or.inr hr
      | drop => exact hr
      | borrow => exact Or.inr hr
      | read => exact hr
      | run hG => exact ⟨hr, (hN hG).subst fun _ hs => .owned (Or.inl hs)⟩
      | overlook => exact hr

/-- What is owned is valid. -/
lemma Steps.holds (h : Steps inside O G N L l L') (hL : ∀ r ∈ L.held, L.valid r) :
    ∀ r ∈ L'.held, L'.valid r := by
  induction h with
  | nil L => exact hL
  | cons hstep _ ih =>
      apply ih
      cases hstep with
      | take V R x => exact fun r hr => (Multiset.mem_cons.mp hr).imp_right (hL r)
      | drop => exact fun r hr => hL r (Multiset.mem_cons_of_mem hr)
      | borrow => exact fun r hr => Or.inr (hL r hr)
      | read => exact hL
      | run => exact fun r hr => ⟨hL r hr, .owned (Or.inr hr)⟩
      | overlook => exact hL

/-- A step in a context that owns `R` besides, and where more may be valid. -/
lemma Step.frame (h : Step inside O G' N' L u L') {V : ρ → Prop} {R : Multiset ρ} (hG : G' → G)
    (hN : G' → ∀ r, N' r → Kept inside (fun x => N x ∨ x ∈ R) r) (hV : ∀ r, L.valid r → V r) :
    ∃ V', Step inside O G N ⟨V, L.held + R⟩ u ⟨V', L'.held + R⟩ ∧ ∀ r, L'.valid r → V' r := by
  cases h with
  | take W S r =>
      rw [Multiset.cons_add]
      exact ⟨_, .take _ _ r, fun x hx => hx.imp_right (hV x)⟩
  | drop W S r =>
      rw [Multiset.cons_add]
      exact ⟨_, .drop _ _ r, hV⟩
  | borrow hc S r => exact ⟨_, .borrow (hV _ hc) _ r, fun x hx => hx.imp_right (hV x)⟩
  | read hr S => exact ⟨_, .read (hV _ hr) _, hV⟩
  | @run hG' W S args hargs =>
      have hkept : ∀ r, Kept inside (fun x => N' x ∨ x ∈ S) r →
          Kept inside (fun x => N x ∨ x ∈ S + R) r := by
        intro r hr
        apply hr.subst
        rintro s (hs | hs)
        · exact (hN hG' s hs).subst fun t ht =>
            .owned (ht.imp_right fun h => Multiset.mem_add.mpr (Or.inr h))
        · exact .owned (Or.inr (Multiset.mem_add.mpr (Or.inl hs)))
      exact ⟨_, .run (hG hG') V fun r hr => hkept r (hargs r hr),
        fun r hr => ⟨hV r hr.1, hkept r hr.2⟩⟩
  | overlook hO W S args => exact ⟨_, .overlook hO _ _ args, hV⟩

lemma Steps.frame (h : Steps inside O G' N' L l L') {V : ρ → Prop} {R : Multiset ρ} (hG : G' → G)
    (hN : G' → ∀ r, N' r → Kept inside (fun x => N x ∨ x ∈ R) r) (hV : ∀ r, L.valid r → V r) :
    ∃ V', Steps inside O G N ⟨V, L.held + R⟩ l ⟨V', L'.held + R⟩ ∧ ∀ r, L'.valid r → V' r := by
  induction h generalizing V with
  | nil L => exact ⟨V, .nil _, hV⟩
  | cons hstep _ ih =>
      obtain ⟨V1, hstep1, hV1⟩ := hstep.frame hG hN hV
      obtain ⟨V', hsteps, hV'⟩ := ih hV1
      exact ⟨V', .cons hstep1 hsteps, hV'⟩

/-- Steps where more is allowed and more may be valid. -/
lemma Steps.widen (h : Steps inside O G' N L l L') {V : ρ → Prop} (hG : G' → G)
    (hV : ∀ r, L.valid r → V r) :
    ∃ V', Steps inside O G N ⟨V, L.held⟩ l ⟨V', L'.held⟩ ∧ ∀ r, L'.valid r → V' r := by
  have hN : G' → ∀ r, N r → Kept inside (fun x => N x ∨ x ∈ (0 : Multiset ρ)) r :=
    fun _ r hr => .owned (Or.inl hr)
  simpa using h.frame hG hN hV

/-- The references of a list are given back. -/
lemma Steps.drops (V : ρ → Prop) (R : Multiset ρ) :
    ∀ rs : List ρ, Steps inside O G N ⟨V, ↑rs + R⟩ (rs.map .drop) ⟨V, R⟩
  | [] => by simpa using Steps.nil _
  | r :: rs => by
      rw [← Multiset.cons_coe, Multiset.cons_add]
      exact .cons (.drop _ _ r) (drops V R rs)

end Steps

/-! ## The discipline is safe -/

/-- The ways to cut a trace with one more step. -/
lemma snoc_eq_append_cons {trace before after : List (Use ρ)} {u v : Use ρ}
    (h : trace ++ [u] = before ++ v :: after) :
    (after = [] ∧ trace = before ∧ u = v) ∨
      ∃ rest, after = rest ++ [u] ∧ trace = before ++ v :: rest := by
  rcases List.eq_nil_or_concat after with rfl | ⟨rest, w, rfl⟩
  · obtain ⟨h1, h2⟩ := List.append_inj' h rfl
    exact Or.inl ⟨rfl, h1, (List.cons.inj h2).1⟩
  · rw [List.concat_eq_append, ← List.cons_append, ← List.append_assoc] at h
    obtain ⟨h1, h2⟩ := List.append_inj' h rfl
    obtain ⟨rfl, -⟩ := List.cons.inj h2
    exact Or.inr ⟨rest, List.concat_eq_append, h1⟩

section Sound

variable [DecidableEq ρ] {inside : ρ → ρ → Prop} {G : Prop} {N : ρ → Prop} {L L' : Ledger ρ}
  {trace l : List (Use ρ)} {u : Use ρ}

/-- The references taken are those given back and those owned. -/
def Balanced (trace : List (Use ρ)) (R : Multiset ρ) : Prop :=
  ∀ r, (trace.filterMap Use.taken).count r = (trace.filterMap Use.dropped).count r + R.count r

lemma Balanced.owned_iff {R : Multiset ρ} (h : Balanced trace R) (r : ρ) :
    Owned trace r ↔ r ∈ R := by
  rw [Owned, h r, Nat.lt_add_right_iff_pos, Multiset.count_pos]

lemma Balanced.settled (h : Balanced trace 0) : Settled trace := by
  intro r
  simpa using h r

/-- At every moment when foreign code ran and since when `r` was not got hold of anew, `r` was kept
alive. -/
def Backed (inside : ρ → ρ → Prop) (N : ρ → Prop) (trace : List (Use ρ)) (r : ρ) : Prop :=
  ∀ before g args between, trace = before ++ .run g args :: between →
    (∀ v ∈ between, ¬ v.Gets r) → Alive inside N before r

/-- A trace as it stands against the ledger it led to. -/
structure Kempt (inside : ρ → ρ → Prop) (N : ρ → Prop) (trace : List (Use ρ)) (L : Ledger ρ) :
    Prop where
  safe : Safe inside N trace
  balanced : Balanced trace L.held
  valid : ∀ r, L.valid r → Backed inside N trace r

/-- One more step that runs no foreign code backs what it got hold of, and all that was backed. -/
lemma Backed.snoc {r : ρ} (h : ¬ u.Gets r → Backed inside N trace r)
    (hu : ∀ g args, u ≠ .run g args) : Backed inside N (trace ++ [u]) r := by
  intro before g args between heq hbetween
  rcases snoc_eq_append_cons heq with ⟨-, -, hrun⟩ | ⟨rest, rfl, htrace⟩
  · exact absurd hrun (hu g args)
  · have hlast : ¬ u.Gets r := hbetween u (by simp)
    exact h hlast before g args rest htrace fun v hv => hbetween v (List.mem_append_left _ hv)

/-- A step is safe after a safe trace if what it does is. -/
lemma Safe.snoc (h : Safe inside N trace) (hrun : ∀ g args, u = .run g args → g = .prepared)
    (hargs : ∀ g args, u = .run g args → ∀ r ∈ args, Alive inside N trace r)
    (hreads : ∀ r, u.Reads r → Backed inside N trace r) (hdrop : ∀ r, u = .drop r → Owned trace r) :
    Safe inside N (trace ++ [u]) where
  guarded g args hmem := by
    rcases List.mem_append.mp hmem with hmem | hmem
    · exact h.guarded g args hmem
    · exact hrun g args (List.mem_singleton.mp hmem).symm
  args before g args after heq := by
    rcases snoc_eq_append_cons heq with ⟨-, rfl, rfl⟩ | ⟨rest, rfl, htrace⟩
    · exact hargs g args rfl
    · exact h.args before g args rest htrace
  later before g args between v after r heq hreads' hbetween := by
    rw [← List.cons_append, ← List.append_assoc] at heq
    rcases snoc_eq_append_cons heq with ⟨-, htrace, rfl⟩ | ⟨rest, rfl, htrace⟩
    · exact hreads r hreads' before g args between htrace hbetween
    · rw [List.append_assoc, List.cons_append] at htrace
      exact h.later before g args between v rest r htrace hreads' hbetween
  owned before r after heq := by
    rcases snoc_eq_append_cons heq with ⟨-, rfl, rfl⟩ | ⟨rest, rfl, htrace⟩
    · exact hdrop r rfl
    · exact h.owned before r rest htrace

lemma Balanced.snoc {R R' : Multiset ρ} (h : Balanced trace R)
    (hu : ∀ r, u.taken.toList.count r + R.count r = u.dropped.toList.count r + R'.count r) :
    Balanced (trace ++ [u]) R' := by
  intro r
  have htaken : (trace ++ [u]).filterMap Use.taken =
      trace.filterMap Use.taken ++ u.taken.toList := by
    rw [List.filterMap_append]
    cases u <;> rfl
  have hdropped : (trace ++ [u]).filterMap Use.dropped =
      trace.filterMap Use.dropped ++ u.dropped.toList := by
    rw [List.filterMap_append]
    cases u <;> rfl
  rw [htaken, hdropped, List.count_append, List.count_append, h r, add_assoc, add_assoc,
    add_comm (R.count r), hu r]

/-- What the ledger says is alive. -/
lemma Balanced.alive {R : Multiset ρ} (h : Balanced trace R) {r : ρ}
    (hr : Kept inside (fun x => N x ∨ x ∈ R) r) : Alive inside N trace r :=
  hr.subst fun x hx => .owned (hx.imp_right (h.owned_iff x).mpr)

lemma count_singleton_add (r x : ρ) (R : Multiset ρ) :
    [r].count x + R.count x = (r ::ₘ R).count x := by
  rw [← Multiset.coe_count, ← Multiset.count_add, Multiset.coe_singleton, Multiset.singleton_add]

/-- The discipline keeps the balance. -/
lemma Balanced.step (h : Balanced trace L.held) (hstep : Step inside O G N L u L') :
    Balanced (trace ++ [u]) L'.held := by
  refine h.snoc fun x => ?_
  cases hstep with
  | take V R r => simpa [Use.taken, Use.dropped] using count_singleton_add r x R
  | drop V R r => simpa [Use.taken, Use.dropped] using (count_singleton_add r x R).symm
  | _ => simp [Use.taken, Use.dropped]

lemma Balanced.steps (hsteps : Steps inside O G N L l L') (h : Balanced trace L.held) :
    Balanced (trace ++ l) L'.held := by
  induction hsteps generalizing trace with
  | nil L => simpa using h
  | cons hstep _ ih => simpa using ih (h.step hstep)

/-- The discipline keeps a trace as it should stand, where it overlooks no foreign code. -/
lemma Kempt.step (h : Kempt inside N trace L) (hstep : Step inside O G N L u L')
    (hu : ∀ args, u ≠ .run .overlooked args) : Kempt inside N (trace ++ [u]) L' := by
  have hbalanced := h.balanced.step hstep
  cases hstep with
  | take V R r =>
      refine ⟨h.safe.snoc (by simp) (by simp) (by simp [Use.Reads]) (by simp), hbalanced,
        fun x hx => ?_⟩
      exact Backed.snoc (fun hgets => h.valid x (hx.resolve_left fun heq => hgets heq.symm)) (by simp)
  | drop V R r =>
      have howned : Owned trace r := (h.balanced.owned_iff r).mpr (Multiset.mem_cons_self r R)
      refine ⟨h.safe.snoc (by simp) (by simp) (by simp [Use.Reads]) fun x hx => ?_, hbalanced,
        fun x hx => Backed.snoc (fun _ => h.valid x hx) (by simp)⟩
      cases hx
      exact howned
  | @borrow V c hc R r =>
      refine ⟨h.safe.snoc (by simp) (by simp) (fun x hx => ?_) (by simp), hbalanced, fun x hx => ?_⟩
      · exact hx ▸ h.valid c hc
      · exact Backed.snoc (fun hgets => h.valid x (hx.resolve_left fun heq => hgets heq.symm))
          (by simp)
  | @read V r hr R =>
      refine ⟨h.safe.snoc (by simp) (by simp) (fun x hx => ?_) (by simp), hbalanced,
        fun x hx => Backed.snoc (fun _ => h.valid x hx) (by simp)⟩
      exact hx ▸ h.valid r hr
  | @run hG V R args hargs =>
      refine ⟨h.safe.snoc ?_ ?_ (by simp [Use.Reads]) (by simp), hbalanced, fun x hx => ?_⟩
      · rintro g args' ⟨⟩
        rfl
      · rintro g args' ⟨⟩
        exact fun r hr => h.balanced.alive (hargs r hr)
      · intro before g args' between heq hbetween
        rcases snoc_eq_append_cons heq with ⟨-, rfl, -⟩ | ⟨rest, rfl, htrace⟩
        · exact h.balanced.alive hx.2
        · exact h.valid x hx.1 before g args' rest htrace fun v hv =>
            hbetween v (List.mem_append_left _ hv)
  | overlook _ V R args => exact absurd rfl (hu args)

lemma Kempt.steps (hsteps : Steps inside O G N L l L') (h : Kempt inside N trace L)
    (hl : ∀ args, .run .overlooked args ∉ l) : Kempt inside N (trace ++ l) L' := by
  induction hsteps generalizing trace with
  | nil L => simpa using h
  | @cons L L1 L' u l hstep _ ih =>
      have hu : ∀ args, u ≠ .run .overlooked args :=
        fun args heq => hl args (heq ▸ List.mem_cons_self ..)
      simpa using ih (h.step hstep hu) fun args hmem => hl args (List.mem_cons_of_mem _ hmem)

/-- Code that starts without references of its own and keeps to the discipline owns what it took and
did not give back. -/
theorem Steps.balanced {V V' : ρ → Prop} {R : Multiset ρ} (h : Steps inside O G N ⟨V, 0⟩ l ⟨V', R⟩) :
    Balanced l R := by
  have hstart : Balanced ([] : List (Use ρ)) 0 := fun r => rfl
  exact Balanced.steps h hstart

/-- It is safe exactly if it overlooks no foreign code. -/
theorem Steps.safe_iff {V V' : ρ → Prop} {R : Multiset ρ} (h : Steps inside O G N ⟨V, 0⟩ l ⟨V', R⟩) :
    Safe inside N l ↔ ∀ args, .run .overlooked args ∉ l := by
  constructor
  · intro hsafe args hmem
    exact absurd (hsafe.guarded _ args hmem) (by simp)
  · intro hl
    have hstart : Kempt inside N [] ⟨V, 0⟩ :=
      { safe := ⟨by simp, by simp, by simp, by simp⟩
        balanced := fun r => rfl
        valid := fun r _ => by simp [Backed] }
    exact (Kempt.steps h hstart hl).safe

end Sound

/-! ## Runs that keep to the discipline -/

/-- Where a state keeps its trace, which things are inside of immutable ones, whether foreign code can be
overlooked, and an invariant of the runs. -/
structure Book (σ ρ : Type) where
  trace : σ → List (Use ρ)
  inside : ρ → ρ → Prop
  overlooks : Prop
  inv : σ → Prop

namespace Book

open Run

variable {σ ε α β : Type} {b : Book σ ρ} {G G' : Prop} {N N' V V' : ρ → Prop}
  {R R1 X : Multiset ρ} {R' : α → Multiset ρ} {m : Run σ ε α} {k : α → Run σ ε β} {s s1 s2 : σ}

/-- What may be read: what is borrowed, lent or owned. -/
def Readable (V N : ρ → Prop) (R : Multiset ρ) (r : ρ) : Prop := V r ∨ N r ∨ r ∈ R

/-- The code went from `s` to `s'`, where it owns `R'`.  At `s` it owned `R`, and besides might read
what `N` lends and `V`. -/
def Went (b : Book σ ρ) (G : Prop) (N V : ρ → Prop) (R R' : Multiset ρ) (s s' : σ) : Prop :=
  ∃ l V', b.trace s' = b.trace s ++ l ∧
    Steps b.inside b.overlooks G N ⟨Readable V N R, R⟩ l ⟨V', R'⟩

/-- Wherever the run from `s` ends, it kept to the discipline.  Once it returned `x` it owns `R' x`,
and once it raised, `X`. -/
def Minds (b : Book σ ρ) (G : Prop) (N V : ρ → Prop) (R : Multiset ρ) (m : Run σ ε α)
    (R' : α → Multiset ρ) (X : Multiset ρ) (s : σ) : Prop :=
  b.inv s → wp (fun s' => ∃ R', b.Went G N V R R' s s') m
    (fun x s' => b.inv s' ∧ b.Went G N V R (R' x) s s')
    (fun _ s' => b.inv s' ∧ b.Went G N V R X s s') s

lemma Went.refl : b.Went G N V R R s s := ⟨[], _, (List.append_nil _).symm, .nil _⟩

/-- Steps, and then code that relies on what they left valid. -/
lemma Went.after {R2 : Multiset ρ} {l : List (Use ρ)} {W : ρ → Prop}
    (htrace : b.trace s1 = b.trace s ++ l)
    (hsteps : Steps b.inside b.overlooks G' N ⟨Readable V N R, R⟩ l ⟨W, R1⟩) (hG : G' → G)
    (hV : ∀ r, V' r → W r) (h : b.Went G N V' R1 R2 s1 s2) : b.Went G N V R R2 s s2 := by
  obtain ⟨l', W', htrace', hsteps'⟩ := h
  have hvalid : ∀ r, Readable V' N R1 r → W r := by
    rintro r (hr | hr | hr)
    · exact hV r hr
    · exact hsteps.persists (Or.inr (Or.inl hr)) fun _ => .owned hr
    · exact hsteps.holds (fun x hx => Or.inr (Or.inr hx)) r hr
  obtain ⟨W1, hfirst, hW1⟩ := hsteps.widen hG (fun r hr => hr)
  obtain ⟨W2, hsecond, -⟩ := hsteps'.widen id (fun r hr => hW1 r (hvalid r hr))
  refine ⟨l ++ l', W2, ?_, hfirst.append hsecond⟩
  rw [htrace', htrace, List.append_assoc]

/-- What was valid for the first part and no foreign code touched is valid for the second. -/
lemma Went.trans {R2 : Multiset ρ} (h : b.Went G' N V R R1 s s1) (h' : b.Went G N V' R1 R2 s1 s2)
    (hG : G' → G) (hV : ∀ r, V' r → V r ∧ ¬ G') : b.Went G N V R R2 s s2 := by
  obtain ⟨l, W, htrace, hsteps⟩ := h
  refine .after htrace hsteps hG (fun r hr => ?_) h'
  exact hsteps.persists (Or.inl (hV r hr).1) fun hG' => absurd hG' (hV r hr).2

lemma Went.mono (h : b.Went G' N V R R1 s s1) (hG : G' → G) : b.Went G N V R R1 s s1 := by
  obtain ⟨l, W, htrace, hsteps⟩ := h
  obtain ⟨W1, hsteps1, -⟩ := hsteps.widen hG (fun _ hr => hr)
  exact ⟨l, W1, htrace, hsteps1⟩

/-- The same in a context that owns `R1` besides, and that keeps alive what the code relies on. -/
lemma Went.frame {R2 : Multiset ρ} (h : b.Went G' N' V' R R2 s s1) (hG : G' → G)
    (hvalid : ∀ r, V' r ∨ N' r → Readable V N R1 r)
    (hkept : G' → ∀ r, N' r → Kept b.inside (fun x => N x ∨ x ∈ R1) r) :
    b.Went G N V (R + R1) (R2 + R1) s s1 := by
  obtain ⟨l, W, htrace, hsteps⟩ := h
  have hV : ∀ r, Readable V' N' R r → Readable V N (R + R1) r := by
    intro r hr
    have := hvalid r
    unfold Readable at *
    rw [Multiset.mem_add]
    tauto
  obtain ⟨W1, hsteps1, -⟩ := hsteps.frame hG hkept hV
  exact ⟨l, W1, htrace, hsteps1⟩

/-! ### Rules -/

lemma Minds.pure {x : α} (h : R' x = R) : b.Minds G N V R (Pure.pure x : Run σ ε α) R' X s :=
  fun hs => ⟨hs, h ▸ .refl⟩

lemma Minds.throw {x : ε} : b.Minds G N V R (Run.throw x : Run σ ε α) R' R s :=
  fun hs => ⟨hs, .refl⟩

lemma Minds.fault : b.Minds G N V R (Run.fault : Run σ ε α) R' X s := fun _ => ⟨R, .refl⟩

lemma Minds.starve : b.Minds G N V R (Run.starve : Run σ ε α) R' X s := fun _ => ⟨R, .refl⟩

/-- Code that has nothing to do with references. -/
lemma Minds.still (h : Preserves (fun s => (b.trace s, b.inv s)) m) :
    b.Minds G N V R m (fun _ => R) R s := by
  intro hs
  have hstill : ∀ s', (b.trace s', b.inv s') = (b.trace s, b.inv s) →
      b.inv s' ∧ b.Went G N V R R s s' := by
    intro s' h'
    obtain ⟨htrace, hinv⟩ := Prod.mk.inj h'
    exact ⟨hinv ▸ hs, [], _, htrace.trans (List.append_nil _).symm, .nil _⟩
  exact (h s).mono (fun _ s' h' => hstill s' h') (fun _ s' h' => hstill s' h') fun s' h' =>
    ⟨R, (hstill s' h').2⟩

/-- Code that returns and has nothing to do with references. -/
lemma Minds.returns {x : α} (h : m s = .ok x s1) (htrace : b.trace s1 = b.trace s)
    (hinv : b.inv s → b.inv s1) : b.Minds G N V R m (fun _ => R) X s := by
  intro hs
  unfold wp
  rw [h]
  exact ⟨hinv hs, [], _, htrace.trans (List.append_nil _).symm, .nil _⟩

lemma Minds.modify {f : σ → σ} (htrace : b.trace (f s) = b.trace s) (hinv : b.inv s → b.inv (f s)) :
    b.Minds G N V R (Run.modify f : Run σ ε Unit) (fun _ => R) X s := .returns rfl htrace hinv

lemma Minds.get_bind {k : σ → Run σ ε β} {R' : β → Multiset ρ} (h : b.Minds G N V R (k s) R' X s) :
    b.Minds G N V R (Run.get >>= k) R' X s := h

/-- Two parts, where `P` is known of what the first one returned. -/
lemma Minds.bind_of {R1 : α → Multiset ρ} {R' : β → Multiset ρ} {P : α → σ → Prop}
    (hm : b.Minds G' N V R m R1 X s) (hP : wp (fun _ => True) m P (fun _ _ => True) s) (hG : G' → G)
    (hV : ∀ r, V' r → V r ∧ ¬ G') (hk : ∀ x s1, P x s1 → b.Minds G N V' (R1 x) (k x) R' X s1) :
    b.Minds G N V R (m >>= k) R' X s := by
  intro hs
  rw [wp_bind]
  refine ((hm hs).and hP).mono ?_ ?_ ?_
  · rintro x s1 ⟨⟨hs1, hwent⟩, hx⟩
    refine (hk x s1 hx hs1).mono ?_ ?_ ?_
    · exact fun y s2 h2 => ⟨h2.1, hwent.trans h2.2 hG hV⟩
    · exact fun _ s2 h2 => ⟨h2.1, hwent.trans h2.2 hG hV⟩
    · rintro s2 ⟨R2, h2⟩
      exact ⟨R2, hwent.trans h2 hG hV⟩
  · rintro _ s1 ⟨⟨hs1, hwent⟩, -⟩
    exact ⟨hs1, hwent.mono hG⟩
  · rintro s1 ⟨R2, hwent⟩
    exact ⟨R2, hwent.mono hG⟩

/-- Behind code that may let foreign code run, only what is lent or owned is valid. -/
lemma Minds.bind {R1 : α → Multiset ρ} {R' : β → Multiset ρ} (hm : b.Minds G N V R m R1 X s)
    (hk : ∀ x s1, b.Minds G N ⊥ (R1 x) (k x) R' X s1) : b.Minds G N V R (m >>= k) R' X s :=
  hm.bind_of (P := fun _ _ => True) (wp_of_returns fun _ _ _ => trivial) id (fun _ h => h.elim)
    fun x s1 _ => hk x s1

/-- Behind code that runs no foreign code, everything is as valid as before. -/
lemma Minds.quiet_bind {R1 : α → Multiset ρ} {R' : β → Multiset ρ}
    (hm : b.Minds False N V R m R1 X s) (hk : ∀ x s1, b.Minds G N V (R1 x) (k x) R' X s1) :
    b.Minds G N V R (m >>= k) R' X s :=
  hm.bind_of (P := fun _ _ => True) (wp_of_returns fun _ _ _ => trivial) False.elim
    (fun _ h => ⟨h, id⟩) fun x s1 _ => hk x s1

/-- What the invariant says may be used. -/
lemma Minds.given (h : b.inv s → b.Minds G N V R m R' X s) : b.Minds G N V R m R' X s :=
  fun hs => h hs hs

/-- One step on record. -/
lemma Minds.step {f : σ → σ} {k : Unit → Run σ ε β} {R' : β → Multiset ρ} {u : Use ρ} {W : ρ → Prop}
    (htrace : b.trace (f s) = b.trace s ++ [u]) (hinv : b.inv s → b.inv (f s))
    (hstep : Step b.inside b.overlooks G N ⟨Readable V N R, R⟩ u ⟨W, R1⟩) (hV : ∀ r, V' r → W r)
    (hk : b.Minds G N V' R1 (k ()) R' X (f s)) :
    b.Minds G N V R (Run.modify f >>= k) R' X s := by
  intro hs
  have hafter : ∀ {R2 s2}, b.Went G N V' R1 R2 (f s) s2 → b.Went G N V R R2 s s2 :=
    fun h => .after htrace hstep.steps id hV h
  rw [wp_bind]
  refine (hk (hinv hs)).mono ?_ ?_ ?_
  · exact fun x s2 h2 => ⟨h2.1, hafter h2.2⟩
  · exact fun _ s2 h2 => ⟨h2.1, hafter h2.2⟩
  · rintro s2 ⟨R2, h2⟩
    exact ⟨R2, hafter h2⟩

/-- References are given back on every way out. -/
lemma Minds.onExit {f : σ → σ} (rs : List ρ)
    (htrace : ∀ s, b.trace (f s) = b.trace s ++ rs.map .drop) (hinv : ∀ s, b.inv s → b.inv (f s))
    (h : b.Minds G N V R m (fun x => ↑rs + R' x) (↑rs + X) s) :
    b.Minds G N V R (Run.onExit m f) R' X s := by
  intro hs
  have hdrops : ∀ {R2 s1}, b.Went G N V R (↑rs + R2) s s1 → b.Went G N V R R2 s (f s1) := by
    rintro R2 s1 ⟨l, W, htrace1, hsteps⟩
    refine ⟨l ++ rs.map .drop, W, ?_, hsteps.append (.drops W R2 rs)⟩
    rw [htrace, htrace1, List.append_assoc]
  have hm := h hs
  unfold wp Run.onExit at *
  split at hm
  · exact ⟨hinv _ hm.1, hdrops hm.2⟩
  · exact ⟨hinv _ hm.1, hdrops hm.2⟩
  · exact hm
  · exact hm

/-- Code that relies on less, in a context that keeps that alive if foreign code can run at all. -/
lemma Minds.call (h : b.Minds G' N' V' 0 m (fun _ => 0) 0 s) (hG : G' → G)
    (hvalid : ∀ r, V' r ∨ N' r → Readable V N R r)
    (hkept : G' → ∀ r, N' r → Kept b.inside (fun x => N x ∨ x ∈ R) r) :
    b.Minds G N V R m (fun _ => R) R s := by
  intro hs
  have hframe : ∀ {R2 s1}, b.Went G' N' V' 0 R2 s s1 → b.Went G N V R (R2 + R) s s1 := by
    intro R2 s1 h1
    simpa using h1.frame hG hvalid hkept
  refine (h hs).mono ?_ ?_ ?_
  · exact fun x s1 h1 => ⟨h1.1, by simpa using hframe h1.2⟩
  · exact fun _ s1 h1 => ⟨h1.1, by simpa using hframe h1.2⟩
  · rintro s1 ⟨R2, h1⟩
    exact ⟨R2 + R, hframe h1⟩

lemma Minds.mono (h : b.Minds G' N V R m R' X s) (hG : G' → G) : b.Minds G N V R m R' X s := by
  intro hs
  refine (h hs).mono ?_ ?_ ?_
  · exact fun x s1 h1 => ⟨h1.1, h1.2.mono hG⟩
  · exact fun _ s1 h1 => ⟨h1.1, h1.2.mono hG⟩
  · rintro s1 ⟨R2, h1⟩
    exact ⟨R2, h1.mono hG⟩

end Book

end Ownership
