import Isojson.Library.Run

/-!
# Runs with enough fuel

A recursion without a size to go by is translated with a fuel, and the run that uses it up is
starved.  `Settles m m' Q s`: from some fuel on, the runs of `m` and of `m'` from `s` are one and
the same run, which ends by itself, and if it returns, meets `Q`.  The second run is for a recursion
that watches the first one; for termination alone take `m' = m`.

`Settled P m m' Q` says so of every state with `P`, and has a rule for each construct.
-/

variable {σ ε α β : Type}

/-- The run ended by itself, and what it returned meets `Q`. -/
def Outcome.Ended (Q : α → σ → Prop) : Outcome σ ε α → Prop
  | .ok x s => Q x s
  | .error _ _ => True
  | .fault _ => True
  | .starved _ => False

/-- The run returned or raised. -/
def Outcome.Answers : Outcome σ ε α → Prop
  | .ok _ _ => True
  | .error _ _ => True
  | _ => False

lemma Outcome.Ended.mono {Q Q' : α → σ → Prop} {o : Outcome σ ε α} (h : o.Ended Q)
    (hQ : ∀ x s, Q x s → Q' x s) : o.Ended Q' := by
  cases o with
  | ok x s => exact hQ x s h
  | error x s => trivial
  | fault s => trivial
  | starved s => exact h

namespace Run

/-! ## Code without fuel -/

/-- From every state with `P` the run ends by itself, and if it returns, it meets `Q`. -/
def Ends (P : σ → Prop) (m : Run σ ε α) (Q : α → σ → Prop) : Prop := ∀ s, P s → (m s).Ended Q

section Ends

variable {P : σ → Prop} {Q Q' : α → σ → Prop} {R : β → σ → Prop} {m : Run σ ε α}
  {k : α → Run σ ε β}

lemma Ends.pure {x : α} (h : ∀ s, P s → Q x s) : Ends P (Pure.pure x : Run σ ε α) Q := h

lemma Ends.throw (x : ε) : Ends P (Run.throw x : Run σ ε α) Q := fun _ _ => trivial

lemma Ends.fault : Ends P (Run.fault : Run σ ε α) Q := fun _ _ => trivial

lemma Ends.modify {Q : Unit → σ → Prop} {f : σ → σ} (h : ∀ s, P s → Q () (f s)) :
    Ends P (Run.modify f : Run σ ε Unit) Q := h

lemma Ends.bind (hm : Ends P m Q) (hk : ∀ x, Ends (Q x) (k x) R) : Ends P (m >>= k) R := by
  intro s hs
  have h := hm s hs
  show (Run.bind m k s).Ended R
  unfold Run.bind
  cases hrun : m s with
  | ok x s' =>
      rw [hrun] at h
      exact hk x s' h
  | error x s' => trivial
  | fault s' => trivial
  | starved s' =>
      rw [hrun] at h
      exact h.elim

/-- The continuation may look at the state. -/
lemma Ends.get_bind {k : σ → Run σ ε β} (hk : ∀ s, P s → Ends P (k s) R) :
    Ends P (Run.get >>= k) R := fun s hs => hk s hs s hs

lemma Ends.onExit {f : σ → σ} (hm : Ends P m fun x s => Q x (f s)) : Ends P (Run.onExit m f) Q := by
  intro s hs
  have h := hm s hs
  unfold Run.onExit
  cases hrun : m s <;> rw [hrun] at h <;> exact h

lemma Ends.unchecked {o : Option α} (h : ∀ x s, P s → Q x s) :
    Ends P (Run.unchecked o : Run σ ε α) Q := by
  cases o with
  | none => exact .fault
  | some x => exact .pure fun s hs => h x s hs

lemma Ends.mono (hm : Ends P m Q) (h : ∀ x s, Q x s → Q' x s) : Ends P m Q' :=
  fun s hs => (hm s hs).mono h

/-- What is known of the run that returned is known besides. -/
lemma Ends.and {C : σ → Prop} {E : ε → σ → Prop} (hm : Ends P m Q)
    (h : ∀ s, P s → wp C m Q' E s) : Ends P m fun x s => Q x s ∧ Q' x s := by
  intro s hs
  have hend := hm s hs
  have hwp := h s hs
  unfold wp at hwp
  cases hrun : m s with
  | ok x s' =>
      rw [hrun] at hend hwp
      exact ⟨hend, hwp⟩
  | error x s' => trivial
  | fault s' => trivial
  | starved s' =>
      rw [hrun] at hend
      exact hend.elim

end Ends

/-! ## Code with fuel -/

/-- From some fuel on, the two runs are one that ends by itself. -/
def Settles (m m' : ℕ → Run σ ε α) (Q : α → σ → Prop) (s : σ) : Prop :=
  ∃ N, ∃ o : Outcome σ ε α, o.Ended Q ∧ ∀ n, N ≤ n → m n s = o ∧ m' n s = o

/-- From every state with `P`. -/
def Settled (P : σ → Prop) (m m' : ℕ → Run σ ε α) (Q : α → σ → Prop) : Prop :=
  ∀ s, P s → Settles m m' Q s

section Settled

variable {P P' : σ → Prop} {Q Q' : α → σ → Prop} {R : β → σ → Prop} {m m' m'' : ℕ → Run σ ε α}
  {k k' : ℕ → α → Run σ ε β}

lemma Ends.settled {m : Run σ ε α} (h : Ends P m Q) : Settled P (fun _ => m) (fun _ => m) Q :=
  fun s hs => ⟨0, m s, h s hs, fun _ _ => ⟨rfl, rfl⟩⟩

lemma Settled.bind (hm : Settled P m m' Q) (hk : ∀ x, Settled (Q x) (k · x) (k' · x) R) :
    Settled P (fun n => m n >>= k n) (fun n => m' n >>= k' n) R := by
  intro s hs
  obtain ⟨N, o, ho, hrun⟩ := hm s hs
  cases o with
  | ok x s1 =>
      obtain ⟨N', o', ho', hrun'⟩ := hk x s1 ho
      refine ⟨max N N', o', ho', fun n hn => ?_⟩
      obtain ⟨h1, h2⟩ := hrun n (le_trans (le_max_left N N') hn)
      obtain ⟨h3, h4⟩ := hrun' n (le_trans (le_max_right N N') hn)
      exact ⟨(bind_of_ok h1).trans h3, (bind_of_ok h2).trans h4⟩
  | error x s1 =>
      refine ⟨N, .error x s1, trivial, fun n hn => ?_⟩
      obtain ⟨h1, h2⟩ := hrun n hn
      exact ⟨bind_of_error h1, bind_of_error h2⟩
  | fault s1 =>
      refine ⟨N, .fault s1, trivial, fun n hn => ?_⟩
      obtain ⟨h1, h2⟩ := hrun n hn
      show Run.bind (m n) (k n) s = _ ∧ Run.bind (m' n) (k' n) s = _
      unfold Run.bind
      rw [h1, h2]
      exact ⟨rfl, rfl⟩
  | starved s1 => exact ho.elim

/-- Code without fuel, and what follows it. -/
lemma Settled.after {m : Run σ ε α} (hm : Ends P m Q) (hk : ∀ x, Settled (Q x) (k · x) (k' · x) R) :
    Settled P (fun n => m >>= k n) (fun n => m >>= k' n) R := hm.settled.bind hk

lemma Settled.get_bind {k k' : ℕ → σ → Run σ ε β} (hk : ∀ s, P s → Settled P (k · s) (k' · s) R) :
    Settled P (fun n => Run.get >>= k n) (fun n => Run.get >>= k' n) R := fun s hs => hk s hs s hs

lemma Settled.onExit {f : σ → σ} (hm : Settled P m m' fun x s => Q x (f s)) :
    Settled P (fun n => Run.onExit (m n) f) (fun n => Run.onExit (m' n) f) Q := by
  intro s hs
  obtain ⟨N, o, ho, hrun⟩ := hm s hs
  refine ⟨N, Run.onExit (fun _ => o) f s, ?_, fun n hn => ?_⟩
  · unfold Run.onExit
    cases o <;> exact ho
  · obtain ⟨h1, h2⟩ := hrun n hn
    have hexit : ∀ l : Run σ ε α, l s = o → Run.onExit l f s = Run.onExit (fun _ => o) f s := by
      intro l hl
      unfold Run.onExit
      rw [hl]
    exact ⟨hexit _ h1, hexit _ h2⟩

/-- Less fuel is not asked about. -/
lemma Settled.succ (h : Settled P (fun n => m (n + 1)) (fun n => m' (n + 1)) Q) : Settled P m m' Q := by
  intro s hs
  obtain ⟨N, o, ho, hrun⟩ := h s hs
  refine ⟨N + 1, o, ho, fun n hn => ?_⟩
  obtain ⟨n, rfl⟩ := Nat.exists_eq_add_of_le' hn
  exact hrun (n + N) (Nat.le_add_left N n)

/-- More fuel does no harm. -/
lemma Settled.shift (h : Settled P m m' Q) :
    Settled P (fun n => m (n + 1)) (fun n => m' (n + 1)) Q := by
  intro s hs
  obtain ⟨N, o, ho, hrun⟩ := h s hs
  exact ⟨N, o, ho, fun n hn => hrun (n + 1) (Nat.le_succ_of_le hn)⟩

lemma Settled.mono (h : Settled P m m' Q) (hP : ∀ s, P' s → P s) (hQ : ∀ x s, Q x s → Q' x s) :
    Settled P' m m' Q' := by
  intro s hs
  obtain ⟨N, o, ho, hrun⟩ := h s (hP s hs)
  exact ⟨N, o, ho.mono hQ, hrun⟩

/-- The watching run may be any that is the same from the states with `P`. -/
lemma Settled.congr (h : Settled P m m' Q) (heq : ∀ n s, P s → m'' n s = m' n s) :
    Settled P m m'' Q := by
  intro s hs
  obtain ⟨N, o, ho, hrun⟩ := h s hs
  refine ⟨N, o, ho, fun n hn => ?_⟩
  rw [heq n s hs]
  exact hrun n hn

/-- Without the watch. -/
lemma Settled.left (h : Settled P m m' Q) : Settled P m m Q := by
  intro s hs
  obtain ⟨N, o, ho, hrun⟩ := h s hs
  exact ⟨N, o, ho, fun n hn => ⟨(hrun n hn).1, (hrun n hn).1⟩⟩

/-- A run that settles, and does nothing undefined whatever its fuel, returns or raises. -/
lemma Settles.answers {s : σ} {Q1 : α → σ → Prop} {E : ε → σ → Prop} (h : Settles m m' Q s)
    (hsafe : ∀ n, wlp (m n) Q1 E s) :
    ∃ N, ∃ o : Outcome σ ε α, o.Answers ∧ o.Ended Q ∧ ∀ n, N ≤ n → m n s = o ∧ m' n s = o := by
  obtain ⟨N, o, ho, hrun⟩ := h
  have hlast := hsafe N
  unfold wlp at hlast
  rw [(hrun N le_rfl).1] at hlast
  refine ⟨N, o, ?_, ho, hrun⟩
  cases o with
  | ok x s' => trivial
  | error x s' => trivial
  | fault s' => exact hlast.elim
  | starved s' => exact ho.elim

/-- Where a test that goes by no fuel splits the code. -/
lemma Settled.ite {p : Prop} [Decidable p] {l l' : ℕ → Run σ ε α} (ht : p → Settled P m m' Q)
    (hf : ¬ p → Settled P l l' Q) :
    Settled P (fun n => if p then m n else l n) (fun n => if p then m' n else l' n) Q := by
  by_cases h : p
  · simpa only [if_pos h] using ht h
  · simpa only [if_neg h] using hf h

end Settled

end Run
