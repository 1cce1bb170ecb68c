import Mathlib

/-!
# Runs of stateful code

The monad that a stateful, fallible program is translated into.  A run from a state ends in one
of four ways: it returns, it raises, it does what the language leaves undefined (`fault`), or the
model stops because its fuel is used up (`starved`).  Every end carries the state it was reached
in, so that what an error path leaves behind can be stated, and what a run did before it was cut
off.
-/

/-- How a run ends. -/
inductive Outcome (σ ε α : Type)
  | ok (a : α) (s : σ)
  | error (e : ε) (s : σ)
  | fault (s : σ)
  | starved (s : σ)

/-- Whether a run returned in a state with `p`. -/
def Outcome.endsWith {σ ε α : Type} (p : σ → Bool) : Outcome σ ε α → Bool
  | .ok _ s => p s
  | _ => false

lemma Outcome.exists_of_endsWith {σ ε α : Type} {p : σ → Bool} {o : Outcome σ ε α}
    (h : o.endsWith p = true) : ∃ a s, o = .ok a s ∧ p s = true := by
  cases o with
  | ok a s => exact ⟨a, s, rfl, h⟩
  | _ => exact absurd h (by simp [endsWith])

/-- Code over the state `σ` that raises errors of type `ε`. -/
def Run (σ ε α : Type) := σ → Outcome σ ε α

namespace Run

variable {σ ε α β γ : Type}

def pure (a : α) : Run σ ε α := fun s => .ok a s

def bind (m : Run σ ε α) (f : α → Run σ ε β) : Run σ ε β := fun s =>
  match m s with
  | .ok a s => f a s
  | .error e s => .error e s
  | .fault s => .fault s
  | .starved s => .starved s

instance : Monad (Run σ ε) where
  pure := Run.pure
  bind := Run.bind

/-- Reads the state. -/
def get : Run σ ε σ := fun s => .ok s s

/-- Changes the state. -/
def modify (f : σ → σ) : Run σ ε Unit := fun s => .ok () (f s)

/-- Raises an error. -/
def throw (e : ε) : Run σ ε α := fun s => .error e s

/-- Undefined behaviour. -/
def fault : Run σ ε α := fun s => .fault s

/-- The model's fuel is used up. -/
def starve : Run σ ε α := fun s => .starved s

/-- A lookup that the code does without a check. -/
def unchecked : Option α → Run σ ε α
  | some a => pure a
  | none => fault

/-- `m`, and then `f` on the state, whether `m` returned or raised. -/
def onExit (m : Run σ ε α) (f : σ → σ) : Run σ ε α := fun s =>
  match m s with
  | .ok a s => .ok a (f s)
  | .error e s => .error e (f s)
  | .fault s => .fault s
  | .starved s => .starved s

/-- `m`, and `f` on the state it raised in, if it raised. -/
def onError (m : Run σ ε α) (f : σ → σ) : Run σ ε α := fun s =>
  match m s with
  | .error e s => .error e (f s)
  | o => o

/-- `m`, with an error it raises as its result. -/
def attempt {ε' : Type} (m : Run σ ε α) : Run σ ε' (Except ε α) := fun s =>
  match m s with
  | .ok a s => .ok (.ok a) s
  | .error e s => .ok (.error e) s
  | .fault s => .fault s
  | .starved s => .starved s

instance : LawfulMonad (Run σ ε) := LawfulMonad.mk' _
  (by
    intro α x
    funext s
    show bind x (fun a => pure a) s = x s
    unfold bind pure
    cases x s <;> rfl)
  (fun _ _ => rfl)
  (by
    intro α β γ x f g
    funext s
    show bind (bind x f) g s = bind x (fun a => bind (f a) g) s
    unfold bind
    cases x s <;> rfl)

/-! ## Execution -/

@[simp] lemma pure_apply (a : α) (s : σ) : (Pure.pure a : Run σ ε α) s = .ok a s := rfl

@[simp] lemma get_apply (s : σ) : (get : Run σ ε σ) s = .ok s s := rfl

@[simp] lemma modify_apply (f : σ → σ) (s : σ) : (modify f : Run σ ε Unit) s = .ok () (f s) := rfl

@[simp] lemma throw_apply (e : ε) (s : σ) : (throw e : Run σ ε α) s = .error e s := rfl

@[simp] lemma unchecked_some (a : α) : (unchecked (some a) : Run σ ε α) = Pure.pure a := rfl

/-- A run whose first part returns goes on with the rest. -/
lemma bind_of_ok {m : Run σ ε α} {f : α → Run σ ε β} {s s' : σ} {a : α} (h : m s = .ok a s') :
    (m >>= f) s = f a s' := by
  show bind m f s = _
  rw [bind, h]

/-- A run whose first part raises ends there. -/
lemma bind_of_error {m : Run σ ε α} {f : α → Run σ ε β} {s s' : σ} {e : ε}
    (h : m s = .error e s') : (m >>= f) s = .error e s' := by
  show bind m f s = _
  rw [bind, h]

lemma onExit_of_ok {m : Run σ ε α} {f : σ → σ} {s s' : σ} {a : α} (h : m s = .ok a s') :
    onExit m f s = .ok a (f s') := by
  rw [onExit, h]

/-! ## Weakest preconditions

`wp C m Q E s`: a run of `m` from `s` that returns meets `Q`, one that raises meets `E`, and one
that is cut off meets `C`, whether by a fault or for want of fuel.  Total correctness is
`C = fun _ => False`, partial correctness `fun _ => True`. -/

def wp (C : σ → Prop) (m : Run σ ε α) (Q : α → σ → Prop) (E : ε → σ → Prop) (s : σ) : Prop :=
  match m s with
  | .ok a s => Q a s
  | .error e s => E e s
  | .fault s => C s
  | .starved s => C s

variable {C : σ → Prop} {Q : α → σ → Prop} {E : ε → σ → Prop} {s : σ}

@[simp] lemma wp_pure (a : α) : wp C (Pure.pure a : Run σ ε α) Q E s ↔ Q a s := Iff.rfl

@[simp] lemma wp_get {Q : σ → σ → Prop} : wp C (get : Run σ ε σ) Q E s ↔ Q s s := Iff.rfl

@[simp] lemma wp_modify {Q : Unit → σ → Prop} (f : σ → σ) :
    wp C (modify f : Run σ ε Unit) Q E s ↔ Q () (f s) := Iff.rfl

@[simp] lemma wp_throw (e : ε) : wp C (throw e : Run σ ε α) Q E s ↔ E e s := Iff.rfl

@[simp] lemma wp_fault : wp C (fault : Run σ ε α) Q E s ↔ C s := Iff.rfl

@[simp] lemma wp_starve : wp C (starve : Run σ ε α) Q E s ↔ C s := Iff.rfl

/-- A lookup that is known to succeed. -/
lemma wp_unchecked {o : Option α} {a : α} (h : o = some a) :
    wp C (unchecked o : Run σ ε α) Q E s ↔ Q a s := by
  subst h
  exact Iff.rfl

/-- Sequential composition. -/
@[simp] lemma wp_bind {m : Run σ ε α} {f : α → Run σ ε β} {Q : β → σ → Prop} :
    wp C (m >>= f) Q E s ↔ wp C m (fun a s => wp C (f a) Q E s) E s := by
  show wp C (bind m f) Q E s ↔ _
  unfold wp bind
  cases m s <;> rfl

@[simp] lemma wp_onExit {m : Run σ ε α} {f : σ → σ} :
    wp C (onExit m f) Q E s ↔ wp C m (fun a s => Q a (f s)) (fun e s => E e (f s)) s := by
  unfold wp onExit
  cases m s <;> rfl

@[simp] lemma wp_onError {m : Run σ ε α} {f : σ → σ} :
    wp C (onError m f) Q E s ↔ wp C m Q (fun e s => E e (f s)) s := by
  unfold wp onError
  cases m s <;> rfl

@[simp] lemma wp_attempt {ε' : Type} {m : Run σ ε α} {Q : Except ε α → σ → Prop}
    {E : ε' → σ → Prop} :
    wp C (attempt m : Run σ ε' (Except ε α)) Q E s ↔
      wp C m (fun a s => Q (.ok a) s) (fun e s => Q (.error e) s) s := by
  unfold wp attempt
  cases m s <;> rfl

/-- The first part of a run is known. -/
lemma wp_bind_of_ok {m : Run σ ε α} {f : α → Run σ ε β} {Q : β → σ → Prop} {a : α} {s' : σ}
    (h : m s = .ok a s') : wp C (m >>= f) Q E s ↔ wp C (f a) Q E s' := by
  unfold wp
  rw [bind_of_ok h]

/-- Weakening of the postconditions. -/
lemma wp.mono {C' : σ → Prop} {m : Run σ ε α} {Q' : α → σ → Prop} {E' : ε → σ → Prop}
    (h : wp C m Q E s) (hQ : ∀ a s, Q a s → Q' a s) (hE : ∀ e s, E e s → E' e s)
    (hC : ∀ s, C s → C' s) : wp C' m Q' E' s := by
  unfold wp at h ⊢
  cases hm : m s with
  | ok a s' => rw [hm] at h; exact hQ a s' h
  | error e s' => rw [hm] at h; exact hE e s' h
  | fault s' => rw [hm] at h; exact hC s' h
  | starved s' => rw [hm] at h; exact hC s' h

/-- A totally correct run returns or raises. -/
lemma wp.cases {m : Run σ ε α} (h : wp (fun _ => False) m Q E s) :
    (∃ a s', m s = .ok a s' ∧ Q a s') ∨ ∃ e s', m s = .error e s' ∧ E e s' := by
  unfold wp at h
  cases hm : m s with
  | ok a s' => rw [hm] at h; exact Or.inl ⟨a, s', rfl, h⟩
  | error e s' => rw [hm] at h; exact Or.inr ⟨e, s', rfl, h⟩
  | fault s' => rw [hm] at h; exact h.elim
  | starved s' => rw [hm] at h; exact h.elim

/-- What a run that returned met. -/
lemma wp.of_ok {m : Run σ ε α} {a : α} {s' : σ} (h : wp C m Q E s) (hm : m s = .ok a s') :
    Q a s' := by
  unfold wp at h
  rwa [hm] at h

/-- A run that meets two pairs of postconditions meets both. -/
lemma wp.and {C' : σ → Prop} {m : Run σ ε α} {Q' : α → σ → Prop} {E' : ε → σ → Prop}
    (h : wp C m Q E s) (h' : wp C' m Q' E' s) :
    wp C m (fun a s => Q a s ∧ Q' a s) (fun e s => E e s ∧ E' e s) s := by
  unfold wp at h h' ⊢
  cases hm : m s <;> rw [hm] at h h' <;> first | exact ⟨h, h'⟩ | exact h

/-- For partial correctness nothing need be known of a first step. -/
lemma wp_bind_any {m : Run σ ε α} {k : α → Run σ ε β} {Q : β → σ → Prop}
    (h : ∀ a s', wp (fun _ => True) (k a) Q (fun _ _ => True) s') (s : σ) :
    wp (fun _ => True) (m >>= k) Q (fun _ _ => True) s := by
  rw [wp_bind]
  unfold wp
  cases m s with
  | ok a s' => exact h a s'
  | error e s' => trivial
  | fault s' => trivial
  | starved s' => trivial

/-- Partial correctness is about the runs that return. -/
lemma wp_of_returns {m : Run σ ε α} (h : ∀ a s', m s = .ok a s' → Q a s') :
    wp (fun _ => True) m Q (fun _ _ => True) s := by
  unfold wp
  cases hm : m s with
  | ok a s' => exact h a s' hm
  | error e s' => trivial
  | fault s' => trivial
  | starved s' => trivial

/-! ## Partial correctness

`wlp m Q E s`: a run of `m` from `s` does nothing undefined; if it returns it meets `Q`, and if it
raises, `E`.  Nothing is said of a run that is cut off for want of fuel. -/

def wlp (m : Run σ ε α) (Q : α → σ → Prop) (E : ε → σ → Prop) (s : σ) : Prop :=
  match m s with
  | .ok a s => Q a s
  | .error e s => E e s
  | .fault _ => False
  | .starved _ => True

@[simp] lemma wlp_pure (a : α) : wlp (Pure.pure a : Run σ ε α) Q E s ↔ Q a s := Iff.rfl

@[simp] lemma wlp_get {Q : σ → σ → Prop} : wlp (get : Run σ ε σ) Q E s ↔ Q s s := Iff.rfl

@[simp] lemma wlp_modify {Q : Unit → σ → Prop} (f : σ → σ) :
    wlp (modify f : Run σ ε Unit) Q E s ↔ Q () (f s) := Iff.rfl

@[simp] lemma wlp_throw (e : ε) : wlp (throw e : Run σ ε α) Q E s ↔ E e s := Iff.rfl

@[simp] lemma wlp_bind {m : Run σ ε α} {f : α → Run σ ε β} {Q : β → σ → Prop} :
    wlp (m >>= f) Q E s ↔ wlp m (fun a s => wlp (f a) Q E s) E s := by
  show wlp (bind m f) Q E s ↔ _
  unfold wlp bind
  cases m s <;> rfl

@[simp] lemma wlp_onExit {m : Run σ ε α} {f : σ → σ} :
    wlp (onExit m f) Q E s ↔ wlp m (fun a s => Q a (f s)) (fun e s => E e (f s)) s := by
  unfold wlp onExit
  cases m s <;> rfl

lemma wlp.mono {m : Run σ ε α} {Q' : α → σ → Prop} {E' : ε → σ → Prop} (h : wlp m Q E s)
    (hQ : ∀ a s, Q a s → Q' a s) (hE : ∀ e s, E e s → E' e s) : wlp m Q' E' s := by
  unfold wlp at h ⊢
  cases hm : m s with
  | ok a s' => rw [hm] at h; exact hQ a s' h
  | error e s' => rw [hm] at h; exact hE e s' h
  | fault s' => rw [hm] at h; exact h
  | starved s' => trivial

/-- Total correctness is partial correctness. -/
lemma wp.wlp {m : Run σ ε α} (h : wp (fun _ => False) m Q E s) : wlp m Q E s := by
  unfold Run.wp at h
  unfold Run.wlp
  cases hm : m s with
  | ok a s' => rw [hm] at h; exact h
  | error e s' => rw [hm] at h; exact h
  | fault s' => rw [hm] at h; exact h
  | starved s' => trivial

/-- What is known wherever the run ends is known besides. -/
lemma wlp.and {m : Run σ ε α} {Q' : α → σ → Prop} {E' : ε → σ → Prop} {C : σ → Prop}
    (h : wlp m Q E s) (h' : wp C m Q' E' s) :
    wlp m (fun a s => Q a s ∧ Q' a s) (fun e s => E e s ∧ E' e s) s := by
  unfold Run.wlp Run.wp at *
  cases hm : m s <;> rw [hm] at h h' <;> first | exact ⟨h, h'⟩ | exact h

/-! ## Frames

The part of the state that a run leaves as it was. -/

/-- Wherever a run of `m` ends, `f` of the state is what it was at the start. -/
def Preserves {τ : Type} (f : σ → τ) (m : Run σ ε α) : Prop :=
  ∀ s, wp (fun s' => f s' = f s) m (fun _ s' => f s' = f s) (fun _ s' => f s' = f s) s

section Preserves

variable {τ : Type} {f : σ → τ} {m : Run σ ε α} {k : α → Run σ ε β}

lemma Preserves.pure (a : α) : Preserves f (Pure.pure a : Run σ ε α) := fun _ => rfl

lemma Preserves.get : Preserves f (get : Run σ ε σ) := fun _ => rfl

lemma Preserves.throw (e : ε) : Preserves f (throw e : Run σ ε α) := fun _ => rfl

lemma Preserves.fault : Preserves f (fault : Run σ ε α) := fun _ => rfl

lemma Preserves.starve : Preserves f (starve : Run σ ε α) := fun _ => rfl

lemma Preserves.unchecked : ∀ o : Option α, Preserves f (unchecked o : Run σ ε α)
  | some a => .pure a
  | none => .fault

lemma Preserves.modify {g : σ → σ} (h : ∀ s, f (g s) = f s) :
    Preserves f (modify g : Run σ ε Unit) := h

lemma Preserves.bind (hm : Preserves f m) (hk : ∀ a, Preserves f (k a)) : Preserves f (m >>= k) := by
  intro s
  rw [wp_bind]
  refine (hm s).mono ?_ (fun _ _ h => h) fun _ h => h
  intro a s' h
  exact (hk a s').mono (fun _ _ h' => h'.trans h) (fun _ _ h' => h'.trans h) fun _ h' => h'.trans h

lemma Preserves.onExit (hm : Preserves f m) {g : σ → σ} (h : ∀ s, f (g s) = f s) :
    Preserves f (onExit m g) := by
  intro s
  have h' : wp (fun s' => f s' = f s) m (fun _ s' => f (g s') = f s) (fun _ s' => f (g s') = f s) s :=
    (hm s).mono (fun _ s' h' => (h s').trans h') (fun _ s' h' => (h s').trans h') fun _ h' => h'
  unfold wp Run.onExit at *
  cases hs : m s <;> rw [hs] at h' <;> exact h'

/-- What is kept of the state may be seen through `g`. -/
lemma Preserves.map {υ : Type} (hm : Preserves f m) (g : τ → υ) : Preserves (g ∘ f) m :=
  fun s => (hm s).mono (fun _ _ h => congrArg g h) (fun _ _ h => congrArg g h)
    fun _ h => congrArg g h

/-- A run with postconditions keeps its frame besides. -/
lemma wp.frame (h : wp C m Q E s) (hm : Preserves f m) :
    wp C m (fun a s' => Q a s' ∧ f s' = f s) (fun e s' => E e s' ∧ f s' = f s) s :=
  h.and (hm s)

end Preserves

/-! ## Runs that always return -/

/-- From every state, the run returns. -/
def Returns (m : Run σ ε α) : Prop := ∀ s, ∃ x s', m s = .ok x s'

section Returns

variable {m : Run σ ε α} {k : α → Run σ ε β}

lemma Returns.pure (a : α) : Returns (Pure.pure a : Run σ ε α) := fun s => ⟨a, s, rfl⟩

lemma Returns.get : Returns (get : Run σ ε σ) := fun s => ⟨s, s, rfl⟩

lemma Returns.modify (g : σ → σ) : Returns (modify g : Run σ ε Unit) := fun s => ⟨(), g s, rfl⟩

lemma Returns.bind (hm : Returns m) (hk : ∀ a, Returns (k a)) : Returns (m >>= k) := by
  intro s
  obtain ⟨x, s', h⟩ := hm s
  rw [bind_of_ok h]
  exact hk x s'

lemma Returns.wp (hm : Returns m) (s : σ) : wp C m (fun _ _ => True) E s := by
  obtain ⟨x, s', h⟩ := hm s
  unfold Run.wp
  rw [h]
  trivial

end Returns

/-! ## Two runs

`Both m m' Q E s t`: the runs of `m` from `s` and of `m'` from `t` end the same way, with results
and states that `Q` relates if they return, and states that `E` relates if they raise. -/

section Both

variable {τ ε' α' β' : Type} {m : Run σ ε α} {m' : Run τ ε' α'} {k : α → Run σ ε β}
  {k' : α' → Run τ ε' β'} {P : α → σ → α' → τ → Prop} {Q : β → σ → β' → τ → Prop} {E : σ → τ → Prop}
  {s : σ} {t : τ}

def Both (m : Run σ ε α) (m' : Run τ ε' α') (Q : α → σ → α' → τ → Prop) (E : σ → τ → Prop) (s : σ)
    (t : τ) : Prop :=
  match m s, m' t with
  | .ok a s, .ok b t => Q a s b t
  | .error _ s, .error _ t => E s t
  | .fault _, .fault _ => True
  | .starved _, .starved _ => True
  | _, _ => False

lemma Both.pure {x : α} {y : α'} (h : P x s y t) :
    Both (Pure.pure x : Run σ ε α) (Pure.pure y : Run τ ε' α') P E s t := h

lemma Both.throw {x : ε} {y : ε'} (h : E s t) :
    Both (Run.throw x : Run σ ε α) (Run.throw y : Run τ ε' α') P E s t := h

lemma Both.bind (hm : Both m m' P E s t)
    (hk : ∀ x s1 y t1, P x s1 y t1 → Both (k x) (k' y) Q E s1 t1) :
    Both (m >>= k) (m' >>= k') Q E s t := by
  show Both (Run.bind m k) (Run.bind m' k') Q E s t
  unfold Both Run.bind at *
  cases hs : m s <;> cases ht : m' t <;> rw [hs, ht] at hm <;>
    first | exact hk _ _ _ _ hm | exact False.elim hm | exact hm

lemma Both.bind_of_ok {x : α} {y : α'} {s1 : σ} {t1 : τ} (hs : m s = .ok x s1) (ht : m' t = .ok y t1)
    (h : Both (k x) (k' y) Q E s1 t1) : Both (m >>= k) (m' >>= k') Q E s t := by
  unfold Both at *
  rwa [Run.bind_of_ok hs, Run.bind_of_ok ht]

lemma Both.get_bind {k : σ → Run σ ε β} {k' : τ → Run τ ε' β'} (h : Both (k s) (k' t) Q E s t) :
    Both (Run.get >>= k) (Run.get >>= k') Q E s t := h

lemma Both.modify_bind {f : σ → σ} {g : τ → τ} {k : Unit → Run σ ε β} {k' : Unit → Run τ ε' β'}
    (h : Both (k ()) (k' ()) Q E (f s) (g t)) :
    Both (Run.modify f >>= k) (Run.modify g >>= k') Q E s t := h

lemma Both.onExit {f : σ → σ} {g : τ → τ}
    (h : Both m m' (fun x s1 y t1 => P x (f s1) y (g t1)) (fun s1 t1 => E (f s1) (g t1)) s t) :
    Both (Run.onExit m f) (Run.onExit m' g) P E s t := by
  unfold Both Run.onExit at *
  cases hs : m s <;> cases ht : m' t <;> rw [hs, ht] at h <;> exact h

lemma Both.mono {P' : α → σ → α' → τ → Prop} {E' : σ → τ → Prop} (h : Both m m' P E s t)
    (hP : ∀ x s1 y t1, P x s1 y t1 → P' x s1 y t1) (hE : ∀ s1 t1, E s1 t1 → E' s1 t1) :
    Both m m' P' E' s t := by
  unfold Both at *
  cases hs : m s <;> cases ht : m' t <;> rw [hs, ht] at h <;>
    first | exact hP _ _ _ _ h | exact hE _ _ h | exact h

/-- What is known of each run by itself. -/
lemma Both.and {C : σ → Prop} {C' : τ → Prop} {Q1 : α → σ → Prop} {E1 : ε → σ → Prop}
    {Q2 : α' → τ → Prop} {E2 : ε' → τ → Prop} (h : Both m m' P E s t) (h1 : wp C m Q1 E1 s)
    (h2 : wp C' m' Q2 E2 t) :
    Both m m' (fun x s1 y t1 => P x s1 y t1 ∧ Q1 x s1 ∧ Q2 y t1) E s t := by
  unfold Both wp at *
  cases hs : m s <;> cases ht : m' t <;> rw [hs, ht] at h <;> rw [hs] at h1 <;> rw [ht] at h2 <;>
    first | exact ⟨h, h1, h2⟩ | exact h

/-- Two runs that both meet their postconditions without a fault. -/
lemma Both.of_wp {Q1 : α → σ → Prop} {Q2 : α' → τ → Prop}
    (h1 : wp (fun _ => False) m Q1 (fun _ _ => False) s)
    (h2 : wp (fun _ => False) m' Q2 (fun _ _ => False) t) :
    Both m m' (fun x s1 y t1 => Q1 x s1 ∧ Q2 y t1) E s t := by
  unfold Both wp at *
  cases hs : m s <;> rw [hs] at h1 <;> first | exact h1.elim | skip
  cases ht : m' t <;> rw [ht] at h2 <;> first | exact h2.elim | exact ⟨h1, h2⟩

end Both

end Run
