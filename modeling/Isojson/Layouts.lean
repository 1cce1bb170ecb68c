import Isojson.Requests

/-!
# Layouts

What the encoder relies on when it reads the fields of an object without a check: the layout of an
object is fixed when the object is made, and the types that it recognizes have the layouts that
their C structs have.
-/

namespace Isojson

variable {Obj H : Type} {a : Allocator}

/-- The layouts of objects. -/
inductive Layout
  | none
  | bool
  | int
  | float
  | str
  | list
  | dict
  | tuple
  | datetime
  | date
  | time
  | delta
  | capsule
  | scalar
  | other

def Body.layout : Body Obj → Layout
  | .none => .none
  | .bool _ => .bool
  | .int _ => .int
  | .float _ => .float
  | .str _ => .str
  | .list _ => .list
  | .dict _ => .dict
  | .tuple => .tuple
  | .datetime _ _ _ => .datetime
  | .date _ => .date
  | .time _ _ => .time
  | .delta _ => .delta
  | .capsule _ => .capsule
  | .scalar _ => .scalar
  | .other => .other

/-! ## Recognized types -/

/-- Objects of the datetime types are laid out as such. -/
structure DtTypes.Fits (rt : Runtime Obj H) (dt : DtTypes Obj) : Prop where
  datetime : ∀ h o, (rt.view h o).cls = some dt.datetime → (rt.view h o).body.layout = .datetime
  date : ∀ h o, (rt.view h o).cls = some dt.date → (rt.view h o).body.layout = .date
  time : ∀ h o, (rt.view h o).cls = some dt.time → (rt.view h o).body.layout = .time

variable [DecidableEq Obj]

/-- Objects of the scalar types hold an element behind their header. -/
def NumpyTypes.Fits (rt : Runtime Obj H) (np : NumpyTypes Obj) : Prop :=
  ∀ h o elem, np.scalar (rt.view h o).cls = some elem → (rt.view h o).body.layout = .scalar

structure TypeCache.Fits (rt : Runtime Obj H) (c : TypeCache Obj) : Prop where
  dt : ∀ g ∈ c.dt, g.2.Fits rt
  np : ∀ g ∈ c.np, g.2.Fits rt

/-- The layouts as CPython and numpy have them.  A nested call may fill the type cache too. -/
structure Runtime.Layouts (rt : Runtime Obj H) : Prop where
  fixed : ∀ h h' o, (rt.view h' o).body.layout = (rt.view h o).body.layout
  datetimeApi : ∀ h cap, ∀ dt ∈ rt.datetimeApi h cap, dt.Fits rt
  readNumpy : ∀ h d np, rt.readNumpy h d = .ok (some np) → np.Fits rt
  reply : ∀ c w, w.types.Fits rt → (rt.reply c w).2.types.Fits rt

/-- An object is laid out so. -/
def Runtime.IsLaidOut (rt : Runtime Obj H) (l : Layout) (o : Obj) : Prop :=
  ∀ h, (rt.view h o).body.layout = l

omit [DecidableEq Obj] in
lemma TypeCache.fits_empty [DecidableEq Obj] (rt : Runtime Obj H) :
    TypeCache.Fits rt (⟨none, none⟩ : TypeCache Obj) :=
  ⟨fun _ h => absurd h (Option.not_mem_none _), fun _ h => absurd h (Option.not_mem_none _)⟩

/-- A snapshot has no modules, so nothing is recognized in it. -/
lemma Snapshot.layouts (t : Snapshot Obj) : t.runtime.Layouts where
  fixed _ _ _ := rfl
  datetimeApi _ _ _ h := absurd h (Option.not_mem_none _)
  readNumpy _ _ np h := absurd h (by simp [Runtime.readNumpy, Runtime.readNames, runtime, Except.map])
  reply _ _ h := h

namespace Runtime.Layouts

variable {rt : Runtime Obj H} (hl : rt.Layouts)

include hl

lemma isLaidOut {l : Layout} {h : H} {o : Obj} (hb : (rt.view h o).body.layout = l) :
    rt.IsLaidOut l o := fun h' => (hl.fixed h h' o).trans hb

/-- The datetime group that a lookup finds fits, and so does the cache that it leaves. -/
lemma datetime (h : H) {c : TypeCache Obj} (hc : c.Fits rt) :
    (c.datetime rt h).2.Fits rt ∧
      ∀ r, (c.datetime rt h).1 = .ok r → ∀ dt ∈ r, dt.Fits rt := by
  unfold TypeCache.datetime
  split
  · next owner dt hdt =>
    refine ⟨hc, ?_⟩
    rintro _ ⟨⟩ _ ⟨⟩
    exact hc.dt _ hdt
  · unfold loadDatetime
    split
    · exact ⟨hc, fun _ h => nomatch h⟩
    · refine ⟨hc, ?_⟩
      rintro _ ⟨⟩ _ hdt
      exact absurd hdt (Option.not_mem_none _)
    · next cap hcap =>
      split
      · refine ⟨hc, ?_⟩
        rintro _ ⟨⟩ _ hdt
        exact absurd hdt (Option.not_mem_none _)
      · next dt hdt =>
        have hfits := hl.datetimeApi h cap dt hdt
        refine ⟨⟨?_, hc.np⟩, ?_⟩
        · rintro _ ⟨⟩
          exact hfits
        · rintro _ ⟨⟩ _ ⟨⟩
          exact hfits

lemma reloadNumpy (h : H) {c : TypeCache Obj} (hc : c.Fits rt) (ty : Option Obj) (module : Obj) :
    (c.reloadNumpy rt h ty module).2.Fits rt ∧
      ∀ r, (c.reloadNumpy rt h ty module).1 = .ok r → ∀ np ∈ r, np.Fits rt := by
  have hdropped : TypeCache.Fits rt { c with np := none } :=
    ⟨hc.dt, fun _ h => absurd h (Option.not_mem_none _)⟩
  have hnone : ∀ r, (.ok none : Except Obj (Option (NumpyTypes Obj))) = .ok r →
      ∀ np ∈ r, np.Fits rt := by
    rintro _ ⟨⟩ _ h
    exact absurd h (Option.not_mem_none _)
  unfold TypeCache.reloadNumpy
  dsimp only
  split
  · exact ⟨hdropped, hnone⟩
  · next d hd =>
    split
    · exact ⟨hdropped, fun _ h => nomatch h⟩
    · exact ⟨hdropped, hnone⟩
    · next np hnp =>
      have hfits := hl.readNumpy h d np hnp
      refine ⟨⟨hc.dt, ?_⟩, ?_⟩
      · rintro _ ⟨⟩
        exact hfits
      · split
        · rintro _ ⟨⟩ _ ⟨⟩
          exact hfits
        · exact hnone

omit hl in
lemma numpyHit {c : TypeCache Obj} (hc : c.Fits rt) {ty : Option Obj} :
    ∀ np ∈ c.numpyHit ty, np.Fits rt := by
  unfold TypeCache.numpyHit
  split
  · next owner np hnp =>
    split
    · rintro _ ⟨⟩
      exact hc.np _ hnp
    · exact fun _ h => absurd h (Option.not_mem_none _)
  · exact fun _ h => absurd h (Option.not_mem_none _)

/-- The numpy group that a lookup finds fits, and so does the cache that it leaves. -/
lemma numpy (h : H) {c : TypeCache Obj} (hc : c.Fits rt) (ty : Option Obj) :
    (c.numpy rt h ty).2.Fits rt ∧ ∀ r, (c.numpy rt h ty).1 = .ok r → ∀ np ∈ r, np.Fits rt := by
  have hnone : ∀ r, (.ok none : Except Obj (Option (NumpyTypes Obj))) = .ok r →
      ∀ np ∈ r, np.Fits rt := by
    rintro _ ⟨⟩ _ h
    exact absurd h (Option.not_mem_none _)
  unfold TypeCache.numpy
  split
  · next np hnp =>
    refine ⟨hc, ?_⟩
    rintro _ ⟨⟩ _ ⟨⟩
    exact numpyHit hc _ hnp
  · split
    · exact ⟨hc, fun _ h => nomatch h⟩
    · exact ⟨hc, hnone⟩
    · split
      · exact ⟨hc, hnone⟩
      · exact hl.reloadNumpy h hc ty _

end Runtime.Layouts

/-! ## Steady states -/

/-- The recognized types fit, in the cache and in the encoder. -/
structure Steady (rt : Runtime Obj H) (s : St Obj H a) : Prop where
  types : s.world.types.Fits rt
  dt : ∀ dt ∈ s.dt, dt.Fits rt

lemma Asked.fits {rt : Runtime Obj H} (hl : rt.Layouts) {s s' : St Obj H a} (h : Asked rt s s')
    (hs : s.world.types.Fits rt) : s'.world.types.Fits rt :=
  Runtime.Reach.keeps (P := fun w => w.types.Fits rt) hl.reply h.world hs

/-- Requests keep a state steady. -/
lemma Asked.steady {rt : Runtime Obj H} (hl : rt.Layouts) {s s' : St Obj H a} (h : Asked rt s s')
    (hs : Steady rt s) : Steady rt s' := by
  refine ⟨h.fits hl hs.types, ?_⟩
  have hdt : s'.dt = s.dt := congrArg (fun f => f.2.2.2.1) h.frame
  rw [hdt]
  exact hs.dt

end Isojson
