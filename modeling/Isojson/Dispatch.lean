import Isojson.Stages

/-!
# What objects are read as

The encoder puts out the text of what each object is read as (`Env.yields_serialize`).  Where no writer
of its own takes an object, it is read as what `default` answers for it.
-/

namespace Isojson

open Json Run

variable {Obj H : Type} {a : Allocator}

namespace Env

variable [DecidableEq Obj] {e : Env Obj H} {sc : Scene Obj H} {d k : ℕ} {c t : Bytes} {l : List Obj}
  {s s' : St Obj H a}

/-! ## `default` -/

section Default

variable {self : Obj → Encode Obj H a Unit} {rd : ℕ → ℕ → Obj → Reading Obj Doc} {obj : Obj} {f : Obj}

lemma readShape_noDefault (hdefault : e.default = none) :
    (e.reader sc).readShape rd d k obj .foreign = .fail := by
  have hreplace : (e.reader sc).replace = none := congrArg (Option.map _) hdefault
  rw [Reader.readShape, Reader.replacement, hreplace]
  rfl

lemma readShape_default (hdefault : e.default = some f) :
    (e.reader sc).readShape rd d k obj .foreign =
      if k < MAX_DEFAULT_DEPTH then
        match e.rt.answer sc.heap (.default obj) with
        | .ok r => ⟨obj :: (rd d (k + 1) r).replaced, (rd d (k + 1) r).result⟩
        | .raised _ => ⟨[obj], none⟩
      else .fail := by
  have hreplace : (e.reader sc).replace = some fun x => match e.rt.answer sc.heap (.default x) with
      | .ok r => some r
      | .raised _ => none := congrArg (Option.map _) hdefault
  have hmax : (e.reader sc).maxChain = MAX_DEFAULT_DEPTH := rfl
  rw [Reader.readShape, Reader.replacement, hreplace]
  dsimp only
  rw [hmax]
  by_cases hk : k < MAX_DEFAULT_DEPTH
  · rw [if_pos hk, if_pos hk]
    cases e.rt.answer sc.heap (.default obj) <;> rfl
  · rw [if_neg hk, if_neg hk]
    rfl

/-- The call is on record. -/
lemma Stage.called (hs : e.Stage sc d k c l s) (obj : Obj) :
    e.Stage sc d k c (l ++ [obj]) { s with log := s.log ++ [.python e.guard (.default obj)] } := by
  refine ⟨hs.reached.logged _, ⟨hs.past.cached, ?_⟩, hs.dt, hs.missing, hs.chain⟩
  have h := hs.past.defaulted
  unfold St.defaulted at h ⊢
  rw [List.filterMap_append, h]
  rfl

lemma yields_serializeDefaultResult {β : Type} {text : β → Bytes} {r : Obj} {m : Reading Obj β}
    (hself : e.Yields sc d (k + 1) text (self r) m) :
    e.Yields sc d k text (serializeDefaultResult self r) m := by
  intro c l s hs
  unfold serializeDefaultResult
  rw [wp_bind, wp_modify, wp_onExit]
  have hchain : s.defaultDepth + 1 = k + 1 := congrArg (· + 1) hs.chain
  have hdeeper : e.Stage sc d (k + 1) c l { s with defaultDepth := s.defaultDepth + 1 } :=
    ⟨⟨hs.reached.content, hs.reached.depth, hs.reached.calm, hs.reached.heap⟩, hs.past.of_eq rfl rfl,
      hs.dt, hs.missing, hchain⟩
  refine (hself c l _ hdeeper).mono ?_ ?_ fun _ h => h
  · rintro _ s1 ⟨y, hy, hs1⟩
    refine ⟨y, hy, Stage.dropped (s := { s1 with defaultDepth := s1.defaultDepth - 1 }) ?_ r⟩
    exact ⟨⟨hs1.reached.content, hs1.reached.depth, hs1.reached.calm, hs1.reached.heap⟩,
      hs1.past.of_eq rfl rfl, hs1.dt, hs1.missing, congrArg (· - 1) hs1.chain⟩
  · rintro _ s1 ⟨hnone, hpast⟩
    refine ⟨hnone, hpast.of_eq rfl ?_⟩
    exact St.defaulted_logged { s1 with defaultDepth := s1.defaultDepth - 1 } rfl

lemma wp_invokeDefault (hrt : e.rt.SideEffectFree) (hs : e.Stage sc d k c l s)
    {Q : Except DefaultError Obj → St Obj H a → Prop} {E : PendingPyErr → St Obj H a → Prop}
    (hok : ∀ r s', k < MAX_DEFAULT_DEPTH → e.rt.answer sc.heap (.default obj) = .ok r →
      e.Stage sc d k c (l ++ [obj]) s' → Q (.ok r) s')
    (hraised : ∀ exc s', k < MAX_DEFAULT_DEPTH → e.rt.answer sc.heap (.default obj) = .raised exc →
      e.Past sc (l ++ [obj]) s' → Q (.error .raised) s')
    (hdeep : ∀ s', ¬ k < MAX_DEFAULT_DEPTH → e.Past sc l s' → Q (.error .tooDeep) s') :
    wp (fun _ => True) (e.invokeDefault obj) Q E s := by
  unfold invokeDefault
  rw [wp_bind, wp_get, hs.chain]
  by_cases hk : k < MAX_DEFAULT_DEPTH
  · have hcalled := (hs.read obj).called obj
    have hrequest : wp (fun _ => True) (e.request (.default obj))
        (fun o s' => (∃ r, o = some r ∧ e.rt.answer sc.heap (.default obj) = .ok r ∧
            At (fun h => h = sc.heap) d c s') ∨
          (o = none ∧ ∃ exc, e.rt.answer sc.heap (.default obj) = .raised exc))
        (fun _ _ => False) { s with
          log := s.log ++ [.read (.obj obj)] ++ [.python e.guard (.default obj)] } :=
      wp_request_answer hrt hcalled.reached (fun o s' ho hs' => Or.inl ⟨o, rfl, ho, hs'⟩)
        fun exc s' hexc => Or.inr ⟨rfl, exc, hexc⟩
    rw [if_neg (Nat.not_le_of_lt hk), wp_bind, wp_event]
    unfold Host.call
    rw [bind_assoc, wp_bind, wp_event, wp_bind]
    refine (hrequest.frame (Host.keeps_request hrt _)).mono ?_ (fun _ _ h => h.1.elim) fun _ h => h
    rintro o s1 ⟨⟨r, rfl, hr, hput⟩ | ⟨rfl, exc, hexc⟩, hsetting⟩
    · exact hok r s1 hk hr (hcalled.of_setting hput hsetting)
    · have hpast := hcalled.past.of_setting hsetting
      dsimp only
      rw [wp_bind, Host.wp_look, wp_bind]
      have hraise := (e.raiseTypeErrorFromCurrent_spec (C := fun _ => True) (E := fun _ _ => False)
        (notSerializable (e.rt.view s1.world.heap obj)) { s1 with
          log := s1.log ++ [.read (.obj obj)] }).frame (Host.keeps_raiseTypeErrorFromCurrent hrt _)
      refine hraise.mono ?_ (fun _ _ h => h.1.elim) fun _ h => h
      rintro _ s2 ⟨-, hsetting2⟩
      have hread : e.Past sc (l ++ [obj]) { s1 with log := s1.log ++ [.read (.obj obj)] } :=
        hpast.of_eq rfl (s1.defaulted_logged rfl)
      exact hraised exc s2 hk hexc (hread.of_setting hsetting2)
  · have hraise := (e.raiseTypeError_spec (C := fun _ => True) (E := fun _ _ => False)
      "default serializer exceeds recursion limit" s).frame (Host.keeps_raiseTypeError hrt _)
    rw [if_pos (Nat.le_of_not_lt hk), wp_bind]
    refine hraise.mono ?_ (fun _ _ h => h.1.elim) fun _ h => h
    rintro _ s1 ⟨-, hsetting⟩
    exact hdeep s1 hk (hs.past.of_setting hsetting)

/-- What is done before an error is raised keeps the record of the calls. -/
lemma wp_thenThrow {α : Type} {m : Encode Obj H a α} (hkeeps : Keeps m) {x : PendingPyErr}
    {Q : Unit → St Obj H a → Prop} (hpast : e.Past sc l s) :
    wp (fun _ => True) (m >>= fun _ => Run.throw x) Q (fun _ s' => e.Past sc l s') s := by
  rw [wp_bind]
  exact (hkeeps s).mono (fun _ _ h => hpast.of_setting h) (fun _ _ h => hpast.of_setting h)
    fun _ _ => trivial

variable (hrt : e.rt.SideEffectFree)
  (hself : ∀ d k o, e.Yields sc d k (Doc.render e.indent d) (self o) (rd d k o))

include hrt hself

/-- `default`, and what its errors are followed by. -/
lemma wp_default (hdefault : e.default = some f) (hs : e.Stage sc d k c l s)
    {raised : Encode Obj H a Unit} (hraised : Keeps raised)
    {m : Except DefaultError Obj → Encode Obj H a Unit}
    (hok : ∀ r, m (.ok r) = serializeDefaultResult self r)
    (herror : m (.error .raised) = raised >>= fun _ => Run.throw ⟨⟩)
    (hdeep : m (.error .tooDeep) = Run.throw ⟨⟩) :
    wp (fun _ => True) (e.invokeDefault obj >>= m)
      (fun _ s' => e.Yielded sc d k (Doc.render e.indent d) c l
        ((e.reader sc).readShape rd d k obj .foreign) s')
      (fun _ s' => e.Failed sc l ((e.reader sc).readShape rd d k obj .foreign) s') s := by
  rw [readShape_default hdefault, wp_bind]
  refine wp_invokeDefault hrt hs (fun r s1 hk hr hs1 => ?_) (fun exc s1 hk hexc hpast => ?_)
    fun s1 hk hpast => ?_
  · rw [if_pos hk, hr, hok]
    refine (yields_serializeDefaultResult (hself d (k + 1) r) c _ s1 hs1).mono ?_ ?_ fun _ h => h
    · rintro _ s2 ⟨doc, hdoc, hs2⟩
      refine ⟨doc, hdoc, ?_⟩
      rw [List.append_assoc] at hs2
      exact hs2
    · rintro _ s2 ⟨hnone, hpast⟩
      refine ⟨hnone, ?_⟩
      rw [List.append_assoc] at hpast
      exact hpast
  · rw [if_pos hk, hexc, herror]
    exact (wp_thenThrow hraised hpast).mono (fun _ _ h => h) (fun _ _ h => ⟨rfl, h⟩) fun _ h => h
  · rw [if_neg hk, hdeep]
    exact hpast.failed

lemma yields_callDefault (obj : Obj) :
    e.Yields sc d k (Doc.render e.indent d) (e.callDefault self obj)
      ((e.reader sc).readShape rd d k obj .foreign) := by
  intro c l s hs
  unfold callDefault
  cases hdefault : e.default with
  | none =>
      rw [readShape_noDefault hdefault, wp_bind, Host.wp_look]
      exact (hs.read obj).wp_fail hrt _
  | some f =>
      have hnothing : Keeps (Pure.pure () : Encode Obj H a Unit) := .pure ()
      exact wp_default hrt hself hdefault hs hnothing (fun _ => rfl) rfl rfl

lemma yields_callDefaultDeclined (obj : Obj) (reason : Decline) :
    e.Yields sc d k (Doc.render e.indent d) (e.callDefaultDeclined self obj reason)
      ((e.reader sc).readShape rd d k obj .foreign) := by
  intro c l s hs
  unfold callDefaultDeclined
  have hnote : Keeps (e.addNote e.guard (declineNote reason) : Encode Obj H a Unit) :=
    Host.keeps_addNote hrt _ _
  cases hdefault : e.default with
  | none =>
      rw [readShape_noDefault hdefault, ← bind_assoc]
      have hraise : Keeps (e.raiseTypeError (declineMessage reason) >>= fun _ =>
          e.addNote e.guard (declineNote reason) : Encode Obj H a Unit) :=
        (Host.keeps_raiseTypeError hrt _).bind fun _ => hnote
      exact (wp_thenThrow hraise hs.past).mono (fun _ _ h => h) (fun _ _ h => h.failed) fun _ h => h
  | some f => exact wp_default hrt hself hdefault hs hnote (fun _ => rfl) rfl rfl

end Default

/-! ## Dispatch -/

section Dispatch

variable {self : Obj → Encode Obj H a Unit} {rd : ℕ → ℕ → Obj → Reading Obj Doc}

/-- The numpy group that objects are told by, if the type is one of its types. -/
lemma wp_recognizeNumpy (hs : e.Stage sc d k c l s) (ty : Option Obj)
    {Q : Option (NumpyTypes Obj) → St Obj H a → Prop} {r : Prop}
    (hok : ∀ np s', sc.np = .ok np → e.Stage sc d k c l s' → Q (np.filter (·.contains ty)) s')
    (herror : ∀ exc, sc.np = .error exc → r) :
    wp (fun _ => True) (e.recognizeNumpy ty) Q (fun _ s' => r ∧ e.Past sc l s') s := by
  have hknows := hs.past.cached
  unfold recognizeNumpy
  rw [wp_bind, wp_get]
  cases hhit : s.world.types.numpyHit ty with
  | some np =>
      obtain ⟨hgroup, hcontains⟩ := TypeCache.numpyGroup_of_hit hhit
      have h := hok (some np) s (hknows.group.symm.trans (hgroup _ _)) hs
      rw [Option.filter_some, if_pos hcontains] at h
      exact h
  | none =>
      dsimp only
      by_cases hre : s.npRechecked = true
      · rw [if_pos hre]
        -- the miss was looked up before, and nothing has changed since
        cases hnp : s.world.types.np with
        | some p =>
            have hgroup : sc.np = .ok (some p.2) := by rw [← hknows.group, TypeCache.numpyGroup, hnp]
            have h := hok (some p.2) s hgroup hs
            rw [TypeCache.numpyHit_eq, hnp] at hhit
            rw [show (some p.2).filter (·.contains ty) = none from hhit] at h
            exact h
        | none => exact hok none s (hs.missing hre hnp) hs
      · rw [if_neg hre, wp_bind, wp_modify]
        unfold cached
        rw [wp_bind, wp_get, wp_bind, wp_modify]
        dsimp only
        rw [hs.reached.heap]
        obtain ⟨hre', hlookup⟩ := TypeCache.numpy_spec hknows.current ty hhit
        have hcached : sc.Cached e.rt ⟨sc.heap, (s.world.types.numpy e.rt sc.heap ty).2⟩ :=
          ⟨rfl, (TypeCache.datetime_congr hre'.dt).trans hknows.late, hre'.group.trans hknows.group,
            hre'.current⟩
        rcases hlookup with ⟨np, hgroup, hresult, hnone⟩ | ⟨exc, hgroup, hresult⟩
        · rw [hresult]
          have hnp : sc.np = .ok np := hknows.group.symm.trans hgroup
          refine hok np _ hnp ⟨?_, ⟨hcached, hs.past.defaulted⟩, hs.dt, fun _ h => ?_, hs.chain⟩
          · exact ⟨hs.reached.content, hs.reached.depth, hs.reached.calm, rfl⟩
          · rw [hnp, hnone h]
        · rw [hresult]
          exact ⟨herror exc (hknows.group.symm.trans hgroup), ⟨hcached, hs.past.defaulted⟩⟩

lemma wp_cachedDatetime (hs : e.Stage sc d k c l s) (hnone : sc.dt = none)
    {Q : Option (DtTypes Obj) → St Obj H a → Prop} {E : PendingPyErr → St Obj H a → Prop}
    (hok : ∀ s', e.Stage sc d k c l s' → Q none s') :
    wp (fun _ => True) (cached fun h c => c.datetime e.rt h) Q E s := by
  have hlate := hs.past.cached.late
  obtain ⟨-, -, hsame⟩ := TypeCache.datetime_spec hlate
  unfold cached
  rw [wp_bind, wp_get, wp_bind, wp_modify]
  dsimp only
  rw [hs.reached.heap, hlate, hnone]
  refine hok _ ?_
  have hworld : ({ heap := sc.heap, types := (s.world.types.datetime e.rt sc.heap).2 } : World Obj H) =
      s.world := by
    rw [hsame hnone, ← hs.reached.heap]
  rw [hworld]
  exact hs

/-- A later look for the datetime group finds none either. -/
lemma wp_datetimeGroup (hs : e.Stage sc d k c l s) (hnone : sc.dt = none)
    {Q : Option (DtTypes Obj) → St Obj H a → Prop} {E : PendingPyErr → St Obj H a → Prop}
    (hok : ∀ s', e.Stage sc d k c l s' → Q none s') :
    wp (fun _ => True) (datetimeGroup e.rt) Q E s := by
  unfold datetimeGroup
  rw [wp_bind, wp_get]
  split
  · have hcleared : e.Stage sc d k c l { s with exc := none } :=
      hs.of_setting ⟨hs.reached.content, hs.reached.depth, rfl, hs.reached.heap⟩ rfl
    rw [wp_bind, wp_setExc, wp_bind, wp_clearExc]
    exact wp_cachedDatetime hcleared hnone hok
  · exact wp_cachedDatetime hs hnone hok

variable (hrt : e.rt.SideEffectFree) (obj : Obj)

include hrt

/-- The writers of datetimes go by the shapes of datetimes. -/
lemma datetimeLike_shape (dt : Option (DtTypes Obj)) :
    Option.Rel (fun (write : Encode Obj H a Unit) shape =>
        e.Yields sc d k (Doc.render e.indent d) write ((e.reader sc).readShape rd d k obj shape))
      (dt.bind (e.datetimeLike obj (e.rt.view sc.heap obj)))
      (dt.bind (e.datetimeLikeShape sc.heap obj (e.rt.view sc.heap obj))) := by
  cases dt with
  | none => exact .none
  | some dt =>
      rw [Option.bind_some, Option.bind_some]
      unfold datetimeLike datetimeLikeShape
      split
      · exact .none
      · split
        · exact .some (yields_of_puts (puts_datetimeShape hrt) (keeps_datetime hrt obj) rd obj)
        · split
          · exact .some (yields_of_puts puts_dateShape (keeps_date obj) rd obj)
          · split
            · exact .some (yields_of_puts (puts_timeShape hrt) (keeps_time hrt obj) rd obj)
            · exact .none

/-- The numpy writers go by the shapes of numpy objects. -/
lemma numpyWriter_shape (ty : Option (NumpyTypes Obj)) :
    Option.Rel (fun (write : Encode Obj H a (Option Decline)) shape =>
        OffersShape sc.heap d e.indent shape write ∧ Keeps write)
      (ty.bind (e.numpyWriter obj (e.rt.view sc.heap obj).cls))
      (ty.bind (e.numpyWriterShape sc.heap obj (e.rt.view sc.heap obj))) := by
  cases ty with
  | none => exact .none
  | some np =>
      rw [Option.bind_some, Option.bind_some]
      unfold numpyWriter numpyWriterShape
      split
      · exact .some ⟨offers_arrayShape hrt, keeps_serializeArray hrt obj⟩
      · cases np.scalar (e.rt.view sc.heap obj).cls with
        | none => exact .none
        | some elem => exact .some ⟨offers_scalarShape hrt elem, keeps_serializeScalar hrt obj elem⟩

variable (hself : ∀ d k o, e.Yields sc d k (Doc.render e.indent d) (self o) (rd d k o))

include hself

/-- A numpy writer, and `default` for what it declines. -/
lemma yields_offered {shape : Shape Obj} {write : Encode Obj H a (Option Decline)}
    (hoffers : OffersShape sc.heap d e.indent shape write) (hkeeps : Keeps write)
    {m : Option Decline → Encode Obj H a Unit} (hput : m none = Pure.pure ())
    (hdeclined : ∀ reason, m (some reason) = e.callDefaultDeclined self obj reason) :
    e.Yields sc d k (Doc.render e.indent d) (write >>= m)
      ((e.reader sc).readShape rd d k obj shape) := by
  intro c l s hs
  rw [wp_bind]
  refine (hs.wp_keeps hkeeps (hoffers c s hs.reached)).mono ?_ ?_ fun _ h => h
  · rintro o s1 ⟨hoffered, hstage⟩
    cases o with
    | none =>
        obtain ⟨doc, hshape, hs1⟩ := hoffered
        rw [hput, hshape]
        refine ⟨doc, rfl, ?_⟩
        rw [Reader.readShape, Reading.pure, List.append_nil]
        exact hstage _ hs1
    | some reason =>
        obtain ⟨hshape, hs1⟩ := hoffered
        rw [hdeclined, hshape]
        exact yields_callDefaultDeclined hrt hself obj reason c l s1 (hstage _ hs1)
  · rintro _ s1 ⟨hshape, hpast⟩
    rw [hshape]
    exact hpast.failed

lemma yields_numpyOrDefault :
    e.Yields sc d k (Doc.render e.indent d) (e.numpyOrDefault self obj (e.rt.view sc.heap obj))
      ((e.reader sc).readShape rd d k obj (e.numpyShape sc.heap sc.np obj (e.rt.view sc.heap obj))) := by
  intro c l s hs
  unfold numpyOrDefault numpyShape
  split
  · rw [wp_bind]
    have hgroup : wp (fun _ => True) (e.recognizeNumpy (e.rt.view sc.heap obj).cls)
        (fun r s' => ∃ np, sc.np = .ok np ∧ r = np.filter (·.contains (e.rt.view sc.heap obj).cls) ∧
          e.Stage sc d k c l s')
        (fun _ s' => (∃ exc, sc.np = .error exc) ∧ e.Past sc l s') s :=
      wp_recognizeNumpy hs _ (fun np s' hnp hs' => ⟨np, hnp, rfl, hs'⟩) fun exc hexc => ⟨exc, hexc⟩
    refine hgroup.mono ?_ ?_ fun _ h => h
    · rintro _ s1 ⟨np, hnp, rfl, hs1⟩
      have hrel : Option.Rel (fun (write : Encode Obj H a (Option Decline)) shape =>
          OffersShape sc.heap d e.indent shape write ∧ Keeps write) _ _ :=
        numpyWriter_shape hrt obj (np.filter (·.contains (e.rt.view sc.heap obj).cls))
      rw [hnp]
      dsimp only
      generalize (np.filter (·.contains (e.rt.view sc.heap obj).cls)).bind
        (e.numpyWriter obj (e.rt.view sc.heap obj).cls) = o at hrel
      generalize (np.filter (·.contains (e.rt.view sc.heap obj).cls)).bind
        (e.numpyWriterShape sc.heap obj (e.rt.view sc.heap obj)) = o' at hrel
      cases hrel with
      | none => exact yields_callDefault hrt hself obj c l s1 hs1
      | some h => exact yields_offered hrt obj hself h.1 h.2 rfl (fun _ => rfl) c l s1 hs1
    · rintro _ s1 ⟨⟨exc, hexc⟩, hpast⟩
      rw [hexc]
      exact hpast.failed
  · exact yields_callDefault hrt hself obj c l s hs

lemma yields_lateDatetime :
    e.Yields sc d k (Doc.render e.indent d) (e.lateDatetime self obj (e.rt.view sc.heap obj))
      ((e.reader sc).readShape rd d k obj (e.numpyShape sc.heap sc.np obj (e.rt.view sc.heap obj))) := by
  intro c l s hs
  unfold lateDatetime
  rw [wp_bind, wp_get]
  split
  · next hlate =>
    have hnone : sc.dt = none := by
      rw [← hs.dt]
      simp only [Bool.and_eq_true] at hlate
      exact Option.isNone_iff_eq_none.mp hlate.1.1
    rw [wp_bind]
    refine wp_datetimeGroup hs hnone fun s1 hs1 => ?_
    have hsame : ({ s1 with dt := none } : St Obj H a) = s1 := by
      rw [← hnone, ← hs1.dt]
    rw [wp_bind, wp_modify, hsame]
    exact yields_numpyOrDefault hrt obj hself c l s1 hs1
  · exact yields_numpyOrDefault hrt obj hself c l s hs

/-- The writers of subclasses go by the shapes of what they extend. -/
lemma subclassLike_shape (fuel : ℕ) :
    Option.Rel (fun (write : Encode Obj H a Unit) shape =>
        e.Yields sc d k (Doc.render e.indent d) write ((e.reader sc).readShape rd d k obj shape))
      (e.subclassLike self fuel obj (e.rt.view sc.heap obj))
      (e.subclassShape sc.heap obj (e.rt.view sc.heap obj)) := by
  unfold subclassLike subclassShape
  split
  · exact .none
  · cases hbody : (e.rt.view sc.heap obj).body with
    | str t =>
        exact .some (yields_of_puts (puts_textShape (Runtime.strChars_of_str hbody)) (keeps_str hrt obj)
          rd obj)
    | int z => exact .some (yields_of_puts (puts_intShape hrt hbody) (keeps_int hrt obj) rd obj)
    | dict slots => exact .some (yields_dict hrt hbody hself fuel)
    | list items => exact .some (yields_list hrt hbody hself fuel)
    | _ => exact .none

lemma yields_serializeOther (fuel : ℕ) :
    e.Yields sc d k (Doc.render e.indent d) (e.serializeOther self fuel obj (e.rt.view sc.heap obj))
      ((e.reader sc).readShape rd d k obj (e.otherShape sc obj (e.rt.view sc.heap obj))) := by
  intro c l s hs
  have hdatetime : Option.Rel (fun (write : Encode Obj H a Unit) shape =>
      e.Yields sc d k (Doc.render e.indent d) write ((e.reader sc).readShape rd d k obj shape)) _ _ :=
    datetimeLike_shape hrt obj sc.dt
  have hsubclass := subclassLike_shape (d := d) (k := k) hrt obj hself fuel
  unfold serializeOther otherShape
  rw [wp_bind, wp_get, hs.dt]
  generalize sc.dt.bind (e.datetimeLike obj (e.rt.view sc.heap obj)) = o at hdatetime
  generalize sc.dt.bind (e.datetimeLikeShape sc.heap obj (e.rt.view sc.heap obj)) = o' at hdatetime
  cases hdatetime with
  | some h => exact h c l s hs
  | none =>
      dsimp only
      generalize e.subclassLike self fuel obj (e.rt.view sc.heap obj) = o at hsubclass
      generalize e.subclassShape sc.heap obj (e.rt.view sc.heap obj) = o' at hsubclass
      cases hsubclass with
      | some h => exact h c l s hs
      | none => exact yields_lateDatetime hrt obj hself c l s hs

/-- One level: what is put out is what one level of the reading comes to. -/
lemma yields_serializeBody (fuel : ℕ) :
    e.Yields sc d k (Doc.render e.indent d) (e.serializeBody self fuel obj)
      ((e.reader sc).step rd d k obj) := by
  intro c l s hs
  have hother := yields_serializeOther (d := d) (k := k) hrt obj hself fuel
  have hread := hs.read obj
  -- a leaf that is written as it is
  have hleaf : ∀ {f : Buffer a → Buffer a} {t : Bytes}, (∀ b, (f b).content = b.content ++ t) →
      e.Yields sc d k (Doc.render e.indent d) (emit f : Encode Obj H a Unit)
        ((e.reader sc).readShape rd d k obj (.whole (.leaf t))) := fun hf =>
    yields_of_puts (Puts.emit hf rfl) (keeps_emit _) rd obj
  have hstep : (e.reader sc).step rd d k obj = (e.reader sc).readShape rd d k obj (e.shape sc obj) := rfl
  rw [hstep]
  unfold serializeBody shape
  rw [wp_bind, Host.wp_look, hs.reached.heap]
  dsimp only
  cases hcls : (e.rt.view sc.heap obj).cls with
  | some cls => exact hother c l _ hread
  | none =>
      cases hbody : (e.rt.view sc.heap obj).body with
      | str t =>
          have hchars := Runtime.strChars_of_str hbody
          exact yields_of_puts (puts_textShape hchars) (keeps_str hrt obj) rd obj c l _ hread
      | int z => exact yields_of_puts (puts_intShape hrt hbody) (keeps_int hrt obj) rd obj c l _ hread
      | float bits => exact hleaf (fun b => b.content_writeF64 e.fmt bits) c l _ hread
      | bool b =>
          cases b with
          | true => exact hleaf (fun b => b.content_extend _) c l _ hread
          | false => exact hleaf (fun b => b.content_extend _) c l _ hread
      | none => exact hleaf (fun b => b.content_extend _) c l _ hread
      | dict slots => exact yields_dict hrt hbody hself fuel c l _ hread
      | list items => exact yields_list hrt hbody hself fuel c l _ hread
      | tuple => exact yields_tuple hrt hself c l _ hread
      | _ => exact hother c l _ hread

end Dispatch

/-- **The encoder puts out what it reads.** -/
lemma yields_serialize (hrt : e.rt.SideEffectFree) (fuel d k : ℕ) (obj : Obj) :
    e.Yields sc d k (Doc.render e.indent d) (e.serialize fuel obj : Encode Obj H a Unit)
      ((e.reader sc).read d k obj) := by
  induction fuel generalizing d k obj with
  | zero => exact fun _ _ _ _ => trivial
  | succ fuel ih =>
      rw [(e.reader sc).read_eq]
      exact yields_serializeBody hrt obj ih fuel

end Env

end Isojson
