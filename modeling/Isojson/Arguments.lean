import Isojson.SortKeys

/-!
# The arguments of `dumps`

A call says what to serialize, with which `default` and under which options, or it is refused
(`Host.arguments`).  Both are decided before the encoder starts, and no Python code runs until then.
-/

namespace Isojson

open Run

variable {Obj H : Type} {a : Allocator}

/-- What a call of `dumps` asks for. -/
structure Arguments (Obj : Type) where
  obj : Obj
  default : Option Obj
  opts : UInt32

/-- A keyword that a call with `nargs` positional arguments may use. -/
def takesKeyword (nargs : ℕ) (name : String) : Bool :=
  decide (name = "default" ∧ nargs < 2) || decide (name = "option" ∧ nargs < 3)

/-- The value of a keyword, which is the last one given. -/
def keyword (name : String) (kw : List (String × Obj)) : Option Obj :=
  (kw.filter fun p => p.1 = name).getLast?.map Prod.snd

namespace Host

variable (h : Host Obj H)

/-- `None` counts as no argument. -/
def isGiven (w : H) (o : Obj) : Bool :=
  match (h.rt.view w o).body with
  | .none => false
  | _ => true

/-- The options that an argument says. -/
def options (w : H) : Option Obj → Except String UInt32
  | none => .ok 0
  | some o =>
      match optionValue (h.rt.view w o) with
      | none => .error "Invalid opts"
      | some z =>
          if 0 ≤ z ∧ z ≤ ALL_OPTS then
            if hasOpt (UInt32.ofNat z.toNat) optNonStrKeys then
              .error ("isojson does not support " ++ "OPT_NON_STR_KEYS")
            else .ok (UInt32.ofNat z.toNat)
          else .error "Invalid opts"

/-- **What a call asks for**, or why it is refused. -/
def arguments (w : H) (args : List Obj) (kw : List (String × Obj)) :
    Except String (Arguments Obj) :=
  match args with
  | [] => .error "dumps() missing required argument 'obj' (pos 1)"
  | obj :: rest =>
      let default := ((keyword "default" kw).or rest[0]?).filter (h.isGiven w)
      if 3 < args.length then
        .error ("dumps() takes at most 3 positional arguments (" ++ toString args.length ++ " given)")
      else if kw.any fun p => !takesKeyword args.length p.1 then
        .error "dumps() got an unexpected or duplicate keyword argument"
      else if default.any fun f => !h.rt.callable w f then .error "default must be a callable"
      else
        (h.options w (((keyword "option" kw).or rest[1]?).filter (h.isGiven w))).map fun opts =>
          ⟨obj, default, opts⟩

/-- The encoder of a call, once the datetime group is looked up. -/
def env (A : Arguments Obj) (dt : Option (DtTypes Obj)) : Env Obj H where
  toHost := h
  default := A.default
  opts := A.opts
  guard := A.default.isSome || hasOpt A.opts optSerializeNumpy || dt.isSome
  maxDepth := MAX_DEPTH

end Host

/-! ## Keywords -/

lemma Quiet.heap {s s' : St Obj H a} (hquiet : Quiet s s') : s'.world.heap = s.world.heap := by
  obtain ⟨log, rfl, -⟩ := hquiet
  rfl

lemma Quiet.exc {s s' : St Obj H a} (hquiet : Quiet s s') : s'.exc = s.exc := by
  obtain ⟨log, rfl, -⟩ := hquiet
  rfl

lemma keyword_cons (name : String) (p : String × Obj) (kw : List (String × Obj)) :
    keyword name (p :: kw) = (keyword name kw).or (if p.1 = name then some p.2 else none) := by
  unfold keyword
  by_cases hname : p.1 = name
  · rw [List.filter_cons_of_pos (by simpa using hname), List.getLast?_cons, if_pos hname]
    cases (kw.filter fun p => p.1 = name).getLast? <;> rfl
  · rw [List.filter_cons_of_neg (by simpa using hname), if_neg hname, Option.or_none]

namespace Host

variable (h : Host Obj H) {s : St Obj H a}

/-- The keywords that are taken, over what the positional arguments said. -/
lemma keywordArgs_ok {nargs : ℕ} {kw : List (String × Obj)}
    (hkw : ∀ p ∈ kw, takesKeyword nargs p.1 = true) (found : Option Obj × Option Obj) :
    h.keywordArgs nargs kw found s =
      .ok ((keyword "default" kw).or found.1, (keyword "option" kw).or found.2) s := by
  induction kw generalizing found with
  | nil => rfl
  | cons p kw ih =>
      obtain ⟨name, val⟩ := p
      obtain ⟨default, option⟩ := found
      obtain ⟨hp, hkw⟩ := List.forall_mem_cons.mp hkw
      rw [keywordArgs, keyword_cons, keyword_cons]
      by_cases hdefault : name = "default" ∧ nargs < 2
      · rw [if_pos hdefault, ih hkw, hdefault.1]
        simp
      · unfold takesKeyword at hp
        simp only [Bool.or_eq_true, decide_eq_true_eq] at hp
        have hoption := hp.resolve_left hdefault
        rw [if_neg hdefault, if_pos hoption, ih hkw, hoption.1]
        simp

/-- The first keyword that is not taken. -/
lemma keywordArgs_refused {nargs : ℕ} {kw : List (String × Obj)}
    (hkw : ∃ p ∈ kw, takesKeyword nargs p.1 = false) (found : Option Obj × Option Obj) :
    h.keywordArgs nargs kw found s =
      h.fail "dumps() got an unexpected or duplicate keyword argument" s := by
  induction kw generalizing found with
  | nil =>
      obtain ⟨p, hp, -⟩ := hkw
      exact absurd hp List.not_mem_nil
  | cons p kw ih =>
      obtain ⟨name, val⟩ := p
      obtain ⟨default, option⟩ := found
      rw [keywordArgs]
      obtain ⟨q, hq, hrefused⟩ := hkw
      rcases List.mem_cons.mp hq with rfl | hq
      · unfold takesKeyword at hrefused
        simp only [Bool.or_eq_false_iff, decide_eq_false_iff_not] at hrefused
        rw [if_neg hrefused.1, if_neg hrefused.2]
      · have hrest : ∃ p ∈ kw, takesKeyword nargs p.1 = false := ⟨q, hq, hrefused⟩
        split
        · exact ih hrest _
        · split
          · exact ih hrest _
          · rfl

/-! ## What is read of the arguments -/

lemma dropNone_run (o : Option Obj) (s : St Obj H a) :
    ∃ s', h.dropNone o s = .ok (o.filter (h.isGiven s.world.heap)) s' ∧ Quiet s s' := by
  cases o with
  | none => exact ⟨s, rfl, .refl s⟩
  | some o =>
      refine ⟨{ s with log := s.log ++ [.read (.obj o)] }, ?_, .event s (by simp)⟩
      have hlook : h.look o s =
          .ok (h.rt.view s.world.heap o) { s with log := s.log ++ [.read (.obj o)] } := rfl
      unfold dropNone isGiven
      dsimp only
      rw [bind_of_ok hlook, Option.filter_some]
      cases (h.rt.view s.world.heap o).body <;> rfl

lemma checkDefault_run (default : Option Obj) (s : St Obj H a) :
    h.checkDefault default s =
      if default.any fun f => !h.rt.callable s.world.heap f then h.fail "default must be a callable" s
      else .ok () s := by
  cases default with
  | none => rfl
  | some f =>
      have hget : (Run.get : Encode Obj H a _) s = .ok s s := rfl
      unfold checkDefault
      dsimp only
      rw [bind_of_ok hget, Option.any_some]
      cases h.rt.callable s.world.heap f <;> rfl

/-- What refuses a call ends it. -/
lemma bind_refused {α β : Type} {m : Encode Obj H a α} {msg : String} {s s' : St Obj H a}
    (hm : m s = h.fail msg s') (k : α → Encode Obj H a β) : (m >>= k) s = h.fail msg s' := by
  obtain ⟨s1, hfail⟩ : ∃ s1, (h.fail msg : Encode Obj H a α) s' = .error ⟨⟩ s1 := by
    obtain ⟨s1, hs1, -⟩ := @Host.fail_run _ _ _ h α msg s'
    exact ⟨s1, hs1⟩
  have hbind : (h.fail msg >>= k) s' = h.fail msg s' := by
    unfold fail
    rw [bind_assoc]
    rfl
  rw [← hbind, bind_of_error hfail, bind_of_error (hm.trans hfail)]

/-- The options are read, or refused. -/
lemma parseOpts_run (option : Option Obj) {s : St Obj H a} (hcalm : s.exc = none) :
    ∃ s', Quiet s s' ∧ h.parseOpts option s =
      match h.options s.world.heap option with
      | .ok opts => .ok opts s'
      | .error msg => h.fail msg s' := by
  cases option with
  | none => exact ⟨s, .refl s, rfl⟩
  | some o =>
      obtain ⟨s', hs'⟩ : ∃ s' : St Obj H a, s' = { s with log := s.log ++ [.read (.obj o)] } := ⟨_, rfl⟩
      have hlook : h.look o s = .ok (h.rt.view s.world.heap o) s' := by rw [hs']; rfl
      refine ⟨s', hs' ▸ .event s (by simp), ?_⟩
      unfold parseOpts options
      dsimp only
      rw [bind_of_ok hlook]
      cases optionValue (h.rt.view s.world.heap o) with
      | none => rfl
      | some z =>
          dsimp only
          by_cases hz : 0 ≤ z ∧ z ≤ ALL_OPTS
          · have hlong : (asLongLong z : Encode Obj H a ℤ) s' = .ok z s' := by
              unfold ALL_OPTS at hz
              unfold asLongLong i64Min i64Max
              rw [if_pos (by omega)]
              rfl
            rw [bind_of_ok hlong, if_pos hz, if_pos hz]
            unfold rejectUnsupported unsupportedOpts rejectUnsupported
            dsimp only
            by_cases hbit : hasOpt (UInt32.ofNat z.toNat) optNonStrKeys = true
            · rw [if_pos hbit, if_pos hbit]
              exact h.bind_refused rfl _
            · rw [if_neg hbit, if_neg hbit]
              rfl
          · have hcleared : ({ s' with exc := none } : St Obj H a) = s' := by
              rw [hs', ← hcalm]
            obtain ⟨v, s1, hlong, hv, hs1⟩ : ∃ v s1, (asLongLong z : Encode Obj H a ℤ) s' = .ok v s1 ∧
                ¬ (0 ≤ v ∧ v ≤ ALL_OPTS) ∧ ({ s1 with exc := none } : St Obj H a) = s' := by
              unfold asLongLong
              by_cases h64 : i64Min ≤ z ∧ z ≤ i64Max
              · exact ⟨z, s', by rw [if_pos h64]; rfl, hz, hcleared⟩
              · exact ⟨-1, { s' with exc := some (.system "OverflowError") }, by rw [if_neg h64]; rfl,
                  by decide, hcleared⟩
            have hclear : (clearExc : Encode Obj H a Unit) s1 = .ok () s' := by
              rw [← hs1]
              rfl
            rw [bind_of_ok hlong, if_neg hv, if_neg hz, bind_of_ok hclear]

section Calls

variable [DecidableEq Obj] {args : List Obj} {kw : List (String × Obj)}

/-- **A call reads its arguments**, and then starts the encoder or fails. -/
lemma dumps_run (hint fuel : ℕ) (args : List Obj) (kw : List (String × Obj)) {s : St Obj H a}
    (hcalm : s.exc = none) : ∃ s', Quiet s s' ∧ h.dumps hint fuel args kw s =
      match h.arguments s.world.heap args kw with
      | .ok A => h.dumpsObject hint fuel A.obj A.default A.opts s'
      | .error msg => h.fail msg s' := by
  unfold dumps arguments
  cases args with
  | nil => exact ⟨s, .refl s, rfl⟩
  | cons obj rest =>
      dsimp only
      by_cases hmany : 3 < (obj :: rest).length
      · rw [if_pos hmany, if_pos hmany]
        exact ⟨s, .refl s, rfl⟩
      · rw [if_neg hmany, if_neg hmany]
        by_cases hkw : (kw.any fun p => !takesKeyword (obj :: rest).length p.1) = true
        · rw [if_pos hkw]
          simp only [List.any_eq_true, Bool.not_eq_true'] at hkw
          refine ⟨s, .refl s, ?_⟩
          exact h.bind_refused (h.keywordArgs_refused hkw _) _
        · rw [if_neg hkw]
          simp only [List.any_eq_true, Bool.not_eq_true', not_exists, not_and, Bool.not_eq_false] at hkw
          obtain ⟨s1, hdefault, hquiet1⟩ := h.dropNone_run ((keyword "default" kw).or rest[0]?) s
          have hheap1 := hquiet1.heap
          rw [bind_of_ok (h.keywordArgs_ok hkw _), bind_of_ok hdefault]
          generalize ((keyword "default" kw).or rest[0]?).filter (h.isGiven s.world.heap) = default
          have hcheck := h.checkDefault_run default s1
          rw [hheap1] at hcheck
          by_cases hcallable : (default.any fun f => !h.rt.callable s.world.heap f) = true
          · rw [if_pos hcallable] at hcheck ⊢
            exact ⟨s1, hquiet1, h.bind_refused hcheck _⟩
          · rw [if_neg hcallable] at hcheck ⊢
            obtain ⟨s2, hoption, hquiet2⟩ := h.dropNone_run ((keyword "option" kw).or rest[1]?) s1
            have hheap2 := hquiet2.heap
            rw [hheap1] at hoption
            obtain ⟨s3, hquiet3, hopts⟩ := h.parseOpts_run
              (((keyword "option" kw).or rest[1]?).filter (h.isGiven s.world.heap))
              (hquiet2.exc.trans (hquiet1.exc.trans hcalm))
            rw [hheap2, hheap1] at hopts
            refine ⟨s3, (hquiet1.trans hquiet2).trans hquiet3, ?_⟩
            rw [bind_of_ok hcheck, bind_of_ok hoption]
            cases hread : h.options s.world.heap
                (((keyword "option" kw).or rest[1]?).filter (h.isGiven s.world.heap)) with
            | error msg =>
                rw [hread] at hopts
                exact h.bind_refused hopts _
            | ok opts =>
                rw [hread] at hopts
                exact bind_of_ok hopts

end Calls

end Host

end Isojson
