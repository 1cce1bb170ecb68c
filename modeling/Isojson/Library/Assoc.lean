import Mathlib

/-!
# Insertion-ordered maps

A map that keeps its keys in the order of their first insertion, as an association list: `set`
replaces the value of a key in place or appends the pair.  `collapse` is what a sequence of
insertions comes to: every key once, at its first position, with its last value.
-/

namespace Assoc

variable {K V : Type} [DecidableEq K]

/-- Sets the value of a key: in place when the key is there, at the end when it is not. -/
def set (d : List (K × V)) (k : K) (v : V) : List (K × V) :=
  if k ∈ d.map Prod.fst then d.map fun p => if p.1 = k then (p.1, v) else p else d ++ [(k, v)]

/-- The last value given for a key. -/
def last (ms : List (K × V)) (k : K) : Option V :=
  (ms.reverse.find? fun p => p.1 = k).map Prod.snd

/-- Every key once, at its first position, with its last value. -/
def collapse (ms : List (K × V)) : List (K × V) :=
  (ms.map Prod.fst).eraseDups.filterMap fun k => (last ms k).map fun v => (k, v)

/-- The keys of a list extended by one. -/
lemma eraseDups_snoc (ks : List K) (k : K) :
    (ks ++ [k]).eraseDups = if k ∈ ks then ks.eraseDups else ks.eraseDups ++ [k] := by
  rw [List.eraseDups_append]
  split
  · next hin =>
    have hrem : [k].removeAll ks = [] := by simp [List.removeAll, hin]
    rw [hrem, List.eraseDups_nil, List.append_nil]
  · next hout =>
    have hrem : [k].removeAll ks = [k] := by simp [List.removeAll, hout]
    rw [hrem]
    simp [List.eraseDups_cons]

lemma nodup_eraseDups (ks : List K) : ks.eraseDups.Nodup := by
  induction ks using List.reverseRecOn with
  | nil => simp
  | append_singleton ks k ih =>
      rw [eraseDups_snoc]
      split
      · exact ih
      · next hout =>
        refine List.nodup_append.mpr ⟨ih, by simp, ?_⟩
        rintro a ha b hb rfl
        rw [List.mem_singleton] at hb
        exact hout (List.mem_eraseDups.mp (hb ▸ ha))

lemma last_append (ms : List (K × V)) (k k' : K) (v : V) :
    last (ms ++ [(k, v)]) k' = if k = k' then some v else last ms k' := by
  rw [last, List.reverse_append, List.reverse_singleton, List.singleton_append, List.find?_cons]
  split_ifs with h <;> simp [h, last]

lemma last_isSome {ms : List (K × V)} {k : K} (h : k ∈ ms.map Prod.fst) :
    ∃ v, last ms k = some v := by
  obtain ⟨p, hp, rfl⟩ := List.mem_map.mp h
  have : (ms.reverse.find? fun q => q.1 = p.1).isSome :=
    List.find?_isSome.mpr ⟨p, List.mem_reverse.mpr hp, by simp⟩
  obtain ⟨q, hq⟩ := Option.isSome_iff_exists.mp this
  exact ⟨q.2, by rw [last, hq]; rfl⟩

lemma collapse_eq_map (ms : List (K × V)) (d : K → V) :
    collapse ms = (ms.map Prod.fst).eraseDups.map fun k => (k, (last ms k).getD (d k)) := by
  refine (List.filterMap_congr (g := some ∘ fun k => (k, (last ms k).getD (d k)))
    fun k hk => ?_).trans (congrFun List.filterMap_eq_map _)
  obtain ⟨v, hv⟩ := last_isSome (List.mem_eraseDups.mp hk)
  simp [hv]

lemma map_fst_collapse (ms : List (K × V)) :
    (collapse ms).map Prod.fst = (ms.map Prod.fst).eraseDups := by
  cases ms with
  | nil => rfl
  | cons p ms =>
      rw [collapse_eq_map _ fun _ => p.2, List.map_map]
      exact List.map_id' _

lemma nodup_collapse (ms : List (K × V)) : ((collapse ms).map Prod.fst).Nodup := by
  rw [map_fst_collapse]
  exact nodup_eraseDups _

lemma mem_of_mem_collapse {ms : List (K × V)} {p : K × V} (h : p ∈ collapse ms) : p ∈ ms := by
  obtain ⟨k, -, hk⟩ := List.mem_filterMap.mp h
  obtain ⟨v, hv, rfl⟩ := Option.map_eq_some_iff.mp hk
  obtain ⟨q, hq, rfl⟩ := Option.map_eq_some_iff.mp hv
  have hfound := List.find?_some hq
  rw [decide_eq_true_eq] at hfound
  rw [← hfound]
  exact List.mem_reverse.mp (List.mem_of_find?_eq_some hq)

/-- One more insertion. -/
lemma collapse_append (ms : List (K × V)) (k : K) (v : V) :
    collapse (ms ++ [(k, v)]) = set (collapse ms) k v := by
  rw [set, map_fst_collapse, collapse_eq_map _ fun _ => v, collapse_eq_map _ fun _ => v,
    List.map_append, List.map_singleton, eraseDups_snoc]
  simp only [last_append, List.mem_eraseDups]
  split
  · rw [List.map_map]
    refine List.map_congr_left fun k' _ => ?_
    by_cases h : k = k'
    · simp [h]
    · simp [h, Ne.symm h]
  · next hout =>
    rw [List.map_append]
    congr 1
    · refine List.map_congr_left fun k' hk' => ?_
      rw [if_neg]
      rintro rfl
      exact hout (List.mem_eraseDups.mp hk')
    · simp

/-- Insertions under different keys. -/
lemma collapse_of_nodup {ms : List (K × V)} (h : (ms.map Prod.fst).Nodup) : collapse ms = ms := by
  induction ms using List.reverseRecOn with
  | nil => rfl
  | append_singleton ms m ih =>
      obtain ⟨k, v⟩ := m
      rw [List.map_append, List.nodup_append] at h
      have hnew : k ∉ ms.map Prod.fst := fun hk =>
        h.2.2 k hk k (List.mem_singleton.mpr rfl) rfl
      rw [collapse_append, ih h.1, set, if_neg hnew]

end Assoc
