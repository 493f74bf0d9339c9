import Dao.Core.Pkg.Registrar

/-!
# The Index of the Registrar

The lists of `idx` and the keys of `names` say the same, in every state.

## Theorems

* `step_indexed`: A step keeps the index.
* `run_inverse`: The two maps, in every run.
-/

namespace Dao.Registration

open Function List

/-- A name has the key in whose list it is, once, and no list is empty. -/
structure Indexed (r : Registrar) : Prop where
  inverse : ∀ n k, r.names n = some k ↔ n ∈ r.list k
  nodup : ∀ k, (r.list k).Nodup
  nonempty : ∀ k, r.idx k ≠ some []

variable {r : Registrar}

/-- One list changes, and with it the names that have its key. -/
theorem indexed_update (h : Indexed r) {key : Str} {l : List Str} {names : Str → Option Str}
    (hnodup : l.Nodup) (hin : ∀ n, names n = some key ↔ n ∈ l)
    (hother : ∀ n k, k ≠ key → (names n = some k ↔ r.names n = some k)) :
    Indexed ⟨update r.idx key (if l = [] then none else some l), names⟩ := by
  -- An empty list is not kept, and is what is read then.
  have hlist : ∀ k,
      (Registrar.mk (update r.idx key (if l = [] then none else some l)) names).list k =
      if k = key then l else r.list k := by
    intro k
    unfold Registrar.list
    by_cases hk : k = key
    · by_cases hl : l = [] <;> simp [hk, hl]
    · simp [hk]
  refine ⟨fun n k => ?_, fun k => ?_, fun k => ?_⟩
  · rw [hlist]
    by_cases hk : k = key
    · rw [if_pos hk, hk]
      exact hin n
    · rw [if_neg hk, hother n k hk]
      exact h.inverse n k
  · rw [hlist]
    split
    · exact hnodup
    · exact h.nodup k
  · by_cases hk : k = key
    · by_cases hl : l = [] <;> simp [hk, hl]
    · simp [hk, h.nonempty k]

theorem indexed_reserve (h : Indexed r) (name key : Str) : Indexed (reserve name key r).2 := by
  unfold reserve
  cases hname : r.names name with
  | some k => exact h
  | none =>
    -- A name without a key is in no list.
    have hfresh : name ∉ r.list key := by simp [← h.inverse, hname]
    have hsome : (if r.list key ++ [name] = [] then none else some (r.list key ++ [name])) =
        some (r.list key ++ [name]) := if_neg (by simp)
    rw [← hsome]
    refine indexed_update h ?_ (fun n => ?_) fun n k hk => ?_
    · exact (h.nodup key).append (nodup_singleton name) (disjoint_singleton.mpr hfresh)
    · by_cases hn : n = name
      · simp [hn]
      · simp [hn, h.inverse]
    · by_cases hn : n = name
      · simp [hn, hname, Ne.symm hk]
      · simp [hn]

theorem indexed_release (h : Indexed r) (name : Str) : Indexed (release name r) := by
  unfold release
  cases hname : r.names name with
  | none => exact h
  | some key =>
    refine indexed_update h ((h.nodup key).erase name) (fun n => ?_) fun n k hk => ?_
    · by_cases hn : n = name
      · simp [hn, (h.nodup key).mem_erase_iff]
      · simp [hn, h.inverse]
    · by_cases hn : n = name
      · simp [hn, hname, Ne.symm hk]
      · simp [hn]

theorem indexed_delete (h : Indexed r) (key : Str) : Indexed (delete key r) := by
  refine indexed_update h nodup_nil (fun n => ?_) fun n k hk => ?_
  · simp [h.inverse]
  · by_cases hmem : n ∈ r.list key
    · simp [hmem, (h.inverse n key).mpr hmem, Ne.symm hk]
    · simp [hmem]

theorem step_indexed (h : Indexed r) (a : Action) : Indexed (step r a) := by
  cases a with
  | reserve name key => exact indexed_reserve h name key
  | release name => exact indexed_release h name
  | delete key => exact indexed_delete h key

/-- After any calls, `names` and `idx` are inverse, a name is in one list and there once, and
    no list is empty. -/
theorem run_inverse (as : List Action) :
    let r := as.foldl step newRegistrar
    (∀ n k, r.names n = some k ↔ ∃ l, r.idx k = some l ∧ n ∈ l) ∧
    (∀ n k l, r.names n = some k → r.idx k = some l → l.count n = 1 ∧
      ∀ k' l', r.idx k' = some l' → n ∈ l' → k' = k) ∧
    ∀ k l, r.idx k = some l → l ≠ [] := by
  have hinit : Indexed newRegistrar :=
    ⟨by simp [newRegistrar, Registrar.list], fun _ => nodup_nil, nofun⟩
  have h : Indexed (as.foldl step newRegistrar) :=
    foldlRecOn as step hinit fun r hr a _ => step_indexed hr a
  generalize as.foldl step newRegistrar = r at h
  have hmem : ∀ n k, n ∈ r.list k ↔ ∃ l, r.idx k = some l ∧ n ∈ l := by
    intro n k
    unfold Registrar.list
    cases r.idx k <;> simp
  refine ⟨fun n k => (h.inverse n k).trans (hmem n k), fun n k l hn hl => ⟨?_, ?_⟩, ?_⟩
  · have hin := (h.inverse n k).mp hn
    have hnodup := h.nodup k
    rw [Registrar.list, hl] at hin hnodup
    exact count_eq_one_of_mem hnodup hin
  · intro k' l' hl' hin
    have hk' := (h.inverse n k').mpr ((hmem n k').mpr ⟨l', hl', hin⟩)
    exact Option.some.inj (hk'.symm.trans hn)
  · rintro k _ hk rfl
    exact h.nonempty k hk

end Dao.Registration
