import Dao.Core.GraphDriver.Overlay2Mount

/-!
# What Is Held Is Mounted

`Get` returns without mounting when somebody else has counted before, whether or
not that call has mounted yet. If the calls on an id do not overlap, the count is
positive only with an overlay in place.

## Theorems

* `held_get`, `held_mount`, `held_undo`, `held_put`, `held_unmount`: What a step preserves.
* `held_mounted`: What is held is mounted.
* `held_before_mounted`: A call that returns too early.
-/

namespace Dao.Overlay2

open Lib

/-- A call begins only when no other is between the counter and the mount. -/
def Alone (m : Mount) : Action → Prop
  | .get _ => m.flight = []
  | .put _ => m.flight = []
  | _ => True

/-- The holders are counted, and a call under way is alone and nobody holds the
    directory. -/
structure Held (m : Mount) : Prop where
  lower : m.lower = true
  fresh : m.check = false → m.count = 0 ∧ m.holders = [] ∧ m.flight = []
  counted : m.flight = [] → (m.holders.length : Int) ≤ m.count
  mounted : m.flight = [] → 0 < m.count → 0 < m.mounts
  flying : ∀ call phase, (call, phase) ∈ m.flight → m.flight = [(call, phase)] ∧ m.holders = [] ∧
    m.count = if phase = .unmounting then 0 else 1

section Steps

variable {m m' : Mount} {call : Nat} {phase : Phase} {outcome : Outcome} {r : Unit}

theorem held_free (hlower : m.lower = true) (hcheck : m.check = true) (hflight : m.flight = [])
    (hcounted : (m.holders.length : Int) ≤ m.count) (hmounted : 0 < m.count → 0 < m.mounts) :
    Held m := by
  refine ⟨hlower, fun hc => ?_, fun _ => hcounted, fun _ => hmounted, fun _ _ hmem => ?_⟩
  · nomatch hcheck.symm.trans hc
  · rw [hflight] at hmem
    nomatch hmem

theorem held_alone (phase : Phase) (hlower : m.lower = true) (hcheck : m.check = true)
    (hflight : m.flight = [(call, phase)]) (hholders : m.holders = [])
    (hcount : m.count = if phase = .unmounting then 0 else 1) : Held m := by
  have hne : m.flight ≠ [] := by
    rw [hflight]
    exact List.cons_ne_nil _ _
  refine ⟨hlower, fun hc => ?_, fun hc => absurd hc hne, fun hc => absurd hc hne, ?_⟩
  · nomatch hcheck.symm.trans hc
  · intro c p hmem
    rw [hflight, List.mem_singleton] at hmem
    cases hmem
    exact ⟨hflight, hholders, hcount⟩

theorem count_checked (hcheck : m.check = true) (d : Int) : (count d m).count = m.count + d := by
  simp [count, hcheck]

theorem goOn_flight (hflight : m.flight = [(call, phase)]) (next : Option Phase) :
    (m.goOn call phase next).flight = (next.map (call, ·)).toList := by
  simp [Mount.goOn, hflight]

/-- Somebody has counted if there is a call under way or a holder. -/
theorem Held.checked (h : Held m) (hbusy : m.flight ≠ [] ∨ m.holders ≠ []) : m.check = true := by
  by_contra hcheck
  obtain ⟨-, hholders, hflight⟩ := h.fresh (Bool.eq_false_of_not_eq_true hcheck)
  exact hbusy.elim (absurd hflight) (absurd hholders)

theorem held_get (h : Held m) (hflight : m.flight = []) (hstep : step (.get call) m = .ok (r, m')) :
    Held m' := by
  have hcounted := h.counted hflight
  have hcount : (count 1 m).count =
      if !m.check && 0 < m.mounts then m.count + 1 + 1 else m.count + 1 := by
    simp only [count]
    split_ifs <;> rfl
  simp only [step, h.lower, Bool.not_true, Bool.false_eq_true, if_false] at hstep
  split_ifs at hstep with hmore
  · cases hstep
    refine held_free h.lower rfl hflight ?_ fun _ => ?_
    · change ((call :: m.holders).length : Int) ≤ (count 1 m).count
      rw [List.length_cons, hcount]
      split_ifs <;> omega
    · -- A count above one was above zero before, or the check has found an overlay.
      change 0 < m.mounts
      split_ifs at hcount with hfound
      · simp only [Bool.and_eq_true, decide_eq_true_eq] at hfound
        exact hfound.2
      · exact h.mounted hflight (by omega)
  · cases hstep
    have hnone : m.holders.length = 0 := by
      split_ifs at hcount <;> omega
    refine held_alone .mounting h.lower rfl (by rw [← hflight]; rfl)
      (List.length_eq_zero_iff.mp hnone) ?_
    change (count 1 m).count = 1
    split_ifs at hcount <;> omega

theorem held_mount (h : Held m) (hstep : step (.mount call outcome) m = .ok (r, m')) : Held m' := by
  simp only [step] at hstep
  split_ifs at hstep with hmem
  obtain ⟨hflight, hholders, hcount⟩ := h.flying call .mounting hmem
  have hcheck := h.checked (.inl (by rw [hflight]; exact List.cons_ne_nil _ _))
  cases outcome with
  | mountFails =>
    cases hstep
    exact held_alone .failing h.lower hcheck (goOn_flight hflight _) hholders hcount
  | chownFails =>
    cases hstep
    exact held_alone .failing h.lower hcheck (goOn_flight hflight _) hholders hcount
  | succeeds =>
    cases hstep
    refine held_free h.lower hcheck (goOn_flight hflight none) ?_ fun _ => Nat.succ_pos _
    change ((call :: m.holders).length : Int) ≤ m.count
    rw [hholders, hcount]
    exact Int.le_refl 1

/-- The call was the only one counted, so it has to unmount. -/
theorem held_undo (h : Held m) (hstep : step (.undo call) m = .ok (r, m')) : Held m' := by
  simp only [step] at hstep
  split_ifs at hstep with hmem hdown
  all_goals
    obtain ⟨hflight, hholders, hcount⟩ := h.flying call .failing hmem
    have hcheck := h.checked (.inl (by rw [hflight]; exact List.cons_ne_nil _ _))
    have hzero : (count (-1) m).count = 0 := by
      rw [count_checked hcheck, hcount]
      rfl
    cases hstep
  · exact held_alone .unmounting h.lower rfl
      (goOn_flight (m := count (-1) m) hflight _) hholders hzero
  · omega

/-- With the count down to zero nobody is left who holds the directory. -/
theorem held_put (h : Held m) (hflight : m.flight = []) (hstep : step (.put call) m = .ok (r, m')) :
    Held m' := by
  have hcounted := h.counted hflight
  simp only [step] at hstep
  split_ifs at hstep with hmem hmore
  all_goals
    have hlength := List.length_erase_of_mem hmem
    have hsome := List.length_pos_of_mem hmem
    have hcheck := h.checked (.inr (List.ne_nil_of_mem hmem))
    have hcount := count_checked (m := { m with holders := m.holders.erase call }) hcheck (-1)
    dsimp only at hcount
    cases hstep
  · refine held_free h.lower rfl hflight ?_ fun _ => h.mounted hflight (by omega)
    change ((m.holders.erase call).length : Int) ≤ _
    omega
  · refine held_alone .unmounting h.lower rfl (by rw [← hflight]; rfl) ?_ ?_
    · change m.holders.erase call = []
      exact List.length_eq_zero_iff.mp (by omega)
    · dsimp only
      rw [if_pos rfl]
      omega

theorem held_unmount (h : Held m) (hstep : step (.unmount call) m = .ok (r, m')) : Held m' := by
  simp only [step] at hstep
  split_ifs at hstep with hmem
  obtain ⟨hflight, hholders, hcount⟩ := h.flying call .unmounting hmem
  have hcheck := h.checked (.inl (by rw [hflight]; exact List.cons_ne_nil _ _))
  rw [if_pos rfl] at hcount
  cases hstep
  refine held_free h.lower hcheck (goOn_flight hflight none) ?_ fun hpos => ?_
  · change (m.holders.length : Int) ≤ m.count
    rw [hholders, hcount]
    rfl
  · exact absurd (hcount ▸ hpos) (Int.lt_irrefl 0)

end Steps

theorem step_held (a : Action) (m : Mount) (r : Unit) (m' : Mount) (h : Held m) (hC : Alone m a)
    (hstep : step a m = .ok (r, m')) : Held m' := by
  cases a with
  | get => exact held_get h hC hstep
  | mount => exact held_mount h hstep
  | undo => exact held_undo h hstep
  | put => exact held_put h hC hstep
  | unmount => exact held_unmount h hstep

/-- Whoever was given the merged directory finds an overlay mounted on it, until
    its `Put`. -/
theorem held_mounted (mounts : Nat) (as : List Action) (rs : List Unit) (m : Mount)
    (hmeets : Meets step Alone as (unused true mounts))
    (hrun : run step as (unused true mounts) = .ok (rs, m)) (hheld : m.holders ≠ []) :
    0 < m.mounts := by
  have hinit : Held (unused true mounts) :=
    ⟨rfl, fun _ => ⟨rfl, rfl, rfl⟩, fun _ => Int.le_refl 0,
      fun _ hpos => absurd hpos (Int.lt_irrefl 0), nofun⟩
  have h := run_invariant_of_meets Alone Held step_held as _ m rs hinit hmeets hrun
  have hflight : m.flight = [] := by
    rcases hm : m.flight with _ | ⟨⟨call, phase⟩, rest⟩
    · rfl
    · exact absurd (h.flying call phase (hm ▸ List.mem_cons_self)).2.1 hheld
  have hpos := List.length_pos_iff.mpr hheld
  have hcounted := h.counted hflight
  exact h.mounted hflight (by omega)

instance decidableAlone (m : Mount) : (a : Action) → Decidable (Alone m a)
  | .get _ | .put _ => inferInstanceAs (Decidable (m.flight = []))
  | .mount _ _ | .undo _ | .unmount _ => inferInstanceAs (Decidable True)

/-- The second call holds the directory after the first has let it go. -/
theorem held_mounted_twice : ∃ rs m,
    run step [.get 0, .mount 0 .succeeds, .get 1, .put 0] (unused true 0) = .ok (rs, m) ∧
    m.holders = [1] ∧ 0 < m.mounts :=
  ⟨_, _, rfl, rfl, held_mounted 0 [.get 0, .mount 0 .succeeds, .get 1, .put 0] _ _ (by decide) rfl
    (by decide)⟩

/-- The second call returns before the first has mounted. -/
theorem held_before_mounted : ∃ m,
    run step [.get 0, .get 1] (unused true 0) = .ok ([(), ()], m) ∧ 1 ∈ m.holders ∧ m.mounts = 0 :=
  ⟨_, rfl, by decide, rfl⟩

end Dao.Overlay2
