import Dao.Core.Volume.Mounts

/-!
# Volumes in Use

A failed start cleans up after all its mount points, whether they were set up or
not, and so does a failed copy. The count of a volume that another container uses
goes down, and the volume is unmounted under it. `Orderly` is what keeps the
counts: whatever is torn down was set up before.

## Theorems

* `mount_counted`, `unmount_counted`: One volume is counted once more or once less.
* `setupMounts_counted`, `unmountVolumes_counted`: The walks over the mount points.
* `step_counted`: What an orderly operation keeps.
* `started_mounted`: The volumes of started containers are mounted.
* `unmounted_by_other`: A failed start unmounts the volume of another container.
-/

namespace Dao.Volume

open Lib List

/-- The volumes of mount points. -/
def volumesOf (ms : List MountPoint) : List Nat := ms.filterMap MountPoint.volume

/-- No mount point with a volume is hidden, and no count comes to an end. -/
def Sets (cfg : Config) (d : Daemon) (c : Nat) : Prop :=
  (∀ m ∈ cfg.mountPoints c, m.volume ≠ none → m.tmpfs = false) ∧
    ∀ v ∈ volumesOf (cfg.mountPoints c), (d.volumes v).count + (cfg.mountPoints c).length < 2 ^ 64

instance (cfg : Config) (d : Daemon) (c : Nat) : Decidable (Sets cfg d c) :=
  inferInstanceAs (Decidable (_ ∧ _))

/-- A start fails before the container first has a `BaseFS` or after all its
    mount points are set up, a copy sets up all of them, and only a container
    that was started is cleaned up. -/
def Orderly (cfg : Config) (d : Daemon) : Action → Prop
  | .start c (some .mount) _ => c ∈ d.started ∨ d.baseFS c = false
  | .start c (some (.volumes _)) _ => c ∈ d.started
  | .start c (some .create) _ | .start c none _ => c ∈ d.started ∨ Sets cfg d c
  | .cleanup c _ => c ∈ d.started
  | .copy c setup _ => setup = none ∧ Sets cfg d c

instance (cfg : Config) (d : Daemon) : DecidablePred (Orderly cfg d)
  | .start _ (some .mount) _ => inferInstanceAs (Decidable (_ ∨ _))
  | .start c (some (.volumes _)) _ => inferInstanceAs (Decidable (c ∈ d.started))
  | .start _ (some .create) _ | .start _ none _ => inferInstanceAs (Decidable (_ ∨ _))
  | .cleanup c _ => inferInstanceAs (Decidable (c ∈ d.started))
  | .copy _ _ _ => inferInstanceAs (Decidable (_ ∧ _))

/-- Each volume is counted at least as often as the list has it. -/
structure Counted (cfg : Config) (vs : Nat → LocalVolume) (used : List Nat) : Prop where
  count : ∀ v, cfg.opts v = true → used.count v ≤ (vs v).count
  bound : ∀ v, (vs v).count < 2 ^ 64
  mounted : ∀ v, 0 < (vs v).count → (vs v).mounted = true
  underflow : ∀ v, (vs v).underflow = false

variable {cfg : Config} {vs : Nat → LocalVolume} {used used' : List Nat} {fails : Nat → Bool}

theorem counted_of_le (h : Counted cfg vs used) (hle : ∀ v, used'.count v ≤ used.count v) :
    Counted cfg vs used' :=
  { h with count := fun v hv => Nat.le_trans (hle v) (h.count v hv) }

theorem counted_perm (h : Counted cfg vs used) (hperm : used.Perm used') : Counted cfg vs used' :=
  counted_of_le h fun v => Nat.le_of_eq (hperm.count_eq v).symm

theorem counted_right (h : Counted cfg vs (used' ++ used)) : Counted cfg vs used :=
  counted_of_le h ((sublist_append_right used' used).count_le)

theorem counted_update (h : Counted cfg vs used) {v : Nat} {l : LocalVolume}
    (hcount : cfg.opts v = true → used'.count v ≤ l.count)
    (hother : ∀ x, x ≠ v → used'.count x ≤ used.count x) (hbound : l.count < 2 ^ 64)
    (hmounted : 0 < l.count → l.mounted = true) (hunder : l.underflow = false) :
    Counted cfg (Function.update vs v l) used' := by
  refine ⟨fun x hx => ?_, fun x => ?_, fun x => ?_, fun x => ?_⟩ <;> by_cases heq : x = v
  · rw [heq, Function.update_self]
    exact hcount (heq ▸ hx)
  · rw [Function.update_of_ne heq]
    exact Nat.le_trans (hother x heq) (h.count x hx)
  · rw [heq, Function.update_self]
    exact hbound
  · rw [Function.update_of_ne heq]
    exact h.bound x
  · rw [heq, Function.update_self]
    exact hmounted
  · rw [Function.update_of_ne heq]
    exact h.mounted x
  · rw [heq, Function.update_self]
    exact hunder
  · rw [Function.update_of_ne heq]
    exact h.underflow x

theorem mount_counted (v : Nat) (h : Counted cfg vs used) (hroom : (vs v).count + 1 < 2 ^ 64) :
    Counted cfg (mount cfg v vs) (v :: used) := by
  have hmod := Nat.mod_eq_of_lt hroom
  unfold mount
  by_cases ho : cfg.opts v = true
  · rw [if_pos ho]
    refine counted_update h (fun _ => ?_) (fun x hx => ?_) ?_ (fun _ => rfl) (h.underflow v)
    · rw [count_cons_self, hmod]
      exact Nat.succ_le_succ (h.count v ho)
    · rw [count_cons_of_ne hx.symm]
    · rw [hmod]
      exact hroom
  · rw [if_neg ho]
    -- A volume without options is not counted.
    refine { h with count := fun x hx => ?_ }
    have hne : v ≠ x := by
      rintro rfl
      exact ho hx
    rw [count_cons_of_ne hne]
    exact h.count x hx

theorem unmount_counted (v : Nat) (b : Bool) (h : Counted cfg vs (v :: used)) :
    Counted cfg (unmount cfg b v vs).2 used := by
  have htail : Counted cfg vs used := counted_of_le h fun x => count_le_count_cons
  unfold unmount
  by_cases ho : cfg.opts v = true
  · -- The volume is counted, so that the count does go down by one.
    have hcount := h.count v ho
    rw [count_cons_self] at hcount
    have hdec : ((vs v).count + (2 ^ 64 - 1)) % 2 ^ 64 = (vs v).count - 1 := by
      have hlt := h.bound v
      omega
    simp only [ho, hdec]
    split_ifs with hnot hne
    · simp at hnot
    · refine counted_update htail (fun _ => Nat.le_sub_one_of_lt hcount) (fun _ _ => Nat.le_refl _)
        (Nat.lt_of_le_of_lt (Nat.sub_le _ _) (h.bound v)) (fun _ => h.mounted v (by omega)) ?_
      simpa [h.underflow v] using Nat.ne_of_gt (Nat.lt_of_lt_of_le (Nat.succ_pos _) hcount)
    · exact htail
    · exact counted_update htail (fun _ => show _ ≤ 0 by omega) (fun _ _ => Nat.le_refl _)
        (Nat.two_pow_pos 64) (fun hpos => absurd hpos (Nat.lt_irrefl 0)) (h.underflow v)
  · rw [if_pos (by simp [ho])]
    exact htail

theorem setupMounts_counted (ms : List MountPoint) : ∀ (vs : Nat → LocalVolume) (used : List Nat),
    Counted cfg vs used → (∀ m ∈ ms, m.volume ≠ none → m.tmpfs = false) →
    (∀ v ∈ volumesOf ms, (vs v).count + ms.length < 2 ^ 64) →
    Counted cfg (setupMounts cfg ms vs) (volumesOf ms ++ used) := by
  induction ms with
  | nil => exact fun vs used h _ _ => h
  | cons m ms ih =>
    intro vs used h htmpfs hroom
    have hms := fun m' hm' => htmpfs m' (mem_cons_of_mem m hm')
    simp only [length_cons] at hroom
    rw [setupMounts]
    rcases hv : m.volume with _ | v
    · have hvols : volumesOf (m :: ms) = volumesOf ms := filterMap_cons_none hv
      rw [hvols] at hroom ⊢
      exact ih vs used h hms fun v hv => Nat.lt_of_succ_lt (hroom v hv)
    have hvols : volumesOf (m :: ms) = v :: volumesOf ms := filterMap_cons_some hv
    rw [hvols] at hroom
    have hm := mount_counted v h (by have := hroom v mem_cons_self; omega)
    -- Each mount adds at most one, so there is room for those that follow.
    have hnext : ∀ x, (mount cfg v vs x).count ≤ (vs x).count + 1 := by
      intro x
      unfold mount
      split_ifs
      · by_cases hx : x = v
        · rw [hx, Function.update_self]
          exact Nat.mod_le _ _
        · rw [Function.update_of_ne hx]
          omega
      · omega
    simp only [hvols, htmpfs m mem_cons_self (by simp [hv]), Bool.false_eq_true, if_false]
    refine counted_perm (ih _ (v :: used) hm hms fun x hx => ?_) perm_middle
    have := hroom x (mem_cons_of_mem v hx)
    have := hnext x
    omega

theorem unmountVolumes_counted (ms : List MountPoint) : ∀ vs : Nat → LocalVolume,
    Counted cfg vs (volumesOf ms ++ used) → Counted cfg (unmountVolumes cfg fails ms vs) used := by
  induction ms with
  | nil => exact fun vs h => h
  | cons m ms ih =>
    intro vs h
    rw [unmountVolumes]
    cases hv : m.volume with
    | none =>
      have hvols : volumesOf (m :: ms) = volumesOf ms := filterMap_cons_none hv
      rw [hvols] at h
      exact ih vs h
    | some v =>
      have hvols : volumesOf (m :: ms) = v :: volumesOf ms := filterMap_cons_some hv
      rw [hvols] at h
      have hu := unmount_counted v (fails v) h
      rcases hr : unmount cfg (fails v) v vs with ⟨ok, vs'⟩
      rw [hr] at hu
      simp only [hr]
      cases ok with
      | true => exact ih vs' hu
      | false => exact counted_right hu

/-- The volumes that started containers use. -/
def inUse (cfg : Config) (started : List Nat) : List Nat :=
  started.flatMap fun c => volumesOf (cfg.mountPoints c)

theorem walk_counted {d : Daemon} {c : Nat} {k : Walk} (hk : k.OK (cfg.mountPoints c))
    (hsets : Sets cfg d c) (h : Counted cfg d.volumes used) :
    Counted cfg (setupMounts cfg k.setup d.volumes) (volumesOf (cfg.mountPoints c) ++ used) := by
  refine counted_perm (setupMounts_counted k.setup d.volumes used h
    (fun m hm => hsets.1 m (hk.1.mem_iff.mp hm)) fun v hv => ?_)
    ((hk.1.filterMap _).append_right used)
  rw [hk.1.length_eq]
  exact hsets.2 v ((hk.1.filterMap _).mem_iff.mp hv)

theorem teardown_counted {c : Nat} {k : Walk} (hk : k.OK (cfg.mountPoints c))
    (h : Counted cfg vs (volumesOf (cfg.mountPoints c) ++ used)) :
    Counted cfg (unmountVolumes cfg k.fails k.teardown vs) used := by
  rcases hk.2 with hnil | hperm
  · rw [hnil]
    exact counted_right h
  · exact unmountVolumes_counted k.teardown vs
      (counted_perm h ((hperm.filterMap _).append_right used).symm)

theorem step_counted (a : Action) (d : Daemon) (r : Unit) (d' : Daemon)
    (h : Counted cfg d.volumes (inUse cfg d.started)) (hC : Orderly cfg d a)
    (hstep : step cfg a d = .ok (r, d')) : Counted cfg d'.volumes (inUse cfg d'.started) := by
  cases a with
  | start c fault k =>
    simp only [step] at hstep
    split_ifs at hstep with hc hk
    · cases hstep
      exact h
    have herase : d.started.erase c = d.started := erase_of_not_mem hc
    rcases fault with _ | _ | n | _
    · cases hstep
      exact walk_counted hk (hC.resolve_left hc) h
    · cases hstep
      simp only [Daemon.cleanup, herase, show d.baseFS c = false from hC.resolve_left hc]
      exact h
    · exact absurd hC hc
    · cases hstep
      simp only [Daemon.cleanup, Daemon.setup, herase, Function.update_self, if_true]
      exact teardown_counted hk (walk_counted hk (hC.resolve_left hc) h)
  | cleanup c k =>
    have hc : c ∈ d.started := hC
    simp only [step] at hstep
    split_ifs at hstep with hk
    cases hstep
    -- What the container used comes first.
    have hperm : (inUse cfg d.started).Perm
        (volumesOf (cfg.mountPoints c) ++ inUse cfg (d.started.erase c)) :=
      (perm_cons_erase hc).flatMap_right _
    simp only [Daemon.cleanup]
    split_ifs
    · exact teardown_counted hk (counted_perm h hperm)
    · exact counted_right (counted_perm h hperm)
  | copy c setup k =>
    simp only [step] at hstep
    split_ifs at hstep with hk
    cases hstep
    simp only [hC.1, Option.getD_none, take_length]
    exact teardown_counted hk (walk_counted hk hC.2 h)

/-- In an orderly run the volumes of every container that was started and not
    cleaned up since are mounted, and no count has gone below zero. -/
theorem started_mounted (cfg : Config) (as : List Action) (rs : List Unit) (d : Daemon)
    (hmeets : Meets (step cfg) (Orderly cfg) as initial)
    (hrun : run (step cfg) as initial = .ok (rs, d)) :
    (∀ c ∈ d.started, ∀ m ∈ cfg.mountPoints c, ∀ v, m.volume = some v → cfg.opts v = true →
      (d.volumes v).mounted = true) ∧
    ∀ v, (d.volumes v).underflow = false := by
  have hinit : Counted cfg initial.volumes (inUse cfg initial.started) := by
    exact ⟨fun _ _ => Nat.zero_le _, fun _ => Nat.two_pow_pos 64,
      fun _ hpos => absurd hpos (Nat.lt_irrefl 0), fun _ => rfl⟩
  have h := run_invariant_of_meets (Orderly cfg) (fun d => Counted cfg d.volumes
    (inUse cfg d.started)) step_counted
    as initial d rs hinit hmeets hrun
  refine ⟨fun c hc m hm v hv ho => h.mounted v (Nat.lt_of_lt_of_le ?_ (h.count v ho)), h.underflow⟩
  exact List.count_pos_iff.mpr (List.mem_flatMap.mpr ⟨c, hc, List.mem_filterMap.mpr ⟨m, hm, hv⟩⟩)

/-- Two containers that share a volume with options. -/
def shared : Config := ⟨fun _ => true, fun _ => [⟨some 0, false⟩]⟩

/-- A walk in which nothing fails. -/
def sharedWalk : Walk := ⟨[⟨some 0, false⟩], [⟨some 0, false⟩], fun _ => false⟩

/-- The second container fails after its mount points are set up, is copied from, is
    started and cleaned up, and the volume of the first one stays mounted. -/
def sharedRun : List Action :=
  [.start 0 none sharedWalk, .start 1 (some .create) sharedWalk, .copy 1 none sharedWalk,
    .start 1 none sharedWalk, .cleanup 1 sharedWalk]

theorem started_mounted_shared : ∃ rs d, run (step shared) sharedRun initial = .ok (rs, d) ∧
    d.started = [0] ∧ (d.volumes 0).mounted = true :=
  ⟨_, _, rfl, rfl, (started_mounted shared sharedRun _ _ (by decide +kernel) rfl).1 0
    (by decide +kernel) _ List.mem_cons_self 0 rfl rfl⟩

/-- The second container fails before it has mounted anything, and the volume of
    the first one is unmounted. -/
theorem unmounted_by_other : ∃ d, run (step shared)
      [.start 0 none sharedWalk, .start 1 (some (.volumes 0)) sharedWalk] initial =
        .ok ([(), ()], d) ∧
    d.started = [0] ∧ (d.volumes 0).mounted = false :=
  ⟨_, rfl, rfl, rfl⟩

end Dao.Volume
