import Dao.Core.Runconfig.Compare

/-!
# Configurations That Compare

The comparison reads the labels of its first argument only, and an absent label
reads as an empty one. It is symmetric and tells what it should, unless the
configurations agree in all but the keys of as many labels, and the labels of one
of them read the same in the other.

## Theorems

* `compare_iff`: What the comparison tells.
* `compare_sound`: When the comparison is symmetric and tells what it should.
* `empty_label_compares`: An empty label compares to none.
-/

namespace Dao.Runconfig

variable {a b : Config}

/-- What is equal in configurations that compare, but for the labels. -/
structure Alike (a b : Config) : Prop where
  openStdin : a.openStdin = false ∧ b.openStdin = false
  flags : a.attachStdout = b.attachStdout ∧ a.attachStderr = b.attachStderr ∧ a.tty = b.tty
  user : a.user = b.user
  cmd : a.cmd = b.cmd
  env : a.env = b.env
  entrypoint : a.entrypoint = b.entrypoint
  exposedPorts : a.exposedPorts = b.exposedPorts
  volumes : a.volumes = b.volumes
  count : a.labels.keys.card = b.labels.keys.card

/-- The labels of the first read the same in the second. -/
def ReadsIn (a b : Config) : Prop := ∀ k ∈ a.labels.keys, a.labels.value k = b.labels.value k

/-- What should be equal in configurations that compare. -/
structure Agree (a b : Config) : Prop extends Alike a b where
  keys : a.labels.keys = b.labels.keys
  values : ReadsIn a b

/-- The labels that are read agree, and the keys do not. -/
structure Confused (a b : Config) : Prop where
  alike : Alike a b
  keys : a.labels.keys ≠ b.labels.keys
  reads : ReadsIn a b ∨ ReadsIn b a

theorem eq_of_equalSlices : ∀ {xs ys : List Str}, xs.length = ys.length →
    equalSlices xs ys = true → xs = ys := by
  intro xs ys hlength h
  fun_induction equalSlices xs ys with
  | case1 x xs y ys ih =>
    simp only [Bool.and_eq_true, beq_iff_eq] at h
    rw [h.1, ih (by simpa using hlength) h.2]
  | case2 xs ys =>
    rw [List.isEmpty_iff.mp h] at hlength ⊢
    exact (List.length_eq_zero_iff.mp hlength.symm).symm

theorem equalSlices_self (xs : List Str) : equalSlices xs xs = true := by
  induction xs with
  | nil => rfl
  | cons x xs ih => simp [equalSlices, ih]

theorem Alike.symm (h : Alike a b) : Alike b a :=
  ⟨h.openStdin.symm, ⟨h.flags.1.symm, h.flags.2.1.symm, h.flags.2.2.symm⟩, h.user.symm, h.cmd.symm,
    h.env.symm, h.entrypoint.symm, h.exposedPorts.symm, h.volumes.symm, h.count.symm⟩

theorem compare_iff : compare (some a) (some b) = true ↔ Alike a b ∧ ReadsIn a b := by
  constructor
  · intro h
    simp only [compare, Bool.and_eq_true, Bool.not_eq_true', Bool.or_eq_false_iff, beq_iff_eq,
      decide_eq_true_eq] at h
    rcases h with ⟨⟨⟨⟨⟨⟨⟨⟨hopen, ⟨⟨⟨hout, herr⟩, huser⟩, _⟩, htty⟩,
      ⟨⟨⟨⟨hcmd, henv⟩, hlabels⟩, hports⟩, hentry⟩, hvolumes⟩, hcmd'⟩, henv'⟩, hreads⟩, hports'⟩,
      hentry'⟩, hvolumes'⟩
    exact ⟨⟨hopen, ⟨hout, herr, htty⟩, huser, eq_of_equalSlices hcmd hcmd',
      eq_of_equalSlices henv henv', eq_of_equalSlices hentry hentry',
      Finset.eq_of_subset_of_card_le hports' hports.ge,
      Finset.eq_of_subset_of_card_le hvolumes' hvolumes.ge, hlabels⟩, hreads⟩
  · rintro ⟨h, hreads⟩
    simpa [compare, h.openStdin, h.flags, h.user, h.cmd, h.env, h.entrypoint, h.count,
      h.exposedPorts, h.volumes, equalSlices_self, ReadsIn] using hreads

theorem ReadsIn.symm (hkeys : a.labels.keys = b.labels.keys) (h : ReadsIn a b) : ReadsIn b a :=
  fun k hk => (h k (hkeys ▸ hk)).symm

/-- The comparison is symmetric and what compares agrees, just if the configurations
    are not confused. -/
theorem compare_sound (a b : Option Config) :
    (compare a b = compare b a ∧
      (compare a b = true → ∃ x y, a = some x ∧ b = some y ∧ Agree x y)) ↔
    ∀ x y, a = some x → b = some y → ¬Confused x y := by
  rcases a with _ | a
  · cases b <;> simp [compare]
  rcases b with _ | b
  · simp [compare]
  simp only [Option.some.injEq]
  constructor
  · rintro ⟨hsymm, hsound⟩ x y rfl rfl ⟨halike, hkeys, hreads⟩
    -- One of the two compares, and so do both.
    have htrue : compare (some a) (some b) = true := by
      rcases hreads with hreads | hreads
      · exact compare_iff.mpr ⟨halike, hreads⟩
      · rw [hsymm]
        exact compare_iff.mpr ⟨halike.symm, hreads⟩
    obtain ⟨x, y, rfl, rfl, hagree⟩ := hsound htrue
    exact hkeys hagree.keys
  · intro hclear
    have hkeys : Alike a b → ReadsIn a b ∨ ReadsIn b a → a.labels.keys = b.labels.keys := by
      intro halike hreads
      by_contra hne
      exact hclear a b rfl rfl ⟨halike, hne, hreads⟩
    refine ⟨Bool.eq_iff_iff.mpr ?_, fun htrue => ?_⟩
    · rw [compare_iff, compare_iff]
      constructor
      · rintro ⟨halike, hreads⟩
        exact ⟨halike.symm, hreads.symm (hkeys halike (.inl hreads))⟩
      · rintro ⟨halike, hreads⟩
        exact ⟨halike.symm, hreads.symm (hkeys halike.symm (.inr hreads)).symm⟩
    · obtain ⟨halike, hreads⟩ := compare_iff.mp htrue
      exact ⟨a, b, rfl, rfl, halike, hkeys halike (.inl hreads), hreads⟩

/-- A configuration with one label. -/
def oneLabel (k v : Str) : Config where
  attachStdout := false
  attachStderr := false
  openStdin := false
  tty := false
  user := []
  cmd := []
  env := []
  entrypoint := []
  labels := ⟨{k}, fun k' => if k' = k then v else [], fun _ hk =>
    if_neg fun h => hk (Finset.mem_singleton.mpr h)⟩
  exposedPorts := ∅
  volumes := ∅

/-- The one label is empty and absent in the other configuration. -/
theorem empty_label_compares :
    compare (some (oneLabel ['x'] [])) (some (oneLabel ['y'] ['v'])) = true ∧
      compare (some (oneLabel ['y'] ['v'])) (some (oneLabel ['x'] [])) = false := by
  decide

end Dao.Runconfig
