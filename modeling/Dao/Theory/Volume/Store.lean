import Dao.Core.Volume.Store

/-!
# Volumes That Are Referenced

Only the holder of the lock is inside a call, so that nothing is added between
the look at the references and the purge. References are told apart as the store
does it, by their text.

A volume that its driver forgets in a removal that fails stays named, and the next
caller gets it without a question to the driver. As long as no driver does that,
what is named or referenced is known.

## Theorems

* `guarded_goto`: A call that only goes on keeps the invariant.
* `ask_guarded`, `step_guarded`: What the calls and the steps keep.
* `removed_unreferenced`: No volume is removed that is referenced.
* `forgotten_referenced`: A reference to a volume that its driver has forgotten.
-/

namespace Dao.VolumeStore

open Lib Function

structure Guarded (rs : List Result) (s : Store) : Prop where
  holder : ∀ t, s.phase t ≠ .idle → s.holder = some t
  refs : s.refs = s.added.map Prod.fst
  /-- What is named is known, unless it has just been removed. -/
  names : ∀ v, s.names = some v → s.known v = true ∨ ∃ t, s.phase t = .removed
  found : ∀ t v ref, s.phase t = .found v ref → s.known v = true
  removed : ∀ t, s.phase t = .removed → s.added = []
  added : ∀ ref v, (ref, v) ∈ s.added → s.known v = true
  results : ∀ added, .removed added ∈ rs → added = []

/-- A removal that fails leaves the volume with its driver. -/
def Action.Keeps : Action → Prop
  | .ask _ _ (.fails forgets) => forgets = false
  | _ => True

variable {rs : List Result} {s s' : Store} {r : Result} {t : Nat} {call : Call}

theorem goto_phase (s : Store) (t : Nat) (p : Phase) (u : Nat) :
    (s.goto t p).phase u = if u = t then p else s.phase u :=
  update_apply ..

theorem results_nothing (h : Guarded rs s) {added : List (Nat × Nat)}
    (hmem : .removed added ∈ rs ++ [Result.nothing]) : added = [] := by
  rcases List.mem_append.mp hmem with hmem | hmem
  · exact h.results added hmem
  · nomatch List.mem_singleton.mp hmem

theorem inside_eq (h : Guarded rs s) {u : Nat} (ht : s.phase t ≠ .idle) (hu : s.phase u ≠ .idle) :
    u = t :=
  Option.some.inj ((h.holder u hu).symm.trans (h.holder t ht))

/-- While a call is inside and has removed nothing, what is named is known. -/
theorem known_of_named (h : Guarded rs s) (ht : s.phase t = .locked call) {v : Nat}
    (hv : s.names = some v) : s.known v = true := by
  refine (h.names v hv).resolve_right ?_
  rintro ⟨u, hu⟩
  rw [inside_eq h (t := t) (u := u) (by simp [ht]) (by simp [hu]), ht] at hu
  nomatch hu

/-- A call goes on from where it is inside, and nothing else changes. -/
theorem guarded_goto (h : Guarded rs s) {p : Phase} (hheld : s.holder = some t)
    (ht : s.phase t ≠ .removed) (hfound : ∀ v ref, p = .found v ref → s.known v = true)
    (hremoved : p ≠ .removed) : Guarded (rs ++ [.nothing]) (s.goto t p) where
  holder u hu := by
    rw [goto_phase] at hu
    split at hu
    · next heq => exact heq ▸ hheld
    · exact h.holder u hu
  refs := h.refs
  -- The call that has removed the volume is another one, and is still there.
  names v hv := by
    refine (h.names v hv).imp_right ?_
    rintro ⟨u, hu⟩
    have hne : u ≠ t := by
      rintro rfl
      exact ht hu
    exact ⟨u, by rw [goto_phase, if_neg hne]; exact hu⟩
  found u v ref hu := by
    rw [goto_phase] at hu
    split at hu
    · exact hfound v ref hu
    · exact h.found u v ref hu
  removed u hu := by
    rw [goto_phase] at hu
    split at hu
    · exact absurd hu hremoved
    · exact h.removed u hu
  added := h.added
  results _ := results_nothing h

theorem guarded_known (h : Guarded rs s) (v : Nat) :
    Guarded rs { s with known := update s.known v true } := by
  have hmore : ∀ u, s.known u = true → update s.known v true u = true := by
    intro u hu
    rw [update_apply]
    split <;> simp [hu]
  exact { h with
    names := fun u hu => (h.names u hu).imp_left (hmore u)
    found := fun t u ref ht => hmore u (h.found t u ref ht)
    added := fun ref u hmem => hmore u (h.added ref u hmem) }

theorem guarded_dereference (h : Guarded rs s) (ref : Nat) : Guarded rs { s with
    refs := s.refs.filter (· ≠ ref), added := s.added.filter (·.1 ≠ ref) } where
  holder := h.holder
  refs := by
    rw [h.refs, List.filter_map]
    rfl
  names := h.names
  found := h.found
  removed t ht := by simp [h.removed t ht]
  added _ _ hmem := h.added _ _ (List.mem_filter.mp hmem).1
  results := h.results

theorem ask_guarded (driver : Option Nat) (outcome : Outcome) (h : Guarded rs s)
    (ht : s.phase t = .locked call) (hkeeps : outcome ≠ .fails true)
    (hask : ask t driver outcome s call = (r, s')) : Guarded (rs ++ [r]) s' := by
  have hheld : s.holder = some t := h.holder t (by simp [ht])
  have hnot : s.phase t ≠ .removed := by simp [ht]
  -- All calls but a removal find a volume or end.
  have hfinds : ∀ {v ref} {c : Prop} [Decidable c], (c → s.known v = true) →
      Guarded (rs ++ [.nothing]) (s.goto t (if c then .found v ref else .finished)) := by
    intro v ref c _ hc
    split_ifs with hif
    · exact guarded_goto h hheld hnot (by rintro _ _ ⟨⟩; exact hc hif) nofun
    · exact guarded_goto h hheld hnot nofun nofun
  have hends := guarded_goto h hheld hnot (p := .finished) nofun nofun
  cases call with
  | create d ref =>
    simp only [ask] at hask
    split at hask
    · next v hv =>
      cases hask
      exact hfinds fun _ => known_of_named h ht hv
    · next v _ =>
      have hknown := guarded_known h v
      split_ifs at hask <;> cases hask
      · exact hends
      · exact guarded_goto hknown hheld hnot (by rintro _ _ ⟨⟩; exact update_self ..) nofun
      · exact guarded_goto hknown hheld hnot nofun nofun
    · cases hask
      exact hends
  | getWithRef d ref =>
    cases hask
    exact hfinds And.right
  | get =>
    simp only [ask] at hask
    split at hask
    · cases hask
      exact hfinds And.right
    · cases hask
      exact hends
  | remove d =>
    simp only [ask] at hask
    split_ifs at hask with hrefs
    · cases hask
      exact hends
    cases outcome with
    | fails forgets =>
      cases forgets with
      | true => exact absurd rfl hkeeps
      | false =>
        cases hask
        exact hends
    | ok =>
      cases hask
      -- Nobody has a reference, and nobody else is inside.
      have hnone : s.added = [] := by
        rw [not_not, h.refs] at hrefs
        exact List.map_eq_nil_iff.mp hrefs
      have hother : ∀ u, u ≠ t → s.phase u = .idle := by
        intro u hu
        by_contra hidle
        exact hu (inside_eq h (by simp [ht]) hidle)
      refine ⟨fun u hu => ?_, h.refs, fun v hv => ?_, fun u v ref hu => ?_, fun _ _ => hnone,
        fun ref v hmem => ?_, fun added hmem => ?_⟩
      · rw [goto_phase] at hu
        split at hu
        · next heq => exact heq ▸ hheld
        · exact h.holder u hu
      · exact .inr ⟨t, by rw [goto_phase, if_pos rfl]⟩
      · rw [goto_phase] at hu
        split at hu
        · nomatch hu
        · next hne => nomatch hu.symm.trans (hother u hne)
      · rw [show Store.added _ = s.added from rfl, hnone] at hmem
        nomatch hmem
      · rcases List.mem_append.mp hmem with hmem | hmem
        · exact h.results added hmem
        · cases List.mem_singleton.mp hmem
          exact hnone
  | dereference ref =>
    cases hask
    exact guarded_goto (guarded_dereference h ref) hheld hnot nofun nofun

theorem commit_guarded (h : Guarded rs s) (hstep : step (.commit t) s = .ok (r, s')) :
    Guarded (rs ++ [r]) s' := by
  simp only [step] at hstep
  split at hstep
  · next v ref ht =>
    cases hstep
    have hknown := h.found t v ref ht
    have hnamed : Guarded rs { s with
        names := some v, refs := s.refs ++ ref.toList
        added := s.added ++ ref.toList.map (·, v) } := by
      refine ⟨h.holder, ?_, ?_, h.found, fun u (hu : s.phase u = .removed) => ?_,
        fun ref' v' hmem => ?_, h.results⟩
      · cases ref <;> simp [h.refs]
      · rintro _ ⟨⟩
        exact .inl hknown
      -- Only one call is inside, and it is not one that has removed the volume.
      · rw [inside_eq h (t := t) (u := u) (by simp [ht]) (by simp [hu]), ht] at hu
        nomatch hu
      · rcases List.mem_append.mp hmem with hmem | hmem
        · exact h.added ref' v' hmem
        · obtain ⟨_, _, ⟨⟩⟩ := List.mem_map.mp hmem
          exact hknown
    exact guarded_goto hnamed (h.holder t (by simp [ht])) (by simp [ht]) nofun nofun
  · next ht =>
    cases hstep
    have hnone := h.removed t ht
    refine ⟨fun u hu => ?_, by rw [show Store.added _ = s.added from rfl, hnone]; rfl, nofun,
      fun u v ref hu => ?_, fun _ _ => hnone, h.added, fun _ => results_nothing h⟩
    · rw [goto_phase] at hu
      split at hu
      · next heq => exact heq ▸ h.holder t (by simp [ht])
      · exact h.holder u hu
    · rw [goto_phase] at hu
      split at hu
      · nomatch hu
      · exact h.found u v ref hu
  · nomatch hstep

theorem step_guarded (a : Action) (h : Guarded rs s) (hkeeps : a.Keeps)
    (hstep : step a s = .ok (r, s')) : Guarded (rs ++ [r]) s' := by
  cases a with
  | lock t call =>
    simp only [step] at hstep
    split at hstep
    · next hfree hidle =>
      cases hstep
      have hheld : Guarded rs { s with holder := some t } := by
        refine { h with holder := fun u hu => ?_ }
        nomatch hfree.symm.trans (h.holder u hu)
      exact guarded_goto hheld rfl (by simp [hidle]) nofun nofun
    · nomatch hstep
  | ask t driver outcome =>
    simp only [step] at hstep
    split at hstep
    · next call ht =>
      refine ask_guarded driver outcome h ht ?_ (Except.ok.inj hstep)
      rintro rfl
      exact Bool.noConfusion hkeeps
    · nomatch hstep
  | commit t => exact commit_guarded h hstep
  | unlock t =>
    simp only [step] at hstep
    split at hstep
    · next ht =>
      cases hstep
      have hheld := h.holder t (by simp [ht])
      have hgoto := guarded_goto h hheld (by simp [ht]) (p := .idle) nofun nofun
      refine { hgoto with holder := fun u hu => ?_ }
      -- Nobody else is inside.
      have hown := hgoto.holder u hu
      rw [show (s.goto t .idle).holder = s.holder from rfl, hheld, Option.some.injEq] at hown
      rw [← hown] at hu
      exact absurd ((goto_phase ..).trans (if_pos rfl)) hu
    · nomatch hstep

/-- As long as no removal that fails forgets the volume, a volume is removed only when
    every reference that was added to its name has been dereferenced, and as long as one
    has not, its driver knows the volume. -/
theorem removed_unreferenced (known : Nat → Bool) (as : List Action) (rs : List Result) (s : Store)
    (hkeeps : ∀ a ∈ as, a.Keeps) (hrun : run step as (newStore known) = .ok (rs, s)) :
    (∀ added, .removed added ∈ rs → added = []) ∧
    ∀ ref v, (ref, v) ∈ s.added → s.known v = true := by
  have hinit : Guarded [] (newStore known) :=
    ⟨fun _ h => absurd rfl h, rfl, nofun, nofun, nofun, nofun, nofun⟩
  have h := run_trace (fun _ a => a.Keeps) Guarded (fun a s r s' rs h hk hs =>
    step_guarded a h hk hs)
    as (newStore known) s rs [] hinit (meets_of_forall hkeeps _) hrun
  exact ⟨h.results, h.added⟩

/-- A volume is created with a reference and got with another. It is not removed, also
    when the first is gone. -/
def twoReferences : List Action :=
  [.lock 0 (.create (some 1) (some 7)), .ask 0 (some 1) .ok, .commit 0, .unlock 0,
    .lock 1 (.getWithRef 1 (some 8)), .ask 1 none .ok, .commit 1, .unlock 1,
    .lock 0 (.dereference 7), .ask 0 none .ok, .unlock 0, .lock 2 (.remove 1), .ask 2 none .ok]

theorem removed_unreferenced_two : ∃ rs s,
    run step twoReferences (newStore fun _ => false) = .ok (rs, s) ∧ s.added = [(8, 1)] ∧
      s.known 1 = true :=
  ⟨_, _, rfl, rfl, (removed_unreferenced (fun _ => false) twoReferences _ _
    (by simp [twoReferences, Action.Keeps]) rfl).2 8 1 (by decide)⟩

/-- The driver forgets the volume and fails to remove its directory, and the next caller
    gets it with a reference. -/
theorem forgotten_referenced : ∃ rs s,
    run step [.lock 0 (.create (some 1) none), .ask 0 (some 1) .ok, .commit 0, .unlock 0,
      .lock 0 (.remove 1), .ask 0 none (.fails true), .unlock 0,
      .lock 1 (.create (some 1) (some 7)), .ask 1 none .ok, .commit 1, .unlock 1]
      (newStore fun _ => false) = .ok (rs, s) ∧ (7, 1) ∈ s.added ∧ s.known 1 = false :=
  ⟨_, _, rfl, by decide, by decide⟩

end Dao.VolumeStore
