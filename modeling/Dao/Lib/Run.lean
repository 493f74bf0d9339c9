import Mathlib

/-!
# Runs of a Step Function

Runs of a deterministic step function that answers each action with a result
or aborts. Nondeterminism, of a scheduler or of a client, is in the choice of
the list of actions, so a statement about every list of actions is a
statement about every schedule.

The induction is packaged twice. `run_invariant` is for an invariant that
every step keeps. `run_invariant_of_meets` is for one that only the steps
meeting a condition keep: `Meets` says that each step of the run meets it in
the state it is taken from. `run_not_error` turns a step that cannot abort
with a given error into a run that cannot.
-/

namespace Lib

open List

variable {α σ ε ρ : Type}

/-- Take the actions one after another, collecting what each one returns. -/
def run (step : α → σ → Except ε (ρ × σ)) : List α → σ → Except ε (List ρ × σ)
  | [], s => .ok ([], s)
  | a :: as, s =>
    match step a s with
    | .error e => .error e
    | .ok (r, s') =>
      match run step as s' with
      | .error e => .error e
      | .ok (rs, t) => .ok (r :: rs, t)

/-- Every step of the run meets the condition in the state it is taken
    from. -/
def Meets (step : α → σ → Except ε (ρ × σ)) (C : σ → α → Prop) : List α → σ → Prop
  | [], _ => True
  | a :: as, s => C s a ∧ ∀ r s', step a s = .ok (r, s') → Meets step C as s'

variable {step : α → σ → Except ε (ρ × σ)}

/-- A condition that can be tested can be tested along a run. -/
instance decidableMeets (C : σ → α → Prop) [∀ s a, Decidable (C s a)] :
    ∀ (as : List α) (s : σ), Decidable (Meets step C as s)
  | [], _ => isTrue trivial
  | a :: as, s =>
    match h : step a s with
    | .error _ =>
      decidable_of_iff (C s a) ⟨fun hC => ⟨hC, fun r s' hs => by simp [h] at hs⟩, And.left⟩
    | .ok (_, s') =>
      have := decidableMeets C as s'
      decidable_of_iff (C s a ∧ Meets step C as s')
        ⟨fun hC => ⟨hC.1, fun r t hs => by simp_all⟩, fun hC => ⟨hC.1, hC.2 _ _ h⟩⟩

theorem run_nil {s t : σ} {rs : List ρ} (h : run step [] s = .ok (rs, t)) : rs = [] ∧ t = s := by
  cases h
  exact ⟨rfl, rfl⟩

theorem run_cons {a : α} {as : List α} {s t : σ} {rs : List ρ}
    (h : run step (a :: as) s = .ok (rs, t)) :
    ∃ r s' rs', step a s = .ok (r, s') ∧ run step as s' = .ok (rs', t) ∧ rs = r :: rs' := by
  simp only [run] at h
  rcases hstep : step a s with e | p
  · simp [hstep] at h
  rcases p with ⟨r, s'⟩
  rw [hstep] at h
  simp only [] at h
  rcases hrest : run step as s' with e | q
  · simp [hrest] at h
  rcases q with ⟨rs', t'⟩
  rw [hrest] at h
  simp only [Except.ok.injEq, Prod.mk.injEq] at h
  exact ⟨r, s', rs', rfl, by rw [← h.2]; exact hrest, h.1.symm⟩

theorem exists_run {as : List α} {s : σ} (h : (run step as s).isOk = true) :
    ∃ rs t, run step as s = .ok (rs, t) := by
  cases hrun : run step as s with
  | error e =>
    rw [hrun] at h
    nomatch h
  | ok p => exact ⟨p.1, p.2, rfl⟩

theorem run_append (as bs : List α) (s s' : σ) (rs : List ρ) (h : run step as s = .ok (rs, s')) :
    run step (as ++ bs) s = match run step bs s' with
      | .error e => .error e
      | .ok (qs, t) => .ok (rs ++ qs, t) := by
  induction as generalizing s rs with
  | nil =>
    rcases run_nil h with ⟨hrs, hs⟩
    rw [hrs, hs]
    simp only [nil_append]
    cases run step bs s with
    | error e => rfl
    | ok p => rfl
  | cons a as ih =>
    rcases run_cons h with ⟨r, s1, rs', hstep, hrest, hrs⟩
    simp only [cons_append, run, hstep]
    rw [ih s1 rs' hrest, hrs]
    cases run step bs s' with
    | error e => rfl
    | ok p => rfl

theorem run_trace (C : σ → α → Prop) (I : List ρ → σ → Prop)
    (hstep : ∀ a s r s' rs, I rs s → C s a → step a s = .ok (r, s') → I (rs ++ [r]) s') :
    ∀ (as : List α) (s t : σ) (rs qs : List ρ), I qs s → Meets step C as s →
      run step as s = .ok (rs, t) → I (qs ++ rs) t := by
  intro as
  induction as with
  | nil =>
    intro s t rs qs hI _ hrun
    rw [(run_nil hrun).1, (run_nil hrun).2, append_nil]
    exact hI
  | cons a as ih =>
    intro s t rs qs hI hmeets hrun
    rcases run_cons hrun with ⟨r, s', rs', hs, hrest, hcons⟩
    have h := ih s' t rs' (qs ++ [r]) (hstep a s r s' qs hI hmeets.1 hs) (hmeets.2 r s' hs) hrest
    rw [hcons, ← singleton_append, ← append_assoc]
    exact h

/-- What a step preserves with the actions and results up to it. -/
theorem run_history (I : List (α × ρ) → σ → Prop)
    (hstep : ∀ a s r s' h, I h s → step a s = .ok (r, s') → I (h ++ [(a, r)]) s') :
    ∀ (as : List α) (s t : σ) (rs : List ρ) (h : List (α × ρ)), I h s →
      run step as s = .ok (rs, t) → I (h ++ as.zip rs) t := by
  intro as
  induction as with
  | nil =>
    intro s t rs h hI hrun
    rw [(run_nil hrun).2, zip_nil_left, append_nil]
    exact hI
  | cons a as ih =>
    intro s t rs h hI hrun
    rcases run_cons hrun with ⟨r, s', rs', hs, hrest, rfl⟩
    rw [zip_cons_cons, append_cons]
    exact ih s' t rs' _ (hstep a s r s' h hI hs) hrest

/-- An invariant over a run whose steps meet a condition and whose results are
    all of a kind. -/
theorem run_invariant_of_results (C : σ → α → Prop) (P : ρ → Prop) (I : σ → Prop)
    (hstep : ∀ a s r s', I s → C s a → step a s = .ok (r, s') → P r → I s')
    (as : List α) (s t : σ) (rs : List ρ) (hI : I s) (hmeets : Meets step C as s)
    (hrun : run step as s = .ok (rs, t)) (hrs : ∀ r ∈ rs, P r) : I t := by
  refine run_trace C (fun rs s => (∀ r ∈ rs, P r) → I s)
    ?_ as s t rs [] (fun _ => hI) hmeets hrun hrs
  intro a s r s' rs ih hC hs hrs
  rcases forall_mem_append.mp hrs with ⟨hold, hnew⟩
  exact hstep a s r s' (ih hold) hC hs (hnew r (mem_singleton_self r))

theorem run_invariant_of_meets (C : σ → α → Prop) (I : σ → Prop)
    (hstep : ∀ a s r s', I s → C s a → step a s = .ok (r, s') → I s')
    (as : List α) (s t : σ) (rs : List ρ) (hI : I s) (hmeets : Meets step C as s)
    (hrun : run step as s = .ok (rs, t)) : I t :=
  run_invariant_of_results C (fun _ => True) I
    (fun a s r s' hI hC hs _ => hstep a s r s' hI hC hs) as s t rs hI hmeets hrun
    (fun _ _ => trivial)

theorem meets_mono {C C' : σ → α → Prop} (hC : ∀ s a, C s a → C' s a) (as : List α) (s : σ)
    (h : Meets step C as s) : Meets step C' as s := by
  induction as generalizing s with
  | nil => exact trivial
  | cons a as ih => exact ⟨hC s a h.1, fun r s' hs => ih s' (h.2 r s' hs)⟩

theorem meets_append {C : σ → α → Prop} {as bs : List α} {s : σ}
    (h : Meets step C (as ++ bs) s) : Meets step C as s ∧
      ∀ rs t, run step as s = .ok (rs, t) → Meets step C bs t := by
  induction as generalizing s with
  | nil =>
    refine ⟨trivial, fun rs t hrun => ?_⟩
    rw [(run_nil hrun).2]
    exact h
  | cons a as ih =>
    refine ⟨⟨h.1, fun r s' hs => (ih (h.2 r s' hs)).1⟩, fun rs t hrun => ?_⟩
    rcases run_cons hrun with ⟨r, s', rs', hs, hrest, _⟩
    exact (ih (h.2 r s' hs)).2 rs' t hrest

theorem meets_of_forall {P : α → Prop} {as : List α} (h : ∀ a ∈ as, P a) (s : σ) :
    Meets step (fun _ a => P a) as s := by
  induction as generalizing s with
  | nil => exact trivial
  | cons a as ih =>
    exact ⟨h a mem_cons_self,
      fun _ s' _ => ih (fun a' ha' => h a' (mem_cons_of_mem _ ha')) s'⟩

theorem meets_true (as : List α) (s : σ) : Meets step (fun _ _ => True) as s := by
  induction as generalizing s with
  | nil => exact trivial
  | cons a as ih => exact ⟨trivial, fun _ s' _ => ih s'⟩

theorem run_invariant (I : σ → Prop) (hstep : ∀ a s r s', I s → step a s = .ok (r, s') → I s')
    (as : List α) (s t : σ) (rs : List ρ) (hI : I s) (hrun : run step as s = .ok (rs, t)) :
    I t :=
  run_invariant_of_meets (fun _ _ => True) I (fun a s r s' h _ => hstep a s r s' h)
    as s t rs hI (meets_true as s) hrun

theorem bind_ok {β : Type} {x : Except ε β} {f : β → Except ε ρ} {r : ρ} :
    (x >>= f) = .ok r ↔ ∃ b, x = .ok b ∧ f b = .ok r := by
  cases x with
  | error e =>
    constructor
    · intro h
      nomatch h
    · rintro ⟨b, hb, _⟩
      nomatch hb
  | ok b =>
    constructor
    · intro h
      exact ⟨b, rfl, h⟩
    · rintro ⟨b', hb, hf⟩
      rw [Except.ok.inj hb]
      exact hf

theorem run_not_error (I : σ → Prop) (bad : ε → Prop)
    (hstep : ∀ a s r s', I s → step a s = .ok (r, s') → I s')
    (herr : ∀ a s e, I s → step a s = .error e → ¬ bad e) :
    ∀ (as : List α) (s : σ) (e : ε), I s → run step as s = .error e → ¬ bad e := by
  intro as
  induction as with
  | nil => intro s e _ h; simp only [run, reduceCtorEq] at h
  | cons a as ih =>
    intro s e hI h
    simp only [run] at h
    cases hs : step a s with
    | error e' =>
      rw [hs] at h
      simp only [Except.error.injEq] at h
      rw [← h]
      exact herr a s e' hI hs
    | ok p =>
      rcases p with ⟨r, s'⟩
      rw [hs] at h
      simp only [] at h
      -- The error is that of the first step, or of a later one from a state with the invariant.
      cases hrest : run step as s' with
      | error e' =>
        rw [hrest] at h
        simp only [Except.error.injEq] at h
        rw [← h]
        exact ih s' e' (hstep a s r s' hI hs) hrest
      | ok q =>
        simp [hrest] at h

end Lib
