import Dao.Core.Container.State

/-!
# What a Waiter Reads

A waiter is woken by a transition and reads the exit code later, when it has the
lock again. It reads what the transition set, as long as no other transition
changes the code in between. A start does: it sets the code to zero.

## Theorems

* `step_waiting`: What a step does to a waiter.
* `woken_reads_closing_code`: What a waiter reads.
* `restarted_waiter_reads_zero`: A start in between.
-/

namespace Dao.Container

open Lib Function List

/-- The exit code after the transition, if it is one. -/
def Action.sets : Action → Option Int
  | .setRunning _ => some 0
  | .setStopped exitStatus => some exitStatus.exitCode
  | .setRestarting exitStatus => some exitStatus.exitCode
  | _ => none

/-- No call has been woken without having read the code, or the step does not
    change the code. -/
def Undisturbed (s : Sys) (a : Action) : Prop :=
  (∀ call channel, s.waiters call = some channel → s.state.waitChan ≤ channel) ∨
    ∀ code, a.sets = some code → code = s.state.exitCode

/-- Whoever waits on a closed channel would read the code it was closed with, and
    whoever has read one read that. -/
structure Waiting (rs : List Result) (s : Sys) : Prop where
  made : ∀ call channel, s.waiters call = some channel → channel ≤ s.state.waitChan
  current : ∀ call channel, s.waiters call = some channel → channel < s.state.waitChan →
    s.state.closed[channel]? = some s.state.exitCode
  read : ∀ call channel code, .woken call channel code ∈ rs → s.state.closed[channel]? = some code

/-- A transition that closes the channel. Those who waited on it are woken with
    the code it sets. -/
theorem waiting_fire {rs : List Result} {s : Sys} {t : State} {exitStatus : ExitStatus}
    (h : Waiting rs s) (hclosed : t.closed = s.state.closed)
    (hC : (∀ call channel, s.waiters call = some channel → s.state.waitChan ≤ channel) ∨
      exitStatus.exitCode = s.state.exitCode) :
    Waiting (rs ++ [.nothing]) { s with state := t.fire exitStatus } := by
  have hlength : (t.fire exitStatus).waitChan = s.state.waitChan + 1 := by
    rw [State.waitChan, State.fire, hclosed, length_append]
    rfl
  have hkeep : ∀ (channel : Nat) code, s.state.closed[channel]? = some code →
      (t.fire exitStatus).closed[channel]? = some code := by
    intro channel code hcode
    rw [State.fire, hclosed, List.getElem?_append_left (List.getElem?_eq_some_iff.mp hcode).1]
    exact hcode
  refine ⟨fun call channel hw => ?_, fun call channel hw hlt => ?_,
    fun call channel code hmem => ?_⟩
  · have := h.made call channel hw
    change channel ≤ (t.fire exitStatus).waitChan
    omega
  · change channel < (t.fire exitStatus).waitChan at hlt
    by_cases hold : channel < s.state.waitChan
    · -- The call was woken before, so the step may not change the code.
      rcases hC with hnone | hcode
      · have := hnone call channel hw
        omega
      · refine hkeep channel _ ?_
        rw [h.current call channel hw hold, ← hcode]
        rfl
    · have heq : channel = s.state.closed.length := by
        change ¬ channel < s.state.closed.length at hold
        change _ = s.state.closed.length + 1 at hlength
        omega
      change (t.closed ++ [exitStatus.exitCode])[channel]? = some exitStatus.exitCode
      rw [hclosed, heq, getElem?_concat_length]
  · rcases mem_append.mp hmem with hold | hnew
    · exact hkeep channel code (h.read call channel code hold)
    · nomatch mem_singleton.mp hnew

theorem read_of_same {rs : List Result} {closed : List Int} {r : Result}
    (h : ∀ (call channel : Nat) code, .woken call channel code ∈ rs → closed[channel]? = some code)
    (hr : ∀ (call channel : Nat) code, r = .woken call channel code →
      closed[channel]? = some code) :
    ∀ (call channel : Nat) code, .woken call channel code ∈ rs ++ [r] →
      closed[channel]? = some code := by
  intro call channel code hmem
  rcases mem_append.mp hmem with hold | hnew
  · exact h call channel code hold
  · exact hr call channel code (mem_singleton.mp hnew).symm

theorem step_waiting (a : Action) (s : Sys) (r : Result) (s' : Sys) (rs : List Result)
    (h : Waiting rs s) (hC : Undisturbed s a) (hstep : step a s = .ok (r, s')) :
    Waiting (rs ++ [r]) s' := by
  have hsets : ∀ code, a.sets = some code →
      (∀ call channel, s.waiters call = some channel → s.state.waitChan ≤ channel) ∨
        code = s.state.exitCode := fun code hcode => hC.imp id fun hall => hall code hcode
  cases a with
  | setRunning pid =>
    cases hstep
    refine ⟨h.made, fun call channel hw hlt => ?_, read_of_same h.read nofun⟩
    rcases hsets 0 rfl with hnone | hcode
    · exact absurd hlt (Nat.not_lt.mpr (hnone call channel hw))
    · exact (h.current call channel hw hlt).trans (by rw [← hcode]; rfl)
  | setStopped | setRestarting =>
    cases hstep
    exact waiting_fire h rfl (hsets _ rfl)
  | waitStop call =>
    rw [step] at hstep
    split_ifs at hstep with hfree hrunning
    · cases hstep
      exact ⟨h.made, h.current, read_of_same h.read nofun⟩
    cases hstep
    refine ⟨fun c channel hw => ?_, fun c channel hw hlt => ?_, read_of_same h.read nofun⟩
    all_goals change update s.waiters call (some s.state.waitChan) c = some channel at hw
    all_goals by_cases hc : c = call
    · rw [hc, update_self, Option.some.injEq] at hw
      exact Nat.le_of_eq hw.symm
    · rw [update_of_ne hc] at hw
      exact h.made c channel hw
    · -- The new call waits on the channel that is open.
      rw [hc, update_self, Option.some.injEq] at hw
      rw [← hw] at hlt
      exact absurd hlt (Nat.lt_irrefl _)
    · rw [update_of_ne hc] at hw
      exact h.current c channel hw hlt
  | resume call =>
    rw [step] at hstep
    rcases hw : s.waiters call with _ | channel
    · simp [hw] at hstep
    rw [hw] at hstep
    simp only at hstep
    split_ifs at hstep with hlt
    cases hstep
    have hold : ∀ c ch, update s.waiters call none c = some ch → s.waiters c = some ch := by
      intro c ch hc
      by_cases heq : c = call
      · simp [heq, update_self] at hc
      · rwa [update_of_ne heq] at hc
    refine ⟨fun c ch hc => h.made c ch (hold c ch hc),
      fun c ch hc => h.current c ch (hold c ch hc), read_of_same h.read fun c ch code hr => ?_⟩
    cases hr
    exact h.current call channel hw hlt

/-- A woken call returns the code that the transition set which closed its
    channel. -/
theorem woken_reads_closing_code (as : List Action) (rs : List Result) (s : Sys)
    (hmeets : Meets step Undisturbed as initial) (hrun : run step as initial = .ok (rs, s))
    (call channel : Nat) (code : Int) (hwoken : .woken call channel code ∈ rs) :
    s.state.closed[channel]? = some code := by
  have hinit : Waiting [] initial :=
    ⟨nofun, nofun, nofun⟩
  exact (run_trace Undisturbed Waiting step_waiting as initial s rs [] hinit
    hmeets hrun).read call channel code hwoken

theorem woken_reads_closing_code_stopped : ∃ rs s,
    run step [.setRunning 7, .waitStop 0, .setStopped ⟨3, false⟩, .resume 0] initial = .ok (rs, s) ∧
    .woken 0 0 3 ∈ rs ∧ s.state.closed[0]? = some 3 :=
  ⟨_, _, rfl, by decide,
    woken_reads_closing_code [.setRunning 7, .waitStop 0, .setStopped ⟨3, false⟩, .resume 0] _ _
      ⟨.inl nofun, fun _ _ h₁ => by
        cases h₁
        refine ⟨.inr nofun, fun _ _ h₂ => ?_⟩
        cases h₂
        refine ⟨.inl fun _ _ _ => Nat.zero_le _, fun _ _ h₃ => ?_⟩
        cases h₃
        exact ⟨.inr nofun, fun _ _ _ => trivial⟩⟩
      rfl 0 0 3 (by decide)⟩

/-- The container is started again before the waiter has read the code. -/
theorem restarted_waiter_reads_zero : ∃ rs s,
    run step [.setRunning 7, .waitStop 0, .setStopped ⟨3, false⟩, .setRunning 8,
      .resume 0] initial =
      .ok (rs, s) ∧ .woken 0 0 0 ∈ rs ∧ s.state.closed[0]? = some 3 :=
  ⟨_, _, rfl, by decide, rfl⟩

end Dao.Container
