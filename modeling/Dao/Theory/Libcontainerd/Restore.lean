import Dao.Core.Libcontainerd.Restore

/-!
# What Ends a Restore

The notifier of a container is closed by every exit event of it, also by that of
an exec process, and stays in the map once it is closed. A call of `Restore`
waits for the exit it should when it is the first one for the container and only
the init process exits.

## Theorems

* `awaited_restore`, ..., `awaited_process`: What a step preserves.
* `exited_after_init`: What has happened when `Restore` returns.
* `exec_exit_wakes`: It returns too early after an exec.
-/

namespace Dao.Libcontainerd

open Lib

/-- There is one call of `Restore`, and no exec process exits. -/
def InitOnly (c : Client) : Action → Prop
  | .restore _ => c.notifier = none
  | .process => ∀ n pid, c.queue.head? ≠ some (n, .exitProcess pid)
  | _ => True

/-- An exit of the init process that was received after the registration has been
    processed. -/
def InitExited (c : Client) (registered : Nat) : Prop :=
  ∃ n, registered ≤ n ∧ (n, .exitInit) ∈ c.processed

/-- A closed notifier was closed by the right exit, and nothing that is queued is
    older than the call that waits. -/
structure Awaited (rs : List Result) (c : Client) : Prop where
  before : c.notifier = none → c.known = false ∧ c.queue = [] ∧ ∀ call, c.waiting call = none
  open_ : ∀ w, c.made ≤ w → c.closed w = false
  own : ∀ w, c.notifier = some w → w < c.made
  queued : ∀ call w registered, c.waiting call = some (w, registered) →
    registered ≤ c.received ∧ ∀ n e, (n, e) ∈ c.queue → registered ≤ n
  woken : ∀ call w registered, c.waiting call = some (w, registered) → c.closed w = true →
    InitExited c registered
  exited : ∀ call registered, .exited call registered ∈ rs → InitExited c registered

section Steps

variable {c c' : Client} {r : Result} {rs : List Result} {call : Nat} {e : Event}

theorem InitExited.mono {registered : Nat} (h : InitExited c registered)
    (hsub : ∀ x ∈ c.processed, x ∈ c'.processed) : InitExited c' registered := by
  obtain ⟨n, hle, hmem⟩ := h
  exact ⟨n, hle, hsub _ hmem⟩

theorem exited_of_nothing {registered : Nat} (h : .exited call registered ∈ rs ++ [.nothing]) :
    .exited call registered ∈ rs := by
  simpa using h

theorem waiting_of_update {w : Option (Nat × Nat)} {x : Nat × Nat} {other : Nat}
    (h : Function.update c.waiting call w other = some x) (hw : w = none) :
    c.waiting other = some x := by
  by_cases hother : other = call
  · rw [hother, Function.update_self, hw] at h
    nomatch h
  · rwa [Function.update_of_ne hother] at h

/-- The notifier is new and open, and the queue is empty. -/
theorem awaited_restore (h : Awaited rs c) (hnone : c.notifier = none)
    (hstep : step (.restore call) c = .ok (r, c')) : Awaited (rs ++ [r]) c' := by
  obtain ⟨hknown, hqueue, hwaiting⟩ := h.before hnone
  simp only [step, hnone, hwaiting] at hstep
  cases hstep
  have hself : ∀ other x, Function.update c.waiting call (some (c.made, c.received)) other =
    some x →
      x = (c.made, c.received) := by
    intro other x hx
    by_cases hother : other = call
    · rw [hother, Function.update_self] at hx
      exact (Option.some.inj hx).symm
    · rw [Function.update_of_ne hother, hwaiting] at hx
      nomatch hx
  refine ⟨nofun, fun w hw => h.open_ w (Nat.le_of_succ_le hw), ?_, ?_, ?_, ?_⟩
  · rintro w ⟨⟩
    exact Nat.lt_succ_self _
  · intro other w registered hw
    cases hself other _ hw
    exact ⟨Nat.le_refl _, fun n e hmem => by rw [hqueue] at hmem; nomatch hmem⟩
  · intro other w registered hw hclosed
    cases hself other _ hw
    nomatch hclosed.symm.trans (h.open_ _ (Nat.le_refl _))
  · exact fun other registered hmem => h.exited other registered (exited_of_nothing hmem)

/-- The call has waited for a notifier that the right exit has closed. -/
theorem awaited_wake (h : Awaited rs c) (hstep : step (.wake call) c = .ok (r, c')) :
    Awaited (rs ++ [r]) c' := by
  simp only [step] at hstep
  rcases hw : c.waiting call with _ | ⟨w, registered⟩
  · simp [hw] at hstep
  simp only [hw] at hstep
  split_ifs at hstep with hclosed
  cases hstep
  refine ⟨fun hnone => ?_, h.open_, h.own, ?_, ?_, ?_⟩
  · nomatch hw.symm.trans ((h.before hnone).2.2 call)
  · exact fun other v reg hv => h.queued other v reg (waiting_of_update hv rfl)
  · exact fun other v reg hv => h.woken other v reg (waiting_of_update hv rfl)
  · intro other reg hmem
    rcases List.mem_append.mp hmem with hold | hnew
    · exact h.exited other reg hold
    · cases List.mem_singleton.mp hnew
      exact h.woken call w registered hw hclosed

theorem awaited_timeout (h : Awaited rs c) (hstep : step (.timeout call) c = .ok (r, c')) :
    Awaited (rs ++ [r]) c' := by
  simp only [step] at hstep
  split_ifs at hstep with hwaits
  cases hstep
  refine ⟨fun hnone => ?_, h.open_, h.own, ?_, ?_, ?_⟩
  · rw [(h.before hnone).2.2 call] at hwaits
    nomatch hwaits
  · exact fun other v reg hv => h.queued other v reg (waiting_of_update hv rfl)
  · exact fun other v reg hv => h.woken other v reg (waiting_of_update hv rfl)
  · exact fun other reg hmem => h.exited other reg (exited_of_nothing hmem)

/-- Nobody who waits has registered after the event. -/
theorem awaited_receive (h : Awaited rs c) (hstep : step (.receive e) c = .ok (r, c')) :
    Awaited (rs ++ [r]) c' := by
  simp only [step] at hstep
  split_ifs at hstep with hknown
  · cases hstep
    exact ⟨h.before, h.open_, h.own, h.queued, h.woken,
      fun other reg hmem => h.exited other reg (exited_of_nothing hmem)⟩
  · cases hstep
    refine ⟨fun hnone => ?_, h.open_, h.own, fun other w reg hw => ?_, h.woken,
      fun other reg hmem => h.exited other reg (exited_of_nothing hmem)⟩
    · simp [(h.before hnone).1] at hknown
    · obtain ⟨hle, hqueue⟩ := h.queued other w reg hw
      refine ⟨Nat.le_succ_of_le hle, fun n x hmem => ?_⟩
      rcases List.mem_append.mp hmem with hold | hnew
      · exact hqueue n x hold
      · cases List.mem_singleton.mp hnew
        exact hle

/-- The only exit that closes the notifier is one of the init process. -/
theorem awaited_process (h : Awaited rs c)
    (hinit : ∀ n pid, c.queue.head? ≠ some (n, .exitProcess pid))
    (hstep : step .process c = .ok (r, c')) : Awaited (rs ++ [r]) c' := by
  simp only [step] at hstep
  rcases hq : c.queue with _ | ⟨⟨n, e⟩, queue⟩
  · simp [hq] at hstep
  simp only [hq, Client.close] at hstep
  have hnotifier : c.notifier ≠ none := fun hnone => by nomatch hq.symm.trans (h.before hnone).2.1
  have hqueued : ∀ other w reg, c.waiting other = some (w, reg) →
      reg ≤ c.received ∧ ∀ m x, (m, x) ∈ queue → reg ≤ m := by
    intro other w reg hw
    refine (h.queued other w reg hw).imp_right fun hqueue m x hmem => hqueue m x ?_
    rw [hq]
    exact List.mem_cons_of_mem _ hmem
  split at hstep
  · cases hstep
    refine ⟨fun hnone => absurd hnone hnotifier, h.open_, h.own, hqueued, ?_, ?_⟩
    · exact fun other w reg hw hclosed =>
        (h.woken other w reg hw hclosed).mono fun _ => List.mem_append_left _
    · exact fun other reg hmem =>
        (h.exited other reg (exited_of_nothing hmem)).mono fun _ => List.mem_append_left _
  · next w hclose =>
    split_ifs at hclose with hexit
    -- The notifier is closed, and only by an exit of the init process.
    have he : e = .exitInit := by
      cases e with
      | exitProcess pid => exact absurd (by rw [hq]; rfl) (hinit n pid)
      | exitInit => rfl
      | _ => nomatch hexit
    cases hstep
    refine ⟨fun hnone => absurd hnone hnotifier, fun v hv => ?_, h.own, hqueued, ?_, ?_⟩
    · dsimp only at hv ⊢
      rw [Function.update_of_ne (Nat.ne_of_gt (Nat.lt_of_lt_of_le (h.own w hclose) hv))]
      exact h.open_ v hv
    · intro other v reg hv hclosed
      dsimp only at hv hclosed
      by_cases hvw : v = w
      · refine ⟨n, (h.queued other v reg hv).2 n e (by rw [hq]; exact List.mem_cons_self), ?_⟩
        rw [← he]
        exact List.mem_append_right _ (List.mem_singleton_self _)
      · rw [Function.update_of_ne hvw] at hclosed
        exact (h.woken other v reg hv hclosed).mono fun _ => List.mem_append_left _
    · exact fun other reg hmem =>
        (h.exited other reg (exited_of_nothing hmem)).mono fun _ => List.mem_append_left _

end Steps

theorem step_awaited (a : Action) (c : Client) (r : Result) (c' : Client) (rs : List Result)
    (h : Awaited rs c) (hC : InitOnly c a) (hstep : step a c = .ok (r, c')) :
    Awaited (rs ++ [r]) c' := by
  cases a with
  | restore => exact awaited_restore h hC hstep
  | wake => exact awaited_wake h hstep
  | timeout => exact awaited_timeout h hstep
  | receive => exact awaited_receive h hstep
  | process => exact awaited_process h hC hstep

/-- A call that returns through its notifier does so after an exit of the init
    process, received since it registered, has been processed. -/
theorem exited_after_init (as : List Action) (rs : List Result) (c : Client)
    (hmeets : Meets step InitOnly as newClient) (hrun : run step as newClient = .ok (rs, c))
    (call registered : Nat) (hexited : .exited call registered ∈ rs) :
    ∃ n, registered ≤ n ∧ (n, .exitInit) ∈ c.processed := by
  have hinit : Awaited [] newClient :=
    ⟨fun _ => ⟨rfl, rfl, fun _ => rfl⟩, fun _ _ => rfl, nofun, nofun, nofun, nofun⟩
  exact (run_trace InitOnly Awaited step_awaited as newClient c rs [] hinit
    hmeets hrun).exited call registered hexited

theorem initOnly_process_iff (c : Client) : InitOnly c .process ↔
    ∀ x ∈ c.queue.head?, x.2.isExit = true → x.2 = .exitInit := by
  change (∀ n pid, c.queue.head? ≠ some (n, .exitProcess pid)) ↔ _
  rcases c.queue.head? with _ | ⟨n, e⟩
  · simp
  · cases e <;> simp [Event.isExit]

instance decidableInitOnly (c : Client) : (a : Action) → Decidable (InitOnly c a)
  | .restore _ => inferInstanceAs (Decidable (c.notifier = none))
  | .process => decidable_of_iff' _ (initOnly_process_iff c)
  | .wake _ | .timeout _ | .receive _ => inferInstanceAs (Decidable True)

/-- The container is paused and resumed before it exits. -/
def pausedExit : List Action :=
  [.restore 0, .receive .pause, .process, .receive .resume, .receive .exitInit, .process, .process,
    .wake 0]

theorem exited_after_init_exit : ∃ rs c, run step pausedExit newClient = .ok (rs, c) ∧
    .exited 0 0 ∈ rs ∧ c.processed.length = 3 ∧ ∃ n, 0 ≤ n ∧ (n, .exitInit) ∈ c.processed :=
  ⟨_, _, rfl, by decide, rfl, exited_after_init pausedExit _ _ (by decide) rfl 0 0 (by decide)⟩

/-- An exec process exits, and `Restore` returns while the container runs on. -/
theorem exec_exit_wakes : ∃ c, run step
      [.restore 0, .receive (.exitProcess 7), .process, .wake 0] newClient =
        .ok ([.nothing, .nothing, .nothing, .exited 0 0], c) ∧
    c.known = true ∧ c.processed = [(0, .exitProcess 7)] :=
  ⟨_, rfl, rfl, rfl⟩

end Dao.Libcontainerd
