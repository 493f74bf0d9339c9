import Dao.Lib.Call

/-!
# Calls That May Crash

A call that is cut short by a crash is not a call that failed: the caller gets
no error to handle, and of the world only what outlives the crash counts. A
crash is therefore a stop of its own, which `attempt` does not catch.

`Ends` says what holds when a call is over: one property for a crash, which is
about the world alone, and one for the results. Its rules follow the calls, so
a property is proved by walking through the text of a call.
-/

namespace Lib

/-- Why a call stops. -/
inductive Stop (ε : Type) where
  | crash
  | error (e : ε)

namespace Call

variable {ε ω α β : Type}

/-- The call with its error as a result. A crash is not caught. -/
def attempt (x : Call (Stop ε) ω α) : Call (Stop ε) ω (Except ε α) := fun w =>
  match x w with
  | (.error .crash, w') => (.error .crash, w')
  | (.error (.error e), w') => (.ok (.error e), w')
  | (.ok a, w') => (.ok (.ok a), w')

/-- The call ends with a crash in a world that satisfies `C`, or with a result and a
    world that satisfy `Q`. -/
def Ends (C : ω → Prop) (x : Call (Stop ε) ω α) (w : ω) (Q : Except ε α → ω → Prop) : Prop :=
  match x w with
  | (.error .crash, w') => C w'
  | (.error (.error e), w') => Q (.error e) w'
  | (.ok a, w') => Q (.ok a) w'

variable {C : ω → Prop} {Q : Except ε α → ω → Prop} {R : Except ε β → ω → Prop} {w : ω}

theorem ends_pure {a : α} (h : Q (.ok a) w) : Ends C (pure a) w Q := h

theorem ends_raise {e : ε} (h : Q (.error e) w) : Ends C (raise (.error e)) w Q := h

variable {x : Call (Stop ε) ω α}

theorem ends_mono {Q' : Except ε α → ω → Prop} (h : Ends C x w Q')
    (hQ : ∀ r w', Q' r w' → Q r w') : Ends C x w Q := by
  unfold Ends at h ⊢
  generalize x w = out at h ⊢
  rcases out with ⟨r, w'⟩
  cases r with
  | ok a => exact hQ _ _ h
  | error s =>
    cases s with
    | crash => exact h
    | error e => exact hQ _ _ h

/-- A sequence ends as its first half does when that fails, and as its second half
    does otherwise. -/
theorem ends_bind {f : α → Call (Stop ε) ω β} (hx : Ends C x w Q)
    (herror : ∀ e w', Q (.error e) w' → R (.error e) w')
    (hok : ∀ a w', Q (.ok a) w' → Ends C (f a) w' R) : Ends C (x >>= f) w R := by
  unfold Ends at hx ⊢
  rw [bind_apply]
  generalize x w = out at hx ⊢
  rcases out with ⟨r, w'⟩
  cases r with
  | ok a => exact hok a w' hx
  | error s =>
    cases s with
    | crash => exact hx
    | error e => exact herror e w' hx

theorem ends_attempt {Q : Except ε (Except ε α) → ω → Prop}
    (h : Ends C x w (fun r w' => Q (.ok r) w')) : Ends C (attempt x) w Q := by
  unfold Ends at h ⊢
  unfold attempt
  generalize x w = out at h ⊢
  rcases out with ⟨r, w'⟩
  cases r with
  | ok a => exact h
  | error s =>
    cases s with
    | crash | error e => exact h

theorem ends_attempt_bind {f : Except ε α → Call (Stop ε) ω β}
    (h : Ends C x w (fun r w' => Ends C (f r) w' R)) : Ends C (attempt x >>= f) w R :=
  ends_bind (Q := fun r w' => ∃ a, r = .ok a ∧ Ends C (f a) w' R)
    (ends_attempt (ends_mono h fun r _ hr => ⟨r, rfl, hr⟩))
    nofun
    (fun _ _ ha => by
      rcases ha with ⟨a', haeq, ha'⟩
      rw [Except.ok.inj haeq]
      exact ha')

end Call

end Lib
