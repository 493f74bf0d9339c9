import Dao.Core.Libcontainerd.Queue

/-!
# Functions of One Container Run in Order

A goroutine waits for the one before it, which waited for the one before. So
when its channel is closed, all of them are done.

## Theorems

* `chained_append`, `chained_set`, `step_chained`: What a step preserves.
* `run_in_order`: The functions of an id run in order.
-/

namespace Dao.EventQueue

open Lib Function List

/-- The channel that is closed before the goroutine at a place runs. -/
def before : Nat → Option Nat
  | 0 => none
  | n + 1 => some n

/-- The goroutines of an id wait for each other. -/
structure Chained (fn : Option Nat) (gs : List Goroutine) : Prop where
  last : fn = before gs.length
  waits : ∀ i g, gs[i]? = some g → g.fn = before i
  done : ∀ (i j : Nat) (g g' : Goroutine), gs[i]? = some g → gs[j]? = some g' → i < j →
    g'.phase ≠ .waiting → g.phase = .closed

variable {fn : Option Nat} {gs : List Goroutine}

theorem chained_append (h : Chained fn gs) :
    Chained (some gs.length) (gs ++ [⟨fn, .waiting⟩]) := by
  have hlast := h.last
  have hwaits := h.waits
  have hdone := h.done
  refine ⟨by simp [before], fun i g hi => ?_, fun i j g g' hi hj hij hstarted => ?_⟩
  · grind
  · grind

theorem chained_set (h : Chained fn gs) {i : Nat}
    {g : Goroutine} {phase : Phase} (hg : gs[i]? = some g) (hnext : g.next gs = some phase) :
    Chained fn (gs.set i { g with phase := phase }) := by
  have hwaits := h.waits
  refine ⟨by rw [length_set]; exact h.last, fun k g' hk => ?_, fun a b ga gb ha hb hab hb' => ?_⟩
  · grind
  · have hdone := h.done a
    have hopen : g.phase ≠ .closed := by grind [Goroutine.next]
    by_cases hwaiting : b = i ∧ g.phase = .waiting
    · -- The one before has closed its channel, so those before it have.
      cases i with
      | zero => omega
      | succ n => grind [Goroutine.next, closed, before]
    · grind

theorem step_chained (a : Action) (q : Queue) (r : Unit) (q' : Queue)
    (h : ∀ id, Chained (q.fns id) (q.goroutines id)) (hstep : step a q = .ok (r, q')) (id : Str) :
    Chained (q'.fns id) (q'.goroutines id) := by
  cases a with
  | append x =>
    cases hstep
    by_cases hx : id = x
    · simp only [append, hx, update_self]
      exact chained_append (h x)
    · simp only [append, update_of_ne hx]
      exact h id
  | resume x i =>
    rw [step] at hstep
    split at hstep
    · nomatch hstep
    · next g hg =>
      split at hstep <;> cases hstep
      next phase hnext =>
      by_cases hx : id = x
      · simp only [hx, update_self]
        exact chained_set (h x) hg hnext
      · simp only [update_of_ne hx]
        exact h id

/-- When a function has started, every function that was appended before it for the same id has
    returned. -/
theorem run_in_order (as : List Action) (rs : List Unit) (q : Queue)
    (hrun : run step as initial = .ok (rs, q)) (id : Str) (i j : Nat) (g g' : Goroutine)
    (hi : (q.goroutines id)[i]? = some g) (hj : (q.goroutines id)[j]? = some g') (hij : i < j)
    (hstarted : g'.phase ≠ .waiting) : g.phase = .closed := by
  have hinit : ∀ id, Chained (initial.fns id) (initial.goroutines id) :=
    fun _ => ⟨rfl, nofun, nofun⟩
  have h := run_invariant (fun q => ∀ id, Chained (q.fns id) (q.goroutines id)) step_chained as
    initial q rs hinit hrun id
  exact h.done i j g g' hi hj hij hstarted

/-- Three functions of two ids, one of which waits. -/
def twoIds : List Action :=
  [.append ['a'], .append ['b'], .append ['a'], .resume ['a'] 0, .resume ['a'] 0, .resume ['a'] 0,
    .resume ['a'] 1]

theorem run_in_order_two : ∃ rs q g g', run step twoIds initial = .ok (rs, q) ∧
    (q.goroutines ['a'])[0]? = some g ∧ (q.goroutines ['a'])[1]? = some g' ∧
    g'.phase ≠ .waiting ∧ g.phase = .closed :=
  ⟨_, _, _, _, rfl, rfl, rfl, nofun,
    run_in_order twoIds _ _ rfl ['a'] 0 1 _ _ rfl rfl Nat.one_pos nofun⟩

end Dao.EventQueue
