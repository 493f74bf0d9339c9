import Dao.Core.Xfer.Manager

/-!
# What a Step of the Manager Does

The step function of the transfer manager, taken apart once. `Does` has one
constructor for each way a step can go, with the conditions under which it
goes that way and the state it leads to, and `does_of_step` is all that later
proofs know about `step`.

The four steps of a watcher's goroutine change nothing but the watcher, so
they share a constructor.

## Theorems

* `does_of_step`: A step does one of these.
-/

namespace Dao.Xfer

open Lib Except

theorem require_ok (p : Prop) [Decidable p] (u : Unit) : require p = .ok u ↔ p := by
  unfold require
  by_cases h : p
  · simp [h]
  · simp [h]

theorem closeChannel_ok (b : Bool) (u : Unit) : closeChannel b = .ok u ↔ b = false := by
  cases b with
  | true | false => simp [closeChannel]

theorem find_ok {α : Type} (o : Option α) (a : α) : find o = .ok a ↔ o = some a := by
  cases o with
  | none | some b => simp [find]

/-- The steps of a watcher's goroutine. -/
def ofWatcher : Action → Bool
  | .watcherRead _ => true
  | .watcherReleased _ => true
  | .watcherSynced _ => true
  | .watcherDone _ => true
  | _ => false

/-- The ways a step can go. -/
inductive Does (m : Manager) : Action → List Event → Manager → Prop where
  | setConcurrency (n : Int) (hlock : m.lock = none) :
      Does m (.setConcurrency n) [] { m with concurrencyLimit := n }
  | transfer (c : CallID) (key : Key) (hc : m.calls.lookup c = none) :
      Does m (.transfer c key) [] (m.setCall c (.lock key))
  | release (c : CallID) (j : JobID) (w : WatcherID) (job : Job) (hc : m.calls.lookup c = none)
      (hj : m.jobs.lookup j = some job) (hheld : (j, w) ∈ m.held) :
      Does m (.release c j w) []
        { (m.setXfer j job (job.xfer.release w)).setCall c (.detach none j w) with
          held := m.held.filter (fun p => decide (p ≠ (j, w))) }
  | lock (c : CallID) (key : Key) (hpc : m.calls.lookup c = some (.lock key))
      (hlock : m.lock = none) :
      Does m (.proceed c) [] { m.setCall c (.loop key) with lock := some c }
  | watch (c : CallID) (key : Key) (j : JobID) (job : Job)
      (hpc : m.calls.lookup c = some (.loop key)) (hkey : m.transfers.lookup key = some j)
      (hj : m.jobs.lookup j = some job) :
      Does m (.proceed c) [] ((m.watch j job).setCall c (.check key j m.nextWatcher))
  | create (c : CallID) (key : Key) (hpc : m.calls.lookup c = some (.loop key))
      (hkey : m.transfers.lookup key = none) :
      Does m (.proceed c) ((if m.hasSlot then [Event.started m.nextJob] else []) ++
          [.returned c m.nextJob m.nextWatcher true])
        ((m.create key).return_ c m.nextJob m.nextWatcher)
  | giveUp (c : CallID) (key : Key) (j : JobID) (w : WatcherID) (job : Job)
      (hpc : m.calls.lookup c = some (.check key j w)) (hj : m.jobs.lookup j = some job)
      (hcancel : job.xfer.cancelled = true) :
      Does m (.proceed c) [] (m.setCall c (.giveUp key j w))
  | join (c : CallID) (key : Key) (j : JobID) (w : WatcherID) (job : Job)
      (hpc : m.calls.lookup c = some (.check key j w)) (hj : m.jobs.lookup j = some job)
      (hcancel : job.xfer.cancelled = false) :
      Does m (.proceed c) [.returned c j w false] (m.return_ c j w)
  | releaseCancelled (c : CallID) (key : Key) (j : JobID) (w : WatcherID) (job : Job)
      (hpc : m.calls.lookup c = some (.giveUp key j w)) (hj : m.jobs.lookup j = some job) :
      Does m (.proceed c) []
        ((m.setXfer j job (job.xfer.release w)).setCall c (.detach (some key) j w))
  | detach (c : CallID) (back : Option Key) (j : JobID) (w : WatcherID) (watcher : Watcher)
      (hpc : m.calls.lookup c = some (.detach back j w))
      (hw : m.watchers.lookup w = some watcher) (hopen : watcher.releaseClosed = false) :
      Does m (.proceed c) []
        ((m.setWatcher w { watcher with releaseClosed := true }).setCall c (.join back j w))
  | unlock (c : CallID) (key : Key) (j : JobID) (w : WatcherID) (watcher : Watcher)
      (hpc : m.calls.lookup c = some (.join (some key) j w))
      (hw : m.watchers.lookup w = some watcher) (hended : watcher.pc = .ended) :
      Does m (.proceed c) [] { m.setCall c (.await key j) with lock := none }
  | released (c : CallID) (j : JobID) (w : WatcherID) (watcher : Watcher)
      (hpc : m.calls.lookup c = some (.join none j w))
      (hw : m.watchers.lookup w = some watcher) (hended : watcher.pc = .ended) :
      Does m (.proceed c) [.released c j w] { m with calls := m.calls.erase c }
  | await (c : CallID) (key : Key) (j : JobID) (job : Job)
      (hpc : m.calls.lookup c = some (.await key j)) (hj : m.jobs.lookup j = some job)
      (hdone : job.xfer.runningClosed = true) :
      Does m (.proceed c) [] (m.setCall c (.lock key))
  | progress (j : JobID) (p : Progress) (ready : List WatcherID) (job : Job)
      (hj : m.jobs.lookup j = some job) (hopen : job.progressClosed = false) :
      Does m (.progress j p ready) []
        { m.setXfer j job { job.xfer with lastProgress := some p } with
          watchers := Manager.signal ready job.xfer.watchers m.watchers }
  | inactive (j : JobID) (job : Job) (hj : m.jobs.lookup j = some job)
      (hopen : job.inactiveClosed = false) :
      Does m (.inactive j) [] (m.setJob j { job with inactiveClosed := true })
  | finish (j : JobID) (job : Job) (hj : m.jobs.lookup j = some job)
      (hopen : job.progressClosed = false) :
      Does m (.finish j) [] (m.setJob j { job with progressClosed := true })
  | broadcastDone (j : JobID) (job : Job) (hj : m.jobs.lookup j = some job)
      (hclosed : job.progressClosed = true) (hnot : job.xfer.broadcastDone = false) :
      Does m (.broadcastDone j) [] (m.setXfer j job { job.xfer with broadcastDone := true })
  | closeRunning (j : JobID) (job : Job) (hj : m.jobs.lookup j = some job)
      (hdone : job.xfer.broadcastDone = true) (hopen : job.xfer.runningClosed = false) :
      Does m (.closeRunning j) [] (m.setXfer j job { job.xfer with runningClosed := true })
  | takeInactive (j : JobID) (job : Job) (hj : m.jobs.lookup j = some job)
      (hlock : m.lock = none) (hactive : job.goroutine = .active)
      (hclosed : job.inactiveClosed = true) :
      Does m (.takeInactive j) (.inactivated j ::
          ((m.setJob j { job with goroutine := .inactivated }).inactivate job.startClosed).1)
        ((m.setJob j { job with goroutine := .inactivated }).inactivate job.startClosed).2
  | removeActive (j : JobID) (job : Job) (hj : m.jobs.lookup j = some job)
      (hlock : m.lock = none) (hdone : job.xfer.runningClosed = true)
      (hactive : job.goroutine = .active) :
      Does m (.takeDone j) (.inactivated j ::
          ((m.setJob j { job with goroutine := .removed }).inactivate job.startClosed).1)
        { ((m.setJob j { job with goroutine := .removed }).inactivate job.startClosed).2 with
          transfers := ((m.setJob j { job with goroutine := .removed }).inactivate
            job.startClosed).2.transfers.erase job.key }
  | removeInactivated (j : JobID) (job : Job) (hj : m.jobs.lookup j = some job)
      (hlock : m.lock = none) (hdone : job.xfer.runningClosed = true)
      (hinactive : job.goroutine = .inactivated) :
      Does m (.takeDone j) []
        { m.setJob j { job with goroutine := .removed } with
          transfers := m.transfers.erase job.key }
  | close (j : JobID) (job : Job) (t : Transfer) (hj : m.jobs.lookup j = some job)
      (hremoved : job.goroutine = .removed) (hclose : job.xfer.close = .ok t) :
      Does m (.close j) [] (m.setJob j { job with xfer := t, goroutine := .finished })
  | watcher (a : Action) (w : WatcherID) (x x' : Watcher) (ha : ofWatcher a = true)
      (hw : m.watchers.lookup w = some x)
      (hjob : x'.job = x.job) (hrelease : x'.releaseClosed = x.releaseClosed) :
      Does m a [] (m.setWatcher w x')

theorem write_job (last : Option Progress) (done : Bool) (w : Watcher) :
    (w.write last done).job = w.job ∧ (w.write last done).releaseClosed = w.releaseClosed := by
  unfold Watcher.write
  rcases last with _ | p
  · exact ⟨rfl, rfl⟩
  simp only []
  split
  · exact ⟨rfl, rfl⟩
  · exact ⟨rfl, rfl⟩

theorem does_of_proceed {c : CallID} {m m' : Manager} {pc : Pc} {events : List Event}
    (hpc : m.calls.lookup c = some pc) (h : proceed c m pc = .ok (events, m')) :
    Does m (.proceed c) events m' := by
  cases pc with
  | lock key =>
    simp only [proceed, bind_ok, require_ok, pure] at h
    rcases h with ⟨_, hlock, rfl, rfl⟩
    exact .lock c key hpc hlock
  | loop key =>
    simp only [proceed] at h
    cases hkey : m.transfers.lookup key with
    | some j =>
      simp only [hkey, bind_ok, find_ok, pure] at h
      rcases h with ⟨job, hj, rfl, rfl⟩
      exact .watch c key j job hpc hkey hj
    | none =>
      simp only [hkey, pure] at h
      cases h
      exact .create c key hpc hkey
  | check key j w =>
    simp only [proceed, bind_ok, find_ok] at h
    rcases h with ⟨job, hj, h⟩
    cases hcancel : job.xfer.cancelled with
    | true =>
      simp only [hcancel, if_true, pure] at h
      cases h
      exact .giveUp c key j w job hpc hj hcancel
    | false =>
      simp only [hcancel, Bool.false_eq_true, if_false, pure] at h
      rcases h with ⟨rfl, rfl⟩
      exact .join c key j w job hpc hj hcancel
  | giveUp key j w =>
    simp only [proceed, bind_ok, find_ok, pure] at h
    rcases h with ⟨job, hj, rfl, rfl⟩
    exact .releaseCancelled c key j w job hpc hj
  | detach back j w =>
    simp only [proceed, bind_ok, find_ok, closeChannel_ok, pure] at h
    rcases h with ⟨watcher, hw, _, hopen, rfl, rfl⟩
    exact .detach c back j w watcher hpc hw hopen
  | join back j w =>
    simp only [proceed, bind_ok, find_ok, require_ok] at h
    rcases h with ⟨watcher, hw, _, hended, h⟩
    -- A release goes back to the loop, or to whoever called for it.
    cases back with
    | some key =>
      cases h
      exact .unlock c key j w watcher hpc hw hended
    | none =>
      cases h
      exact .released c j w watcher hpc hw hended
  | await key j =>
    simp only [proceed, bind_ok, find_ok, require_ok, pure] at h
    rcases h with ⟨job, hj, _, hdone, rfl, rfl⟩
    exact .await c key j job hpc hj hdone

theorem does_of_step {a : Action} {m m' : Manager} {events : List Event}
    (h : step a m = .ok (events, m')) : Does m a events m' := by
  -- What the step requires on its way is what its constructor asks for.
  cases a with
  | setConcurrency n =>
    simp only [step, bind_ok, require_ok, pure] at h
    rcases h with ⟨_, hlock, rfl, rfl⟩
    exact .setConcurrency n hlock
  | transfer c key =>
    simp only [step, bind_ok, require_ok, pure] at h
    rcases h with ⟨_, hc, rfl, rfl⟩
    exact .transfer c key hc
  | release c j w =>
    simp only [step, bind_ok, require_ok, find_ok, closeChannel_ok, decide_eq_false_iff_not,
      not_not, pure] at h
    rcases h with ⟨_, hc, job, hj, _, hheld, rfl, rfl⟩
    exact .release c j w job hc hj hheld
  | proceed c =>
    simp only [step, bind_ok, find_ok] at h
    rcases h with ⟨pc, hpc, h⟩
    exact does_of_proceed hpc h
  | progress j p ready =>
    simp only [step, bind_ok, require_ok, find_ok, pure] at h
    rcases h with ⟨job, hj, _, hopen, rfl, rfl⟩
    exact .progress j p ready job hj hopen
  | inactive j =>
    simp only [step, bind_ok, find_ok, closeChannel_ok, pure] at h
    rcases h with ⟨job, hj, _, hopen, rfl, rfl⟩
    exact .inactive j job hj hopen
  | finish j =>
    simp only [step, bind_ok, find_ok, closeChannel_ok, pure] at h
    rcases h with ⟨job, hj, _, hopen, rfl, rfl⟩
    exact .finish j job hj hopen
  | broadcastDone j =>
    simp only [step, bind_ok, require_ok, find_ok, pure] at h
    rcases h with ⟨job, hj, _, ⟨hclosed, hnot⟩, rfl, rfl⟩
    exact .broadcastDone j job hj hclosed hnot
  | closeRunning j =>
    simp only [step, bind_ok, require_ok, find_ok, pure] at h
    rcases h with ⟨job, hj, _, ⟨hdone, hopen⟩, rfl, rfl⟩
    exact .closeRunning j job hj hdone hopen
  | takeInactive j =>
    simp only [step, bind_ok, require_ok, find_ok, pure] at h
    rcases h with ⟨job, hj, _, ⟨hlock, hactive, hclosed⟩, rfl, rfl⟩
    exact .takeInactive j job hj hlock hactive hclosed
  | takeDone j =>
    simp only [step, bind_ok, require_ok, find_ok] at h
    rcases h with ⟨job, hj, _, ⟨hlock, hdone⟩, h⟩
    cases hg : job.goroutine with
    | active =>
      simp only [hg, pure] at h
      cases h
      exact .removeActive j job hj hlock hdone hg
    | inactivated =>
      simp only [hg, pure] at h
      cases h
      exact .removeInactivated j job hj hlock hdone hg
    | removed | finished => simp [hg] at h
  | close j =>
    simp only [step, bind_ok, require_ok, find_ok, pure] at h
    rcases h with ⟨job, hj, _, hremoved, t, hclose, rfl, rfl⟩
    exact .close j job t hj hremoved hclose
  | watcherRead w =>
    simp only [step, bind_ok, find_ok] at h
    rcases h with ⟨x, hw, job, _, h⟩
    cases hpc : x.pc with
    | reading done =>
      simp only [hpc, pure] at h
      cases h
      exact .watcher _ w x _ rfl hw (write_job _ _ x).1 (write_job _ _ x).2
    | selecting | syncing | ended => simp [hpc] at h
  | watcherReleased w =>
    simp only [step, bind_ok, require_ok, find_ok, pure] at h
    rcases h with ⟨x, hw, _, _, rfl, rfl⟩
    exact .watcher _ w x _ rfl hw rfl rfl
  | watcherSynced w | watcherDone w =>
    simp only [step, bind_ok, require_ok, find_ok, pure] at h
    rcases h with ⟨x, hw, job, _, _, _, rfl, rfl⟩
    exact .watcher _ w x _ rfl hw rfl rfl

end Dao.Xfer
