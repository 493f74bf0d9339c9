import Dao.Theory.Xfer.Cases

/-!
# The Lifetime of a Transfer

A pair that `Transfer` has returned stays usable until its watcher is
released: the transfer is not cancelled and not released. And `released` is
closed once, when the manager has closed the transfer and nobody watches it.

Whether a transfer is cancelled or released is decided under its own mutex,
whereas a call of `Transfer` relies on the mutex of the manager between
watching a transfer and returning it. `View` is the part of the state this is
about. `Safe` ties the two together: a transfer in the map has not been
closed; the watchers of returned pairs and of the call that holds the lock are
among the watchers of their transfers; and a call that needs the lock has it.
The last clause carries the proof. Since one call at most has the lock, every
other call is at a point where nothing is required of it, so unlocking never
has to be argued about call by call.

## Theorems

* `does_safe`: A step keeps `Safe`.
* `does_owned`: Every watcher is somebody's.
* `run_lifetime`: The lifetime, in every run.
-/

namespace Dao.Xfer

open Lib Manager List Option Nat AMap Function

/-- What the lifetime of a transfer depends on. -/
structure Core where
  key : Key
  cancelled : Bool
  watchers : List WatcherID
  released : Bool
  closed : Bool
  goroutine : Goroutine

def Job.core (job : Job) : Core where
  key := job.key
  cancelled := job.xfer.cancelled
  watchers := job.xfer.watchers
  released := job.xfer.releasedClosed
  closed := job.xfer.closed
  goroutine := job.goroutine

/-- The part of the manager that lifetimes depend on. -/
structure View where
  lock : Option CallID
  transfers : AMap Key JobID
  jobs : JobID → Option Core
  nextJob : Nat
  nextWatcher : Nat
  calls : AMap CallID Pc
  held : List (JobID × WatcherID)

def Manager.view (m : Manager) : View where
  lock := m.lock
  transfers := m.transfers
  jobs := fun j => (m.jobs.lookup j).map Job.core
  nextJob := m.nextJob
  nextWatcher := m.nextWatcher
  calls := m.calls
  held := m.held

/-- The view with one transfer changed or added. -/
def View.setJob (v : View) (j : JobID) (t : Core) : View :=
  { v with jobs := update v.jobs j (some t) }

/-- The invariant of one transfer. -/
structure Core.OK (t : Core) : Prop where
  released_closed : t.released = true → t.closed = true
  closed_iff : t.closed = true ↔ t.goroutine = .finished
  released_of : t.closed = true → t.watchers = [] → t.released = true

/-- The transfer can be in the map. -/
def Core.Tracked (t : Core) : Prop := t.goroutine = .active ∨ t.goroutine = .inactivated

/-- A call at this point does not have the lock of the manager. -/
def Pc.Free : Pc → Prop
  | .lock _ => True
  | .await _ _ => True
  | .detach none _ _ => True
  | .join none _ _ => True
  | _ => False

/-- What is known about a call in flight. -/
def View.CallOK (v : View) (c : CallID) : Pc → Prop
  | .loop _ => v.lock = some c
  | .check key j w => v.lock = some c ∧ v.transfers.lookup key = some j ∧ (j, w) ∉ v.held ∧
      ∃ t, v.jobs j = some t ∧ w ∈ t.watchers
  | .giveUp _ j w => v.lock = some c ∧ (j, w) ∉ v.held
  | .detach (some _) _ _ => v.lock = some c
  | .join (some _) _ _ => v.lock = some c
  | _ => True

/-- The invariant of the manager. -/
structure View.Safe (v : View) : Prop where
  job : ∀ j t, v.jobs j = some t → t.OK ∧ j < v.nextJob ∧ ∀ w ∈ t.watchers, w < v.nextWatcher
  mapped : ∀ key j, v.transfers.lookup key = some j →
    ∃ t, v.jobs j = some t ∧ t.key = key ∧ t.Tracked
  held : ∀ j w, (j, w) ∈ v.held →
    ∃ t, v.jobs j = some t ∧ w ∈ t.watchers ∧ t.cancelled = false ∧ t.released = false
  call : ∀ c pc, v.calls.lookup c = some pc → v.CallOK c pc

variable {v : View} {c : CallID} {pc : Pc} {m : Manager} {j : JobID} {job : Job} {t : Transfer}
  {w : WatcherID} {key : Key}

theorem callOK_of_free (h : pc.Free) : v.CallOK c pc := by
  cases pc with
  | lock | await => exact trivial
  | loop | check | giveUp => exact h.elim
  | detach back | join back =>
    cases back with
    | none => exact trivial
    | some key => exact h.elim

theorem free_or_locked (h : v.CallOK c pc) : pc.Free ∨ v.lock = some c := by
  cases pc with
  | lock | await => exact .inl trivial
  | loop => exact .inr h
  | check | giveUp => exact .inr h.1
  | detach back | join back =>
    cases back with
    | none => exact .inl trivial
    | some key => exact .inr h

theorem free_of_locked (h : v.Safe) {c c' : CallID} (hlock : v.lock = some c)
    (hc : v.calls.lookup c' = some pc) (hne : c' ≠ c) : pc.Free := by
  rcases free_or_locked (h.call c' pc hc) with hfree | hl
  · exact hfree
  · rw [hlock] at hl
    cases hl
    exact absurd rfl hne

theorem free_of_unlocked (h : v.Safe) (hlock : v.lock = none) (hc : v.calls.lookup c = some pc) :
    pc.Free := by
  rcases free_or_locked (h.call c pc hc) with hfree | hl
  · exact hfree
  · simp [hlock] at hl

/-! ### Changes of one transfer -/

theorem view_setJob (m : Manager) (j : JobID) (job : Job) :
    (m.setJob j job).view = m.view.setJob j job.core := by
  have hjobs : (m.setJob j job).view.jobs = update m.view.jobs j (some job.core) := by
    funext i
    by_cases hi : i = j
    · rw [hi, update_self]
      simp [view, setJob]
    · rw [update_of_ne hi]
      simp [view, setJob, AList.lookup_insert_ne hi]
  exact congrArg (fun f => { m.view with jobs := f }) hjobs

theorem view_jobs (h : m.jobs.lookup j = some job) : m.view.jobs j = some job.core := by
  simp [view, h]

/-- A change that the lifetime does not depend on. -/
theorem view_setJob_same {job job' : Job} (h : m.jobs.lookup j = some job)
    (hcore : job'.core = job.core) :
    (m.setJob j job').view = m.view := by
  rw [view_setJob, hcore, View.setJob, ← view_jobs h, update_eq_self]

theorem view_startWaiting (m : Manager) (j : JobID) (rest : List JobID) :
    (m.startWaiting j rest).view = m.view := by
  unfold startWaiting
  cases hj : m.jobs.lookup j with
  | none => rfl
  | some job =>
    exact view_setJob_same hj
      (show ({ job with startClosed := true } : Job).core = job.core from rfl)

theorem view_inactivate (m : Manager) (started : Bool) :
    (m.inactivate started).2.view = m.view := by
  unfold inactivate
  split
  · split
    · exact view_startWaiting m _ _
    · rfl
  · rfl

theorem watchers_release (w : WatcherID) (t : Transfer) :
    (t.release w).watchers = t.watchers.filter (fun v => decide (v ≠ w)) := by
  unfold Transfer.release
  simp only []
  split
  · split
    · rfl
    · rfl
  · rfl

theorem mem_watchers_release {w v : WatcherID} (hv : v ∈ t.watchers) (hne : v ≠ w) :
    v ∈ (t.release w).watchers := by
  rw [watchers_release]
  exact mem_filter.mpr ⟨hv, decide_eq_true hne⟩

/-- As long as another watcher is there a release decides nothing. -/
theorem release_of_mem {w v : WatcherID} (hv : v ∈ t.watchers) (hne : v ≠ w) :
    (t.release w).cancelled = t.cancelled ∧ (t.release w).releasedClosed = t.releasedClosed := by
  have hmem := mem_watchers_release hv hne
  rw [watchers_release] at hmem
  unfold Transfer.release
  rw [if_neg (ne_nil_of_mem hmem)]
  exact ⟨rfl, rfl⟩

theorem closed_release (w : WatcherID) (t : Transfer) : (t.release w).closed = t.closed := by
  unfold Transfer.release
  simp only []
  split
  · split
    · rfl
    · rfl
  · rfl

/-- A release keeps the invariant of the transfer. -/
theorem ok_release (h : job.core.OK) (w : WatcherID) :
    ({ job with xfer := job.xfer.release w } : Job).core.OK := by
  have hclosed := closed_release w job.xfer
  refine ⟨?_, ?_, ?_⟩
  · intro hrel
    change (job.xfer.release w).closed = true
    rw [hclosed]
    unfold Transfer.release at hrel
    simp only [] at hrel
    split at hrel
    · split at hrel
      · next hc => exact hc
      · exact h.released_closed hrel
    · exact h.released_closed hrel
  · change (job.xfer.release w).closed = true ↔ _
    rw [hclosed]
    exact h.closed_iff
  -- The last watcher of a closed transfer closes `released` when it goes.
  · intro hc hw
    change (job.xfer.release w).closed = true at hc
    change (job.xfer.release w).watchers = [] at hw
    change (job.xfer.release w).releasedClosed = true
    rw [hclosed] at hc
    rw [watchers_release] at hw
    unfold Transfer.release
    rw [if_pos hw, if_pos hc]

theorem close_ok (h : t.releasedClosed = true → t.closed = true) (hclosed : t.closed = false) :
    ∃ t', t.close = .ok t' := by
  have hopen : t.releasedClosed = false := by
    rw [← Bool.not_eq_true]
    intro hr
    rw [h hr] at hclosed
    exact Bool.noConfusion hclosed
  unfold Transfer.close
  split
  · rw [hopen, if_neg Bool.false_ne_true]
    exact ⟨_, rfl⟩
  · exact ⟨_, rfl⟩

theorem close_cases {t t' : Transfer} (h : t.close = .ok t') :
    t'.cancelled = t.cancelled ∧ t'.watchers = t.watchers ∧ t'.closed = true ∧
      (t'.watchers = [] → t'.releasedClosed = true) ∧
      (t'.watchers ≠ [] → t'.releasedClosed = t.releasedClosed) := by
  unfold Transfer.close at h
  split at h
  · next hw =>
    split at h
    · nomatch h
    · rw [← Except.ok.inj h]
      exact ⟨rfl, rfl, rfl, fun _ => rfl, fun hne => absurd hw hne⟩
  · next hw =>
    rw [← Except.ok.inj h]
    exact ⟨rfl, rfl, rfl, fun hne => absurd hne hw, fun _ => rfl⟩

/-! ### The invariant under a change of one transfer -/

/-- What a changed transfer has to keep of the old one. -/
structure Core.Keeps (t t' : Core) (held : WatcherID → Prop) : Prop where
  key : t'.key = t.key
  tracked : t.Tracked → t'.Tracked
  held : ∀ w, held w → w ∈ t.watchers →
    w ∈ t'.watchers ∧ t'.cancelled = t.cancelled ∧ t'.released = t.released

theorem update_other {jobs : JobID → Option Core} {i : JobID} {t u : Core} (hij : i ≠ j)
    (hu : jobs i = some u) : update jobs j (some t) i = some u := by
  rw [update_of_ne hij]
  exact hu

/-- The clauses about transfers survive when one of them is changed, or added,
    in a way that keeps what returned pairs and the map rely on. -/
theorem safe_put {v : View} (h : v.Safe) (j : JobID) (t' : Core) {nextJob nextWatcher : Nat}
    (hjob : v.nextJob ≤ nextJob) (hwatcher : v.nextWatcher ≤ nextWatcher) (hlt : j < nextJob)
    (hok : t'.OK) (hws : ∀ w ∈ t'.watchers, w < nextWatcher)
    (hkeep : ∀ t, v.jobs j = some t →
      (∀ key, v.transfers.lookup key = some j → t'.key = t.key ∧ (t.Tracked → t'.Tracked)) ∧
      ∀ w, (j, w) ∈ v.held → w ∈ t.watchers →
        w ∈ t'.watchers ∧ t'.cancelled = t.cancelled ∧ t'.released = t.released)
    (lock : Option CallID) (calls : AMap CallID Pc)
    (hcall : ∀ c pc, calls.lookup c = some pc →
      View.CallOK ⟨lock, v.transfers, update v.jobs j (some t'), nextJob, nextWatcher,
        calls, v.held⟩ c pc) :
    View.Safe ⟨lock, v.transfers, update v.jobs j (some t'), nextJob, nextWatcher, calls,
      v.held⟩ := by
  have hself : update v.jobs j (some t') j = some t' := update_self ..
  -- The transfer that is changed keeps what the map and the pairs rely on, the others are as
  -- before.
  refine ⟨?_, ?_, ?_, hcall⟩
  · intro i u hi
    change update v.jobs j (some t') i = some u at hi
    by_cases hij : i = j
    · rw [hij, hself] at hi
      cases hi
      rw [hij]
      exact ⟨hok, hlt, hws⟩
    · rw [update_of_ne hij] at hi
      rcases h.job i u hi with ⟨hok', hlt', hws'⟩
      exact ⟨hok', lt_of_lt_of_le hlt' hjob,
        fun w hw => lt_of_lt_of_le (hws' w hw) hwatcher⟩
  · intro key i hi
    rcases h.mapped key i hi with ⟨u, hu, huk, hut⟩
    by_cases hij : i = j
    · rw [hij] at hi hu ⊢
      rcases (hkeep u hu).1 key hi with ⟨hkey, htracked⟩
      exact ⟨t', hself, by rw [hkey, huk], htracked hut⟩
    · exact ⟨u, update_other hij hu, huk, hut⟩
  · intro i w hiw
    rcases h.held i w hiw with ⟨u, hu, hw, hcan, hrel⟩
    by_cases hij : i = j
    · rw [hij] at hu hiw ⊢
      rcases (hkeep u hu).2 w hiw hw with ⟨hw', hcan', hrel'⟩
      exact ⟨t', hself, hw', by rw [hcan', hcan], by rw [hrel', hrel]⟩
    · exact ⟨u, update_other hij hu, hw, hcan, hrel⟩

/-- A change of one transfer alone. A call that has just watched it still
    does. -/
theorem safe_update (h : v.Safe) {t t' : Core} (hj : v.jobs j = some t) (hok : t'.OK)
    (hsub : ∀ w ∈ t'.watchers, w ∈ t.watchers) (hkeep : t.Keeps t' (fun w => (j, w) ∈ v.held))
    (hcall : ∀ c key w, v.calls.lookup c = some (.check key j w) → w ∈ t'.watchers) :
    (v.setJob j t').Safe := by
  rcases h.job j t hj with ⟨_, hlt, hws⟩
  refine safe_put h j t' (le_refl _) (le_refl _) hlt hok (fun w hw => hws w (hsub w hw))
    (fun u hu => ?_) v.lock v.calls fun c pc hc => ?_
  · rw [hj] at hu
    cases hu
    exact ⟨fun _ _ => ⟨hkeep.key, hkeep.tracked⟩, hkeep.held⟩
  have hold := h.call c pc hc
  cases pc with
  | check key i w =>
    rcases hold with ⟨hlock, hmap, hnot, u, hu, hw⟩
    refine ⟨hlock, hmap, hnot, ?_⟩
    by_cases hij : i = j
    · rw [hij]
      exact ⟨t', update_self .., hcall c key w (by rw [← hij]; exact hc)⟩
    · exact ⟨u, update_other hij hu, hw⟩
  | detach back | join back => cases back <;> exact hold
  | _ => exact hold

/-- The lock and the calls may change in any way that leaves every call with
    what it needs. -/
theorem safe_calls {v : View} (h : v.Safe) (lock : Option CallID) (calls : AMap CallID Pc)
    (hcall : ∀ c pc, calls.lookup c = some pc →
      { v with lock := lock, calls := calls }.CallOK c pc) :
    { v with lock := lock, calls := calls }.Safe :=
  { h with call := hcall }

theorem safe_setCall (h : v.Safe) (c : CallID) (pc : Pc) (hpc : v.CallOK c pc) :
    { v with calls := v.calls.insert c pc }.Safe := by
  refine safe_calls h v.lock _ fun c' pc' hc' => ?_
  rcases lookup_insert_cases hc' with ⟨_, hold⟩ | ⟨rfl, rfl⟩
  · exact h.call c' pc' hold
  · exact hpc

/-- The call that has the lock goes on, with it or without it. -/
theorem safe_locked (h : v.Safe) (hlock : v.lock = some c ∨ v.lock = none) (lock : Option CallID)
    (pc : Pc) (hpc : { v with lock := lock, calls := v.calls.insert c pc }.CallOK c pc) :
    { v with lock := lock, calls := v.calls.insert c pc }.Safe := by
  refine safe_calls h lock _ fun c' pc' hc' => ?_
  rcases lookup_insert_cases hc' with ⟨hcc, hold⟩ | ⟨rfl, rfl⟩
  · rcases hlock with hlock | hlock
    · exact callOK_of_free (free_of_locked h hlock hold hcc)
    · exact callOK_of_free (free_of_unlocked h hlock hold)
  · exact hpc

theorem safe_eraseCall (h : v.Safe) (c : CallID) :
    { v with calls := v.calls.erase c }.Safe :=
  safe_calls h v.lock _ fun c' pc' hc' => h.call c' pc' (lookup_erase_cases hc').2

/-- The call that has the lock returns a pair and unlocks. -/
theorem safe_return (h : v.Safe) (hlock : v.lock = some c) {t : Core} (hj : v.jobs j = some t)
    (hw : w ∈ t.watchers) (hcan : t.cancelled = false) (hrel : t.released = false) :
    { v with lock := none, calls := v.calls.erase c, held := (j, w) :: v.held }.Safe := by
  refine ⟨h.job, h.mapped, ?_, ?_⟩
  · intro i x hix
    rcases mem_cons.mp hix with heq | hix
    · cases heq
      exact ⟨t, hj, hw, hcan, hrel⟩
    · exact h.held i x hix
  · intro c' pc' hc'
    rcases lookup_erase_cases hc' with ⟨hcc, hold⟩
    exact callOK_of_free (free_of_locked h hlock hold hcc)

/-! ### The steps -/

/-- The new watcher belongs to no returned pair. -/
theorem fresh_not_held (h : v.Safe) (j : JobID) : (j, v.nextWatcher) ∉ v.held := by
  intro hi
  rcases h.held j _ hi with ⟨u, hu, hw, _⟩
  exact absurd ((h.job j u hu).2.2 _ hw) (lt_irrefl _)

/-- `Watch` by the call that has the lock. -/
theorem safe_watch (h : m.view.Safe) (hlock : m.lock = some c)
    (hkey : m.transfers.lookup key = some j) (hj : m.jobs.lookup j = some job) :
    ((m.watch j job).setCall c (.check key j m.nextWatcher)).view.Safe := by
  have hview := view_setJob m j { job with xfer := job.xfer.watch m.nextWatcher }
  rcases h.job j _ (view_jobs hj) with ⟨hok, hlt, hws⟩
  change View.Safe { (m.setJob j { job with xfer := job.xfer.watch m.nextWatcher }).view with
    nextWatcher := m.nextWatcher + 1, calls := m.calls.insert c (.check key j m.nextWatcher) }
  rw [hview]
  refine safe_put h j ({ job with xfer := job.xfer.watch m.nextWatcher } : Job).core
    (le_refl _) (le_succ _) hlt
    ⟨hok.released_closed, hok.closed_iff, fun _ hw => absurd hw (cons_ne_nil _ _)⟩
    (fun w hw => ?_) (fun u hu => ?_) m.lock (m.calls.insert c (.check key j m.nextWatcher))
    (fun c' pc hc' => ?_)
  · rcases mem_cons.mp hw with hw | hw
    · rw [hw]
      exact lt_succ_self _
    · exact lt_succ_of_lt (hws w hw)
  · rw [view_jobs hj] at hu
    cases hu
    exact ⟨fun _ _ => ⟨rfl, id⟩, fun w _ hw => ⟨mem_cons_of_mem _ hw, rfl, rfl⟩⟩
  · rcases lookup_insert_cases hc' with ⟨hcc, hold⟩ | ⟨rfl, rfl⟩
    · exact callOK_of_free (free_of_locked h hlock hold hcc)
    · exact ⟨hlock, hkey, fresh_not_held h j, _, update_self .., mem_cons_self⟩

/-- A new transfer enters the map, by the call that has the lock. -/
theorem safe_create (h : m.view.Safe) (hlock : m.lock = some c) :
    ((m.create key).return_ c m.nextJob m.nextWatcher).view.Safe := by
  have hview := view_setJob m m.nextJob
    { m.newJob key with xfer := newTransfer.watch m.nextWatcher }
  have hnew : m.view.jobs m.nextJob = none := by
    cases hj : m.view.jobs m.nextJob with
    | none => rfl
    | some u => exact absurd (h.job _ u hj).2.1 (lt_irrefl _)
  -- The other calls are free, as this one has the lock.
  have hcalls : ∀ (v : View) c' pc, (m.calls.erase c).lookup c' = some pc → v.CallOK c' pc := by
    intro v c' pc hc'
    rcases lookup_erase_cases hc' with ⟨hcc, hold⟩
    exact callOK_of_free (free_of_locked h hlock hold hcc)
  have hput := safe_put h m.nextJob
    ({ m.newJob key with xfer := newTransfer.watch m.nextWatcher } : Job).core
    (le_succ _) (le_succ _) (lt_succ_self _)
    ⟨nofun, ⟨nofun, fun hc => Goroutine.noConfusion hc⟩, nofun⟩
    (fun w hw => by
      rw [mem_singleton.mp hw]
      exact lt_succ_self _)
    (fun u hu => by
      rw [hnew] at hu
      simp only [reduceCtorEq] at hu)
    m.lock (m.calls.erase c) (hcalls _)
  have hself := update_self m.nextJob
    (some ({ m.newJob key with xfer := newTransfer.watch m.nextWatcher } : Job).core) m.view.jobs
  change View.Safe { (m.setJob m.nextJob
      { m.newJob key with xfer := newTransfer.watch m.nextWatcher }).view with
    lock := none, nextJob := m.nextJob + 1, nextWatcher := m.nextWatcher + 1,
    calls := m.calls.erase c, transfers := m.transfers.insert key m.nextJob,
    held := (m.nextJob, m.nextWatcher) :: m.held }
  rw [hview]
  refine ⟨hput.job, ?_, ?_, hcalls _⟩
  · intro k i hi
    rcases lookup_insert_cases hi with ⟨_, hold⟩ | ⟨rfl, rfl⟩
    · exact hput.mapped k i hold
    · exact ⟨_, hself, rfl, .inl rfl⟩
  · intro i w hiw
    rcases mem_cons.mp hiw with heq | hiw
    · cases heq
      exact ⟨_, hself, mem_cons_self, rfl, rfl⟩
    · exact hput.held i w hiw

/-- The critical section of `Release`, for a watcher that no returned pair and
    no call that has just watched needs. -/
theorem safe_release (h : v.Safe) (hj : v.jobs j = some job.core) (hheld : (j, w) ∉ v.held)
    (hcheck : ∀ c key, v.calls.lookup c ≠ some (.check key j w)) :
    (v.setJob j ({ job with xfer := job.xfer.release w } : Job).core).Safe := by
  refine safe_update h hj (ok_release (h.job j _ hj).1 w) ?_ ⟨rfl, fun ht => ht, ?_⟩ ?_
  · intro x hx
    change x ∈ (job.xfer.release w).watchers at hx
    rw [watchers_release] at hx
    exact (mem_filter.mp hx).1
  · intro x hx hmem
    have hne : x ≠ w := by
      intro hxw
      rw [hxw] at hx
      exact hheld hx
    exact ⟨mem_watchers_release hmem hne, (release_of_mem hmem hne).1, (release_of_mem hmem hne).2⟩
  · intro c key x hc
    rcases h.call c _ hc with ⟨_, _, _, u, hu, hx⟩
    rw [hj, some.injEq] at hu
    rw [← hu] at hx
    refine mem_watchers_release hx ?_
    intro hxw
    rw [hxw] at hc
    exact hcheck c key hc

theorem safe_drop (h : v.Safe) (p : JobID × WatcherID) :
    { v with held := v.held.filter (fun q => decide (q ≠ p)) }.Safe := by
  refine ⟨h.job, h.mapped, ?_, ?_⟩
  · intro j w hjw
    exact h.held j w (mem_filter.mp hjw).1
  intro c pc hc
  have hold := h.call c pc hc
  cases pc with
  | check =>
    exact ⟨hold.1, hold.2.1, fun hm => hold.2.2.1 (mem_filter.mp hm).1, hold.2.2.2⟩
  | giveUp => exact ⟨hold.1, fun hm => hold.2 (mem_filter.mp hm).1⟩
  | detach back | join back => cases back <;> exact hold
  | _ => exact hold

/-- The goroutine of the manager goes on, with nobody having the lock. -/
theorem safe_goroutine (h : v.Safe) (hlock : v.lock = none) {t : Core} {g : Goroutine}
    (hj : v.jobs j = some t) (hnot : t.goroutine ≠ .finished) (hg : g ≠ .finished)
    (htracked : t.Tracked → ({ t with goroutine := g } : Core).Tracked) :
    (v.setJob j { t with goroutine := g }).Safe := by
  rcases h.job j t hj with ⟨hok, _, _⟩
  have hopen : ¬ t.closed = true := fun hc => hnot (hok.closed_iff.mp hc)
  refine safe_update h hj ⟨hok.released_closed, ?_, hok.released_of⟩ (fun _ hw => hw)
    ⟨rfl, htracked, fun _ _ hw => ⟨hw, rfl, rfl⟩⟩ ?_
  · exact ⟨fun hc => absurd hc hopen, fun hc => absurd hc hg⟩
  · intro c key w hc
    exact (free_of_unlocked h hlock hc).elim

/-- A finished transfer leaves the map, which nobody has locked. -/
theorem safe_remove (h : v.Safe) (hlock : v.lock = none) {t : Core} (hj : v.jobs j = some t)
    (hnot : t.goroutine ≠ .finished) (hmap : ∀ key, v.transfers.lookup key = some j → key = t.key) :
    { v.setJob j { t with goroutine := .removed } with
      transfers := v.transfers.erase t.key }.Safe := by
  rcases h.job j t hj with ⟨hok, hlt, hws⟩
  have hopen : ¬ t.closed = true := fun hc => hnot (hok.closed_iff.mp hc)
  have hcalls : ∀ (u : View) c pc, v.calls.lookup c = some pc → u.CallOK c pc :=
    fun u c pc hc => callOK_of_free (free_of_unlocked h hlock hc)
  -- First out of the map, then removed: in between the transfer is in no map.
  have herase : { v with transfers := v.transfers.erase t.key }.Safe :=
    ⟨h.job, fun key i hi => h.mapped key i (lookup_erase_cases hi).2, h.held, hcalls _⟩
  refine safe_put herase j { t with goroutine := .removed } (le_refl _) (le_refl _) hlt
    ⟨hok.released_closed, ⟨fun hc => absurd hc hopen, fun hc => Goroutine.noConfusion hc⟩,
      hok.released_of⟩ hws (fun u hu => ⟨fun key hkey => ?_, fun w _ hw => ?_⟩) v.lock v.calls
    (hcalls _)
  · rcases lookup_erase_cases hkey with ⟨hne, hold⟩
    exact absurd (hmap key hold) hne
  · rw [hj, some.injEq] at hu
    rw [← hu] at hw ⊢
    exact ⟨hw, rfl, rfl⟩

/-- The manager closes a transfer that is no longer in the map. -/
theorem safe_close (h : v.Safe) (hj : v.jobs j = some job.core)
    (hremoved : job.goroutine = .removed) (hclose : job.xfer.close = .ok t) :
    (v.setJob j ({ job with xfer := t, goroutine := .finished } : Job).core).Safe := by
  rcases close_cases hclose with ⟨hcan, hws, hclosed, hrel, hrel'⟩
  refine safe_update h hj ⟨fun _ => hclosed, ⟨fun _ => rfl, fun _ => hclosed⟩, fun _ hw => hrel hw⟩
    ?_ ⟨rfl, ?_, ?_⟩ ?_
  · intro w hw
    change w ∈ t.watchers at hw
    rw [hws] at hw
    exact hw
  -- The map holds no transfer that its goroutine has removed.
  · rintro (ht | ht)
    · exact absurd (hremoved.symm.trans ht) (by decide)
    · exact absurd (hremoved.symm.trans ht) (by decide)
  · intro w _ hw
    have hw' : w ∈ t.watchers := by
      rw [hws]
      exact hw
    exact ⟨hw', hcan, hrel' (ne_nil_of_mem hw')⟩
  · intro c key w hc
    rcases h.call c _ hc with ⟨_, _, _, u, hu, hw⟩
    rw [hj, some.injEq] at hu
    rw [← hu] at hw
    change w ∈ t.watchers
    rw [hws]
    exact hw

theorem key_of_mapped (h : m.view.Safe) (hj : m.jobs.lookup j = some job) (key : Key)
    (hkey : m.transfers.lookup key = some j) :
    key = job.key := by
  rcases h.mapped key j hkey with ⟨u, hu, huk, _⟩
  rw [view_jobs hj] at hu
  cases hu
  rw [← huk]
  rfl

theorem open_of_mapped (h : v.Safe) {t : Core} (hj : v.jobs j = some t)
    (hkey : v.transfers.lookup key = some j) : t.released = false := by
  rcases h.mapped key j hkey with ⟨u, hu, _, htracked⟩
  rw [hj, some.injEq] at hu
  rw [← hu] at htracked
  rw [← Bool.not_eq_true]
  intro hrel
  have hok := (h.job j t hj).1
  have hfin := hok.closed_iff.mp (hok.released_closed hrel)
  rcases htracked with ht | ht
  · exact Goroutine.noConfusion (hfin.symm.trans ht)
  · exact Goroutine.noConfusion (hfin.symm.trans ht)

theorem safe_setJob_same {job' : Job} (h : m.view.Safe) (hj : m.jobs.lookup j = some job)
    (hcore : job'.core = job.core) : (m.setJob j job').view.Safe := by
  rw [view_setJob_same hj hcore]
  exact h

theorem does_safe {m m' : Manager} {a : Action} {events : List Event} (h : m.view.Safe)
    (hdoes : Does m a events m') : m'.view.Safe := by
  cases hdoes with
  | setConcurrency => exact h
  | transfer c => exact safe_setCall h c _ trivial
  | release c j w job hc hj hheld =>
    have hnot : (j, w) ∉ m.held.filter (fun q => decide (q ≠ (j, w))) := by
      intro hm
      exact absurd rfl (of_decide_eq_true (mem_filter.mp hm).2)
    -- A call that has just watched does not watch for a returned pair.
    have hrel := safe_release (safe_drop h (j, w)) (view_jobs hj) hnot
      (fun c' key hc' => (h.call c' _ hc').2.2.1 hheld)
    change View.Safe { (m.setJob j { job with xfer := job.xfer.release w }).view with
      calls := m.calls.insert c (.detach none j w),
      held := m.held.filter (fun p => decide (p ≠ (j, w))) }
    rw [view_setJob]
    exact safe_setCall hrel c (.detach none j w) trivial
  | lock c key hpc hlock => exact safe_locked h (.inr hlock) (some c) (.loop key) rfl
  | watch c key j job hpc hkey hj => exact safe_watch h (h.call c _ hpc) hkey hj
  | create c key hpc hkey => exact safe_create h (h.call c _ hpc)
  | giveUp c key j w job hpc =>
    exact safe_setCall h c _ ⟨(h.call c _ hpc).1, (h.call c _ hpc).2.2.1⟩
  | join c key j w job hpc hj hcancel =>
    rcases h.call c _ hpc with ⟨hlock, hmap, _, t, ht, hw⟩
    rw [view_jobs hj, some.injEq] at ht
    rw [← ht] at hw
    exact safe_return h hlock (view_jobs hj) hw hcancel (open_of_mapped h (view_jobs hj) hmap)
  | releaseCancelled c key j w job hpc hj =>
    rcases h.call c _ hpc with ⟨hlock, hnot⟩
    -- No other call has the lock, and this one is past its check.
    have hcheck : ∀ c' key', m.calls.lookup c' ≠ some (.check key' j w) := by
      intro c' key' hc'
      by_cases hcc : c' = c
      · rw [hcc, hpc, some.injEq] at hc'
        exact Pc.noConfusion hc'
      · exact free_of_locked h hlock hc' hcc
    change View.Safe { (m.setJob j { job with xfer := job.xfer.release w }).view with
      calls := m.calls.insert c (.detach (some key) j w) }
    rw [view_setJob]
    exact safe_setCall (safe_release h (view_jobs hj) hnot hcheck) c (.detach (some key) j w) hlock
  | detach c back j w watcher hpc =>
    have hold := h.call c _ hpc
    cases back with
    | none => exact safe_setCall h c _ trivial
    | some key => exact safe_setCall h c _ hold
  | unlock c key j w watcher hpc =>
    exact safe_locked h (.inl (h.call c _ hpc)) none (.await key j) trivial
  | released c => exact safe_eraseCall h c
  | await c => exact safe_setCall h c _ trivial
  | progress j p ready job hj | inactive j job hj | finish j job hj | broadcastDone j job hj
  | closeRunning j job hj =>
    exact safe_setJob_same h hj rfl
  | takeInactive j job hj hlock hactive =>
    rw [view_inactivate, view_setJob]
    exact safe_goroutine h hlock (view_jobs hj)
      (fun hc => Goroutine.noConfusion (hactive.symm.trans hc))
      Goroutine.noConfusion fun _ => .inr rfl
  | removeActive j job hj hlock hdone hactive =>
    have hview := view_inactivate (m.setJob j { job with goroutine := .removed }) job.startClosed
    change View.Safe { ((m.setJob j { job with goroutine := .removed }).inactivate
      job.startClosed).2.view with transfers := ((m.setJob j { job with
        goroutine := .removed }).inactivate job.startClosed).2.view.transfers.erase job.key }
    rw [hview, view_setJob]
    exact safe_remove h hlock (view_jobs hj)
      (fun hc => Goroutine.noConfusion (hactive.symm.trans hc)) (key_of_mapped h hj)
  | removeInactivated j job hj hlock hdone hinactive =>
    change View.Safe { (m.setJob j { job with goroutine := .removed }).view with
      transfers := m.transfers.erase job.key }
    rw [view_setJob]
    exact safe_remove h hlock (view_jobs hj)
      (fun hc => Goroutine.noConfusion (hinactive.symm.trans hc)) (key_of_mapped h hj)
  | close j job t hj hremoved hclose =>
    rw [view_setJob]
    exact safe_close h (view_jobs hj) hremoved hclose
  | watcher => exact h

/-! ### Owners -/

/-- Somebody has the watcher: it belongs to a returned pair, or to a call of `Transfer`
    that has not returned it or given it up yet. -/
def Manager.Owns (m : Manager) (j : JobID) (w : WatcherID) : Prop :=
  (j, w) ∈ m.held ∨ ∃ c key, m.calls.lookup c = some (.check key j w) ∨
    m.calls.lookup c = some (.giveUp key j w)

def Manager.Owned (m : Manager) : Prop :=
  ∀ j job w, m.jobs.lookup j = some job → w ∈ job.xfer.watchers → m.Owns j w

theorem owned_inactivate {started : Bool} (h : m.Owned) : (m.inactivate started).2.Owned := by
  have hview := view_inactivate m started
  generalize (m.inactivate started).2 = m' at hview ⊢
  intro j job w hj hw
  have hjob := (congrFun (congrArg View.jobs hview) j).symm.trans (view_jobs hj)
  obtain ⟨old, hold, hcore⟩ := Option.map_eq_some_iff.mp hjob
  have hwatchers : old.xfer.watchers = job.xfer.watchers := congrArg Core.watchers hcore
  have hheld : m'.held = m.held := congrArg View.held hview
  have hcalls : m'.calls = m.calls := congrArg View.calls hview
  rw [Owns, hheld, hcalls]
  exact h j old w hold (hwatchers ▸ hw)

theorem does_owned {m m' : Manager} {a : Action} {events : List Event} (h : m.Owned)
    (hdoes : Does m a events m') : m'.Owned := by
  cases hdoes with
  | setConcurrency | watcher => exact h
  | watch c key j job =>
    intro i job' x hi hx
    by_cases hnew : i = j ∧ x = m.nextWatcher
    · exact .inr ⟨c, key, .inl (by rw [hnew.1, hnew.2]; exact AList.lookup_insert _)⟩
    · simp only [Owned, Owns, setCall, setXfer, setJob, watch, setWatcher, Transfer.watch,
        lookup_insert_eq_ite] at h hi ⊢
      grind
  | giveUp c key j w job =>
    intro i job' x hi hx
    by_cases hown : i = j ∧ x = w
    · exact .inr ⟨c, key, .inr (by rw [hown.1, hown.2]; exact AList.lookup_insert _)⟩
    · simp only [Owned, Owns, setCall, lookup_insert_eq_ite] at h hi ⊢
      grind
  | takeInactive | removeActive =>
    refine owned_inactivate fun i job' x hi hx => ?_
    simp only [Owned, Owns, setJob, lookup_insert_eq_ite] at h hi ⊢
    grind
  | close j job t hj hremoved hclose =>
    intro i job' x hi hx
    simp only [Owned, Owns, setJob, lookup_insert_eq_ite] at h hi ⊢
    grind [close_cases hclose]
  | _ =>
    -- What is released is no longer watched, and nobody else loses what they watch.
    intro i job' x hi hx
    simp only [Owned, Owns, create, return_, setCall, setXfer, setJob, watch, setWatcher,
      Transfer.watch, newJob, newTransfer, lookup_insert_eq_ite, lookup_erase_eq_ite] at h hi ⊢
    grind [watchers_release]

/-! ### Runs -/

theorem safe_newTransferManager (n : Int) : (newTransferManager n).view.Safe := by
  refine ⟨?_, ?_, ?_, ?_⟩
  · intro j t hj
    simp [view, newTransferManager] at hj
  · intro key j hkey
    simp [view, newTransferManager] at hkey
  · intro j w hjw
    nomatch hjw
  · intro c pc hc
    simp [view, newTransferManager] at hc

/-- No step closes `released` a second time. -/
theorem close_not_panic (h : m.view.Safe) (j : JobID) : step (.close j) m ≠ .error .panic := by
  intro hstep
  simp only [step] at hstep
  rcases hj : m.jobs.lookup j with _ | job
  · rw [hj] at hstep
    simp [find, bind, Except.bind] at hstep
  rw [hj] at hstep
  by_cases hg : job.goroutine = .removed
  · have hok := (h.job j _ (view_jobs hj)).1
    have hopen : job.xfer.closed = false := by
      rw [← Bool.not_eq_true]
      intro hc
      exact Goroutine.noConfusion (hg.symm.trans (hok.closed_iff.mp hc))
    rcases close_ok hok.released_closed hopen with ⟨t, ht⟩
    simp [find, bind, Except.bind, require, hg, ht, pure, Except.pure] at hstep
  · simp [find, bind, Except.bind, require, if_neg hg] at hstep

/-- In every run a returned pair is neither cancelled nor released until its
    watcher is released; `released` is never closed twice; it is closed when the
    manager has closed the transfer and nobody watches it; and whoever watches it is
    a returned pair or a call in flight. -/
theorem run_lifetime (n : Int) (as : List Action) (m : Manager) (rs : List (List Event))
    (hrun : run step as (newTransferManager n) = .ok (rs, m)) :
    (∀ j w, (j, w) ∈ m.held → ∃ job, m.jobs.lookup j = some job ∧
      job.xfer.cancelled = false ∧ job.xfer.releasedClosed = false) ∧
    (∀ j, step (.close j) m ≠ .error .panic) ∧
    (∀ j job, m.jobs.lookup j = some job → job.xfer.closed = true → job.xfer.watchers = [] →
      job.xfer.releasedClosed = true) ∧
    ∀ j job w, m.jobs.lookup j = some job → w ∈ job.xfer.watchers → m.Owns j w := by
  have hsafe : m.view.Safe := run_invariant (fun m => m.view.Safe)
    (fun a s r s' h hs => does_safe h (does_of_step hs)) as _ m rs
    (safe_newTransferManager n) hrun
  have howned : m.Owned := run_invariant Manager.Owned
    (fun a s r s' h hs => does_owned h (does_of_step hs)) as _ m rs
    (fun j job w hj => by simp [newTransferManager] at hj) hrun
  refine ⟨?_, close_not_panic hsafe, ?_, howned⟩
  · intro j w hjw
    rcases hsafe.held j w hjw with ⟨t, ht, _, hcan, hrel⟩
    rcases Option.map_eq_some_iff.mp ht with ⟨job, hjob, hcore⟩
    rw [← hcore] at hcan hrel
    exact ⟨job, hjob, hcan, hrel⟩
  · intro j job hj hclosed hw
    exact (hsafe.job j _ (view_jobs hj)).1.released_of hclosed hw

/-- A second client joins a transfer, and the first one releases it between the
    watch and the check of the second. -/
def joinActions : List Action :=
  [.transfer 0 ['a'], .proceed 0, .proceed 0, .transfer 1 ['a'], .proceed 1, .proceed 1,
    .release 2 0 0, .proceed 1]

/-- The second client has a transfer that is not cancelled. -/
theorem run_lifetime_join :
    ∃ m rs, run step joinActions (newTransferManager 3) = .ok (rs, m) ∧ (0, 1) ∈ m.held ∧
      ∃ job, m.jobs.lookup 0 = some job ∧ job.xfer.cancelled = false ∧
        job.xfer.releasedClosed = false := by
  have hok : (run step joinActions (newTransferManager 3)).isOk = true := by decide
  have hmem : ∀ p, run step joinActions (newTransferManager 3) = .ok p → (0, 1) ∈ p.2.held := by
    intro p hp
    have hall : (match run step joinActions (newTransferManager 3) with
      | .error _ => false
      | .ok p => decide ((0, 1) ∈ p.2.held)) = true := by decide
    rw [hp] at hall
    exact of_decide_eq_true hall
  rcases exists_run hok with ⟨rs, m, hrun⟩
  have hheld := hmem _ hrun
  exact ⟨m, rs, hrun, hheld, (run_lifetime 3 joinActions m rs hrun).1 0 1 hheld⟩

end Dao.Xfer
