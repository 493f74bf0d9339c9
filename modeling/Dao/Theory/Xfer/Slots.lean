import Dao.Theory.Xfer.Cases

/-!
# The Slots of the Manager

How many transfers are active, and in which order waiting ones are started.

A slot is taken when a transfer is started and given back when it is
inactivated, which the goroutine of the manager does at most once. A slot that
is given back goes straight to the transfer at the head of the queue, without
the counter being touched, so the counter can only be right if the two numbers
move together: `Slots.active` counts the transfers that are started and whose
goroutine has not inactivated them. Transfers are numbered as they are made,
and `Slots.order` says that the ones started so far, in the order in which
they were started, followed by the queue, are all of them in that order.

The invariant is about the trace as well as the state, since it speaks of what
was started and inactivated before.

## Theorems

* `does_slots`: A step keeps the invariant.
* `run_slots`: The limit and the order, in every run.
-/

namespace Dao.Xfer

open Lib Nat List AMap

/-- The transfer is started and has not been inactivated. -/
def active (job : Job) : Bool := job.startClosed && decide (job.goroutine = .active)

/-- The function of the transfer has done something. -/
def begun (job : Job) : Bool :=
  job.inactiveClosed || job.progressClosed || job.xfer.broadcastDone || job.xfer.runningClosed

/-- The transfers that were started, in order. -/
def startedOf (events : List Event) : List JobID :=
  events.filterMap (fun e => match e with
    | .started j => some j
    | _ => none)

/-- How often a transfer was inactivated. -/
def inactivations (j : JobID) (events : List Event) : Nat := events.count (.inactivated j)

/-- The function of a transfer waits for its start before it does anything,
    and the limit stays as it is. -/
def Waits (m : Manager) : Action → Prop
  | .setConcurrency _ => False
  | .inactive j => ∀ job, m.jobs.lookup j = some job → job.startClosed = true
  | .finish j => ∀ job, m.jobs.lookup j = some job → job.startClosed = true
  | _ => True

instance decidableWaits : ∀ (m : Manager) (a : Action), Decidable (Waits m a)
  | _, .setConcurrency _ => inferInstanceAs (Decidable False)
  | m, .inactive j => inferInstanceAs
      (Decidable (∀ job ∈ m.jobs.lookup j, job.startClosed = true))
  | m, .finish j => inferInstanceAs
      (Decidable (∀ job ∈ m.jobs.lookup j, job.startClosed = true))
  | _, .transfer _ _ | _, .release _ _ _ | _, .proceed _ | _, .progress ..
  | _, .broadcastDone _ | _, .closeRunning _ | _, .takeInactive _ | _, .takeDone _ | _, .close _
  | _, .watcherRead _ | _, .watcherReleased _ | _, .watcherSynced _ | _, .watcherDone _ =>
    inferInstanceAs (Decidable True)

/-- The invariant of the slots, over what has happened so far. A number of
    slots may be owed, while one is on its way from a transfer to the next. -/
structure Slots (n : Int) (owed : Nat) (events : List Event) (m : Manager) : Prop where
  limit : m.concurrencyLimit = n
  jobs : ∀ j, (∃ job, m.jobs.lookup j = some job) ↔ j < m.nextJob
  active : m.activeTransfers = (count active m.jobs + owed : Nat)
  le : m.activeTransfers ≤ n
  full : m.waitingTransfers ≠ [] → m.activeTransfers = n
  waiting : ∀ j job, m.jobs.lookup j = some job → (j ∈ m.waitingTransfers ↔ job.startClosed = false)
  order : startedOf events ++ m.waitingTransfers = List.range m.nextJob
  started : ∀ j job, m.jobs.lookup j = some job → begun job = true ∨ job.goroutine ≠ .active →
    job.startClosed = true
  once : ∀ j, inactivations j events ≤ 1
  never : ∀ j job, m.jobs.lookup j = some job → job.goroutine = .active → inactivations j events = 0
  unmade : ∀ j, m.nextJob ≤ j → inactivations j events = 0

/-! ### Traces -/

theorem startedOf_append (xs ys : List Event) :
    startedOf (xs ++ ys) = startedOf xs ++ startedOf ys := filterMap_append ..

theorem inactivations_append (j : JobID) (xs ys : List Event) :
    inactivations j (xs ++ ys) = inactivations j xs + inactivations j ys := count_append ..

theorem inactivations_inactivated (i j : JobID) :
    inactivations i [.inactivated j] = if i = j then 1 else 0 := by
  rw [inactivations, count_singleton]
  by_cases hij : i = j
  · rw [if_pos hij, hij, beq_self_eq_true, if_pos rfl]
  · rw [if_neg hij, if_neg]
    intro hc
    exact hij (Event.inactivated.inj (eq_of_beq hc)).symm

section Keep

variable {n : Int} {owed : Nat} {events : List Event} {m : Manager}

variable {j : JobID} {job : Job}

theorem begun_of_broadcastDone (h : job.xfer.broadcastDone = true) : begun job = true := by
  simp [begun, h]

theorem begun_of_runningClosed (h : job.xfer.runningClosed = true) : begun job = true := by
  simp [begun, h]

section Step

variable (h : Slots n owed events m)
include h

theorem slots_waiting_mem (hj : j ∈ m.waitingTransfers) : ∃ job, m.jobs.lookup j = some job ∧
      job.startClosed = false ∧ job.goroutine = .active := by
  have hrange : j ∈ range m.nextJob := by
    rw [← h.order]
    exact mem_append_right _ hj
  rcases (h.jobs j).mpr (mem_range.mp hrange) with ⟨job, hjob⟩
  have hstart := (h.waiting j job hjob).mp hj
  refine ⟨job, hjob, hstart, ?_⟩
  by_contra hg
  rw [h.started j job hjob (.inr hg)] at hstart
  exact Bool.noConfusion hstart

theorem slots_waiting_nodup : m.waitingTransfers.Nodup := by
  have hall : (startedOf events ++ m.waitingTransfers).Nodup := by
    rw [h.order]
    exact nodup_range
  exact (nodup_append.mp hall).2.1

/-! ### Steps that move no slot -/

theorem slots_congr {m' : Manager}
    (hsame : (m'.concurrencyLimit, m'.jobs, m'.nextJob, m'.activeTransfers, m'.waitingTransfers) =
      (m.concurrencyLimit, m.jobs, m.nextJob, m.activeTransfers, m.waitingTransfers)) :
    Slots n owed events m' := by
  simp only [Prod.mk.injEq] at hsame
  rcases hsame with ⟨hlimit, hjobs, hnext, hactive, hwaiting⟩
  exact {
    limit := by rw [hlimit]; exact h.limit
    jobs := by rw [hjobs, hnext]; exact h.jobs
    active := by rw [hactive, hjobs]; exact h.active
    le := by rw [hactive]; exact h.le
    full := by rw [hwaiting, hactive]; exact h.full
    waiting := by rw [hjobs, hwaiting]; exact h.waiting
    order := by rw [hwaiting, hnext]; exact h.order
    started := by rw [hjobs]; exact h.started
    once := h.once
    never := by rw [hjobs]; exact h.never
    unmade := by rw [hnext]; exact h.unmade }

theorem slots_events (e : List Event) (hstart : startedOf e = [])
    (hinactive : ∀ j, inactivations j e = 0) : Slots n owed (events ++ e) m := by
  have hcount : ∀ j, inactivations j (events ++ e) = inactivations j events := by
    intro j
    rw [inactivations_append, hinactive, add_zero]
  refine { h with order := ?_, once := ?_, never := ?_, unmade := ?_ }
  · rw [startedOf_append, hstart, append_nil]
    exact h.order
  · intro j
    rw [hcount]
    exact h.once j
  · intro j job hj hg
    rw [hcount]
    exact h.never j job hj hg
  · intro j hj
    rw [hcount]
    exact h.unmade j hj

/-- A transfer is entered, or entered again, while nothing is inactivated. -/
theorem slots_insert {m' : Manager} {owed' : Nat} {events' : List Event} {job' : Job}
    (hjobs : m'.jobs = m.jobs.insert j job') (hnext : ∀ i, i < m'.nextJob ↔ i = j ∨ i < m.nextJob)
    (hlimit : m'.concurrencyLimit = m.concurrencyLimit)
    (hactive : m'.activeTransfers = (count active m'.jobs + owed' : Nat))
    (hle : m'.activeTransfers ≤ n) (hfull : m'.waitingTransfers ≠ [] → m'.activeTransfers = n)
    (hothers : ∀ i, i ≠ j → (i ∈ m'.waitingTransfers ↔ i ∈ m.waitingTransfers))
    (hself : j ∈ m'.waitingTransfers ↔ job'.startClosed = false)
    (horder : startedOf events' ++ m'.waitingTransfers = range m'.nextJob)
    (hstarted : begun job' = true ∨ job'.goroutine ≠ .active → job'.startClosed = true)
    (hcount : ∀ i, inactivations i events' = inactivations i events)
    (hnever : job'.goroutine = .active → inactivations j events = 0) :
    Slots n owed' events' m' := by
  -- The new entry is `j`, and every clause is old for the others.
  refine ⟨hlimit.trans h.limit, ?_, hactive, hle, hfull, ?_, horder, ?_, ?_, ?_, ?_⟩
  · intro i
    rw [hjobs, exists_lookup_insert, h.jobs, hnext]
  · intro i x hi
    rw [hjobs] at hi
    rcases lookup_insert_cases hi with ⟨hij, hi⟩ | ⟨hij, hx⟩
    · rw [hothers i hij]
      exact h.waiting i x hi
    · rw [hij, hx]
      exact hself
  · intro i x hi hx
    rw [hjobs] at hi
    rcases lookup_insert_cases hi with ⟨_, hi⟩ | ⟨_, hxe⟩
    · exact h.started i x hi hx
    · rw [hxe] at hx ⊢
      exact hstarted hx
  · intro i
    rw [hcount]
    exact h.once i
  · intro i x hi hx
    rw [hjobs] at hi
    rw [hcount]
    rcases lookup_insert_cases hi with ⟨_, hi⟩ | ⟨hij, hxe⟩
    · exact h.never i x hi hx
    · rw [hxe] at hx
      rw [hij]
      exact hnever hx
  · intro i hi
    have hlt := hnext i
    rw [hcount]
    exact h.unmade i (by omega)

/-- A transfer that stays started or not changes, and may give up its slot. -/
theorem slots_setJob {owed' : Nat} {job job' : Job} (hj : m.jobs.lookup j = some job)
    (hstart : job'.startClosed = job.startClosed)
    (hg : job'.goroutine = .active → job.goroutine = .active)
    (hbegun : begun job' = true ∨ job'.goroutine ≠ .active → job.startClosed = true)
    (howed : owed' + (if active job' then 1 else 0) = owed + if active job then 1 else 0) :
    Slots n owed' events (m.setJob j job') := by
  refine slots_insert h rfl ?_ rfl ?_ h.le h.full (fun _ _ => Iff.rfl) ?_ h.order
    (hstart ▸ hbegun) (fun _ => rfl) fun ha => h.never j job hj (hg ha)
  · intro i
    constructor
    · exact .inr
    rintro (hij | hi)
    · rw [hij]
      exact (h.jobs j).mp ⟨job, hj⟩
    · exact hi
  · have hcount := count_insert active m.jobs j job'
    rw [valueAt, hj] at hcount
    change m.activeTransfers = ((count active (m.jobs.insert j job') + owed' : Nat) : Int)
    rw [h.active]
    simp only [] at hcount
    omega
  · rw [hstart]
    exact h.waiting j job hj

theorem slots_quiet {job job' : Job} (hj : m.jobs.lookup j = some job)
    (hstart : job'.startClosed = job.startClosed) (hg : job'.goroutine = job.goroutine)
    (hbegun : begun job' = true → job.startClosed = true) :
    Slots n owed events (m.setJob j job') := by
  refine slots_setJob h hj hstart (fun ha => hg ▸ ha) ?_ ?_
  · rintro (hb | hb)
    · exact hbegun hb
    · rw [hg] at hb
      exact h.started j job hj (.inr hb)
  · rw [active, active, hstart, hg]

/-- A change of the transfer that begins nothing. -/
theorem slots_setXfer (hj : m.jobs.lookup j = some job) (t : Transfer)
    (hbroadcast : t.broadcastDone = true → begun job = true)
    (hrunning : t.runningClosed = true → begun job = true) :
    Slots n owed events (m.setXfer j job t) := by
  refine slots_quiet h hj rfl rfl fun hb => h.started j job hj (.inl ?_)
  simp only [begun, Bool.or_eq_true] at hb
  rcases hb with ((hb | hb) | hb) | hb
  · simp [begun, hb]
  · simp [begun, hb]
  · exact hbroadcast hb
  · exact hrunning hb

theorem slots_watch (hj : m.jobs.lookup j = some job) (w : WatcherID) :
    Slots n owed events (m.setXfer j job (job.xfer.watch w)) :=
  slots_setXfer h hj _ begun_of_broadcastDone begun_of_runningClosed

theorem slots_release {j : JobID} {job : Job} (hj : m.jobs.lookup j = some job) (w : WatcherID) :
    Slots n owed events (m.setXfer j job (job.xfer.release w)) := by
  have hsame : (job.xfer.release w).broadcastDone = job.xfer.broadcastDone ∧
      (job.xfer.release w).runningClosed = job.xfer.runningClosed := by
    unfold Transfer.release
    simp only []
    split
    · split
      · exact ⟨rfl, rfl⟩
      · exact ⟨rfl, rfl⟩
    · exact ⟨rfl, rfl⟩
  exact slots_setXfer h hj _ (fun hb => begun_of_broadcastDone (hsame.1 ▸ hb))
    (fun hr => begun_of_runningClosed (hsame.2 ▸ hr))

theorem slots_gone (hj : m.jobs.lookup j = some job) (job' : Job)
    (hstart : job'.startClosed = job.startClosed) (hg : job.goroutine ≠ .active)
    (hg' : job'.goroutine ≠ .active) : Slots n owed events (m.setJob j job') := by
  refine slots_setJob h hj hstart (fun ha => absurd ha hg')
    (fun _ => h.started j job hj (.inr hg)) ?_
  rw [active, active, decide_eq_false hg, decide_eq_false hg', Bool.and_false, Bool.and_false]

/-! ### A new transfer -/

theorem slots_hasSlot (hn : 0 < n) : m.hasSlot = true ↔ m.activeTransfers < n := by
  rw [Manager.hasSlot, decide_eq_true_eq, h.limit]
  omega

/-- A slot is free only while nobody waits. -/
theorem slots_waiting_nil (hn : 0 < n) (hs : m.hasSlot = true) : m.waitingTransfers = [] := by
  by_contra hw
  have hfull := h.full hw
  have hlt := (slots_hasSlot h hn).mp hs
  omega

/-- A new transfer takes a slot or waits. -/
theorem slots_create (hn : 0 < n) (key : Key) :
    Slots n owed (events ++ if m.hasSlot then [Event.started m.nextJob] else [])
      (m.create key) := by
  have hnew : m.jobs.lookup m.nextJob = none := by
    cases hj : m.jobs.lookup m.nextJob with
    | none => rfl
    | some job => exact absurd ((h.jobs _).mp ⟨job, hj⟩) (lt_irrefl _)
  have hactive : count active (m.create key).jobs =
      count active m.jobs + if m.hasSlot then 1 else 0 := by
    change count active (m.jobs.insert m.nextJob
      { m.newJob key with xfer := newTransfer.watch m.nextWatcher }) = _
    rw [count_insert_fresh active m.jobs m.nextJob _ hnew]
    congr 2
    simp [active, Manager.newJob]
  refine slots_insert h (j := m.nextJob) rfl ?_ rfl ?_ ?_ ?_ ?_ ?_ ?_ ?_ ?_
    (fun _ => h.unmade _ (le_refl _))
  · intro i
    exact Nat.lt_succ_iff_lt_or_eq.trans Or.comm
  -- With a slot the counter goes up, and without one the transfer goes to the end of the queue.
  · change (if m.hasSlot then m.activeTransfers + 1 else m.activeTransfers) = _
    rw [hactive, h.active]
    split
    · omega
    · omega
  · change (if m.hasSlot then m.activeTransfers + 1 else m.activeTransfers) ≤ n
    split
    · next hs => exact (slots_hasSlot h hn).mp hs
    · exact h.le
  · change (if m.hasSlot then m.waitingTransfers else m.waitingTransfers ++ [m.nextJob]) ≠ [] →
      (if m.hasSlot then m.activeTransfers + 1 else m.activeTransfers) = n
    intro hw
    by_cases hs : m.hasSlot = true
    · rw [if_pos hs] at hw
      exact absurd (slots_waiting_nil h hn hs) hw
    rw [if_neg hs]
    have hle := h.le
    rw [slots_hasSlot h hn] at hs
    omega
  · intro i hij
    change i ∈ (if m.hasSlot then m.waitingTransfers else m.waitingTransfers ++ [m.nextJob]) ↔ _
    split
    · exact Iff.rfl
    · rw [mem_append, mem_singleton]
      exact ⟨fun hm => hm.resolve_right hij, .inl⟩
  · change _ ∈ (if m.hasSlot then m.waitingTransfers else m.waitingTransfers ++ [m.nextJob]) ↔
      m.hasSlot = false
    by_cases hs : m.hasSlot = true
    · rw [if_pos hs, hs, slots_waiting_nil h hn hs]
      exact ⟨nofun, fun hc => Bool.noConfusion hc⟩
    · rw [if_neg hs]
      exact ⟨fun _ => Bool.eq_false_iff.mpr hs,
        fun _ => mem_append_right _ (mem_singleton.mpr rfl)⟩
  · change _ ++ (if m.hasSlot then m.waitingTransfers else m.waitingTransfers ++ [m.nextJob]) =
      range (m.nextJob + 1)
    rw [range_succ, ← h.order, startedOf_append]
    by_cases hs : m.hasSlot = true
    · rw [if_pos hs, if_pos hs, slots_waiting_nil h hn hs]
      simp [startedOf]
    · rw [if_neg hs, if_neg hs]
      simp [startedOf]
  · rintro (hx | hx)
    · nomatch hx
    · exact absurd rfl hx
  · intro i
    rw [inactivations_append]
    split
    · rfl
    · rfl

/-! ### Giving a slot back -/

/-- The goroutine of the manager has left the transfer, and says so. -/
theorem slots_inactivated (hj : m.jobs.lookup j = some job) (hg : job.goroutine ≠ .active)
    (hnever : inactivations j events = 0) : Slots n owed (events ++ [.inactivated j]) m := by
  have hcount : ∀ i, i ≠ j →
      inactivations i (events ++ [.inactivated j]) = inactivations i events := by
    intro i hij
    rw [inactivations_append, inactivations_inactivated, if_neg hij, add_zero]
  refine { h with order := ?_, once := ?_, never := ?_, unmade := ?_ }
  · rw [startedOf_append]
    change (startedOf events ++ []) ++ _ = _
    rw [append_nil]
    exact h.order
  -- The transfer had not been inactivated before.
  · intro i
    by_cases hij : i = j
    · rw [hij, inactivations_append, inactivations_inactivated, hnever, if_pos rfl]
    · rw [hcount i hij]
      exact h.once i
  · intro i x hi hx
    have hij : i ≠ j := by
      intro hij
      rw [hij, hj, Option.some.injEq] at hi
      rw [← hi] at hx
      exact hg hx
    rw [hcount i hij]
    exact h.never i x hi hx
  · intro i hi
    have hlt := (h.jobs j).mp ⟨job, hj⟩
    rw [hcount i (ne_of_gt (lt_of_lt_of_le hlt hi))]
    exact h.unmade i hi

end Step

/-- A slot that is owed goes to the transfer at the head of the queue. -/
theorem slots_startWaiting (h : Slots n (owed + 1) events m) {k : JobID} {rest : List JobID}
    (hwait : m.waitingTransfers = k :: rest) :
    Slots n owed (events ++ [.started k]) (m.startWaiting k rest) := by
  have hkmem : k ∈ m.waitingTransfers := by
    rw [hwait]
    exact mem_cons_self
  rcases slots_waiting_mem h hkmem with ⟨job, hk, hstart, hg⟩
  have hnodup := slots_waiting_nodup h
  rw [hwait] at hnodup
  rw [Manager.startWaiting, hk]
  refine slots_insert h (j := k) rfl ?_ rfl ?_ h.le ?_ ?_ ?_ ?_ (fun _ => rfl) ?_
    (fun _ => h.never k job hk hg)
  · intro i
    exact ⟨.inr, fun hi => hi.elim (fun he => he ▸ (h.jobs k).mp ⟨job, hk⟩) id⟩
  -- The slot that was owed is the one the transfer has now.
  · have hcount := count_insert active m.jobs k { job with startClosed := true }
    have hwas : active job = false := by rw [active, hstart, Bool.false_and]
    have hnow : active { job with startClosed := true } = true := by
      rw [active, hg]
      rfl
    rw [valueAt, hk] at hcount
    simp only [hwas, hnow, Bool.false_eq_true, if_false, if_true, add_zero] at hcount
    change m.activeTransfers = ((count active (m.jobs.insert k _) + owed : Nat) : Int)
    rw [hcount, h.active]
    omega
  · intro _
    exact h.full (by rw [hwait]; exact cons_ne_nil _ _)
  · intro i hik
    rw [hwait, mem_cons]
    exact ⟨.inr, fun hm => hm.resolve_left hik⟩
  · change k ∈ rest ↔ true = false
    exact ⟨fun hm => absurd hm (nodup_cons.mp hnodup).1, fun hc => Bool.noConfusion hc⟩
  · rw [startedOf_append]
    change (startedOf events ++ [k]) ++ rest = range m.nextJob
    rw [append_assoc, singleton_append, ← hwait]
    exact h.order
  · intro i
    rw [inactivations_append]
    rfl

theorem slots_inactivate (h : Slots n 0 events m) {g : Goroutine} (hj : m.jobs.lookup j = some job)
    (hactive : job.goroutine = .active) (hbegun : begun job = true) (hg : g ≠ .active) :
    Slots n 0 (events ++ .inactivated j ::
        ((m.setJob j { job with goroutine := g }).inactivate job.startClosed).1)
      ((m.setJob j { job with goroutine := g }).inactivate job.startClosed).2 := by
  have hstart := h.started j job hj (.inl hbegun)
  -- With the goroutine gone there is one active transfer less than counted.
  have howing : Slots n 1 events (m.setJob j { job with goroutine := g }) := by
    refine slots_setJob h hj rfl (fun ha => absurd ha hg) (fun _ => hstart) ?_
    simp [active, hstart, hactive, decide_eq_false hg]
  have hsaid := slots_inactivated howing (AList.lookup_insert _) hg (h.never j job hj hactive)
  generalize m.setJob j { job with goroutine := g } = m' at hsaid
  rw [← singleton_append, ← append_assoc, Manager.inactivate, if_pos hstart]
  cases hwait : m'.waitingTransfers with
  | nil =>
    simp only [append_nil]
    have hle := hsaid.le
    have hact := hsaid.active
    refine ⟨hsaid.limit, hsaid.jobs, ?_, ?_, fun hw => absurd rfl hw, ?_, ?_, hsaid.started,
      hsaid.once, hsaid.never, hsaid.unmade⟩
    · change m'.activeTransfers - 1 = ((count active m'.jobs + 0 : Nat) : Int)
      omega
    · change m'.activeTransfers - 1 ≤ n
      omega
    · rw [← hwait]
      exact hsaid.waiting
    · rw [← hwait]
      exact hsaid.order
  | cons => exact slots_startWaiting hsaid hwait

/-! ### Runs -/

theorem does_slots {m' : Manager} {a : Action} {e : List Event} (h : Slots n 0 events m)
    (hn : 0 < n) (hwaits : Waits m a) (hdoes : Does m a e m') : Slots n 0 (events ++ e) m' := by
  -- Most steps say nothing, or nothing about slots.
  have hsilent : ∀ {m' : Manager}, Slots n 0 events m' → Slots n 0 (events ++ []) m' := by
    intro m' h'
    rw [append_nil]
    exact h'
  cases hdoes with
  | setConcurrency => exact hwaits.elim
  | transfer | lock | giveUp | detach | unlock | await | watcher =>
    exact hsilent (slots_congr h rfl)
  | release c j w job hc hj =>
    exact hsilent (slots_congr (slots_release h hj w) rfl)
  | watch c key j job hpc hkey hj =>
    exact hsilent (slots_congr (slots_watch h hj m.nextWatcher) rfl)
  | create c key =>
    rw [← append_assoc]
    exact slots_congr (slots_events (slots_create h hn key)
      [.returned c m.nextJob m.nextWatcher true] rfl fun _ => rfl) rfl
  | join c key j w =>
    exact slots_congr (slots_events h [.returned c j w false] rfl fun _ => rfl) rfl
  | releaseCancelled c key j w job hpc hj =>
    exact hsilent (slots_congr (slots_release h hj w) rfl)
  | released c j w =>
    exact slots_congr (slots_events h [.released c j w] rfl fun _ => rfl) rfl
  | progress j p ready job hj =>
    refine hsilent (slots_congr (slots_setXfer h hj { job.xfer with lastProgress := some p }
      ?_ ?_) rfl)
    · exact begun_of_broadcastDone
    · exact begun_of_runningClosed
  | inactive j job hj | finish j job hj =>
    exact hsilent (slots_quiet h hj rfl rfl fun _ => hwaits job hj)
  | broadcastDone j job hj hclosed hnot =>
    refine hsilent (slots_setXfer h hj _ (fun _ => ?_) begun_of_runningClosed)
    simp [begun, hclosed]
  | closeRunning j job hj hdone =>
    exact hsilent (slots_setXfer h hj _ begun_of_broadcastDone
      (fun _ => begun_of_broadcastDone hdone))
  | takeInactive j job hj hlock hactive hclosed =>
    refine slots_inactivate h hj hactive ?_ Goroutine.noConfusion
    simp [begun, hclosed]
  | removeActive j job hj hlock hdone hactive =>
    exact slots_congr (slots_inactivate h hj hactive (begun_of_runningClosed hdone)
      Goroutine.noConfusion) rfl
  | removeInactivated j job hj hlock hdone hinactive =>
    refine hsilent (slots_congr (slots_gone h hj { job with goroutine := .removed } rfl ?_ ?_) rfl)
    · rw [hinactive]
      exact Goroutine.noConfusion
    · exact Goroutine.noConfusion
  | close j job t hj hremoved =>
    refine hsilent (slots_gone h hj _ rfl ?_ Goroutine.noConfusion)
    rw [hremoved]
    exact Goroutine.noConfusion

end Keep

theorem slots_newTransferManager (n : Int) (hn : 0 < n) : Slots n 0 [] (newTransferManager n) where
  limit := rfl
  jobs := fun _ => ⟨fun ⟨_, hj⟩ => (nomatch hj), fun hj => absurd hj (not_lt_zero _)⟩
  active := rfl
  le := Int.le_of_lt hn
  full := fun h => absurd rfl h
  waiting := nofun
  order := rfl
  started := nofun
  once := fun _ => zero_le _
  never := fun _ _ _ _ => rfl
  unmade := fun _ _ => rfl

/-- The slots in every run of a manager with a limit, over functions that wait
    for their start: the counter is the number of transfers that are started
    and not inactivated, it stays within the limit, nothing is inactivated
    twice, transfers are started in the order in which they were made, and
    none waits while there is a slot. -/
theorem run_slots (n : Int) (hn : 0 < n) (as : List Action) (m : Manager)
    (rs : List (List Event)) (hmeets : Meets step Waits as (newTransferManager n))
    (hrun : run step as (newTransferManager n) = .ok (rs, m)) :
    m.activeTransfers = (AMap.count active m.jobs : Nat) ∧
    0 ≤ m.activeTransfers ∧ m.activeTransfers ≤ n ∧
    (∀ j, inactivations j rs.flatten ≤ 1) ∧
    startedOf rs.flatten ++ m.waitingTransfers = List.range m.nextJob ∧
    (m.waitingTransfers ≠ [] → m.activeTransfers = n) := by
  have hslots : Slots n 0 ([] ++ rs).flatten m :=
    run_trace Waits (fun rs m => Slots n 0 rs.flatten m) (fun a m r m' rs h hw hs => by
        rw [flatten_append, flatten_singleton]
        exact does_slots h hn hw (does_of_step hs))
      as _ m rs [] (slots_newTransferManager n hn) hmeets hrun
  have hactive := hslots.active
  refine ⟨hactive, ?_, hslots.le, hslots.once, hslots.order, hslots.full⟩
  rw [hactive]
  exact Int.natCast_nonneg _

/-- Two transfers and one slot: the second is started when the first is
    done. -/
def handoverActions : List Action :=
  [.transfer 0 ['a'], .proceed 0, .proceed 0, .transfer 1 ['b'], .proceed 1, .proceed 1,
    .finish 0, .broadcastDone 0, .closeRunning 0, .takeDone 0]

/-- The slot is taken after the handover as it was before. -/
theorem run_slots_handover : ∃ m rs, run step handoverActions (newTransferManager 1) = .ok (rs, m) ∧
      startedOf rs.flatten = [0, 1] ∧ m.activeTransfers = 1 ∧
      m.activeTransfers = (AMap.count active m.jobs : Nat) := by
  have hok : (run step handoverActions (newTransferManager 1)).isOk = true := by decide
  have hstarted : (match run step handoverActions (newTransferManager 1) with
    | .error _ => false
    | .ok (rs, m) => decide (startedOf rs.flatten = [0, 1] ∧ m.activeTransfers = 1)) = true := by
    decide
  rcases exists_run hok with ⟨rs, m, hrun⟩
  rw [hrun] at hstarted
  have hboth := of_decide_eq_true hstarted
  exact ⟨m, rs, hrun, hboth.1, hboth.2, (run_slots 1 (by decide) handoverActions m rs
    (by decide) hrun).1⟩

end Dao.Xfer
