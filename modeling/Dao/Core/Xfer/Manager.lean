import Dao.Core.Xfer.Transfer
import Dao.Lib.Run

/-!
# The Transfer Manager

`transferManager` and everything that runs around it: the calls of `Transfer`
and `Release`, and for every transfer the function that performs it, its
`Broadcast` and the goroutine that removes it when it is finished.

The mutex of the manager is held by a call of `Transfer` across several steps:
between them it watches a transfer, looks whether it is cancelled, and may
release it again, all with the mutex of the transfer only. So `lock` says who
has it. Everything else that takes it does so for one step. A transfer's own
mutex is never held across a step.

What the function that performs a transfer does is not part of the manager. It
is known by what it does to its three channels: it sends progress, it closes
`inactive`, and it closes the progress channel when it is over.

A new transfer is set up in one step. Until it is in the map nobody but the
new goroutines has it, and what they could do early they can as well do
later. `runtime.Gosched` is any step of something else.

An event is what a reader of a trace needs to know: which transfer was started
or inactivated, and which pair a call returned.
-/

namespace Dao.Xfer

open Lib

abbrev Key : Type := Str

/-- The identity of a transfer. They are numbered in the order in which they
    are made. -/
abbrev JobID : Type := Nat

/-- The identity of a call. -/
abbrev CallID : Type := Nat

/-- Where the goroutine of the manager for a transfer is: in its loop, with
    `inactive` still there or set to nil; between taking the transfer out of
    the map and `Close`; or over. -/
inductive Goroutine where
  | active
  | inactivated
  | removed
  | finished
  deriving DecidableEq

/-- A transfer, the channels the manager has made for it, and its goroutine. -/
structure Job where
  key : Key
  xfer : Transfer
  startClosed : Bool
  inactiveClosed : Bool
  progressClosed : Bool
  goroutine : Goroutine
  deriving DecidableEq

/-- A call in flight, named after what it does next. The call of `Release` in
    the loop of `Transfer` keeps the key to go on with. -/
inductive Pc where
  /-- `Transfer`, at `tm.mu.Lock()` -/
  | lock (key : Key)
  /-- `Transfer`, at the head of its loop -/
  | loop (key : Key)
  /-- `Transfer`, after `Watch` -/
  | check (key : Key) (j : JobID) (w : WatcherID)
  /-- `Transfer`, about to release a cancelled transfer -/
  | giveUp (key : Key) (j : JobID) (w : WatcherID)
  /-- `Release`, at `close(watcher.releaseChan)` -/
  | detach (back : Option Key) (j : JobID) (w : WatcherID)
  /-- `Release`, at `<-watcher.running` -/
  | join (back : Option Key) (j : JobID) (w : WatcherID)
  /-- `Transfer`, at `<-xfer.Done()` -/
  | await (key : Key) (j : JobID)
  deriving DecidableEq

/-- `transferManager`, with all transfers and watchers ever made, the calls in
    flight, and the pairs that `Transfer` has returned and that have not been
    released. -/
structure Manager where
  lock : Option CallID
  concurrencyLimit : Int
  activeTransfers : Int
  transfers : AMap Key JobID
  waitingTransfers : List JobID
  jobs : AMap JobID Job
  nextJob : Nat
  watchers : AMap WatcherID Watcher
  nextWatcher : Nat
  calls : AMap CallID Pc
  held : List (JobID × WatcherID)

def newTransferManager (concurrencyLimit : Int) : Manager where
  lock := none
  concurrencyLimit := concurrencyLimit
  activeTransfers := 0
  transfers := ∅
  waitingTransfers := []
  jobs := ∅
  nextJob := 0
  watchers := ∅
  nextWatcher := 0
  calls := ∅
  held := []

/-- What happens in a step. -/
inductive Event where
  | started (j : JobID)
  | inactivated (j : JobID)
  | returned (c : CallID) (j : JobID) (w : WatcherID) (created : Bool)
  | released (c : CallID) (j : JobID) (w : WatcherID)
  deriving DecidableEq

/-- What can be done next. -/
inductive Action where
  | setConcurrency (concurrency : Int)
  /-- A call of `Transfer`. -/
  | transfer (c : CallID) (key : Key)
  /-- A call of `Release`. -/
  | release (c : CallID) (j : JobID) (w : WatcherID)
  /-- A call goes on. -/
  | proceed (c : CallID)
  /-- The function of the transfer sends progress, and `Broadcast` passes it
      on. The signal reaches those watchers that are ready for it. -/
  | progress (j : JobID) (p : Progress) (ready : List WatcherID)
  /-- The function closes `inactive`. -/
  | inactive (j : JobID)
  /-- The function closes the progress channel. -/
  | finish (j : JobID)
  /-- `Broadcast` sees the end of the progress. -/
  | broadcastDone (j : JobID)
  /-- `Broadcast` closes `running`. -/
  | closeRunning (j : JobID)
  /-- The goroutine of the manager takes `<-inactive`. -/
  | takeInactive (j : JobID)
  /-- The goroutine of the manager takes `<-xfer.Done()`. -/
  | takeDone (j : JobID)
  /-- The goroutine of the manager calls `Close`. -/
  | close (j : JobID)
  /-- The goroutine of a watcher reads the last progress. -/
  | watcherRead (w : WatcherID)
  /-- The goroutine of a watcher takes `<-w.releaseChan`. -/
  | watcherReleased (w : WatcherID)
  /-- The goroutine of a watcher has waited for the broadcaster. -/
  | watcherSynced (w : WatcherID)
  /-- The goroutine of a watcher takes `<-t.running`. -/
  | watcherDone (w : WatcherID)

/-- A step that is only enabled under a condition. -/
def require (p : Prop) [Decidable p] : Except Stop Unit :=
  if p then .ok () else .error .blocked

/-- Closing a channel panics when it is closed already. -/
def closeChannel (closed : Bool) : Except Stop Unit :=
  if closed then .error .panic else .ok ()

/-- Something that has to be there for a step to be enabled. -/
def find {α : Type} : Option α → Except Stop α
  | none => .error .blocked
  | some a => .ok a

namespace Manager

def setJob (m : Manager) (j : JobID) (job : Job) : Manager :=
  { m with jobs := m.jobs.insert j job }

def setWatcher (m : Manager) (w : WatcherID) (watcher : Watcher) : Manager :=
  { m with watchers := m.watchers.insert w watcher }

def setCall (m : Manager) (c : CallID) (pc : Pc) : Manager :=
  { m with calls := m.calls.insert c pc }

/-- Change the transfer of a job. -/
def setXfer (m : Manager) (j : JobID) (job : Job) (t : Transfer) : Manager :=
  m.setJob j { job with xfer := t }

/-- `close(start)`, of the transfer at the head of the queue. -/
def startWaiting (m : Manager) (j : JobID) (rest : List JobID) : Manager :=
  match m.jobs.lookup j with
  | none => { m with waitingTransfers := rest }
  | some job => { m.setJob j { job with startClosed := true } with waitingTransfers := rest }

/-- `inactivate`, on a transfer that was started or not. -/
def inactivate (m : Manager) (started : Bool) : List Event × Manager :=
  if started then
    match m.waitingTransfers with
    | j :: rest => ([.started j], m.startWaiting j rest)
    | [] => ([], { m with activeTransfers := m.activeTransfers - 1 })
  else ([], m)

/-- `Watch`: a new watcher on the transfer. -/
def watch (m : Manager) (j : JobID) (job : Job) : Manager :=
  { (m.setXfer j job (job.xfer.watch m.nextWatcher)).setWatcher m.nextWatcher
      (newWatcher j job.xfer) with nextWatcher := m.nextWatcher + 1 }

/-- A call of `Transfer` returns a pair. -/
def return_ (m : Manager) (c : CallID) (j : JobID) (w : WatcherID) : Manager :=
  { m with lock := none, calls := m.calls.erase c, held := (j, w) :: m.held }

/-- The slot of a new transfer: it is started, or it has to wait. -/
def hasSlot (m : Manager) : Bool :=
  decide (m.concurrencyLimit = 0 ∨ m.activeTransfers < m.concurrencyLimit)

/-- A new transfer, not yet watched. -/
def newJob (m : Manager) (key : Key) : Job where
  key := key
  xfer := newTransfer
  startClosed := m.hasSlot
  inactiveClosed := false
  progressClosed := false
  goroutine := .active

/-- The end of `Transfer`: a new transfer with a watcher enters the map. -/
def create (m : Manager) (key : Key) : Manager :=
  let m' := m.watch m.nextJob (m.newJob key)
  { m' with
    nextJob := m.nextJob + 1
    transfers := m.transfers.insert key m.nextJob
    activeTransfers := if m.hasSlot then m.activeTransfers + 1 else m.activeTransfers
    waitingTransfers :=
      if m.hasSlot then m.waitingTransfers else m.waitingTransfers ++ [m.nextJob] }

/-- The signals of `Broadcast`, which reach a watcher in its `select`. -/
def signal (ready : List WatcherID) (ws : List WatcherID) (watchers : AMap WatcherID Watcher) :
    AMap WatcherID Watcher :=
  ws.foldl (fun watchers w =>
    match watchers.lookup w with
    | none => watchers
    | some watcher =>
      if w ∈ ready ∧ watcher.pc = .selecting then
        watchers.insert w { watcher with pc := .reading false }
      else watchers) watchers

end Manager

/-- The next step of a call. -/
def proceed (c : CallID) (m : Manager) : Pc → Except Stop (List Event × Manager)
  | .lock key => do
    require (m.lock = none)
    return ([], { m.setCall c (.loop key) with lock := some c })
  | .loop key =>
    match m.transfers.lookup key with
    | some j => do
      let job ← find (m.jobs.lookup j)
      return ([], (m.watch j job).setCall c (.check key j m.nextWatcher))
    | none =>
      let started := if m.hasSlot then [Event.started m.nextJob] else []
      return (started ++ [.returned c m.nextJob m.nextWatcher true],
        (m.create key).return_ c m.nextJob m.nextWatcher)
  | .check key j w => do
    let job ← find (m.jobs.lookup j)
    if job.xfer.cancelled then return ([], m.setCall c (.giveUp key j w))
    else return ([.returned c j w false], m.return_ c j w)
  | .giveUp key j w => do
    let job ← find (m.jobs.lookup j)
    return ([], (m.setXfer j job (job.xfer.release w)).setCall c (.detach (some key) j w))
  | .detach back j w => do
    let watcher ← find (m.watchers.lookup w)
    closeChannel watcher.releaseClosed
    return ([], (m.setWatcher w { watcher with releaseClosed := true }).setCall c (.join back j w))
  | .join back j w => do
    let watcher ← find (m.watchers.lookup w)
    require (watcher.pc = .ended)
    match back with
    | some key => return ([], { m.setCall c (.await key j) with lock := none })
    | none => return ([.released c j w], { m with calls := m.calls.erase c })
  | .await key j => do
    let job ← find (m.jobs.lookup j)
    require (job.xfer.runningClosed = true)
    return ([], m.setCall c (.lock key))

/-- One step. -/
def step : Action → Manager → Except Stop (List Event × Manager)
  | .setConcurrency n, m => do
    require (m.lock = none)
    return ([], { m with concurrencyLimit := n })
  | .transfer c key, m => do
    require (m.calls.lookup c = none)
    return ([], m.setCall c (.lock key))
  | .release c j w, m => do
    require (m.calls.lookup c = none)
    let job ← find (m.jobs.lookup j)
    -- A second release closes `releaseChan` again.
    closeChannel (decide ((j, w) ∉ m.held))
    return ([], { (m.setXfer j job (job.xfer.release w)).setCall c (.detach none j w) with
      held := m.held.filter (fun p => decide (p ≠ (j, w))) })
  | .proceed c, m => do
    let pc ← find (m.calls.lookup c)
    proceed c m pc
  | .progress j p ready, m => do
    let job ← find (m.jobs.lookup j)
    require (job.progressClosed = false)
    return ([], { m.setXfer j job { job.xfer with lastProgress := some p } with
      watchers := Manager.signal ready job.xfer.watchers m.watchers })
  | .inactive j, m => do
    let job ← find (m.jobs.lookup j)
    closeChannel job.inactiveClosed
    return ([], m.setJob j { job with inactiveClosed := true })
  | .finish j, m => do
    let job ← find (m.jobs.lookup j)
    closeChannel job.progressClosed
    return ([], m.setJob j { job with progressClosed := true })
  | .broadcastDone j, m => do
    let job ← find (m.jobs.lookup j)
    require (job.progressClosed = true ∧ job.xfer.broadcastDone = false)
    return ([], m.setXfer j job { job.xfer with broadcastDone := true })
  | .closeRunning j, m => do
    let job ← find (m.jobs.lookup j)
    require (job.xfer.broadcastDone = true ∧ job.xfer.runningClosed = false)
    return ([], m.setXfer j job { job.xfer with runningClosed := true })
  | .takeInactive j, m => do
    let job ← find (m.jobs.lookup j)
    require (m.lock = none ∧ job.goroutine = .active ∧ job.inactiveClosed = true)
    let (events, m') :=
      (m.setJob j { job with goroutine := .inactivated }).inactivate job.startClosed
    return (.inactivated j :: events, m')
  | .takeDone j, m => do
    let job ← find (m.jobs.lookup j)
    require (m.lock = none ∧ job.xfer.runningClosed = true)
    match job.goroutine with
    | .active =>
      let (events, m') :=
        (m.setJob j { job with goroutine := .removed }).inactivate job.startClosed
      return (.inactivated j :: events, { m' with transfers := m'.transfers.erase job.key })
    | .inactivated =>
      return ([], { m.setJob j { job with goroutine := .removed } with
        transfers := m.transfers.erase job.key })
    | _ => .error .blocked
  | .close j, m => do
    let job ← find (m.jobs.lookup j)
    require (job.goroutine = .removed)
    let t ← job.xfer.close
    return ([], m.setJob j { job with xfer := t, goroutine := .finished })
  | .watcherRead w, m => do
    let watcher ← find (m.watchers.lookup w)
    let job ← find (m.jobs.lookup watcher.job)
    match watcher.pc with
    | .reading done => return ([], m.setWatcher w (watcher.read job.xfer.lastProgress done))
    | _ => .error .blocked
  | .watcherReleased w, m => do
    let watcher ← find (m.watchers.lookup w)
    require (watcher.pc = .selecting ∧ watcher.releaseClosed = true)
    return ([], m.setWatcher w { watcher with pc := .syncing })
  | .watcherSynced w, m => do
    let watcher ← find (m.watchers.lookup w)
    let job ← find (m.jobs.lookup watcher.job)
    require (watcher.pc = .syncing ∧
      (job.xfer.broadcastDone = false ∨ job.xfer.runningClosed = true))
    return ([], m.setWatcher w { watcher with pc := .reading true })
  | .watcherDone w, m => do
    let watcher ← find (m.watchers.lookup w)
    let job ← find (m.jobs.lookup watcher.job)
    require (watcher.pc = .selecting ∧ job.xfer.runningClosed = true)
    return ([], m.setWatcher w { watcher with pc := .reading true })

end Dao.Xfer
