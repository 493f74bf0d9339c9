import Dao.Core.Text
import Dao.Lib.AMap

/-!
# Transfers

A `transfer` and the watchers on it. The critical sections of its mutex are
functions on the transfer: `watch`, `release`, `close`, and the two updates of
`Broadcast`. A channel that is only ever closed is a flag. Closing a closed
channel panics, so `close` can fail; in `Release` the source looks before it
closes.

A watcher has a goroutine of its own, which copies the last progress to its
output until the watcher is released or the transfer is done. `WatcherPc` says
where the goroutine is.
-/

namespace Dao.Xfer

/-- `progress.Progress`, of which nothing but equality is used here. `Aux` is
    left out. -/
structure Progress where
  id : Str
  message : Str
  action : Str
  current : Int64
  total : Int64
  lastUpdate : Bool
  deriving DecidableEq

/-- The identity of a watcher, which stands for its `releaseChan`. -/
abbrev WatcherID : Type := Nat

/-- How a schedule can end early: the step it picks is not enabled, or it
    panics. -/
inductive Stop where
  | blocked
  | panic
  deriving DecidableEq

/-- `transfer`. Of its channels and its context it is only known whether they
    are closed. -/
structure Transfer where
  /-- `ctx.Done()` is closed. -/
  cancelled : Bool
  watchers : List WatcherID
  /-- `lastProgress`, if `hasLastProgress`. -/
  lastProgress : Option Progress
  runningClosed : Bool
  releasedClosed : Bool
  broadcastDone : Bool
  closed : Bool
  deriving DecidableEq

def newTransfer : Transfer where
  cancelled := false
  watchers := []
  lastProgress := none
  runningClosed := false
  releasedClosed := false
  broadcastDone := false
  closed := false

namespace Transfer

/-- The critical section of `Watch`. -/
def watch (w : WatcherID) (t : Transfer) : Transfer := { t with watchers := w :: t.watchers }

/-- The critical section of `Release`. Without watchers the transfer is
    cancelled, or, when the manager is done with it, released. -/
def release (w : WatcherID) (t : Transfer) : Transfer :=
  let watchers := t.watchers.filter (fun v => decide (v ≠ w))
  if watchers = [] then
    if t.closed then { t with watchers := watchers, releasedClosed := true }
    else { t with watchers := watchers, cancelled := true }
  else { t with watchers := watchers }

def close (t : Transfer) : Except Stop Transfer :=
  if t.watchers = [] then
    if t.releasedClosed then .error .panic
    else .ok { t with closed := true, releasedClosed := true }
  else .ok { t with closed := true }

end Transfer

/-- Where the goroutine of a watcher is: reading the last progress, after it
    was told to stop or not; in its `select`; waiting for the broadcaster to
    catch up; or over, with `running` closed. -/
inductive WatcherPc where
  | reading (done : Bool)
  | selecting
  | syncing
  | ended
  deriving DecidableEq

/-- `Watcher`, with the transfer it watches and the state of its goroutine:
    what it has written last, if `hasLastWritten`, and all it has written. -/
structure Watcher where
  job : Nat
  releaseClosed : Bool
  pc : WatcherPc
  lastWritten : Option Progress
  output : List Progress
  deriving DecidableEq

/-- The watcher of `Watch`. When the broadcast is over there is no
    goroutine. -/
def newWatcher (job : Nat) (t : Transfer) : Watcher where
  job := job
  releaseClosed := false
  pc := if t.broadcastDone then .ended else .reading false
  lastWritten := none
  output := []

namespace Watcher

/-- Write the last progress, unless it was written already and this is the
    last time. -/
def write (last : Option Progress) (done : Bool) (w : Watcher) : Watcher :=
  match last with
  | none => w
  | some p =>
    if done = false ∨ w.lastWritten ≠ some p then
      { w with lastWritten := some p, output := w.output ++ [p] }
    else w

/-- One round of the goroutine, up to its `select`. -/
def read (last : Option Progress) (done : Bool) (w : Watcher) : Watcher :=
  { w.write last done with pc := if done then .ended else .selecting }

end Watcher

end Dao.Xfer
