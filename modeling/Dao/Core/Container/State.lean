import Dao.Lib.Run

/-!
# The State of a Container

`State` and the calls of `WaitStop` that wait on it. Every transition runs
under the lock and is one step. `WaitStop` takes the lock twice, so a call is
two steps: it looks at the state and captures the wait channel, and when the
channel is closed it comes back and reads the exit code.

The wait channels are numbered in the order they are made. Of a channel that is
closed the model keeps the exit code that the closing transition set, which the
code does not.
-/

namespace Dao.Container

structure ExitStatus where
  exitCode : Int
  oomKilled : Bool
  deriving DecidableEq

/-- `State`, as far as the transitions below write it. -/
structure State where
  running : Bool
  paused : Bool
  restarting : Bool
  oomKilled : Bool
  pid : Int
  exitCode : Int
  /-- For each closed channel the code it was closed with. `waitChan` is the
      channel after the last of them. -/
  closed : List Int

def newState : State := ⟨false, false, false, false, 0, 0, []⟩

/-- The number of `waitChan`. -/
def State.waitChan (s : State) : Nat := s.closed.length

def setRunning (pid : Int) (s : State) : State :=
  { s with running := true, paused := false, restarting := false, exitCode := 0, pid := pid }

/-- `setFromExitStatus`, and the closing of `waitChan`. -/
def State.fire (exitStatus : ExitStatus) (s : State) : State :=
  { s with exitCode := exitStatus.exitCode, oomKilled := exitStatus.oomKilled,
           closed := s.closed ++ [exitStatus.exitCode] }

def setStopped (exitStatus : ExitStatus) (s : State) : State :=
  State.fire exitStatus { s with running := false, paused := false, restarting := false, pid := 0 }

def setRestarting (exitStatus : ExitStatus) (s : State) : State :=
  State.fire exitStatus { s with running := true, restarting := true, pid := 0 }

/-- A state, and for each call of `WaitStop` that waits the channel it waits on. -/
structure Sys where
  state : State
  waiters : Nat → Option Nat

/-- What can happen next. -/
inductive Action where
  | setRunning (pid : Int)
  | setStopped (exitStatus : ExitStatus)
  | setRestarting (exitStatus : ExitStatus)
  /-- A call of `WaitStop` takes the lock for the first time. -/
  | waitStop (call : Nat)
  /-- Its channel is closed, and it takes the lock again. -/
  | resume (call : Nat)

/-- What a step returns. -/
inductive Result where
  | nothing
  /-- The container was not running. -/
  | returned (call : Nat) (exitCode : Int)
  /-- The call had waited on the channel. -/
  | woken (call channel : Nat) (exitCode : Int)
  deriving DecidableEq

/-- One step, unless it is not enabled. -/
def step : Action → Sys → Except Unit (Result × Sys)
  | .setRunning pid, s => .ok (.nothing, { s with state := setRunning pid s.state })
  | .setStopped exitStatus, s => .ok (.nothing, { s with state := setStopped exitStatus s.state })
  | .setRestarting exitStatus, s =>
    .ok (.nothing, { s with state := setRestarting exitStatus s.state })
  | .waitStop call, s =>
    if (s.waiters call).isSome then .error ()
    else if !s.state.running then .ok (.returned call s.state.exitCode, s)
    else .ok (.nothing,
      { s with waiters := Function.update s.waiters call (some s.state.waitChan) })
  | .resume call, s =>
    match s.waiters call with
    | none => .error ()
    | some channel =>
      if channel < s.state.waitChan then
        .ok (.woken call channel s.state.exitCode,
          { s with waiters := Function.update s.waiters call none })
      else .error ()

/-- Nobody waits yet. -/
def initial : Sys := ⟨newState, fun _ => none⟩

end Dao.Container
