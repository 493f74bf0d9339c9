import Dao.Lib.Run

/-!
# Restoring a Container

The part of `Restore` that waits for a container to exit when live restore is
off, for one container ID, with the events of containerd. `handleEvent` puts what
it has to do into the queue of the container, and the functions of the queue run
in order, so receiving an event and processing it are two steps. An event for a
container that the client does not know is dropped. A restored container has no
restart manager.

Events are numbered as they are received. `processed` lists those whose function
has run.
-/

namespace Dao.Libcontainerd

/-- `containerd.Event`: its type and whose exit it is. -/
inductive Event where
  | exitInit
  /-- The exit of a process other than `init`. -/
  | exitProcess (pid : Nat)
  | pause
  | resume
  | oom
  deriving DecidableEq

/-- `e.Type == StateExit`. -/
def Event.isExit : Event → Bool
  | .exitInit => true
  | .exitProcess _ => true
  | _ => false

/-- What the client has for the container ID. -/
structure Client where
  /-- `exitNotifiers`, where notifiers are numbered as they are made. -/
  notifier : Option Nat
  made : Nat
  /-- Whose channel is closed. -/
  closed : Nat → Bool
  /-- The container is in `containers`. -/
  known : Bool
  received : Nat
  queue : List (Nat × Event)
  processed : List (Nat × Event)
  /-- The calls of `Restore` that wait: their notifier, and the number of events
      received when they registered. -/
  waiting : Nat → Option (Nat × Nat)

/-- `exitNotifier.close`. The notifier would take itself out of the map under its
    `id`, which is never set, so it stays. -/
def Client.close (w : Nat) (c : Client) : Client :=
  { c with closed := Function.update c.closed w true }

/-- What can happen next. -/
inductive Action where
  /-- `Restore` gets its notifier and appends the container. -/
  | restore (call : Nat)
  /-- The channel is closed, and `Restore` returns. -/
  | wake (call : Nat)
  /-- Both timers have run out. -/
  | timeout (call : Nat)
  | receive (e : Event)
  /-- The next function of the queue runs. -/
  | process

/-- What a step tells: a call that returned through its notifier, and when it had
    registered. -/
inductive Result where
  | nothing
  | exited (call registered : Nat)
  deriving DecidableEq

/-- One step, unless it is not enabled. -/
def step : Action → Client → Except Unit (Result × Client)
  | .restore call, c =>
    -- `getOrCreateExitNotifier`
    let (w, c) := match c.notifier with
      | some w => (w, c)
      | none => (c.made, { c with notifier := some c.made, made := c.made + 1 })
    if (c.waiting call).isSome then .error ()
    else .ok (.nothing, { c with
      known := true, waiting := Function.update c.waiting call (some (w, c.received)) })
  | .wake call, c =>
    match c.waiting call with
    | none => .error ()
    | some (w, registered) =>
      if c.closed w then
        .ok (.exited call registered, { c with waiting := Function.update c.waiting call none })
      else .error ()
  | .timeout call, c =>
    if (c.waiting call).isSome then
      .ok (.nothing, { c with known := false, waiting := Function.update c.waiting call none })
    else .error ()
  | .receive e, c =>
    if !c.known then .ok (.nothing, c)
    else .ok (.nothing, { c with
      known := e != .exitInit, received := c.received + 1, queue := c.queue ++ [(c.received, e)] })
  | .process, c =>
    match c.queue with
    | [] => .error ()
    | (n, e) :: queue =>
      let c := { c with queue := queue, processed := c.processed ++ [(n, e)] }
      match if e.isExit then c.notifier else none with
      | none => .ok (.nothing, c)
      | some w => .ok (.nothing, c.close w)

/-- A client that has not seen the container. -/
def newClient : Client := ⟨none, 0, fun _ => false, false, 0, [], [], fun _ => none⟩

end Dao.Libcontainerd
