import Dao.Lib.Run

/-!
# Mounting a Layer of overlay2

`Get` and `Put` of the overlay2 driver on one id, with the reference counter.
The counter is updated under its own lock; the mount and the unmount it decides
on come later, so they are steps of their own.
-/

namespace Dao.Overlay2

/-- Where a call is that has updated the counter. -/
inductive Phase where
  /-- `Get` is the first and has to mount. -/
  | mounting
  /-- `Get` has failed, and its deferred function runs. -/
  | failing
  /-- The count is down, and the call has to unmount. -/
  | unmounting
  deriving DecidableEq

/-- What happens when `Get` mounts. -/
inductive Outcome where
  | mountFails
  /-- The mount succeeds, and giving the work directory to the root user fails. -/
  | chownFails
  | succeeds

/-- The merged directory of an id. -/
structure Mount where
  /-- The id has a file of lower directories. -/
  lower : Bool
  /-- `minfo`: whether it was checked, and the count. -/
  check : Bool
  count : Int
  /-- How many overlays are mounted on the directory. -/
  mounts : Nat
  /-- The calls of `Get` that have returned nil and whose `Put` is to come. -/
  holders : List Nat
  flight : List (Nat × Phase)

/-- `Increment` and `Decrement`. What was mounted before counts too. -/
def count (d : Int) (m : Mount) : Mount :=
  { m with check := true
           count := (if !m.check && 0 < m.mounts then m.count + 1 else m.count) + d }

/-- What can happen next. -/
inductive Action where
  | get (call : Nat)
  | mount (call : Nat) (outcome : Outcome)
  | undo (call : Nat)
  | put (call : Nat)
  | unmount (call : Nat)

/-- The call returns nil from `Get`. -/
def Mount.hold (call : Nat) (m : Mount) : Mount := { m with holders := call :: m.holders }

/-- The call goes on in another phase, or returns. -/
def Mount.goOn (call : Nat) (phase : Phase) (next : Option Phase) (m : Mount) : Mount :=
  { m with flight := (next.map (call, ·)).toList ++ m.flight.erase (call, phase) }

/-- One step, unless it is not enabled. -/
def step : Action → Mount → Except Unit (Unit × Mount)
  | .get call, m =>
    if !m.lower then .ok ((), m.hold call)
    else
      let m := count 1 m
      if m.count > 1 then .ok ((), m.hold call)
      else .ok ((), { m with flight := (call, .mounting) :: m.flight })
  | .mount call outcome, m =>
    if (call, .mounting) ∉ m.flight then .error ()
    else match outcome with
      | .mountFails => .ok ((), m.goOn call .mounting (some .failing))
      | .chownFails =>
        .ok ((), { m.goOn call .mounting (some .failing) with mounts := m.mounts + 1 })
      | .succeeds =>
        .ok ((), { (m.goOn call .mounting none).hold call with mounts := m.mounts + 1 })
  | .undo call, m =>
    if (call, .failing) ∉ m.flight then .error ()
    else
      let m := count (-1) m
      .ok ((), m.goOn call .failing (if m.count ≤ 0 then some .unmounting else none))
  | .put call, m =>
    if call ∉ m.holders then .error ()
    else
      let m := count (-1) { m with holders := m.holders.erase call }
      if m.count > 0 then .ok ((), m)
      else .ok ((), { m with flight := (call, .unmounting) :: m.flight })
  | .unmount call, m =>
    if (call, .unmounting) ∉ m.flight then .error ()
    else .ok ((), { m.goOn call .unmounting none with mounts := m.mounts - 1 })

/-- No call has come yet. Something may be mounted already. -/
def unused (lower : Bool) (mounts : Nat) : Mount := ⟨lower, false, 0, mounts, [], []⟩

end Dao.Overlay2
