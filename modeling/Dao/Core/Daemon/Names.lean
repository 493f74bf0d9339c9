import Dao.Lib.Run

/-!
# Container Names

`ContainerRename`, the creation of containers with a name and their removal, on
the name index. Containers and names are numbers, and every use of the index is
a step. A rename reads the old name before it takes the lock of the container.
A rename whose new name is malformed changes nothing and is left out.
-/

namespace Dao.Names

/-- Where a call is. -/
inductive Phase where
  | idle
  /-- A rename that has read the old name, -/
  | ready (c old new : Nat)
  /-- has reserved the new one and set it, -/
  | reserved (c old new : Nat)
  /-- has released the old one, -/
  | released (c old new : Nat)
  /-- or has failed and taken the old one back. -/
  | undone (c old new : Nat)
  /-- A creation that has a name for its container. -/
  | created (c : Nat)
  /-- A removal that has deleted the names of the container. -/
  | deleted (c : Nat)
  deriving DecidableEq

structure Daemon where
  /-- `nameIndex`. -/
  names : Nat → Option Nat
  name : Nat → Nat
  locked : Nat → Bool
  registered : Nat → Bool
  /-- The next container. -/
  next : Nat
  phase : Nat → Phase

inductive Action where
  | rename (t c new : Nat)
  | reserve (t : Nat)
  | release (t : Nat)
  /-- The disk and the network, which may fail. -/
  | persist (t : Nat) (ok : Bool)
  | rollback (t : Nat)
  | create (t name : Nat)
  /-- The creation ends with `Register`, or with a cleanup. -/
  | register (t : Nat) (ok : Bool)
  | delete (t c : Nat)
  | unregister (t : Nat)

def Daemon.goto (d : Daemon) (t : Nat) (p : Phase) : Daemon :=
  { d with phase := Function.update d.phase t p }

/-- `Registrar.Delete`. -/
def Daemon.deleteNames (d : Daemon) (c : Nat) : Daemon :=
  { d with names := fun n => if d.names n = some c then none else d.names n }

/-- One step, unless it is not enabled. -/
def step : Action → Daemon → Except Unit (Unit × Daemon)
  | .rename t c new, d =>
    if d.phase t = .idle ∧ d.registered c ∧ d.name c ≠ new then
      .ok ((), d.goto t (.ready c (d.name c) new))
    else .error ()
  | .reserve t, d =>
    match d.phase t with
    | .ready c old new =>
      if d.locked c then .error ()
      else if d.names new = none ∨ d.names new = some c then
        .ok ((), { d with
          names := Function.update d.names new (some c), name := Function.update d.name c new,
          locked := Function.update d.locked c true }.goto t (.reserved c old new))
      else .ok ((), d.goto t .idle)
    | _ => .error ()
  | .release t, d =>
    match d.phase t with
    | .reserved c old new => .ok ((), { d with
        names := Function.update d.names old none }.goto t (.released c old new))
    | _ => .error ()
  | .persist t ok, d =>
    match d.phase t with
    | .released c old new =>
      if ok then .ok ((), { d with locked := Function.update d.locked c false }.goto t .idle)
      else
        -- Whether the old name can be had again is ignored.
        .ok ((), { d with
          name := Function.update d.name c old,
          names := if d.names old = none then Function.update d.names old (some c)
            else d.names }.goto
            t (.undone c old new))
    | _ => .error ()
  | .rollback t, d =>
    match d.phase t with
    | .undone c _ new => .ok ((), { d with
        names := Function.update d.names new none,
        locked := Function.update d.locked c false }.goto t .idle)
    | _ => .error ()
  | .create t name, d =>
    if d.phase t ≠ .idle then .error ()
    else if d.names name ≠ none then .ok ((), d)
    else .ok ((), { d with
      names := Function.update d.names name (some d.next),
      name := Function.update d.name d.next name, next := d.next + 1 }.goto t (.created d.next))
  | .register t ok, d =>
    match d.phase t with
    | .created c =>
      if ok then .ok ((), { d with registered := Function.update d.registered c true }.goto t .idle)
      else .ok ((), (d.deleteNames c).goto t .idle)
    | _ => .error ()
  | .delete t c, d =>
    if d.phase t = .idle ∧ d.registered c then .ok ((), (d.deleteNames c).goto t (.deleted c))
    else .error ()
  | .unregister t, d =>
    match d.phase t with
    | .deleted c =>
      .ok ((), { d with registered := Function.update d.registered c false }.goto t .idle)
    | _ => .error ()

/-- A daemon without containers. -/
def initial : Daemon :=
  ⟨fun _ => none, fun _ => 0, fun _ => false, fun _ => false, 0, fun _ => .idle⟩

end Dao.Names
