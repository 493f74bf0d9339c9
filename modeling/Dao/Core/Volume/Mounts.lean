import Dao.Lib.Run

/-!
# Volumes of Containers

Local volumes, numbered, and the containers that mount them. Which volumes have
mount options and which mount points a container has is fixed, and the volumes
of the mount points are initialised. Mount points are kept in a map, so each walk
over them has an order of its own. A container stays mounted at its `BaseFS` once
it has been there, since unmounting it does not clear the path.
-/

namespace Dao.Volume

structure MountPoint where
  volume : Option Nat
  /-- A tmpfs mount has the same destination. -/
  tmpfs : Bool
  deriving DecidableEq

/-- A `localVolume`. The count is a `uint64`, and `underflow` remembers that it
    was decremented at zero. -/
structure LocalVolume where
  mounted : Bool
  count : Nat
  underflow : Bool

structure Config where
  /-- The volume has mount options. -/
  opts : Nat → Bool
  mountPoints : Nat → List MountPoint

section

variable (cfg : Config)

def mount (v : Nat) (vs : Nat → LocalVolume) : Nat → LocalVolume :=
  if cfg.opts v then
    Function.update vs v { vs v with mounted := true, count := ((vs v).count + 1) % 2 ^ 64 }
  else vs

/-- `Unmount`, with whether it succeeds. A failed unmount restores the count. -/
def unmount (fails : Bool) (v : Nat) (vs : Nat → LocalVolume) : Bool × (Nat → LocalVolume) :=
  if !cfg.opts v then (true, vs)
  else
    let count := ((vs v).count + (2 ^ 64 - 1)) % 2 ^ 64
    if count ≠ 0 then (true, Function.update vs v
      { vs v with count := count, underflow := (vs v).underflow || (vs v).count == 0 })
    else if fails then (false, vs)
    else (true, Function.update vs v { vs v with count := 0, mounted := false })

/-- The loop of `setupMounts`. -/
def setupMounts : List MountPoint → (Nat → LocalVolume) → Nat → LocalVolume
  | [], vs => vs
  | m :: ms, vs =>
    match m.volume with
    | none => setupMounts ms vs
    | some v => setupMounts ms (if m.tmpfs then vs else mount cfg v vs)

/-- `UnmountVolumes`, which stops at the first error. -/
def unmountVolumes (fails : Nat → Bool) :
    List MountPoint → (Nat → LocalVolume) → Nat → LocalVolume
  | [], vs => vs
  | m :: ms, vs =>
    match m.volume with
    | none => unmountVolumes fails ms vs
    | some v =>
      match unmount cfg (fails v) v vs with
      | (true, vs) => unmountVolumes fails ms vs
      | (false, vs) => vs

end

/-- Where `containerStart` fails. -/
inductive Fault where
  /-- In mounting the container itself. -/
  | mount
  /-- After that many mount points were set up. -/
  | volumes (n : Nat)
  /-- After all of them were. -/
  | create

structure Daemon where
  volumes : Nat → LocalVolume
  /-- The container has a `BaseFS`. -/
  baseFS : Nat → Bool
  /-- The containers that were started and not cleaned up since. -/
  started : List Nat

/-- An order for each of the two walks, where that of `UnmountVolumes` is empty
    if the path of a mount point cannot be found, and the unmounts that fail. -/
structure Walk where
  setup : List MountPoint
  teardown : List MountPoint
  fails : Nat → Bool

def Walk.OK (k : Walk) (ms : List MountPoint) : Prop :=
  k.setup.Perm ms ∧ (k.teardown = [] ∨ k.teardown.Perm ms)

instance (k : Walk) (ms : List MountPoint) : Decidable (k.OK ms) :=
  inferInstanceAs (Decidable (_ ∧ _))

inductive Action where
  /-- `containerStart`. -/
  | start (c : Nat) (fault : Option Fault) (k : Walk)
  /-- `Cleanup`, when the container has exited. -/
  | cleanup (c : Nat) (k : Walk)
  /-- A copy from or to the container, which sets up so many of its mount points
      before it fails. -/
  | copy (c : Nat) (setup : Option Nat) (k : Walk)

section

variable (cfg : Config)

def Daemon.setup (d : Daemon) (c : Nat) (ms : List MountPoint) : Daemon :=
  { d with volumes := setupMounts cfg ms d.volumes, baseFS := Function.update d.baseFS c true }

def Daemon.cleanup (d : Daemon) (c : Nat) (k : Walk) : Daemon :=
  { d with
    volumes := if d.baseFS c then unmountVolumes cfg k.fails k.teardown d.volumes else d.volumes
    started := d.started.erase c }

/-- One operation. -/
def step : Action → Daemon → Except Unit (Unit × Daemon)
  | .start c fault k, d =>
    if c ∈ d.started then .ok ((), d)
    else if ¬ k.OK (cfg.mountPoints c) then .error ()
    else match fault with
      | some .mount => .ok ((), d.cleanup cfg c k)
      | some (.volumes n) => .ok ((), (d.setup cfg c (k.setup.take n)).cleanup cfg c k)
      | some .create => .ok ((), (d.setup cfg c k.setup).cleanup cfg c k)
      | none => .ok ((), { d.setup cfg c k.setup with started := c :: d.started })
  | .cleanup c k, d =>
    if k.OK (cfg.mountPoints c) then .ok ((), d.cleanup cfg c k) else .error ()
  | .copy c setup k, d =>
    if ¬ k.OK (cfg.mountPoints c) then .error ()
    else
      let d := d.setup cfg c (k.setup.take (setup.getD k.setup.length))
      .ok ((), { d with volumes := unmountVolumes cfg k.fails k.teardown d.volumes })

end

/-- No container has been started. -/
def initial : Daemon := ⟨fun _ => ⟨false, 0, false⟩, fun _ => false, []⟩

end Dao.Volume
