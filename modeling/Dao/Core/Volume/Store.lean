import Dao.Lib.Run

/-!
# The Volume Store

The calls of `VolumeStore` on one volume name, with drivers and references as
numbers and no number for an empty string. Each call takes the lock of the name,
and calls on other names neither take it nor touch what is kept here. Labels and
the database only make a call fail.
-/

namespace Dao.VolumeStore

inductive Call where
  /-- `CreateWithRef`, and `Create` without a reference. No driver stands for the
      default one too. -/
  | create (driver ref : Option Nat)
  | getWithRef (driver : Nat) (ref : Option Nat)
  | get
  | remove (driver : Nat)
  | dereference (ref : Nat)

/-- Where a call is. -/
inductive Phase where
  | idle
  | locked (call : Call)
  /-- About to name the volume. -/
  | found (driver : Nat) (ref : Option Nat)
  /-- The driver has removed the volume, and `purge` comes next. -/
  | removed
  | finished

structure Store where
  names : Option Nat
  refs : List Nat
  /-- The drivers that know the volume. -/
  known : Nat → Bool
  /-- Who has the lock. -/
  holder : Option Nat
  phase : Nat → Phase
  /-- The references that were added and not dereferenced since, with the driver
      of the volume that the caller got. -/
  added : List (Nat × Nat)

/-- What the driver, or the database, comes to. A local driver forgets a volume before
    the last removal of a path, which may fail. -/
inductive Outcome where
  | ok
  | fails (forgets : Bool)
  deriving DecidableEq

inductive Action where
  | lock (t : Nat) (call : Call)
  /-- The call looks at the store and asks the driver: which one answers, if any,
      and with which outcome. -/
  | ask (t : Nat) (driver : Option Nat) (outcome : Outcome)
  /-- `setNamed` or `purge`. -/
  | commit (t : Nat)
  | unlock (t : Nat)

/-- A driver that removes the volume, and the references there are. -/
inductive Result where
  | nothing
  | removed (added : List (Nat × Nat))

def Store.goto (s : Store) (t : Nat) (p : Phase) : Store :=
  { s with phase := Function.update s.phase t p }

/-- The part of a call between the lock and the maps. -/
def ask (t : Nat) (driver : Option Nat) (outcome : Outcome) (s : Store) : Call → Result × Store
  | .create d ref =>
    match s.names, driver with
    | some v, _ => (.nothing, s.goto t (if d.getD v = v then .found v ref else .finished))
    | none, some v =>
      if d.getD v ≠ v then (.nothing, s.goto t .finished)
      else
        -- The driver has the volume or creates it.
        let s := { s with known := Function.update s.known v true }
        (.nothing, s.goto t (if outcome = .ok then .found v ref else .finished))
    | none, none => (.nothing, s.goto t .finished)
  | .getWithRef d ref =>
    (.nothing, s.goto t (if outcome = .ok ∧ s.known d then .found d ref else .finished))
  | .get =>
    match s.names.or driver with
    | some v =>
      (.nothing, s.goto t (if outcome = .ok ∧ s.known v then .found v none else .finished))
    | none => (.nothing, s.goto t .finished)
  | .remove d =>
    if s.refs ≠ [] then (.nothing, s.goto t .finished)
    else
      let forgotten := { s with known := Function.update s.known d false }
      match outcome with
      | .ok => (.removed s.added, forgotten.goto t .removed)
      | .fails forgets => (.nothing, (if forgets then forgotten else s).goto t .finished)
  | .dereference ref => (.nothing, { s with
      refs := s.refs.filter (· ≠ ref), added := s.added.filter (·.1 ≠ ref) }.goto t .finished)

/-- One step, unless it is not enabled. -/
def step : Action → Store → Except Unit (Result × Store)
  | .lock t call, s =>
    match s.holder, s.phase t with
    | none, .idle => .ok (.nothing, { s with holder := some t }.goto t (.locked call))
    | _, _ => .error ()
  | .ask t driver outcome, s =>
    match s.phase t with
    | .locked call => .ok (ask t driver outcome s call)
    | _ => .error ()
  | .commit t, s =>
    match s.phase t with
    | .found v ref => .ok (.nothing, { s with
        names := some v, refs := s.refs ++ ref.toList,
        added := s.added ++ ref.toList.map (·, v) }.goto t .finished)
    | .removed => .ok (.nothing, { s with names := none, refs := [] }.goto t .finished)
    | _ => .error ()
  | .unlock t, s =>
    match s.phase t with
    | .finished => .ok (.nothing, { s with holder := none }.goto t .idle)
    | _ => .error ()

/-- Nothing is named, and the drivers know what they know. -/
def newStore (known : Nat → Bool) : Store := ⟨none, [], known, none, fun _ => .idle, []⟩

end Dao.VolumeStore
