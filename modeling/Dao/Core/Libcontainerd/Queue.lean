import Dao.Core.Text
import Dao.Lib.Run

/-!
# The Event Queue

`queue.append` starts a goroutine. It waits for the channel that `fns` had for
its id, runs its function and closes the channel that `fns` has from then on.
The goroutines of an id are listed in the order of their calls, and a channel is
the place of the goroutine that closes it.
-/

namespace Dao.EventQueue

open Function

inductive Phase where
  | waiting
  | running
  | returned
  | closed
  deriving DecidableEq

structure Goroutine where
  /-- The channel it waits for, if there was one. -/
  fn : Option Nat
  phase : Phase

structure Queue where
  fns : Str → Option Nat
  goroutines : Str → List Goroutine

def append (id : Str) (q : Queue) : Queue where
  fns := update q.fns id (some (q.goroutines id).length)
  goroutines := update q.goroutines id (q.goroutines id ++ [⟨q.fns id, .waiting⟩])

def closed (gs : List Goroutine) (channel : Nat) : Bool :=
  gs[channel]?.any (·.phase == .closed)

/-- What a goroutine does next, unless it is blocked or has ended. -/
def Goroutine.next (gs : List Goroutine) (g : Goroutine) : Option Phase :=
  match g.phase with
  | .waiting => if g.fn.all (closed gs) then some .running else none
  | .running => some .returned
  | .returned => some .closed
  | .closed => none

inductive Action where
  | append (id : Str)
  /-- A goroutine goes on. -/
  | resume (id : Str) (i : Nat)

def step : Action → Queue → Except Unit (Unit × Queue)
  | .append id, q => .ok ((), append id q)
  | .resume id i, q =>
    match (q.goroutines id)[i]? with
    | none => .error ()
    | some g =>
      match g.next (q.goroutines id) with
      | none => .error ()
      | some phase => .ok ((),
          ⟨q.fns, update q.goroutines id ((q.goroutines id).set i { g with phase := phase })⟩)

def initial : Queue := ⟨fun _ => none, fun _ => []⟩

end Dao.EventQueue
