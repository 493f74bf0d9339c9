import Dao.Lib.Run

/-!
# Following a Log

`ReadLogs` of the json-file driver with `Follow`, beside the writer that rotates
the file. Messages are numbered as they are written and files as they are made.
A file holds the messages from its first one to its last, since messages are
only appended, and a place in a file is counted in messages. What `TailFile` finds
is taken to be the last messages of the files, as many as are asked for. `Since` is
left out.
-/

namespace Dao.Logger

/-- Where the reader is: its file, and its place in it. -/
inductive Phase where
  | idle
  | opened (files : List Nat) (latest : Nat)
  | tailed (f pos : Nat)
  | sought (f pos : Nat)
  | following (f pos : Nat)
  /-- At the end of the file, in the `select`. -/
  | waiting (f pos : Nat)
  | closed
  deriving DecidableEq

/-- The place of a reader that has subscribed. -/
def Phase.place : Phase → Option (Nat × Nat)
  | .following f pos | .waiting f pos => some (f, pos)
  | _ => none

structure Log where
  maxFiles : Nat
  tail : Int
  /-- The first message of a file. -/
  start : Nat → Nat
  /-- The one after its last. -/
  stop : Nat → Nat
  /-- The file that is written, -/
  current : Nat
  /-- and the rotated ones, the newest first. -/
  rotated : List Nat
  /-- A rotation that is yet to be published. -/
  publishing : Bool
  /-- `notifyRotate` has an event. -/
  notifyRotate : Bool
  phase : Phase
  delivered : List Nat

def Log.messages (s : Log) (f : Nat) : List Nat := List.range' (s.start f) (s.stop f - s.start f)

inductive Action where
  | write
  | rotate
  | publish
  | openFiles
  | tailFile
  | seek
  | subscribe
  | decode
  /-- The choices of the `select`. -/
  | event
  | reopen
  | close

/-- One step, unless it is not enabled. -/
def step : Action → Log → Except Unit (Unit × Log)
  | .write, s =>
    if s.publishing then .error ()
    else .ok ((), { s with stop := Function.update s.stop s.current (s.stop s.current + 1) })
  | .rotate, s =>
    if s.publishing then .error ()
    else if s.maxFiles < 2 then
      -- Nothing is renamed, and the file is truncated.
      .ok ((), { s with
        start := Function.update s.start s.current (s.stop s.current), publishing := true })
    else .ok ((), { s with
      start := Function.update s.start (s.current + 1) (s.stop s.current)
      stop := Function.update s.stop (s.current + 1) (s.stop s.current)
      current := s.current + 1
      rotated := (s.current :: s.rotated).take (s.maxFiles - 1)
      publishing := true })
  | .publish, s =>
    if s.publishing then .ok ((), { s with
      publishing := false, notifyRotate := s.notifyRotate || s.phase.place.isSome })
    else .error ()
  | .openFiles, s =>
    match s.phase with
    | .idle => .ok ((), { s with phase := .opened s.rotated.reverse s.current })
    | _ => .error ()
  | .tailFile, s =>
    match s.phase with
    | .opened files f =>
      if s.tail = 0 then .ok ((), { s with phase := .tailed f 0 })
      else
        let ms := (files ++ [f]).flatMap s.messages
        .ok ((), { s with
          delivered := if s.tail < 0 then ms else ms.drop (ms.length - s.tail.toNat)
          phase := .tailed f (s.stop f - s.start f) })
    | _ => .error ()
  | .seek, s =>
    match s.phase with
    | .tailed f pos => .ok ((), { s with
        phase := .sought f (if 0 ≤ s.tail then s.stop f - s.start f else pos) })
    | _ => .error ()
  | .subscribe, s =>
    match s.phase with
    | .sought f pos => .ok ((), { s with phase := .following f pos })
    | _ => .error ()
  | .decode, s =>
    match s.phase with
    | .following f pos =>
      if s.start f + pos < s.stop f then .ok ((), { s with
        delivered := s.delivered ++ [s.start f + pos], phase := .following f (pos + 1) })
      else .ok ((), { s with phase := .waiting f pos })
    | _ => .error ()
  | .event, s =>
    match s.phase with
    | .waiting f pos => .ok ((), { s with phase := .following f pos })
    | _ => .error ()
  | .reopen, s =>
    match s.phase with
    | .waiting _ _ =>
      if s.notifyRotate then
        .ok ((), { s with notifyRotate := false, phase := .following s.current 0 })
      else .error ()
    | _ => .error ()
  | .close, s =>
    match s.phase with
    | .waiting _ _ => .ok ((), { s with phase := .closed })
    | _ => .error ()

/-- An empty log, and a reader that is about to open it. -/
def initial (maxFiles : Nat) (tail : Int) : Log :=
  ⟨maxFiles, tail, fun _ => 0, fun _ => 0, 0, [], false, false, .idle, []⟩

end Dao.Logger
