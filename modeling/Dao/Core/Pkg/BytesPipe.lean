import Dao.Core.Text

/-!
# A Pipe of Bytes

`BytesPipe`: writers put bytes into a list of buffers of growing capacity, and
readers take them out.

The pipe is a machine whose steps are its critical sections. A call begins with
the lock taken and runs until it returns or waits on the condition variable; a
call that waits goes on after a broadcast, with the lock taken again. Any number
of calls may be under way, and the list of actions says in which order they get
the lock.

A buffer that comes from a pool holds what was written into it before. Which
buffers the pools hand out is not the pipe's choice, so an action brings along
the old contents of the buffers that its critical section gets.
-/

namespace Dao.BytesPipe

def maxCap : Nat := 1000000

def minCap : Nat := 64

def blockThreshold : Nat := 1000000

inductive Err where
  | closed
  | bufferFull
  | shortWrite
  | eof
  | other (e : Str)
  deriving DecidableEq

/-- A `fixedBuffer`: the array, up to its capacity, and the two cursors. -/
structure FixedBuffer where
  buf : Bytes
  pos : Nat
  lastRead : Nat
  lastRead_le : lastRead ≤ pos
  pos_le : pos ≤ buf.length

namespace FixedBuffer

def cap (b : FixedBuffer) : Nat := b.buf.length

def len (b : FixedBuffer) : Nat := b.pos - b.lastRead

/-- The number of bytes that `Write` copies. -/
def room (b : FixedBuffer) (p : Bytes) : Nat := min p.length (b.cap - b.pos)

theorem room_le (b : FixedBuffer) (p : Bytes) : b.pos + b.room p ≤ b.buf.length := by
  have hpos := b.pos_le
  simp only [room, cap]
  omega

/-- The buffer after `Write`. -/
def put (b : FixedBuffer) (p : Bytes) : FixedBuffer where
  buf := b.buf.take b.pos ++ p.take (b.room p) ++ b.buf.drop (b.pos + b.room p)
  pos := b.pos + b.room p
  lastRead := b.lastRead
  lastRead_le := Nat.le_add_right_of_le b.lastRead_le
  pos_le := by
    have hroom := b.room_le p
    have hle : b.room p ≤ p.length := Nat.min_le_left _ _
    simp only [List.length_append, List.length_take, List.length_drop]
    omega

def write (b : FixedBuffer) (p : Bytes) : Nat × Option Err × FixedBuffer :=
  let n := b.room p
  (n, if n < p.length then some (if (b.put p).pos = (b.put p).cap then .bufferFull else .shortWrite)
    else none, b.put p)

/-- `Read` into a slice of the length: the bytes, and the buffer after. -/
def read (b : FixedBuffer) (n : Nat) : Bytes × FixedBuffer :=
  (((b.buf.take b.pos).drop b.lastRead).take n,
    { b with
      lastRead := b.lastRead + min n b.len
      lastRead_le := by
        have hle := b.lastRead_le
        simp only [len]
        omega })

end FixedBuffer

/-- `getBuffer`: a buffer of the size, new or with what was in it before. -/
def getBuffer (size : Nat) (old : Option Bytes) : FixedBuffer where
  buf := ((old.getD []) ++ List.replicate size 0).take size
  pos := 0
  lastRead := 0
  lastRead_le := Nat.le_refl 0
  pos_le := Nat.zero_le _

/-- The fields of a `BytesPipe`. -/
structure Pipe where
  buf : List FixedBuffer
  bufLen : Int
  closeErr : Option Err

/-- The last buffer and those before it. There is always one to write to. -/
def Pipe.last (pipe : Pipe) (gets : List (Option Bytes)) :
    List FixedBuffer × FixedBuffer × List (Option Bytes) :=
  match pipe.buf.getLast? with
  | none => ([], getBuffer 64 gets.head?.join, gets.tail)
  | some b => (pipe.buf.dropLast, b, gets)

/-- How a critical section of `Write` ends: the call returns, or it waits with the
    rest of its bytes and the capacity of the buffer it wrote to last. -/
inductive Wrote where
  | returned (written : Nat) (err : Option Err) (broadcast : Bool)
  | blocked (p : Bytes) (written : Nat) (bcap : Nat)

def nextCap (bcap : Nat) : Nat := if bcap * 2 > maxCap then maxCap else bcap * 2

/-- The loop of `Write`. The fuel bounds the number of rounds; besides, it returns
    the bytes that the pipe has accepted. -/
def writeLoop : Nat → List (Option Bytes) → Bytes → Nat → Pipe → Option (Wrote × Bytes × Pipe)
  | 0, _, _, _, _ => none
  | fuel + 1, gets, p, written, pipe =>
    if pipe.closeErr.isSome then some (.returned written (some .closed) false, [], pipe)
    else
      let (front, b, gets) := pipe.last gets
      let (n, err, b') := b.write p
      let pipe := { pipe with buf := front ++ [b'], bufLen := pipe.bufLen + n }
      if err.isSome ∧ err ≠ some .bufferFull then
        some (.returned (written + n) err true, p.take n, pipe)
      else if p.length = n then some (.returned (written + n) none true, p.take n, pipe)
      else if pipe.bufLen ≥ blockThreshold then
        some (.blocked (p.drop n) (written + n) b'.cap, p.take n, pipe)
      else
        match writeLoop fuel gets.tail (p.drop n) (written + n)
            { pipe with buf := pipe.buf ++ [getBuffer (nextCap b'.cap) gets.head?.join] } with
        | none => none
        | some (w, more, pipe) => some (w, p.take n ++ more, pipe)

/-- Fuel for a critical section of `Write`: after the first round, each writes a
    byte at least. -/
def writeFuel (p : Bytes) : Nat := p.length + 2

/-- `Write` after its wait. -/
def writeWoken (gets : List (Option Bytes)) (p : Bytes) (written bcap : Nat) (pipe : Pipe) :
    Option (Wrote × Bytes × Pipe) :=
  if pipe.closeErr.isSome then writeLoop (writeFuel p) gets p written pipe
  else if pipe.bufLen ≥ blockThreshold then some (.blocked p written bcap, [], pipe)
  else writeLoop (writeFuel p) gets.tail p written
    { pipe with buf := pipe.buf ++ [getBuffer (nextCap bcap) gets.head?.join] }

/-- The loop of `Read`. It panics with a length that the buffers do not have. -/
def readLoop : Nat → Nat → Pipe → Option (Bytes × Pipe)
  | 0, _, _ => none
  | fuel + 1, len, pipe =>
    if pipe.bufLen > 0 then
      match pipe.buf with
      | [] => none
      | b :: rest =>
        let (data, b') := b.read len
        let pipe := { pipe with
          buf := if b'.len = 0 then rest else b' :: rest
          bufLen := pipe.bufLen - data.length }
        if len = data.length then some (data, pipe)
        else
          match readLoop fuel (len - data.length) pipe with
          | none => none
          | some (more, pipe) => some (data ++ more, pipe)
    else some ([], pipe)

/-! ### The calls -/

/-- A call that waits on the condition variable. -/
inductive Waiter where
  | write (p : Bytes) (written : Nat) (bcap : Nat)
  | read (len : Nat)

/-- The pipe, and the calls that wait, each with whether a broadcast has woken
    it. -/
structure Sys where
  pipe : Pipe
  calls : Nat → Option (Waiter × Bool)

inductive Action where
  | write (call : Nat) (p : Bytes) (gets : List (Option Bytes))
  | read (call : Nat) (len : Nat)
  | resume (call : Nat) (gets : List (Option Bytes))
  | closeWithError (err : Option Err)

/-- What a call returns. -/
inductive Response where
  | wrote (n : Nat) (err : Option Err)
  | read (data : Bytes) (err : Option Err)
  | closed
  deriving DecidableEq

/-- What a critical section does: the bytes the pipe accepts, and what the call
    returns unless it waits. -/
structure Event where
  accepted : Bytes
  response : Option Response

/-- The bytes a read returns. -/
def Event.returned (e : Event) : Bytes :=
  match e.response with
  | some (.read data _) => data
  | _ => []

inductive Fault where
  | disabled
  | panic
  deriving DecidableEq

def setCall (call : Nat) (w : Option (Waiter × Bool)) (calls : Nat → Option (Waiter × Bool)) :
    Nat → Option (Waiter × Bool) :=
  fun c => if c = call then w else calls c

def broadcast (calls : Nat → Option (Waiter × Bool)) : Nat → Option (Waiter × Bool) :=
  fun c => (calls c).map (fun w => (w.1, true))

/-- The end of a critical section of `Write`. -/
def Sys.wrote (s : Sys) (call : Nat) : Option (Wrote × Bytes × Pipe) → Except Fault (Event × Sys)
  | none => .error .panic
  | some (.returned n err wake, accepted, pipe) =>
    let calls := setCall call none s.calls
    .ok (⟨accepted, some (.wrote n err)⟩, ⟨pipe, if wake then broadcast calls else calls⟩)
  | some (.blocked p n bcap, accepted, pipe) =>
    .ok (⟨accepted, none⟩, ⟨pipe, setCall call (some (.write p n bcap, false)) s.calls⟩)

/-- `Read` once it does not wait: the loop, and the broadcast. -/
def Sys.reads (s : Sys) (call len : Nat) : Except Fault (Event × Sys) :=
  match readLoop (s.pipe.buf.length + 1) len s.pipe with
  | none => .error .panic
  | some (data, pipe) =>
    .ok (⟨[], some (.read data none)⟩, ⟨pipe, broadcast (setCall call none s.calls)⟩)

/-- A critical section. -/
def step : Action → Sys → Except Fault (Event × Sys)
  | .write call p gets, s =>
    match s.calls call with
    | some _ => .error .disabled
    | none => s.wrote call (writeLoop (writeFuel p) gets p 0 s.pipe)
  | .read call len, s =>
    match s.calls call with
    | some _ => .error .disabled
    | none =>
      if s.pipe.bufLen = 0 then
        match s.pipe.closeErr with
        | some e => .ok (⟨[], some (.read [] (some e))⟩, s)
        | none => .ok (⟨[], none⟩, ⟨s.pipe, setCall call (some (.read len, false)) s.calls⟩)
      else s.reads call len
  | .resume call gets, s =>
    match s.calls call with
    | some (.write p written bcap, true) => s.wrote call (writeWoken gets p written bcap s.pipe)
    | some (.read len, true) =>
      match s.pipe.closeErr with
      | some e =>
        if s.pipe.bufLen = 0 then
          .ok (⟨[], some (.read [] (some e))⟩, ⟨s.pipe, setCall call none s.calls⟩)
        else s.reads call len
      | none => s.reads call len
    | _ => .error .disabled
  | .closeWithError err, s =>
    .ok (⟨[], some .closed⟩,
      ⟨{ s.pipe with closeErr := some (err.getD .eof) }, broadcast s.calls⟩)

def newBytesPipe (old : Option Bytes) : Sys := ⟨⟨[getBuffer minCap old], 0, none⟩, fun _ => none⟩

end Dao.BytesPipe
