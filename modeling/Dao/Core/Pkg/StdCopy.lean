import Dao.Core.Text

/-!
# Multiplexed Streams

`stdcopy`: writers that put several streams into one, and `StdCopy`, which
takes them apart again.

A reader is what is left to read together with a script that says how much
each of the next calls of `Read` returns. After the script a call returns as
much as there is room for. The end of the data comes with the last bytes or
after them, and is `io.EOF` or some other error. A writer takes everything, or
it has room for so many bytes and then reports an error or only a short count.

The buffer of `StdCopy` is modelled with its length and with what stands in it
beyond the bytes that have been read, since the code shifts it as a whole.
-/

namespace Dao.StdCopy

inductive StdType where
  | stdin
  | stdout
  | stderr
  deriving DecidableEq

/-- `byte(t)`. -/
def StdType.byte : StdType → UInt8
  | stdin => 0
  | stdout => 1
  | stderr => 2

/-- `StdType(b)`, for the values the `switch` of `StdCopy` knows. -/
def StdType.ofByte (b : UInt8) : Option StdType :=
  if b = 0 then some .stdin else if b = 1 then some .stdout else if b = 2 then some .stderr
    else none

def stdWriterPrefixLen : Nat := 8

def startingBufLen : Nat := 32 * 1024 + stdWriterPrefixLen + 1

def putUint32 (n : Nat) : Bytes :=
  [UInt8.ofNat (n / 2 ^ 24), UInt8.ofNat (n / 2 ^ 16), UInt8.ofNat (n / 2 ^ 8), UInt8.ofNat n]

def uint32 (b : Bytes) : Nat := b.foldl (fun n x => n * 2 ^ 8 + x.toNat) 0

/-- An `io.Writer`: what it got, and how much more it takes before it fails
    with the error or, without one, only reports a short count. -/
structure Writer where
  got : Bytes
  room : Option Nat
  err : Option Str

def Writer.write (p : Bytes) (w : Writer) : Nat × Option Str × Writer :=
  match w.room with
  | none => (p.length, none, { w with got := w.got ++ p })
  | some k =>
    if p.length ≤ k then (p.length, none, { w with got := w.got ++ p, room := some (k - p.length) })
    else (k, w.err, { w with got := w.got ++ p.take k, room := some 0 })

/-- `Write` of a `stdWriter` of the stream, over a writer that may be nil. The
    slice may be nil too. -/
def stdWriterWrite (t : StdType) (p : Option Bytes) (w : Option Writer) :
    Nat × Option Str × Option Writer :=
  match w, p with
  | none, _ => (0, some "Writer not instantiated".toList, none)
  | some w, none => (0, none, some w)
  | some w, some p =>
    let header := [t.byte, 0, 0, 0] ++ putUint32 (p.length % 2 ^ 32)
    let (n, err, w') := w.write (header ++ p)
    (n - stdWriterPrefixLen, err, some w')

/-- Writes through writers of any of the streams over one writer. -/
def writeAll : List (StdType × Option Bytes) → Option Writer → Option Writer
  | [], w => w
  | (t, p) :: ws, w => writeAll ws (stdWriterWrite t p w).2.2

inductive ReadErr where
  | eof
  | failed (e : Str)
  deriving DecidableEq

/-- An `io.Reader`: what is left, how much the next calls return, and how it
    ends, with the last bytes or after them. -/
structure Source where
  rest : Bytes
  sizes : List Nat
  ending : ReadErr
  withLast : Bool

/-- `Read` into a slice of length `k`. -/
def Source.read (k : Nat) (src : Source) : Bytes × Option ReadErr × Source :=
  if src.rest = [] then ([], some src.ending, src)
  else
    let n := min (src.sizes.headD k) k
    let src' := { src with rest := src.rest.drop n, sizes := src.sizes.tail }
    (src.rest.take n, if src'.rest = [] ∧ src.withLast = true then some src.ending else none, src')

/-- The variables of `StdCopy`. -/
structure State where
  buf : Bytes
  bufLen : Nat
  nr : Nat
  written : Int64
  src : Source
  dstout : Writer
  dsterr : Writer

/-- How a loop that reads ends: there are enough bytes, or the data ended
    before, or reading failed. -/
inductive Filled where
  | full (st : State)
  | ended (st : State)
  | failed (e : Str) (st : State)

/-- `src.Read(buf[nr:])`. -/
def State.read (st : State) : Option ReadErr × State :=
  let (bs, er, src) := st.src.read (st.buf.length - st.nr)
  (er, { st with
    buf := st.buf.take st.nr ++ bs ++ st.buf.drop (st.nr + bs.length)
    nr := st.nr + bs.length
    src := src })

/-- Read until there are `need` bytes. The fuel bounds the number of rounds. -/
def fill (need : Nat) : Nat → State → Option Filled
  | 0, _ => none
  | fuel + 1, st =>
    if st.nr < need then
      match st.read with
      | (some .eof, st') => if st'.nr < need then some (.ended st') else some (.full st')
      | (some (.failed e), st') => some (.failed e st')
      | (none, st') => fill need fuel st'
    else some (.full st)

/-- Fuel for a loop that reads: each round uses up an entry of the script or
    some of the data. -/
def State.fuel (st : State) : Nat := st.src.sizes.length + st.src.rest.length + 2

inductive Err where
  | unrecognizedHeader (b : UInt8)
  | read (e : Str)
  | write (e : Str)
  | shortWrite
  deriving DecidableEq

/-- What `StdCopy` returns, and what the writers got. -/
structure Result where
  written : Int64
  err : Option Err
  dstout : Writer
  dsterr : Writer

def State.return_ (st : State) (written : Int64) (err : Option Err) : Result :=
  ⟨written, err, st.dstout, st.dsterr⟩

/-- `out.Write`, to the writer of the stream. -/
def State.write (t : StdType) (p : Bytes) (st : State) : Nat × Option Str × State :=
  match t with
  | .stderr =>
    let (n, e, w) := st.dsterr.write p
    (n, e, { st with dsterr := w })
  | _ =>
    let (n, e, w) := st.dstout.write p
    (n, e, { st with dstout := w })

/-- Make the buffer long enough for a frame. -/
def State.extend (frameSize : Nat) (st : State) : State :=
  if frameSize + stdWriterPrefixLen > st.bufLen then
    let buf := st.buf ++ List.replicate (frameSize + stdWriterPrefixLen - st.bufLen + 1) 0
    { st with buf := buf, bufLen := buf.length }
  else st

/-- Move the rest of the buffer to the beginning. -/
def State.shift (frameSize : Nat) (st : State) : State :=
  let k := frameSize + stdWriterPrefixLen
  { st with buf := st.buf.drop k ++ st.buf.drop (st.buf.length - k), nr := st.nr - k }

/-- The loop of `StdCopy`. The fuel bounds the number of frames. -/
def copyLoop : Nat → State → Option Result
  | 0, _ => none
  | fuel + 1, st =>
    match fill stdWriterPrefixLen st.fuel st with
    | none => none
    | some (.ended st) => some (st.return_ st.written none)
    | some (.failed e st) => some (st.return_ 0 (some (.read e)))
    | some (.full st) =>
      match StdType.ofByte (st.buf.headD 0) with
      | none => some (st.return_ 0 (some (.unrecognizedHeader (st.buf.headD 0))))
      | some t =>
        let frameSize := uint32 ((st.buf.drop 4).take 4)
        let st := st.extend frameSize
        match fill (frameSize + stdWriterPrefixLen) st.fuel st with
        | none => none
        | some (.ended st) => some (st.return_ st.written none)
        | some (.failed e st) => some (st.return_ 0 (some (.read e)))
        | some (.full st) =>
          match st.write t ((st.buf.drop stdWriterPrefixLen).take frameSize) with
          | (_, some e, st) => some (st.return_ 0 (some (.write e)))
          | (nw, none, st) =>
            if nw ≠ frameSize then some (st.return_ 0 (some .shortWrite))
            else copyLoop fuel
              ({ st with written := st.written + Int64.ofNat nw }.shift frameSize)

/-- `StdCopy`. A frame takes a byte at least, so there are not more of them than
    bytes. -/
def stdCopy (dstout dsterr : Writer) (src : Source) : Option Result :=
  copyLoop (src.rest.length + 1)
    ⟨List.replicate startingBufLen 0, startingBufLen, 0, 0, src, dstout, dsterr⟩

end Dao.StdCopy
