import Dao.Core.Text

/-!
# Several Readers as One

`MultiReadSeeker`: a `ReadSeeker` over the contents of several, one after the
other.

The readers are readers in memory, and no two of a list are the same one, so
that the map `posIdx` gives each its index. Positions are integers without a
bound; those that the code computes from positions within the data are far from
the bounds of an `int64`.
-/

namespace Dao.MultiReader

inductive Whence where
  | set
  | cur
  | end_
  deriving DecidableEq

/-- A `bytes.Reader`. -/
structure Reader where
  content : Bytes
  pos : Nat
  deriving DecidableEq

/-- `Seek` of a `bytes.Reader`. -/
def Reader.seek (offset : Int) (whence : Whence) (r : Reader) : Except Str Int × Reader :=
  let base : Int := match whence with
    | .set => 0
    | .cur => r.pos
    | .end_ => r.content.length
  if base + offset < 0 then (.error "bytes: negative position".toList, r)
  else (.ok (base + offset), { r with pos := (base + offset).toNat })

/-- `Read` of a `bytes.Reader` into a slice of the length: the bytes, and whether
    it is at the end. -/
def Reader.read (len : Nat) (r : Reader) : Bytes × Bool × Reader :=
  let data := (r.content.drop r.pos).take len
  (data, decide (data = [] ∧ 0 < len), { r with pos := r.pos + data.length })

structure Pos where
  idx : Nat
  offset : Int
  deriving DecidableEq

/-- A `multiReadSeeker`. -/
structure Multi where
  readers : List Reader
  pos : Option Pos
  deriving DecidableEq

/-- What the methods of `multiReadSeeker` panic with. -/
inductive Panic where
  | nilReader
  | indexOutOfRange
  deriving DecidableEq

/-- `getReadSeekerSize`. It puts the position back. -/
def getReadSeekerSize (r : Reader) : Int := r.content.length

/-- The error at the end of `Seek`. -/
def errSeeking (whence : Whence) (offset : Int) : Str :=
  let w := match whence with
    | .set => "0"
    | .cur => "1"
    | .end_ => "2"
  "Error seeking for whence: ".toList ++ w.toList ++ ", offset: ".toList ++ (toString offset).toList

/-- What `Seek` returns, the readers then, and the new position. -/
structure Sought where
  result : Except Str Int
  readers : List Reader
  pos : Option Pos

/-- The loop of `Seek` for `SEEK_SET`, from the reader with this index on. -/
def seekSet (offset : Int) : Nat → Int → List Reader → Sought
  | _, _, [] => ⟨.error (errSeeking .set offset), [], none⟩
  | i, tmpOffset, rdr :: rest =>
    match rdr.seek 0 .end_ with
    | (.error e, rdr) => ⟨.error e, rdr :: rest, none⟩
    | (.ok s, rdr) =>
      if offset > tmpOffset + s then
        if rest = [] then
          let rdrOffset := s + (offset - tmpOffset)
          match rdr.seek rdrOffset .set with
          | (.error e, rdr) => ⟨.error e, [rdr], none⟩
          | (.ok _, rdr) => ⟨.ok offset, [rdr], some ⟨i, rdrOffset⟩⟩
        else
          let sought := seekSet offset (i + 1) (tmpOffset + s) rest
          { sought with readers := rdr :: sought.readers }
      else
        let rdrOffset := offset - tmpOffset
        ⟨.ok offset,
          (rdr.seek rdrOffset .set).2 :: rest.map (fun r => (r.seek 0 .set).2),
          some (if rdrOffset = s ∧ rest ≠ [] then ⟨i + 1, 0⟩ else ⟨i, rdrOffset⟩)⟩

/-- Put the readers and the position where a seek has left them. -/
def Multi.sought (m : Multi) (x : Sought) : Multi :=
  ⟨x.readers, match x.pos with
    | none => m.pos
    | some p => some p⟩

/-- The sum of the sizes. -/
def total (rs : List Reader) : Int := (rs.map getReadSeekerSize).sum

def getCurOffset (readers : List Reader) (pos : Pos) : Int :=
  total (readers.take pos.idx) + pos.offset

/-- `getOffsetToReader`, for the reader with the index: for each reader before it
    the code adds the size of the reader itself. -/
def getOffsetToReader (i : Nat) (rdr : Reader) : Int := i * getReadSeekerSize rdr

/-- `getReaderForOffset`. The variable of the loop hides the one that is
    returned, so the reader is always nil and only the offset is returned. -/
def getReaderForOffset (offset : Int) : Nat → List Reader → Except Panic Int
  | _, [] => .ok 0
  | i, rdr :: rest =>
    let offsetTo := getOffsetToReader i rdr
    if offsetTo > offset then
      if i = 0 then .error .indexOutOfRange else .ok (offsetTo - offset)
    else if rest = [] then .ok (offsetTo + offset)
    else getReaderForOffset offset (i + 1) rest

/-- `Seek` of a `multiReadSeeker`. -/
def Multi.seek (offset : Int) (whence : Whence) (m : Multi) :
    Except Panic (Except Str Int × Multi) :=
  match whence with
  | .set =>
    let x := seekSet offset 0 0 m.readers
    .ok (x.result, m.sought x)
  | .end_ =>
    let tmpOffset := total m.readers
    let readers := m.readers.map (fun r => (r.seek 0 .end_).2)
    .ok (.ok (tmpOffset + offset), m.sought (seekSet (tmpOffset + offset) 0 0 readers))
  | .cur =>
    match m.pos with
    | none =>
      let x := seekSet offset 0 0 m.readers
      .ok (x.result, m.sought x)
    | some pos =>
      let curOffset := getCurOffset m.readers pos
      if offset = 0 then .ok (.ok curOffset, m)
      else
        match getReaderForOffset (curOffset + offset) 0 m.readers with
        | .error p => .error p
        -- The index of the nil reader is the zero value.
        | .ok rdrOffset =>
          .ok (.ok (curOffset + offset), { m with pos := some ⟨0, rdrOffset⟩ })

/-- The loop of `Read`: the bytes, the readers then, and how many of them it has
    gone past. -/
def readLoop : Nat → List Reader → Bytes × List Reader × Nat
  | _, [] => ([], [], 0)
  | bCap, rdr :: rest =>
    let (data, _, rdr) := rdr.read bCap
    if bCap - data.length = 0 ∨ rest = [] then (data, rdr :: rest, 0)
    else
      let (more, rest, k) := readLoop (bCap - data.length) rest
      (data ++ more, rdr :: rest, k + 1)

/-- `Read` of a `multiReadSeeker`, into a slice of the length and the capacity. -/
def Multi.read (len cap : Nat) (m : Multi) : Except Panic ((Bytes × Bool) × Multi) :=
  let pos := m.pos.getD ⟨0, 0⟩
  match m.readers.drop pos.idx with
  | [] => .error .nilReader
  | rs =>
    let (buf, rs, k) := readLoop cap rs
    let readers := m.readers.take pos.idx ++ rs
    let rdrPos : Int := match readers[pos.idx + k]? with
      | none => 0
      | some rdr => rdr.pos
    .ok ((buf.take len, decide (buf = [] ∧ 0 < len)), ⟨readers, some ⟨pos.idx + k, rdrPos⟩⟩)

/-- What `MultiReadSeeker` returns. -/
inductive ReadSeeker where
  | single (r : Reader)
  | multi (m : Multi)
  deriving DecidableEq

/-- `MultiReadSeeker`, over new readers of the contents. -/
def multiReadSeeker (contents : List Bytes) : ReadSeeker :=
  match contents with
  | [content] => .single ⟨content, 0⟩
  | _ => .multi ⟨contents.map (fun content => ⟨content, 0⟩), none⟩

inductive Op where
  | seek (offset : Int) (whence : Whence)
  | read (len cap : Nat)
  deriving DecidableEq

/-- What a call returns. -/
inductive Res where
  | at_ (n : Int)
  | failed (e : Str)
  | data (bs : Bytes) (eof : Bool)
  deriving DecidableEq

def Res.ofSeek : Except Str Int → Res
  | .ok n => .at_ n
  | .error e => .failed e

def step : Op → ReadSeeker → Except Panic (Res × ReadSeeker)
  | .seek offset whence, .single r =>
    .ok (.ofSeek (r.seek offset whence).1, .single (r.seek offset whence).2)
  | .read len _, .single r =>
    .ok (.data (r.read len).1 (r.read len).2.1, .single (r.read len).2.2)
  | .seek offset whence, .multi m =>
    match m.seek offset whence with
    | .error p => .error p
    | .ok (res, m) => .ok (.ofSeek res, .multi m)
  | .read len cap, .multi m =>
    match m.read len cap with
    | .error p => .error p
    | .ok ((bs, eof), m) => .ok (.data bs eof, .multi m)

end Dao.MultiReader
