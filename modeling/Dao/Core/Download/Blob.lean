import Dao.Core.Digest
import Dao.Lib.Run

/-!
# Downloading a Blob

`v2LayerDescriptor.Download`, and what the descriptor keeps from one call to
the next: the temporary file with the bytes that have come in, and the
verifier those bytes were fed to. A call that fails leaves both where they
are, so that the next one resumes at the end of the file, or it truncates the
file and drops the verifier.

A verifier is a running hash, so it is the bytes it was fed. The digest of an
algorithm is a parameter.

What the server and the disk do is an argument of the call: which operations
fail, and for every read of the body what came in and how much of it the disk
took. `io.Copy` reads through a `TeeReader`, so the verifier has seen the bytes
of a read before they are written.
-/

namespace Dao.PullV2

/-- A file that is open for writing. -/
structure TmpFile where
  content : Bytes
  pos : Nat
  deriving DecidableEq

/-- A new file. -/
def TmpFile.new : TmpFile := ⟨[], 0⟩

/-- Write at the position of the file. -/
def TmpFile.write (f : TmpFile) (p : Bytes) : TmpFile :=
  ⟨f.content.take f.pos ++ p ++ f.content.drop (f.pos + p.length), f.pos + p.length⟩

/-- The fields of a `v2LayerDescriptor` that change. -/
structure Descriptor where
  tmpFile : Option TmpFile
  verifier : Option Bytes
  deriving DecidableEq

/-- A new descriptor. -/
def Descriptor.new : Descriptor := ⟨none, none⟩

/-- How truncating the file goes. -/
inductive Truncation where
  | done
  | seekFails
  | truncateFails
  deriving DecidableEq

/-- How opening the blob goes. `retryOnError` says of an error whether to try
    again. -/
inductive Opening where
  | opened
  | blobUnknown
  | fails (retry : Bool)
  deriving DecidableEq

/-- One round of `io.Copy`: what was read, and how much of it was written. -/
structure Read where
  data : Bytes
  written : Nat
  writeFails : Bool
  deriving DecidableEq

/-- How the body ends. -/
inductive Ending where
  | eof
  /-- `ErrWrongCodeForByteRange`. -/
  | wrongCode
  | fails (retry : Bool)
  deriving DecidableEq

/-- What the server and the disk do during a call. `retryWrite` is what
    `retryOnError` says of an error of a write. -/
structure Attempt where
  creates : Bool
  seeksEnd : Bool
  opening : Opening
  seeksOffset : Bool
  /-- The answer to seeking to the end of the blob, if there is one. -/
  size : Option Nat
  seeksBack : Bool
  truncation : Truncation
  secondTruncation : Truncation
  reads : List Read
  ending : Ending
  retryWrite : Bool
  rewinds : Bool
  deriving DecidableEq

/-- What a call returns: the content of the file that is handed over and the
    size, or an error. -/
inductive Outcome where
  | reader (content : Bytes) (size : Nat)
  | doNotRetry
  | error
  deriving DecidableEq

/-- An error, as `retryOnError` returns it. -/
def retryOnError (retry : Bool) : Outcome := if retry then .error else .doNotRetry

/-- `truncateDownloadFile`, on a descriptor that has a file, with whether it
    succeeds. -/
def truncateDownloadFile (t : Truncation) (f : TmpFile) (ld : Descriptor) : Bool × Descriptor :=
  match t with
  | .done => (true, { ld with tmpFile := some ⟨[], 0⟩, verifier := none })
  | .seekFails => (false, { ld with verifier := none })
  | .truncateFails => (false, { ld with tmpFile := some { f with pos := 0 }, verifier := none })

/-- Truncating the file before an error is returned. -/
def truncated (t : Truncation) (f : TmpFile) (ld : Descriptor) : Outcome × Descriptor :=
  match truncateDownloadFile t f ld with
  | (true, ld) => (.error, ld)
  | (false, ld) => (.doNotRetry, ld)

/-- The file of the call, and where in the blob it starts. -/
def startFile (a : Attempt) (ld : Descriptor) : Option (TmpFile × Nat) :=
  match ld.tmpFile with
  | none => if a.creates then some (.new, 0) else none
  | some f =>
    if a.seeksEnd then some ({ f with pos := f.content.length }, f.content.length)
    else if a.creates then some (.new, 0) else none

/-- The loop of `io.Copy` from the server through the verifier into the file,
    with whether every read was written. -/
def copyBlob : List Read → TmpFile → Bytes → Bool × TmpFile × Bytes
  | [], f, fed => (true, f, fed)
  | r :: rs, f, fed =>
    let f' := f.write (r.data.take r.written)
    if r.writeFails ∨ r.written < r.data.length then (false, f', fed ++ r.data)
    else copyBlob rs f' (fed ++ r.data)

/-- `Download` after the copy: the check of the digest. -/
def finish (digestOf : Str → Bytes → Digest) (digest : Digest) (a : Attempt) (offset size : Nat)
    (f : TmpFile) (fed : Bytes) : Outcome × Descriptor :=
  if digestOf ((Digest.algorithm digest).getD []) fed ≠ digest then
    if offset ≠ 0 then truncated a.secondTruncation f ⟨some f, some fed⟩
    else (.doNotRetry, ⟨some f, some fed⟩)
  else if a.rewinds then (.reader f.content size, ⟨none, some fed⟩)
  else (.doNotRetry, ⟨none, none⟩)

/-- `Download` from the verifier on. -/
def receive (digestOf : Str → Bytes → Digest) (digest : Digest) (a : Attempt) (offset size : Nat)
    (f : TmpFile) (ld : Descriptor) : Outcome × Descriptor :=
  if ld.verifier = none ∧ (Digest.validate digest).isOk = false then
    (.doNotRetry, { ld with tmpFile := some f })
  else
    match copyBlob a.reads f (ld.verifier.getD []) with
    | (false, f', fed) => (retryOnError a.retryWrite, ⟨some f', some fed⟩)
    | (true, f', fed) =>
      match a.ending with
      | .fails retry => (retryOnError retry, ⟨some f', some fed⟩)
      | .wrongCode => truncated a.secondTruncation f' ⟨some f', some fed⟩
      | .eof => finish digestOf digest a offset size f' fed

/-- `Download` once the server can seek: the size, and back to the offset. -/
def locate (digestOf : Str → Bytes → Digest) (digest : Digest) (a : Attempt) (offset : Nat)
    (f : TmpFile) (ld : Descriptor) : Outcome × Descriptor :=
  match a.size with
  | none => receive digestOf digest a offset 0 f ld
  | some size =>
    if size ≠ 0 ∧ offset > size then
      match truncateDownloadFile a.truncation f ld with
      | (false, ld) => (.doNotRetry, ld)
      | (true, ld) =>
        if a.seeksBack then receive digestOf digest a 0 size ⟨[], 0⟩ ld else (.error, ld)
    else if a.seeksBack then receive digestOf digest a offset size f ld
    else (.error, ld)

def download (digestOf : Str → Bytes → Digest) (digest : Digest) (a : Attempt) (ld : Descriptor) :
    Outcome × Descriptor :=
  match startFile a ld with
  | none => (.doNotRetry, { ld with tmpFile := none })
  | some (f, offset) =>
    let ld := { ld with tmpFile := some f }
    match a.opening with
    | .blobUnknown => (.doNotRetry, ld)
    | .fails retry => (retryOnError retry, ld)
    | .opened =>
      if offset ≠ 0 ∧ a.seeksOffset = false then truncated a.truncation f ld
      else locate digestOf digest a offset f ld

/-- One call. -/
def step (digestOf : Str → Bytes → Digest) (digest : Digest) (a : Attempt) (ld : Descriptor) :
    Except Empty (Outcome × Descriptor) :=
  .ok (download digestOf digest a ld)

/-- The digests of a build with one algorithm. -/
def sha256Only (_ : Str) (p : Bytes) : Digest := Digest.fromBytes p

/-- A call where nothing goes wrong. -/
def smooth (reads : List Read) : Attempt where
  creates := true
  seeksEnd := true
  opening := .opened
  seeksOffset := true
  size := none
  seeksBack := true
  truncation := .done
  secondTruncation := .done
  reads := reads
  ending := .eof
  retryWrite := true
  rewinds := true

end Dao.PullV2
