import Dao.Core.Text

/-!
# Saving a Container

`ToDisk`, which writes two files with an `atomicFileWriter` each. A writer has a
temporary file of its own, and moves it over the file when it is closed.
-/

namespace Dao.ToDisk

inductive File where
  | config
  | hostConfig
  deriving DecidableEq

/-- The files, as far as they exist. -/
abbrev Disk : Type := File → Option Bytes

/-- Which operations of a writer fail. A write that fails has written some bytes. -/
structure Faults where
  create : Bool
  write : Option Nat
  sync : Bool
  close : Bool
  chmod : Bool
  rename : Bool

/-- An `atomicFileWriter` and what its temporary file holds. -/
structure Writer where
  temp : Bytes
  writeErr : Bool

variable (f : Faults)

/-- `Encode`, which writes once, and nothing if there is no encoding. -/
def encode (data : Option Bytes) : Bool × Writer :=
  match data, f.write with
  | none, _ => (false, ⟨[], false⟩)
  | some d, none => (true, ⟨d, false⟩)
  | some d, some n => (false, ⟨d.take n, true⟩)

/-- `Close`, without its result, which is lost where it is deferred. -/
def Writer.close (w : Writer) (file : File) (disk : Disk) : Disk :=
  if f.sync || f.close || f.chmod || w.writeErr || f.rename then disk
  else Function.update disk file (some w.temp)

/-- `WriteHostConfig`, and whether it returns no error. -/
def writeHostConfig (data : Option Bytes) (disk : Disk) : Bool × Disk :=
  if f.create then (false, disk)
  else
    let (ok, w) := encode f data
    (ok, w.close f .hostConfig disk)

/-- `ToDisk` with the encodings, and the faults of the two writers. -/
def toDisk (g : Faults) (data : File → Option Bytes) (disk : Disk) : Bool × Disk :=
  if f.create then (false, disk)
  else
    let (ok, w) := encode f (data .config)
    let (ok, disk) := if ok then writeHostConfig g (data .hostConfig) disk else (false, disk)
    (ok, w.close f .config disk)

end Dao.ToDisk
