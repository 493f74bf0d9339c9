import Dao.Core.Text
import Dao.Lib.FileSys

/-!
# Entries of an Archive

The headers of a tar archive and `createTarFile`, which makes the entry of a
header in the file system.

An archive is the list of its entries. The content of an entry stands in its
header, and an entry may be cut off: then its content ends with an error. The
owner, the mode, the times and the extended attributes of a file are the
attributes of the file system's entries. Files are made under an empty umask, and
every file system takes extended attributes.
-/

namespace Dao.Archive

open Lib PathName Call

/-- A time, as seconds and nanoseconds. -/
structure Time where
  sec : Int
  nsec : Nat
  deriving DecidableEq

def Time.before (a b : Time) : Bool :=
  decide (a.sec < b.sec) || a.sec == b.sec && Nat.blt a.nsec b.nsec

/-- What a file holds besides its kind and content. The mode is its lower twelve
    bits. -/
structure Attr where
  mode : Nat
  uid : Int
  gid : Int
  accessTime : Time
  modTime : Time
  xattrs : List (Str × Bytes)
  deriving DecidableEq

/-- The attributes of a new file. -/
def Attr.new (mode : Nat) : Attr :=
  { mode := mode, uid := 0, gid := 0, accessTime := ⟨0, 0⟩, modTime := ⟨0, 0⟩, xattrs := [] }

def Attr.setXattr (key : Str) (value : Bytes) (a : Attr) : Attr :=
  { a with xattrs := (key, value) :: a.xattrs.filter (fun x => decide (x.1 ≠ key)) }

abbrev Files : Type := FileSys Attr

inductive TypeFlag where
  | reg
  | regA
  | link
  | symlink
  | char
  | block
  | dir
  | fifo
  | xGlobalHeader
  | other (flag : UInt8)
  deriving DecidableEq

structure Header where
  name : Str
  mode : Nat
  uid : Int
  gid : Int
  size : Int
  modTime : Time
  accessTime : Time
  typeflag : TypeFlag
  linkname : Str
  devmajor : Int
  devminor : Int
  xattrs : List (Str × Bytes)
  body : Bytes
  broken : Bool
  deriving DecidableEq

inductive Err where
  | sys (e : Errno)
  | read
  | invalidHardlink (target linkname : Str)
  | invalidSymlink (path linkname : Str)
  | outside (name dest : Str)
  | unhandledType (flag : TypeFlag)
  | idMap (message : Str)
  | noRel (base target : Str)
  | dirOverNonDir (path dest : Str)
  | nonDirOverDir (path dest : Str)
  | invalidAufsHardlink
  deriving DecidableEq

/-- A call of the package. -/
abbrev Op (β : Type) : Type := Call Err Files β

/-- A call of the system whose error is returned. -/
def sys {β : Type} (c : Call Errno Files β) : Op β := fun fs =>
  match c fs with
  | (.error e, fs) => (.error (.sys e), fs)
  | (.ok x, fs) => (.ok x, fs)

/-- The call answers with a directory. -/
def isDirResult : Except Errno (Entry Attr) → Bool
  | .ok e => e.kind = .dir
  | .error _ => false

/-- The mode bits the calls take. -/
def Header.perm (hdr : Header) : Nat := hdr.mode % 0o10000

def isPrefix (s t : Str) : Bool := s.isPrefixOf t

/-- The switch on the type. -/
def makeEntry (path extractDir : Str) (hdr : Header) : Op Unit :=
  match hdr.typeflag with
  | .dir => do
    let fi ← observe (FileSys.lstat path)
    if isDirResult fi then pure () else sys (FileSys.mkdir path (.new hdr.perm))
  | .reg => writeEntry
  | .regA => writeEntry
  | .block => sys (FileSys.mknod path .block (hdr.devmajor, hdr.devminor) (.new hdr.perm))
  | .char => sys (FileSys.mknod path .char (hdr.devmajor, hdr.devminor) (.new hdr.perm))
  | .fifo => sys (FileSys.mknod path .fifo (hdr.devmajor, hdr.devminor) (.new hdr.perm))
  | .link =>
    let targetPath := joinTwo extractDir hdr.linkname
    if isPrefix extractDir targetPath then sys (FileSys.link targetPath path)
    else raise (.invalidHardlink targetPath hdr.linkname)
  | .symlink =>
    let targetPath := joinTwo (dir path) hdr.linkname
    if isPrefix extractDir targetPath then sys (FileSys.symlink hdr.linkname path (.new 0o777))
    else raise (.invalidSymlink path hdr.linkname)
  | .xGlobalHeader => pure ()
  | .other flag => raise (.unhandledType (.other flag))
where
  writeEntry : Op Unit := do
    sys (FileSys.writeFile path (.new hdr.perm) hdr.body)
    if hdr.broken then raise .read else pure ()

def setXattrs (path : Str) : List (Str × Bytes) → Op Unit
  | [] => pure ()
  | (key, value) :: xs => do
    sys (FileSys.change false path (Attr.setXattr key value))
    setXattrs path xs

/-- Whether the mode and the times of the entry are set: not for a symbolic link,
    and for a hard link as the name of its target says, which is looked up as it
    stands in the header. -/
def follows (hdr : Header) : Op Bool :=
  match hdr.typeflag with
  | .link => do
    let fi ← observe (FileSys.lstat hdr.linkname)
    match fi with
    | .ok ⟨.symlink _, _⟩ => pure false
    | .ok _ => pure true
    | .error _ => pure false
  | .symlink => pure false
  | _ => pure true

def handleLChmod (hdr : Header) (path : Str) : Op Unit := do
  if ← follows hdr then sys (FileSys.change true path (fun a => { a with mode := hdr.perm }))
    else pure ()

/-- The times of the entry. The access is not before the modification. -/
def setTimes (hdr : Header) (path : Str) : Op Unit := do
  let aTime := if hdr.accessTime.before hdr.modTime then hdr.modTime else hdr.accessTime
  let set : Attr → Attr := fun a => { a with accessTime := aTime, modTime := hdr.modTime }
  if hdr.typeflag = .symlink then sys (FileSys.change false path set)
  else if ← follows hdr then sys (FileSys.change true path set) else pure ()

/-- What follows the switch. -/
def setAttrs (path : Str) (hdr : Header) (lchown : Bool) (chownOpts : Option (Int × Int)) :
    Op Unit := do
  let owner := chownOpts.getD (hdr.uid, hdr.gid)
  onlyIf (lchown = true)
    (sys (FileSys.change false path (fun a => { a with uid := owner.1, gid := owner.2 })))
  setXattrs path hdr.xattrs
  handleLChmod hdr path
  setTimes hdr path

def createTarFile (path extractDir : Str) (hdr : Header) (lchown : Bool)
    (chownOpts : Option (Int × Int)) :
    Op Unit := do
  makeEntry path extractDir hdr
  if hdr.typeflag = .xGlobalHeader then pure () else setAttrs path hdr lchown chownOpts

end Dao.Archive
