import Dao.Core.Archive.Entry
import Dao.Lib.Trie

/-!
# Changes of a Directory

`FileInfo` trees, which hold what `Lstat` says of the files of a directory, and
`Changes`, which compares two of them.

The children of a `FileInfo` are a map, and the comparison goes through a map in any
order: here in the order the children are listed in. A path is the list of its
components. The parent of a node and its name, which the source keeps in the node,
are the path that the comparison has come to, and the mark that a node has been
listed already is handed to its call.
-/

namespace Dao.Archive

open Lib FileTree

inductive ChangeType where
  | modify
  | add
  | delete
  deriving DecidableEq

structure Change where
  path : Path
  kind : ChangeType
  deriving DecidableEq

/-- The bits of the mode that hold the type. -/
def sIfMt : Nat := 0o170000

def sIfSock : Nat := 0o140000

def sIfLnk : Nat := 0o120000

def sIfReg : Nat := 0o100000

def sIfBlk : Nat := 0o060000

def sIfDir : Nat := 0o040000

def sIfChr : Nat := 0o020000

def sIfIfo : Nat := 0o010000

/-- `StatT`. -/
structure Stat where
  mode : Nat
  uid : Int
  gid : Int
  rdev : Nat
  size : Nat
  mtim : Time
  deriving DecidableEq

/-- What a node holds. -/
structure Info where
  stat : Stat
  capability : Bytes
  deriving DecidableEq

abbrev FileInfo : Type := Trie Name Info

/-- The root has no `Stat`. Nothing reads the one it has here. -/
def Info.root : Info :=
  { stat := { mode := sIfDir, uid := 0, gid := 0, rdev := 0, size := 0, mtim := ⟨0, 0⟩ },
    capability := [] }

def newRootFileInfo : FileInfo := .node .root []

def sameFsTimeSpec (a b : Time) : Bool :=
  a.sec == b.sec && (a.nsec == b.nsec || a.nsec == 0 || b.nsec == 0)

def statDifferent (oldStat newStat : Stat) : Bool :=
  oldStat.mode != newStat.mode || oldStat.uid != newStat.uid || oldStat.gid != newStat.gid ||
    oldStat.rdev != newStat.rdev ||
    (oldStat.mode &&& sIfDir != sIfDir &&
      (!sameFsTimeSpec oldStat.mtim newStat.mtim || oldStat.size != newStat.size))

/-- The test on two nodes of one path. -/
def different (oldInfo newInfo : Info) : Bool :=
  statDifferent oldInfo.stat newInfo.stat || oldInfo.capability != newInfo.capability

/-- `isDir`. Only the root has no parent. -/
def isDir (path : Path) (info : Info) : Bool := path.isEmpty || info.stat.mode &&& sIfDir != 0

mutual

/-- `addChanges`, of a node that has been listed or not. -/
def addChanges (oldInfo : Option FileInfo) (path : Path) (added : Bool) (changes : List Change) :
    FileInfo → List Change
  | .node info children =>
    let sizeAtEntry := changes.length
    let changes := if oldInfo.isNone then changes ++ [⟨path, .add⟩] else changes
    let added := added || oldInfo.isNone
    let oldChildren :=
      match oldInfo with
      | none => []
      | some old => if isDir path info then old.children else []
    let compared := addChildren path oldChildren changes children
    let changes := compared.1 ++ compared.2.map (fun c => ⟨path ++ [c.1], .delete⟩)
    if sizeAtEntry < changes.length ∧ isDir path info = true ∧ added = false ∧ path ≠ [] then
      -- The entry of the directory goes before those of what is in it.
      changes.take sizeAtEntry ++ ⟨path, .modify⟩ :: changes.drop sizeAtEntry
    else changes

/-- The loop over the children. The answer holds the old ones that are left. -/
def addChildren (path : Path) (oldChildren : List (Name × FileInfo)) (changes : List Change) :
    List (Name × FileInfo) → List Change × List (Name × FileInfo)
  | [] => (changes, oldChildren)
  | (name, newChild) :: rest =>
    match Trie.named oldChildren name with
    | none => addChildren path oldChildren
        (addChanges none (path ++ [name]) false changes newChild) rest
    | some oldChild =>
      let modified := different oldChild.val newChild.val
      let changes := if modified then changes ++ [⟨path ++ [name], .modify⟩] else changes
      addChildren path (oldChildren.filter (fun c => decide (c.1 ≠ name)))
        (addChanges (some oldChild) (path ++ [name]) modified changes newChild) rest

end

def changes (info oldInfo : FileInfo) : List Change := addChanges (some oldInfo) [] false [] info

end Dao.Archive
