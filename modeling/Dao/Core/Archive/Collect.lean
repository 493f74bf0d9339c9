import Dao.Core.Archive.Changes
import Dao.Lib.FileSys

/-!
# Collecting a Directory

The two ways the source builds the `FileInfo` trees of two directories: one walk over
each of them (`collectFileInfo`), and the walk of Linux over both at once, which leaves
out what has the same inode in both (`Walker.walk`).

A directory is a file system whose root it is: the walks reach what is in it by paths
without links. What `Lstat` says of a file is its kind and its `Inode`, and what its
directory says of it is the inode number listed there. The two differ where another file
system is mounted: there the directory lists the inode that the mount covers.
-/

namespace Dao.Archive

open Lib FileTree

/-- A bound on the depth of the tree. -/
def depthBound {α : Type} (fs : FileSys α) : Nat := (fs.entries.keys.map List.length).sum + 1

/-- The type in the mode. -/
def typeBits : Kind → Nat
  | .dir => sIfDir
  | .file _ => sIfReg
  | .symlink _ => sIfLnk
  | .special .block _ => sIfBlk
  | .special .char _ => sIfChr
  | .special .fifo _ => sIfIfo
  | .special .socket _ => sIfSock

/-- What a file of a directory has besides its kind. -/
structure Inode where
  perm : Nat
  uid : Int
  gid : Int
  rdev : Nat
  size : Nat
  mtim : Time
  capability : Bytes
  dev : Nat
  ino : Nat
  /-- The inode number its directory lists. -/
  listed : Nat
  deriving DecidableEq

/-- What a node holds of a file. -/
def infoOf (e : Entry Inode) : Info :=
  { stat :=
      { mode := typeBits e.kind ||| e.attr.perm % 0o10000
        uid := e.attr.uid
        gid := e.attr.gid
        rdev := e.attr.rdev
        size := e.attr.size
        mtim := e.attr.mtim }
    capability := e.attr.capability }

inductive CollectErr where
  | noParent (path : Path)
  deriving DecidableEq

/-- Put a node into the tree, below its parent. -/
def register (path : Path) (info : Info) (root : FileInfo) : Except CollectErr FileInfo :=
  match path.getLast? with
  | none => .error (.noParent path)
  | some name =>
    match Trie.insert name (.node info []) path.dropLast root with
    | none => .error (.noParent path)
    | some root => .ok root

/-! ### One directory -/

/-- The walk over a directory. The depth is bounded. -/
def collectWalk {α : Type} (view : Entry α → Info) (dir : FileSys α) :
    Nat → Path → Entry α → FileInfo → Except CollectErr FileInfo
  | 0, _, _, root => .ok root
  | fuel + 1, path, e, root => do
    let root ← (if path = [] then pure root
      else register path (view e) root : Except CollectErr FileInfo)
    if e.kind = .dir then
      (dir.children path).foldlM
        (fun root name =>
          match dir.look (path ++ [name]) with
          | none => pure root
          | some e => collectWalk view dir fuel (path ++ [name]) e root)
        root
    else pure root

def collectFileInfo {α : Type} (view : Entry α → Info) (dir : FileSys α) :
    Except CollectErr FileInfo :=
  match dir.look [] with
  | none => .ok newRootFileInfo
  | some e => collectWalk view dir (depthBound dir) [] e newRootFileInfo

/-! ### Two directories at once -/

/-- `readdirnames`: the names in a directory and the inode numbers it lists for them. -/
def readdirnames (dir : FileSys Inode) (path : Path) : List (Name × Nat) :=
  (dir.children path).map (fun name =>
    (name, ((dir.look (path ++ [name])).map (fun e => e.attr.listed)).getD 0))

/-- The names in either of two listings. One in both with the same inode is left out, if
    the directories are on one device. -/
def mergeNames (sameDevice : Bool) : Nat → List (Name × Nat) → List (Name × Nat) → List Name
  | 0, _, _ => []
  | _ + 1, [], names2 => names2.map Prod.fst
  | _ + 1, names1, [] => names1.map Prod.fst
  | fuel + 1, ni1 :: names1, ni2 :: names2 =>
    if ni1.1 = ni2.1 then
      if ni1.2 ≠ ni2.2 ∨ sameDevice = false then ni1.1 :: mergeNames sameDevice fuel names1 names2
      else mergeNames sameDevice fuel names1 names2
    else if nameLe ni1.1 ni2.1 then ni1.1 :: mergeNames sameDevice fuel names1 (ni2 :: names2)
    else ni2.1 :: mergeNames sameDevice fuel (ni1 :: names1) names2

def walkchunk (path : Path) (fi : Option (Entry Inode)) (root : FileInfo) :
    Except CollectErr FileInfo :=
  match fi with
  | none => .ok root
  | some e => register path (infoOf e) root

/-- `walker`, without the trees it builds. -/
structure Walker where
  dir1 : FileSys Inode
  dir2 : FileSys Inode

/-- `IsDir` of what `Lstat` returned, if anything. -/
def isDirEntry (fi : Option (Entry Inode)) : Bool := fi.any (fun e => decide (e.kind = .dir))

/-- The two are there and on one device. -/
def sameDevice (i1 i2 : Option (Entry Inode)) : Bool :=
  match i1, i2 with
  | some a, some b => a.attr.dev == b.attr.dev
  | _, _ => false

/-- `walk`. The depth is bounded. -/
def Walker.walk (w : Walker) :
    Nat → Path → Option (Entry Inode) → Option (Entry Inode) → FileInfo × FileInfo →
      Except CollectErr (FileInfo × FileInfo)
  | 0, _, _, _, roots => .ok roots
  | fuel + 1, path, i1, i2, roots => do
    let root1 ← (if path = [] then pure roots.1
      else walkchunk path i1 roots.1 : Except CollectErr FileInfo)
    let root2 ← (if path = [] then pure roots.2
      else walkchunk path i2 roots.2 : Except CollectErr FileInfo)
    let is1Dir := isDirEntry i1
    let is2Dir := isDirEntry i2
    if is1Dir = false ∧ is2Dir = false then pure (root1, root2)
    else
      let names1 := if is1Dir then readdirnames w.dir1 path else []
      let names2 := if is2Dir then readdirnames w.dir2 path else []
      let names := mergeNames (sameDevice i1 i2) (names1.length + names2.length + 1) names1 names2
      names.foldlM
        (fun roots name =>
          w.walk fuel (path ++ [name]) (if is1Dir then w.dir1.look (path ++ [name]) else none)
            (if is2Dir then w.dir2.look (path ++ [name]) else none) roots)
        (root1, root2)

/-- `collectFileInfoForChanges` of Linux. -/
def collectFileInfoForChanges (dir1 dir2 : FileSys Inode) :
    Except CollectErr (FileInfo × FileInfo) :=
  Walker.walk ⟨dir1, dir2⟩ (depthBound dir1 + depthBound dir2) [] (dir1.look []) (dir2.look [])
    (newRootFileInfo, newRootFileInfo)

end Dao.Archive
