import Dao.Core.Text
import Dao.Lib.FileSys

/-!
# Symbolic Links in a Scope

`FollowSymlinkInScope`, which evaluates the symbolic links of a path as if the
root of its scope were the root of the file system. The file system does not
change while it runs.

The loop takes the first component off the path, looks at where it leads, and
appends it to a buffer or puts the target of a link in front of the path. The
buffer holds the components as they came, `..` included.
-/

namespace Dao.Symlink

open Lib PathName

variable {α : Type}

inductive ScopeErr where
  | notIn (path root : Str)
  | tooManyLinks (path : Str)
  | sys (e : Errno)
  deriving DecidableEq

/-- The first component of a path, and the rest. -/
def nextComponent (path : Str) : Str × Str :=
  match cut '/' path with
  | none => (path, [])
  | some x => x

/-- The loop, with the number of rounds that are left. -/
def evalLoop (fs : FileSys α) (root originalPath : Str) : Nat → Str → Str → Except ScopeErr Str
  | 0, path, b => if path = [] then .ok b else .error (.tooManyLinks originalPath)
  | fuel + 1, path, b =>
    if path = [] then .ok b
    else
      let p := (nextComponent path).1
      let path := (nextComponent path).2
      if p = [] then evalLoop fs root originalPath fuel path b
      else
        let cleanP := clean ('/' :: b ++ p)
        if cleanP = ['/'] then evalLoop fs root originalPath fuel path []
        else
          let fullP := clean (root ++ cleanP)
          match (FileSys.lstat fullP fs).1 with
          | .error .noEntry => evalLoop fs root originalPath fuel path (b ++ p ++ ['/'])
          | .error e => .error (.sys e)
          | .ok ⟨.symlink _, _⟩ =>
            match (FileSys.readlink fullP fs).1 with
            | .error e => .error (.sys e)
            | .ok dest =>
              evalLoop fs root originalPath fuel (dest ++ '/' :: path)
                (if isAbs dest then [] else b)
          | .ok _ => evalLoop fs root originalPath fuel path (b ++ p ++ ['/'])

def maxIter : Nat := 255

def evalSymlinksInScope (fs : FileSys α) (path root : Str) : Except ScopeErr Str :=
  let root := clean root
  if path = root then .ok path
  else if root.isPrefixOf path = false then .error (.notIn path root)
  else
    let rest := (if root = ['/'] then ['/'] else []) ++ path.drop root.length
    if isAbs rest = false then .error (.notIn rest root)
    else
      match evalLoop fs root path (maxIter + 1) (clean rest) [] with
      | .error e => .error e
      | .ok b => .ok (clean (root ++ clean ('/' :: b)))

def abs (fs : FileSys α) (path : Str) : Str :=
  if isAbs path then clean path else joinTwo (render fs.cwd) path

def followSymlinkInScope (fs : FileSys α) (path root : Str) : Except ScopeErr Str :=
  evalSymlinksInScope fs (abs fs path) (abs fs root)

end Dao.Symlink
