import Dao.Core.Text
import Dao.Lib.AMap

/-!
# The AUFS Driver

The calls of `Get` and `Put` on the layers, one after another, with the
reference counter of the paths and the cache of the paths. An id is a file
name, so that two ids have different directories. `aufsMount` puts as many
layers as fit in a page into the options of one mount, and appends each of the
others by a remount of its own. Its `Unmount` after a failure is left out.
-/

namespace Dao.Aufs

open Lib Function

/-- A directory of an id: `getDiffPath` or `getMountpoint`. -/
inductive Path where
  | diff (id : Str)
  | mnt (id : Str)
  deriving DecidableEq

structure MInfo where
  check : Bool
  count : Int
  deriving DecidableEq

/-- The driver, and the paths on which aufs is mounted. -/
structure Driver where
  counts : AMap Path MInfo
  pathCache : AMap Str Path
  mounted : Path → Bool

/-- A new driver. Something may be mounted already. -/
def Driver.new (mounted : Path → Bool) : Driver := ⟨∅, ∅, mounted⟩

/-- `Increment` and `Decrement`. -/
def Driver.counted (d : Driver) (n : Int) (path : Path) : Int × Driver :=
  let m := (d.counts.lookup path).getD ⟨false, 0⟩
  let count := (if !m.check && d.mounted path then m.count + 1 else m.count) + n
  (count, { d with counts := d.counts.insert path ⟨true, count⟩ })

inductive GetError where
  | parents
  | mount
  deriving DecidableEq

/-- The ids of the parents, as `getParentIds` reads them. -/
abbrev Layers : Type := Str → List Str

variable (parents : Layers)

/-- `Get`, and whether the parents cannot be read and whether `mount` fails. -/
def get (id : Str) (unread fails : Bool) (d : Driver) : Except GetError Path × Driver :=
  if unread then (.error .parents, d)
  else
    let m := (d.pathCache.lookup id).getD (if parents id = [] then .diff id else .mnt id)
    let (count, d) := d.counted 1 m
    if count > 1 then (.ok m, d)
    else if parents id = [] then (.ok m, { d with pathCache := d.pathCache.insert id m })
    else if fails then (.error .mount, d)
    else (.ok m, { d with
      pathCache := d.pathCache.insert id m, mounted := update d.mounted m true })

/-- `Put`, and whether `unmount` fails. -/
def put (id : Str) (fails : Bool) (d : Driver) : Driver :=
  let m := (d.pathCache.lookup id).getD (.mnt id)
  let (count, d) := { d with pathCache := d.pathCache.insert id m }.counted (-1) m
  if count > 0 ∨ fails then d else { d with mounted := update d.mounted m false }

inductive Action where
  | get (id : Str) (unread fails : Bool)
  | put (id : Str) (fails : Bool)

def step (d : Driver) : Action → Driver
  | .get id unread fails => (get parents id unread fails d).2
  | .put id fails => put id fails d

/-- A call of `mount`: whether it has `MS_REMOUNT`, and its data. -/
structure Mount where
  remount : Bool
  data : Bytes
  deriving DecidableEq

inductive MountError where
  | mount
  /-- `make` with a negative length. -/
  | panic
  deriving DecidableEq

/-- `Getpagesize`, `useDirperm`, the verb `%q`, and which calls of `mount` fail. -/
structure Env where
  pageSize : Nat
  useDirperm : Bool
  quote : Bytes → Bytes
  fails : Nat → Bool

def ascii (s : String) : Bytes := utf8 s.toList

def rwBranch (rw : Bytes) : Bytes := ascii "br:" ++ rw ++ ascii "=rw"

def layer (ro : Bytes) : Bytes := ascii ":" ++ ro ++ ascii "=ro+wh"

variable (env : Env) (mountLabel : Bytes)

/-- A call, after those that were made. -/
def mount (m : Mount) (made : List Mount) : Except MountError (List Mount) :=
  if env.fails made.length then .error .mount else .ok (made ++ [m])

def formatMountLabel (src : Bytes) : Bytes :=
  if mountLabel = [] then src
  else if src = [] then ascii "context=" ++ env.quote mountLabel
  else src ++ ascii ",context=" ++ env.quote mountLabel

def offset : Nat := 54 + if env.useDirperm then (ascii "dirperm1").length else 0

def opts : Bytes :=
  ascii "dio,xino=/dev/shm/aufs.xino" ++ if env.useDirperm then ascii ",dirperm1" else []

def firstMount (b : Bytes) : Mount :=
  ⟨false, formatMountLabel env mountLabel (b ++ ascii "," ++ opts env)⟩

def appendMount (ro : Bytes) : Mount :=
  ⟨true, formatMountLabel env mountLabel (ascii "append" ++ layer ro)⟩

/-- The inner loop, with the part of the buffer that is used. It leaves the layers that
    do not fit. -/
def innerLoop (size : Nat) (first : Bool) :
    Bytes → List Bytes → List Mount → Except MountError (Bytes × List Bytes × List Mount)
  | b, [], made => .ok (b, [], made)
  | b, r :: ro, made =>
    if first then
      if b.length + (layer r).length > size then .ok (b, r :: ro, made)
      else innerLoop size first (b ++ layer r) ro made
    else match mount env (appendMount env mountLabel r) made with
      | .error e => .error e
      | .ok made => innerLoop size first b ro made

/-- The outer loop, as long as there are rounds. -/
def outerLoop (size : Nat) :
    Nat → Bool → Bytes → List Bytes → List Mount → Option (Except MountError (List Mount))
  | 0, _, _, _, _ => none
  | rounds + 1, first, b, ro, made =>
    match innerLoop env mountLabel size first b ro made with
    | .error e => some (.error e)
    | .ok (b, rest, made) =>
      match if first then mount env (firstMount env mountLabel b) made else .ok made with
      | .error e => some (.error e)
      | .ok made =>
        if rest = [] then some (.ok made) else outerLoop size rounds false b rest made

/-- The calls that are made. What does not fit is not copied into the buffer. -/
def aufsMount (rounds : Nat) (ro : List Bytes) (rw : Bytes) :
    Option (Except MountError (List Mount)) :=
  let size := env.pageSize - mountLabel.length - offset env
  if env.pageSize < mountLabel.length + offset env then some (.error .panic)
  else outerLoop env mountLabel size rounds true ((rwBranch rw).take size) ro []

end Dao.Aufs
