import Dao.Core.Text
import Dao.Lib.Crash
import Dao.Lib.Run

/-!
# The Layers of overlay2

`Create` and `Remove` of the overlay2 driver and the files they leave below its
home: for each id a directory with the file `link`, and `lower` if it has a
parent, and in the directory `l` a symlink for each link id. `lower` is text,
the paths of the links of all ancestors joined by colons.

An id is a file name other than `l`. A link points to `../id/diff`, from which
`getLowerDirs` makes the diff directory of the id; the model keeps the id. What
`generateID` draws is given with the call. The disk fails in `createFailing` only.
-/

namespace Dao.Overlay2

open Lib

/-- The length of a chain that `getLower` refuses. -/
def maxDepth : Nat := 128

/-- What `generateID` draws: characters of the base32 alphabet. -/
structure LinkID where
  text : Str
  base32 : text.all (fun c => c.isUpper || ('2' ≤ c && c ≤ '7')) = true

/-- The directory of an id. -/
structure Dir where
  link : Option Str
  lower : Option Str

/-- The home of the driver. `parents` remembers the parent that each layer was
    created with. -/
structure Home where
  dirs : Str → Option Dir
  links : Str → Option Str
  parents : Str → Option Str

/-- The errors of `Create` and `getLowerDirs`. -/
inductive DriverError where
  | linkExists
  | noSuchFile
  /-- "max depth exceeded". -/
  | maxDepthExceeded
  deriving DecidableEq

/-- `path.Join(linkDir, lid)`. -/
def linkPath (lid : Str) : Str := 'l' :: '/' :: lid

/-- `os.Readlink`, below the home. -/
def readlink (h : Home) : Str → Option Str
  | 'l' :: '/' :: lid => h.links lid
  | _ => none

/-- The paths in a `lower` file, if there is one. -/
def splitLower : Option Str → List Str
  | none => []
  | some lower => lower.splitOn ':'

def getLower (h : Home) (parent : Str) : Except DriverError Str :=
  match (h.dirs parent).bind Dir.link with
  | none => .error .noSuchFile
  | some parentLink =>
    let lowers := linkPath parentLink :: splitLower ((h.dirs parent).bind Dir.lower)
    if lowers.length > maxDepth then .error .maxDepthExceeded
    else .ok ([':'].intercalate lowers)

/-- `getLowerDirs`: the ids of the diff directories. -/
def getLowerDirs (h : Home) (id : Str) : Except DriverError (List Str) :=
  (splitLower ((h.dirs id).bind Dir.lower)).mapM (fun s =>
    match readlink h s with
    | none => .error .noSuchFile
    | some id => .ok id)

/-- `os.RemoveAll` of the directory of an id. -/
def Home.removeDir (id : Str) (h : Home) : Home :=
  { h with dirs := Function.update h.dirs id none, parents := Function.update h.parents id none }

/-- `Create`. A directory that is there already is used. -/
def create (id parent : Str) (lid : LinkID) (h : Home) : Except DriverError Unit × Home :=
  let dir := (h.dirs id).getD ⟨none, none⟩
  if (h.links lid.text).isSome then (.error .linkExists, h.removeDir id)
  else
    let h := { h with
      links := Function.update h.links lid.text (some id)
      dirs := Function.update h.dirs id (some { dir with link := some lid.text }) }
    if parent = [] then (.ok (), { h with parents := Function.update h.parents id (some []) })
    else match getLower h parent with
      | .error e => (.error e, h.removeDir id)
      | .ok lower => (.ok (), { h with
          dirs := Function.update h.dirs id (some ⟨some lid.text, some lower⟩)
          parents := Function.update h.parents id (some parent) })

section Failures

/-- The steps of `Create` that may fail. -/
inductive CreateStep where
  /-- The check that there are no storage options. -/
  | storageOpt
  | rootIDs
  | home
  | mkdir
  | chown
  | diff
  | symlink
  | link
  | work
  | merged
  /-- `getLower`, and the file that its result is written to. -/
  | lower
  deriving DecidableEq

variable (fails : CreateStep → Bool) (id parent : Str) (lid : LinkID)

/-- A step. If it fails, or what it finds does not allow it, it does nothing. -/
def CreateStep.does (s : CreateStep) (f : Home → Option Home) : Call (Stop CreateStep) Home Unit :=
  fun h => match fails s, f h with
    | false, some h' => (.ok (), h')
    | _, _ => (.error (.error s), h)

/-- Change the files in the directory of an id. -/
def Home.setDir (f : Dir → Dir) (h : Home) : Home :=
  { h with dirs := Function.update h.dirs id (some (f ((h.dirs id).getD ⟨none, none⟩))) }

/-- `Create` from the directory `diff` on. -/
def createFiles : Call (Stop CreateStep) Home Unit := do
  CreateStep.diff.does fails some
  CreateStep.symlink.does fails (fun h => if (h.links lid.text).isSome then none
    else some { h with links := Function.update h.links lid.text (some id) })
  CreateStep.link.does fails (fun h => h.setDir id ({ · with link := some lid.text }))
  if parent = [] then pure ()
  else
    CreateStep.work.does fails some
    CreateStep.merged.does fails some
    CreateStep.lower.does fails (fun h => (getLower h parent).toOption.map (fun lower =>
      h.setDir id ({ · with lower := some lower })))

/-- `Create` where steps may fail. The directory, which `MkdirAs` makes and gives to its
    owner, is removed only if one of the steps after that fails. -/
def createFailing : Call (Stop CreateStep) Home Unit := do
  CreateStep.storageOpt.does fails some
  CreateStep.rootIDs.does fails some
  CreateStep.home.does fails some
  CreateStep.mkdir.does fails (fun h => h.setDir id (fun dir => dir))
  CreateStep.chown.does fails some
  match ← Call.attempt (createFiles fails id parent lid) with
  | .error s => fun h => (.error (.error s), h.removeDir id)
  | .ok _ => pure ()

end Failures

def remove (id : Str) (h : Home) : Home :=
  match (h.dirs id).bind Dir.link with
  | none => h.removeDir id
  | some lid => Home.removeDir id { h with links := Function.update h.links lid none }

/-- What can be called. -/
inductive Request where
  | create (id parent : Str) (lid : LinkID)
  | remove (id : Str)

def serve : Request → Home → Except Unit (Except DriverError Unit × Home)
  | .create id parent lid, h => .ok (create id parent lid h)
  | .remove id, h => .ok (.ok (), remove id h)

/-- The home is empty. -/
def Home.empty : Home := ⟨fun _ => none, fun _ => none, fun _ => none⟩

end Dao.Overlay2
