import Dao.Core.Image.Store
import Dao.Core.Reference.Store

/-!
# Deleting Images

`ImageDelete` of the daemon. What it is given is a reference, an image ID or a
part of one: `GetImageID` finds the image, and `isImageIDPrefix` guesses
afterwards, from the text alone, whether it was found by its ID. A reference is
removed, and the image goes with its last one; an image given by its ID goes
with all its references, if there are no conflicts.

`imageStore.Search` is a parameter. The events are left out, and of a conflict
only its kind is kept. Deleting goes on with the parent when it is to prune, so
the helper takes fuel.
-/

namespace Dao.ImageDelete

open Lib Image Reference

/-- What a deletion looks at of a container. -/
structure Container where
  imageID : ID
  running : Bool
  deriving DecidableEq

/-- The stores of the daemon and its containers. `saves` says which of the
    coming writes of the reference store succeed. -/
structure Daemon (φ ψ η ρ : Type) where
  images : Image.Sys φ ψ η
  refs : Reference.Sys ρ
  containers : List Container
  saves : List Bool

/-- What the daemon is built over. -/
structure Ports (φ ψ η ρ : Type) where
  is : Image.Ports φ ψ η
  codec : Codec ρ
  search : Str → Store η → Option ID
  order : Order

/-- The conflicts. -/
inductive Conflict where
  | dependentChild
  | runningContainer
  | activeReference
  | stoppedContainer
  deriving DecidableEq

/-- Whether the conflict is that a container uses the image. -/
def Conflict.used : Conflict → Bool
  | .runningContainer => true
  | .stoppedContainer => true
  | _ => false

/-- Which conflicts are looked for, beside the hard ones. -/
structure ConflictMask where
  activeReference : Bool
  stoppedContainer : Bool

/-- `conflictHard`, and with `conflictSoft`. -/
def conflictHard : ConflictMask := ⟨false, false⟩
def conflictAll : ConflictMask := ⟨true, true⟩

/-- The errors of a deletion. -/
inductive DeleteError where
  /-- `ErrImageDoesNotExist`. -/
  | doesNotExist (refOrID : Str)
  /-- "conflict: unable to remove repository reference %q (must force) -
      container %s is using its referenced image %s". -/
  | mustForce
  /-- "conflict: unable to delete %s (%s) - %s". -/
  | conflict (id : ID) (c : Conflict)
  | reference (e : RefError)
  | store (e : StoreError)
  | fault (f : Fault)
  deriving DecidableEq

/-- `types.ImageDelete`. -/
inductive Record where
  | untagged (ref : Str)
  | deleted (id : Digest)
  deriving DecidableEq

def parseIDOrReference (idOrRef : Str) : Except RefError (Digest ⊕ Named) :=
  let idOrRef := if validateID idOrRef then Digest.newDigestFromHex Digest.sha256 idOrRef
    else idOrRef
  match Digest.parseDigest idOrRef with
  | .ok dgst => .ok (.inl dgst)
  | .error _ => (parseNamed idOrRef).map .inr

def isSingleReference (repoRefs : List Named) : Bool :=
  match repoRefs with
  | [] => false
  | [_] => true
  | first :: _ =>
    let canonicalRefs := (repoRefs.filter (fun r => r.digest.isSome)).map Named.name
    match repoRefs.filter (fun r => r.digest.isNone) with
    | _ :: _ :: _ => false
    | single =>
      let singleRef := single.headD first
      canonicalRefs.dedup.length = 1 && canonicalRefs.contains singleRef.name

def isImageIDPrefix (imageID possiblePrefix : Str) : Bool :=
  possiblePrefix.isPrefixOf imageID ||
    match cut ':' imageID with
    | none => false
    | some (_, hx) => possiblePrefix.isPrefixOf hx

section Operations

variable {φ ψ η ρ : Type} (p : Ports φ ψ η ρ)

def getImageID (refOrID : Str) (d : Daemon φ ψ η ρ) : Except DeleteError ID :=
  match parseIDOrReference refOrID with
  | .error e => .error (.reference e)
  | .ok (.inl id) =>
    match Image.get p.is id d.images.fs with
    | .error _ => .error (.doesNotExist refOrID)
    | .ok _ => .ok id
  | .ok (.inr ref) =>
    match Reference.get ref d.refs.store with
    | .ok id => .ok id
    | .error _ =>
      match (ref.tag.bind (p.search · d.images.store)).filter (fun id =>
        (references id d.refs.store).any (fun r => r.name = ref.name)) with
      | some id => .ok id
      | none =>
        match p.search refOrID d.images.store with
        | some id => .ok id
        | none => .error (.doesNotExist refOrID)

/-- `getContainerUsingImage`, if there is one. -/
def isUsed (id : ID) (d : Daemon φ ψ η ρ) : Bool := d.containers.any (fun c => c.imageID = id)

def children (id : ID) (d : Daemon φ ψ η ρ) : List ID :=
  match d.images.store.images.lookup id with
  | none => []
  | some m => m.children

def checkImageDeleteConflict (id : ID) (mask : ConflictMask) (d : Daemon φ ψ η ρ) :
    Option Conflict :=
  if children id d ≠ [] then some .dependentChild
  else if d.containers.any (fun c => c.running && c.imageID = id) then some .runningContainer
  else if mask.activeReference && references id d.refs.store ≠ [] then some .activeReference
  else if mask.stoppedContainer && d.containers.any (fun c => !c.running && c.imageID = id) then
    some .stoppedContainer
  else none

def imageIsDangling (id : ID) (d : Daemon φ ψ η ρ) : Bool :=
  references id d.refs.store = [] && children id d = []

def removeImageRef (ref : Named) : Call DeleteError (Daemon φ ψ η ρ) Named := fun d =>
  let ((_, r), refs) := Reference.delete p.codec ref (d.saves.headD true) d.refs
  let d := { d with refs := refs, saves := d.saves.tail }
  match r with
  | .error e => (.error (.store e), d)
  | .ok _ => (.ok (withDefaultTag ref), d)

/-- Removing references one after another, with a record for each. -/
def removeReferences : List Named → List Record → Daemon φ ψ η ρ →
    Except DeleteError Unit × List Record × Daemon φ ψ η ρ
  | [], records, d => (.ok (), records, d)
  | ref :: refs, records, d =>
    match removeImageRef p ref d with
    | (.error e, d') => (.error e, records, d')
    | (.ok parsed, d') => removeReferences refs (records ++ [.untagged parsed.string]) d'

def imageDeleteHelper : Nat → ID → (force prune quiet : Bool) → List Record → Daemon φ ψ η ρ →
    Option (Except DeleteError Unit × List Record × Daemon φ ψ η ρ)
  | 0, _, _, _, _, _, _ => none
  | fuel + 1, id, force, prune, quiet, records, d =>
    match checkImageDeleteConflict id (if force then conflictHard else conflictAll) d with
    | some c =>
      if quiet && (!imageIsDangling id d || c.used) then some (.ok (), records, d)
      else some (.error (.conflict id c), records, d)
    | none =>
      let parent := getParent p.is id d.images.fs
      match removeReferences p (references id d.refs.store) records d with
      | (.error e, records, d) => some (.error e, records, d)
      | (.ok _, records, d) =>
        let (r, images) := Image.delete p.is id p.order d.images
        let d := { d with images := images }
        match r with
        | .error e => some (.error (.fault e), records, d)
        | .ok v =>
          let layers := match v with
            | .removed layers => layers.map (fun l => Record.deleted l.chainID)
            | _ => []
          let records := records ++ .deleted id :: layers
          match parent with
          | .error _ => some (.ok (), records, d)
          | .ok parent =>
            if !prune || parent = [] then some (.ok (), records, d)
            else imageDeleteHelper fuel parent false true true records d

/-- The digest references of the repository, when no tag of it is left. -/
def staleRefs (parsedRef : Named) (repoRefs : List Named) : List Named :=
  if parsedRef.digest.isSome ||
      repoRefs.any (fun r => r.digest.isNone && r.name = parsedRef.name) then []
  else repoRefs.filter (fun r => r.digest.isSome && r.name = parsedRef.name)

/-- The branch of `ImageDelete` for a repository reference. -/
def deleteReference (fuel : Nat) (imageRef : Str) (id : ID) (force prune : Bool)
    (d : Daemon φ ψ η ρ) : Option (Except DeleteError Unit × List Record × Daemon φ ψ η ρ) :=
  if !force && isSingleReference (references id d.refs.store) && isUsed id d then
    some (.error .mustForce, [], d)
  else match parseNamed imageRef with
    | .error e => some (.error (.reference e), [], d)
    | .ok ref =>
      match removeImageRef p ref d with
      | (.error e, d) => some (.error e, [], d)
      | (.ok parsedRef, d) =>
        let repoRefs := references id d.refs.store
        let stale := staleRefs parsedRef repoRefs
        match removeReferences p stale [.untagged parsedRef.string] d with
        | (.error e, records, d) => some (.error e, records, d)
        | (.ok _, records, d) =>
          if repoRefs.filter (fun r => r ∉ stale) ≠ [] then some (.ok (), records, d)
          else imageDeleteHelper p fuel id force prune true records d

/-- The branch of `ImageDelete` for an image ID. -/
def deleteID (fuel : Nat) (id : ID) (force prune : Bool) (d : Daemon φ ψ η ρ) :
    Option (Except DeleteError Unit × List Record × Daemon φ ψ η ρ) :=
  let repoRefs := references id d.refs.store
  if isSingleReference repoRefs then
    match checkImageDeleteConflict id ⟨false, !force⟩ d with
    | some c => some (.error (.conflict id c), [], d)
    | none =>
      match removeReferences p repoRefs [] d with
      | (.error e, _, d) => some (.error e, [], d)
      | (.ok _, records, d) => imageDeleteHelper p fuel id force prune false records d
  else imageDeleteHelper p fuel id force prune false [] d

def imageDelete (fuel : Nat) (imageRef : Str) (force prune : Bool) (d : Daemon φ ψ η ρ) :
    Option (Except DeleteError Unit × List Record × Daemon φ ψ η ρ) :=
  match getImageID p imageRef d with
  | .error e => some (.error e, [], d)
  | .ok id =>
    if isImageIDPrefix id imageRef then deleteID p fuel id force prune d
    else deleteReference p fuel imageRef id force prune d

end Operations

end Dao.ImageDelete
