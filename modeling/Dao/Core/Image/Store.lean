import Dao.Core.DigestSet
import Dao.Core.Image.Backend

/-!
# The Image Store

The in-memory state of the image store, its operations, and the system they
make when any number of them are in flight.

`Create` persists the configuration before it takes the lock of the store, so
it is two steps: `createSet`, which decodes, checks and writes, and
`createLocked`, which runs under the lock. Between the two it waits in
`pending`. `Delete` and `SetParent` keep the lock for their whole bodies and
are one step each.

A map is iterated in any order: `Delete` walks over the children of an image
and the second pass of `restore` over the images, and both are given the
order. A panic unwinds to the HTTP server, which recovers from it, and the
deferred unlock runs; so a panic is an answer like an error, with the state as
it was when it was raised.
-/

namespace Dao.Image

open Lib Layer

/-- `imageMeta`. The children are a set, as a list without repetitions. -/
structure ImageMeta (η : Type) where
  layer : Option η
  children : List ID

/-- `store`, without the backends it is built over. -/
structure Store (η : Type) where
  images : AMap ID (ImageMeta η)
  digestSet : Digest.DigestSet

/-- A store without images. -/
def Store.empty {η : Type} : Store η := ⟨∅, .empty⟩

/-- What a store is built over: its `fs` and `ls` fields, and
    `json.Unmarshal`. -/
structure Ports (φ ψ η : Type) where
  fs : StoreBackend φ
  ls : LayerGetReleaser ψ η
  unmarshal : Decoder

/-- An order in which a map is iterated. -/
structure Order where
  list : List ID → List ID
  perm : ∀ l, (list l).Perm l

/-- `children[id] = struct{}{}` on the image `parent`. -/
def addChild {η : Type} (parent id : ID) (images : AMap ID (ImageMeta η)) :
    AMap ID (ImageMeta η) :=
  match images.lookup parent with
  | none => images
  | some m => images.insert parent { m with children := m.children.insert id }

/-- `delete(children, id)` on the image `parent`. -/
def removeChild {η : Type} (parent id : ID) (images : AMap ID (ImageMeta η)) :
    AMap ID (ImageMeta η) :=
  match images.lookup parent with
  | none => images
  | some m =>
    images.insert parent { m with children := m.children.filter (fun c => decide (c ≠ id)) }

/-- Take an image out of the children of its parent, if it has one that is in
    the store. -/
def detach {η : Type} (id : ID) (parent : Except Fault ID) (images : AMap ID (ImageMeta η)) :
    AMap ID (ImageMeta η) :=
  match parent with
  | .error _ => images
  | .ok p => removeChild p id images

/-- A `Create` that waits for the lock: the ID it was given by the backend and
    the chain ID of its root filesystem. -/
structure Pending where
  imageID : ID
  layerID : ChainID
  deriving DecidableEq

/-- What an operation returns. -/
inductive Value where
  | image (id : ID)
  | removed (layers : List Metadata)
  | unit

abbrev Answer : Type := Except Fault Value

/-- The store, the two worlds behind it, and the calls of `Create` that wait
    for the lock. -/
structure Sys (φ ψ η : Type) where
  store : Store η
  fs : φ
  layers : ψ
  pending : List Pending

/-- A call, or a `Create` that takes the lock. -/
inductive Action where
  | create (config : Bytes)
  | createLocked (i : Nat)
  | delete (id : ID) (order : Order)
  | setParent (id parent : ID)

section Operations

variable {φ ψ η : Type} (p : Ports φ ψ η)

def getParent (id : ID) (fs : φ) : Except Fault ID :=
  match p.fs.getMetadata id parentKey fs with
  | .error e => .error e
  | .ok d => .ok (ofUtf8 d)

/-- `Get`: the image, its root filesystem and its parent, which is empty when
    it cannot be read. -/
def get (id : ID) (fs : φ) : Except Fault (Image × RootFS × ID) :=
  match p.fs.get id fs with
  | .error e => .error e
  | .ok config =>
    match newFromJSON p.unmarshal config with
    | .error e => .error (.error e)
    | .ok (img, r) =>
      match getParent p id fs with
      | .error _ => .ok (img, r, [])
      | .ok parent => .ok (img, r, parent)

/-- The layer of a root filesystem, which is none for an empty chain. -/
def takeLayer (chainID : ChainID) : Call Fault ψ (Option η) := do
  if chainID = [] then pure none
  else
    let l ← p.ls.get chainID
    pure (some l)

/-- The text of an error of the digest set. -/
def setFault (e : Digest.DigestError) : Fault := .error (digestErrorText e)

/-- The function `restore` walks with. An image that cannot be read is
    logged and left out. -/
def restoreImage (id : ID) (is : Store η) (fs : φ) (lw : ψ) : Except Fault (Store η) × ψ :=
  match get p id fs with
  | .error .panic => (.error .panic, lw)
  | .error (.error _) => (.ok is, lw)
  | .ok (_, r, _) =>
    match takeLayer p r.chainID lw with
    | (.error e, lw') => (.error e, lw')
    | (.ok l, lw') =>
      match is.digestSet.add id with
      | .error e => (.error (setFault e), lw')
      | .ok digestSet => (.ok ⟨is.images.insert id ⟨l, []⟩, digestSet⟩, lw')

/-- The walk of `restore`. -/
def restoreImages (fs : φ) : List ID → Store η → ψ → Except Fault (Store η) × ψ
  | [], is, lw => (.ok is, lw)
  | id :: ids, is, lw =>
    match restoreImage p id is fs lw with
    | (.error e, lw') => (.error e, lw')
    | (.ok is', lw') => restoreImages fs ids is' lw'

/-- The second pass of `restore`, which fills in the children. The images it
    walks over were read before, so their IDs have a colon. -/
def fillChildren (fs : φ) (ids : List ID) (images : AMap ID (ImageMeta η)) :
    AMap ID (ImageMeta η) :=
  ids.foldl (fun images id =>
    match getParent p id fs with
    | .error _ => images
    | .ok parent => addChild parent id images) images

/-- `NewImageStore`: `restore` on an empty store. -/
def newImageStore (order : Order) (fs : φ) (lw : ψ) : Except Fault (Store η) × ψ :=
  match p.fs.walk fs with
  | .error e => (.error e, lw)
  | .ok ids =>
    match restoreImages p fs ids .empty lw with
    | (.error e, lw') => (.error e, lw')
    | (.ok is, lw') =>
      (.ok { is with images := fillChildren p fs (order.list is.images.keys) is.images }, lw')

/-- `Create` up to the lock. A configuration without a root filesystem is
    dereferenced all the same. -/
def createSet (config : Bytes) (fs : φ) : Except Fault Pending × φ :=
  match p.unmarshal config with
  | .error e => (.error (.error e), fs)
  | .ok img =>
    match img.rootFS with
    | none => (.error .panic, fs)
    | some r =>
      if nonEmptyLayers img > r.diffIDs.length then
        (.error (.error "too many non-empty layers in History section".toList), fs)
      else match p.fs.set config fs with
        | (.error e, fs') => (.error e, fs')
        | (.ok id, fs') => (.ok ⟨id, r.chainID⟩, fs')

/-- `Create` from the lock on. -/
def createLocked (c : Pending) (is : Store η) (lw : ψ) : Answer × Store η × ψ :=
  match is.images.lookup c.imageID with
  | some _ => (.ok (.image c.imageID), is, lw)
  | none =>
    match takeLayer p c.layerID lw with
    | (.error e, lw') => (.error e, is, lw')
    | (.ok l, lw') =>
      let images := is.images.insert c.imageID ⟨l, []⟩
      match is.digestSet.add c.imageID with
      | .error e => (.error (setFault e), { is with images := images.erase c.imageID }, lw')
      | .ok digestSet => (.ok (.image c.imageID), ⟨images, digestSet⟩, lw')

/-- The loop of `Delete` over the children. Its errors are dropped. -/
def deleteParents : List ID → Call Fault φ Unit
  | [], fs => (.ok (), fs)
  | id :: ids, fs =>
    match p.fs.deleteMetadata id parentKey fs with
    | (.error .panic, fs') => (.error .panic, fs')
    | (_, fs') => deleteParents ids fs'

/-- `digestSet.Remove`, of which an error is only logged. -/
def forget (digestSet : Digest.DigestSet) (id : ID) : Digest.DigestSet :=
  match digestSet.remove id with
  | .error _ => digestSet
  | .ok digestSet' => digestSet'

/-- The release at the end of `Delete`. -/
def releaseImage (l : Option η) (lw : ψ) : Answer × ψ :=
  match l with
  | none => (.ok (.removed []), lw)
  | some h =>
    match p.ls.release h lw with
    | (.error e, lw') => (.error e, lw')
    | (.ok removed, lw') => (.ok (.removed removed), lw')

def delete (id : ID) (order : Order) (s : Sys φ ψ η) : Answer × Sys φ ψ η :=
  match s.store.images.lookup id with
  | none => (.error (.error ("unrecognized image ID ".toList ++ id)), s)
  | some m =>
    match deleteParents p (order.list m.children) s.fs with
    | (.error e, fs₁) => (.error e, { s with fs := fs₁ })
    | (.ok _, fs₁) =>
      match getParent p id fs₁ with
      | .error .panic => (.error .panic, { s with fs := fs₁ })
      | parent =>
        let images := (detach id parent s.store.images).erase id
        let store : Store η := ⟨images, forget s.store.digestSet id⟩
        match p.fs.delete id fs₁ with
        | (.error .panic, fs₂) => (.error .panic, { s with store := store, fs := fs₂ })
        | (_, fs₂) =>
          let (res, layers) := releaseImage p m.layer s.layers
          (res, { s with store := store, fs := fs₂, layers := layers })

def setParent (id parent : ID) (s : Sys φ ψ η) : Answer × Sys φ ψ η :=
  match s.store.images.lookup parent with
  | none => (.error (.error ("unknown parent image ID ".toList ++ parent)), s)
  | some _ =>
    match getParent p id s.fs with
    | .error .panic => (.error .panic, s)
    | old =>
      let images := addChild parent id (detach id old s.store.images)
      match p.fs.setMetadata id parentKey (utf8 parent) s.fs with
      | (.error e, fs') =>
        (.error e, { s with store := { s.store with images := images }, fs := fs' })
      | (.ok _, fs') =>
        (.ok .unit, { s with store := { s.store with images := images }, fs := fs' })

/-- One step of the system. Nothing is answered while a call goes on. -/
def step : Action → Sys φ ψ η → Except Empty (Option Answer × Sys φ ψ η)
  | .create config, s =>
    match createSet p config s.fs with
    | (.error e, fs) => .ok (some (.error e), { s with fs := fs })
    | (.ok c, fs) => .ok (none, { s with fs := fs, pending := s.pending ++ [c] })
  | .createLocked i, s =>
    match s.pending[i]? with
    | none => .ok (none, s)
    | some c =>
      let (res, store, layers) := createLocked p c s.store s.layers
      .ok (some res,
        { s with store := store, layers := layers, pending := s.pending.eraseIdx i })
  | .delete id order, s =>
    let (res, s') := delete p id order s
    .ok (some res, s')
  | .setParent id parent, s =>
    let (res, s') := setParent p id parent s
    .ok (some res, s')

end Operations

/-- A decoder that can be run: a configuration is a string of bytes, and the
    first of them says whether there is a layer. -/
def byteDecoder (layer : DiffID) : Decoder
  | [] => .error "unexpected end of JSON input".toList
  | 0 :: _ => .ok ⟨some newRootFS, []⟩
  | _ => .ok ⟨some (newRootFS.append layer), []⟩

/-- The diff ID of a layer, and the layer store that has it, with one handle
    on it. -/
def aDiffID : DiffID := Digest.newDigestFromHex Digest.sha256 (List.replicate 64 'a')

def aLayer : RoLayer := .base ⟨0, aDiffID, aDiffID, ['c'], 0, Descriptor.empty⟩

def aLayerStore : LayerStore := ((LayerStore.empty.publish aLayer).getReference aLayer).2

/-- The image store of a daemon that can be run, over `fs` at the root. -/
def idPorts : Ports (Node Bytes) (LayerStore × FileWorld (List Str)) (ChainID × Nat) where
  fs := fsBackend []
  ls := layerStoreReleaser idBackend
  unmarshal := byteDecoder aDiffID

/-- The files of a new `fs`. -/
def emptyFiles : Node Bytes := (newFSStore [] (.dir [])).2

/-- A map iterated as it is. -/
def idOrder : Order := ⟨fun l => l, List.Perm.refl⟩

/-- A daemon with one layer and no images. -/
def idSys : Sys (Node Bytes) (LayerStore × FileWorld (List Str)) (ChainID × Nat) :=
  ⟨.empty, emptyFiles, (aLayerStore, emptyWorld), []⟩

end Dao.Image
