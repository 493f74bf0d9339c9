import Dao.Core.Image.Config
import Dao.Core.Layer.FileStore
import Dao.Core.Layer.Steps

/-!
# The Backends of the Image Store

The two interfaces the image store is written against, `StoreBackend` and
`LayerGetReleaser`, and the implementations the daemon gives it: `fs` over a
file tree, and the layer store.

`fs` keeps the configuration of an image in `content/<algorithm>/<hex>` under
its root and the metadata of the image, one file for each key, in the
directory `metadata/<algorithm>/<hex>`. A configuration is only returned when
its digest is the ID it was asked for under. `Algorithm` and `Hex` panic on an
ID without a colon, so a call has two ways not to succeed.

`AtomicWriteFile` writes a temporary file in the directory of the target and
renames it. Both happen under the lock of `fs`, so here it is one write.
-/

namespace Dao.Image

open Lib Layer FileTree

/-- How a call can go wrong. -/
inductive Fault where
  | error (msg : Str)
  | panic
  deriving DecidableEq

/-- `StoreBackend`. `Walk` is the list of the IDs it calls its function on. -/
structure StoreBackend (φ : Type) where
  walk : φ → Except Fault (List ID)
  get : ID → φ → Except Fault Bytes
  set : Bytes → Call Fault φ ID
  delete : ID → Call Fault φ Unit
  setMetadata : ID → Str → Bytes → Call Fault φ Unit
  getMetadata : ID → Str → φ → Except Fault Bytes
  deleteMetadata : ID → Str → Call Fault φ Unit

/-- `LayerGetReleaser`, with handles of type `η`. -/
structure LayerGetReleaser (ψ η : Type) where
  get : ChainID → Call Fault ψ η
  release : η → Call Fault ψ (List Metadata)

/-- The directories of `fs`, and the key of the parent. -/
def contentDirName : Name := ['c', 'o', 'n', 't', 'e', 'n', 't']
def metadataDirName : Name := ['m', 'e', 't', 'a', 'd', 'a', 't', 'a']
def parentKey : Name := ['p', 'a', 'r', 'e', 'n', 't']

section FileBackend

variable (root : Path)

/-- The path of an ID under one of the two directories. -/
def idPath (dir : Name) (id : ID) : Except Fault Path :=
  match cut ':' id with
  | none => .error .panic
  | some (alg, hx) => .ok (join root [dir, alg, hx])

def contentFile (id : ID) : Except Fault Path := idPath root contentDirName id

def metadataDir (id : ID) : Except Fault Path := idPath root metadataDirName id

def readFile (file : Path) (t : Node Bytes) : Except Fault Bytes :=
  match FileTree.readFile file t with
  | .error e => .error (.error (fsErrorText e))
  | .ok content => .ok content

/-- A change of the files. A failed one leaves them as they are. -/
def changeFiles (f : Node Bytes → Except FsError (Node Bytes)) : Call Fault (Node Bytes) Unit :=
  fun t =>
    match f t with
    | .error e => (.error (.error (fsErrorText e)), t)
    | .ok t' => (.ok (), t')

/-- A question to the files. -/
def askFiles {α : Type} (f : Node Bytes → Except Fault α) : Call Fault (Node Bytes) α := fun t =>
  (f t, t)

/-- What was computed before the files are touched. -/
def lift {α φ : Type} (x : Except Fault α) : Call Fault φ α := fun w => (x, w)

def newFSStore : Call Fault (Node Bytes) Unit := do
  changeFiles (mkdirAll (join root [contentDirName, Digest.sha256]))
  changeFiles (mkdirAll (join root [metadataDirName, Digest.sha256]))

/-- `Walk`: the entries of the directory of the canonical algorithm that are
    digests. -/
def fsWalk (t : Node Bytes) : Except Fault (List ID) :=
  match readDir (join root [contentDirName, Digest.sha256]) t with
  | .error e => .error (.error (fsErrorText e))
  | .ok infos => .ok (infos.filterMap (fun v =>
    match Digest.validate (Digest.newDigestFromHex Digest.sha256 v.1) with
    | .error _ => none
    | .ok _ => some (Digest.newDigestFromHex Digest.sha256 v.1)))

/-- `get`. -/
def fsGet (id : ID) (t : Node Bytes) : Except Fault Bytes := do
  let file ← contentFile root id
  let content ← readFile file t
  if Digest.fromBytes content = id then .ok content
  else .error (.error ("failed to verify image: ".toList ++ id))

/-- `Set`. -/
def fsSet (data : Bytes) : Call Fault (Node Bytes) ID := do
  if data = [] then lift (.error (.error "Invalid empty data".toList))
  else
    let file ← lift (contentFile root (Digest.fromBytes data))
    changeFiles (writeFile file data)
    pure (Digest.fromBytes data)

/-- `Delete`: the metadata, then the configuration. -/
def fsDelete (id : ID) : Call Fault (Node Bytes) Unit := do
  let dir ← lift (metadataDir root id)
  changeFiles (fun t => .ok (removeAll dir t))
  let file ← lift (contentFile root id)
  changeFiles (remove file)

/-- `SetMetadata`. -/
def fsSetMetadata (id : ID) (key : Str) (data : Bytes) : Call Fault (Node Bytes) Unit := do
  let _ ← askFiles (fsGet root id)
  let dir ← lift (metadataDir root id)
  changeFiles (mkdirAll dir)
  changeFiles (writeFile (join dir [key]) data)

/-- `GetMetadata`. -/
def fsGetMetadata (id : ID) (key : Str) (t : Node Bytes) : Except Fault Bytes := do
  let _ ← fsGet root id t
  let dir ← metadataDir root id
  readFile (join dir [key]) t

/-- `DeleteMetadata`, which asks for no configuration. -/
def fsDeleteMetadata (id : ID) (key : Str) : Call Fault (Node Bytes) Unit := do
  let dir ← lift (metadataDir root id)
  changeFiles (fun t => .ok (removeAll (join dir [key]) t))

/-- `fs`, over a file tree. -/
def fsBackend : StoreBackend (Node Bytes) where
  walk := fsWalk root
  get := fsGet root
  set := fsSet root
  delete := fsDelete root
  setMetadata := fsSetMetadata root
  getMetadata := fsGetMetadata root
  deleteMetadata := fsDeleteMetadata root

end FileBackend

/-- The same backend when its writes may fail, as a script says for each write
    in turn. A write that fails does nothing. -/
def StoreBackend.faulty {φ : Type} (b : StoreBackend φ) : StoreBackend (List Bool × φ) where
  walk w := b.walk w.2
  get id w := b.get id w.2
  set data := .faulty ioError (b.set data)
  delete id := .faulty ioError (b.delete id)
  setMetadata id key data := .faulty ioError (b.setMetadata id key data)
  getMetadata id key w := b.getMetadata id key w.2
  deleteMetadata id key := .faulty ioError (b.deleteMetadata id key)
where
  /-- The failures. -/
  ioError : Fault := .error ['i', '/', 'o']

/-- The text of an error of the layer store. -/
def layerErrorText : Err → Str
  | .layerDoesNotExist => "layer does not exist".toList
  | .layerNotRetained => "layer not retained".toList
  | .mountDoesNotExist => "mount does not exist".toList
  | .mountNameConflict => "mount already exists with name".toList
  | .maxDepthExceeded => "max depth exceeded".toList
  | .mismatchedParent => "name conflict, mismatched parent".toList
  | .mountAlreadyExists => "mount already exists".toList
  | .graphIDDoesNotExist id => "graph ID does not exist: ".toList ++ id
  | .backend msg => msg

/-- The layer store as the image store uses it. A handle is the chain ID and
    the number of a reference. -/
def layerStoreReleaser {ω τ : Type} (b : Backend ω τ) :
    LayerGetReleaser (LayerStore × ω) (ChainID × Nat) where
  get c := fun w =>
    match Layer.get c w.1 with
    | (.ok (.layer _ ref), ls) => (.ok (c, ref), (ls, w.2))
    | (.ok _, ls) => (.error .panic, (ls, w.2))
    | (.error e, ls) => (.error (.error (layerErrorText e)), (ls, w.2))
  release h := fun w =>
    match Layer.release b h.1 h.2 w.1 w.2 with
    | .error _ => (.error .panic, w)
    | .ok (.ok (.metadata removed), ls, w') => (.ok removed, (ls, w'))
    | .ok (.ok _, ls, w') => (.ok [], (ls, w'))
    | .ok (.error e, ls, w') => (.error (.error (layerErrorText e)), (ls, w'))

end Dao.Image
