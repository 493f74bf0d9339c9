import Dao.Core.Layer.Backend
import Dao.Lib.FileTree

/-!
# The File Metadata Store

`fileMetadataStore`, the metadata store the daemon runs on, over a file tree,
and the backend it makes with any graph driver.

A layer is a directory `<algorithm>/<hex>` under the root with one small file
for each of its fields; a mount is a directory `mounts/<name>`. A layer is
written in a temporary directory and moved to its place by `Commit`. The
files hold text, and a string is written to a file and read back as it is.

The paths are built by `filepath.Join` from the strings the store is called
with, as in the source, so a mount whose name is not a plain component ends
up where the source would put it. `Algorithm` and `Hex` panic on a digest
without a colon; the call they are made in is a failed one here.
-/

namespace Dao.Layer

open Lib FileTree

/-- The world of a daemon: its files, how many temporary names it has drawn,
    and whatever the graph driver keeps. -/
structure FileWorld (δ : Type) where
  tree : Node Str
  draws : Nat
  driver : δ

/-- The JSON encoding of a descriptor, as `encoding/json` gives it. -/
structure DescriptorCodec where
  marshal : Descriptor → Str
  unmarshal : Str → Option Descriptor

/-- The descriptor is read back from its encoding. -/
def DescriptorCodec.RoundTrips (codec : DescriptorCodec) (d : Descriptor) : Prop :=
  codec.unmarshal (codec.marshal d) = some d

/-- What a metadata store is configured with: its root, the suffixes that
    `ioutil.TempDir` draws, and the encoding of descriptors. -/
structure FileConfig where
  root : Path
  suffix : Nat → Str
  codec : DescriptorCodec

def stringIDRegexp : Regex :=
  .seq (.times 64 (.cls [('a', 'f'), ('0', '9')])) (.opt (.literal ['-', 'i', 'n', 'i', 't']))

/-- The text of a file system error. -/
def fsErrorText : FsError → Str
  | .notExist => "no such file or directory".toList
  | .notDirectory => "not a directory".toList
  | .isDirectory => "is a directory".toList
  | .notEmpty => "directory not empty".toList
  | .alreadyExists => "file exists".toList
  | .invalid => "invalid argument".toList

/-- The text of a digest error. -/
def digestErrorText : Digest.DigestError → Str
  | .invalidFormat => "invalid checksum digest format".toList
  | .invalidLength => "invalid checksum digest length".toList
  | .unsupported => "unsupported digest algorithm".toList

/-- The names of the files of a layer and of a mount. -/
def diffFile : Name := ['d', 'i', 'f', 'f']
def sizeFile : Name := ['s', 'i', 'z', 'e']
def cacheIDFile : Name := ['c', 'a', 'c', 'h', 'e', '-', 'i', 'd']
def parentFile : Name := ['p', 'a', 'r', 'e', 'n', 't']
def descriptorFile : Name :=
  ['d', 'e', 's', 'c', 'r', 'i', 'p', 't', 'o', 'r', '.', 'j', 's', 'o', 'n']
def tarSplitFile : Name :=
  ['t', 'a', 'r', '-', 's', 'p', 'l', 'i', 't', '.', 'j', 's', 'o', 'n', '.', 'g', 'z']
def mountIDFile : Name := ['m', 'o', 'u', 'n', 't', '-', 'i', 'd']
def initIDFile : Name := ['i', 'n', 'i', 't', '-', 'i', 'd']
def mountsDir : Name := ['m', 'o', 'u', 'n', 't', 's']
def tmpDir : Name := ['t', 'm', 'p']

section FileStore

variable {δ : Type} (cfg : FileConfig)

/-- A call on the driver's state. -/
def onDriver {α : Type} (x : Call Str δ α) : Call Str (FileWorld δ) α := fun w =>
  ((x w.driver).1, { w with driver := (x w.driver).2 })

/-- A change of the files. A failed one leaves them as they are. -/
def onTree (f : Node Str → Except FsError (Node Str)) : Call Str (FileWorld δ) Unit := fun w =>
  match f w.tree with
  | .error e => (.error (fsErrorText e), w)
  | .ok t => (.ok (), { w with tree := t })

/-- A question to the files. -/
def askTree {α : Type} (f : Node Str → Except Str α) : Call Str (FileWorld δ) α := fun w =>
  (f w.tree, w)

def getLayerDirectory (layer : ChainID) : Except Str Path :=
  match cut ':' layer with
  | none => .error (digestErrorText .invalidFormat)
  | some (alg, hx) => .ok (join cfg.root [alg, hx])

def getMountDirectory (mount : Str) : Path := join cfg.root [mountsDir, mount]

/-- `ioutil.ReadFile` of a file of a layer. -/
def readLayerFile (layer : ChainID) (file : Name) (t : Node Str) :
    Except Str (Except FsError Str) :=
  match getLayerDirectory cfg layer with
  | .error e => .error e
  | .ok dir => .ok (readFile (join dir [file]) t)

/-- `ioutil.ReadFile` of a file of a mount. -/
def readMountFile (mount : Str) (file : Name) (t : Node Str) : Except FsError Str :=
  readFile (join (getMountDirectory cfg mount) [file]) t

/-- `digest.ParseDigest(strings.TrimSpace(content))`. -/
def parseDigestFile (content : Str) : Except Str Digest :=
  match Digest.parseDigest (trimSpace content) with
  | .error e => .error (digestErrorText e)
  | .ok d => .ok d

/-- The content of an ID file, trimmed and checked. -/
def parseIDFile (what : Str) (content : Str) : Except Str Str :=
  if stringIDRegexp.accepts (trimSpace content) then .ok (trimSpace content)
  else .error ("invalid ".toList ++ what ++ " id value".toList)

/-- A file that must be there. -/
def required {α : Type} (parse : Str → Except Str α) (r : Except FsError Str) : Except Str α :=
  match r with
  | .error e => .error (fsErrorText e)
  | .ok content => parse content

/-- A file whose absence has a meaning of its own. -/
def optional {α : Type} (absent : α) (parse : Str → Except Str α) (r : Except FsError Str) :
    Except Str α :=
  match r with
  | .error .notExist => .ok absent
  | .error e => .error (fsErrorText e)
  | .ok content => parse content

/-- The loop of `ioutil.TempDir`, over the names it still may try. -/
def tempDir (dir : Path) (front : Str) : Nat → Call Str (FileWorld δ) Path
  | 0, w => (.error (fsErrorText .alreadyExists), w)
  | tries + 1, w =>
    let path := join dir [front ++ cfg.suffix w.draws]
    match mkdir path w.tree with
    | .ok t => (.ok path, { w with tree := t, draws := w.draws + 1 })
    | .error .alreadyExists => tempDir dir front tries { w with draws := w.draws + 1 }
    | .error e => (.error (fsErrorText e), { w with draws := w.draws + 1 })

/-- `StartTransaction`. A transaction is the path of its directory. -/
def startTransaction : Call Str (FileWorld δ) Path := do
  onTree (mkdirAll (join cfg.root [tmpDir]))
  tempDir cfg (join cfg.root [tmpDir]) ['l', 'a', 'y', 'e', 'r', '-'] 10000

/-- `ioutil.WriteFile` into the directory of a transaction. -/
def setFile (tx : Path) (file : Name) (content : Str) : Call Str (FileWorld δ) Unit :=
  onTree (writeFile (join tx [file]) content)

def commit (tx : Path) (layer : ChainID) : Call Str (FileWorld δ) Unit :=
  match getLayerDirectory cfg layer with
  | .error e => fun w => (.error e, w)
  | .ok finalDir => do
    onTree (mkdirAll finalDir.dropLast)
    onTree (rename tx finalDir)

/-- `SetMountID`, `SetInitID` and `SetMountParent`: make the directory, write
    the file. -/
def setMountFile (file : Name) (mount content : Str) : Call Str (FileWorld δ) Unit := do
  onTree (mkdirAll (getMountDirectory cfg mount))
  onTree (writeFile (join (getMountDirectory cfg mount) [file]) content)

/-- The layer ids among the entries of an algorithm's directory: what is not a
    digest is ignored. -/
def layerIDs (algorithm : Str) (infos : List (Name × Bool)) : List ChainID :=
  (subdirs infos).filterMap (fun n =>
    if n = mountsDir then none
    else match Digest.validate (Digest.newDigestFromHex algorithm n) with
      | .error _ => none
      | .ok _ => some (Digest.newDigestFromHex algorithm n))

/-- `List`. SHA-256 is the only supported algorithm. -/
def listTree (t : Node Str) : Except Str (List ChainID × List Str) :=
  match readDir (join cfg.root [Digest.sha256]) t with
  | .error .notExist => listMounts [] t
  | .error e => .error (fsErrorText e)
  | .ok infos => listMounts (layerIDs Digest.sha256 infos) t
where
  /-- The second half of `List`, the ids having been found. -/
  listMounts (ids : List ChainID) (t : Node Str) : Except Str (List ChainID × List Str) :=
    match readDir (join cfg.root [mountsDir]) t with
    | .error .notExist => .ok (ids, [])
    | .error e => .error (fsErrorText e)
    | .ok infos => .ok (ids, subdirs infos)

/-- `fileMetadataStore`, with its transactions. -/
def fileMetadataStore : MetadataStore (FileWorld δ) Path where
  startTransaction := startTransaction cfg
  setSize tx size := setFile tx sizeFile (formatInt size)
  setParent tx parent := setFile tx parentFile parent
  setDiffID tx diff := setFile tx diffFile diff
  setCacheID tx cacheID := setFile tx cacheIDFile cacheID
  setDescriptor tx ref := setFile tx descriptorFile (cfg.codec.marshal ref)
  -- What is written to it later is read by nothing that is modelled.
  tarSplitWriter tx _ := setFile tx tarSplitFile []
  commit := commit cfg
  cancel tx := onTree (fun t => .ok (removeAll tx t))
  getSize layer := askTree (fun t => do
    required (fun content => match parseInt content with
      | none => .error "invalid syntax".toList
      | some n => .ok n) (← readLayerFile cfg layer sizeFile t))
  getParent layer := askTree (fun t => do
    optional [] parseDigestFile (← readLayerFile cfg layer parentFile t))
  getDiffID layer := askTree (fun t => do
    required parseDigestFile (← readLayerFile cfg layer diffFile t))
  getCacheID layer := askTree (fun t => do
    required (parseIDFile "cache".toList) (← readLayerFile cfg layer cacheIDFile t))
  getDescriptor layer := askTree (fun t => do
    optional Descriptor.empty (fun content => match cfg.codec.unmarshal content with
      | none => .error "invalid JSON".toList
      | some d => .ok d) (← readLayerFile cfg layer descriptorFile t))
  setMountID := setMountFile cfg mountIDFile
  setInitID := setMountFile cfg initIDFile
  setMountParent := setMountFile cfg parentFile
  getMountID mount := askTree (fun t =>
    required (parseIDFile "mount".toList) (readMountFile cfg mount mountIDFile t))
  getInitID mount := askTree (fun t =>
    optional [] (parseIDFile "init".toList) (readMountFile cfg mount initIDFile t))
  getMountParent mount := askTree (fun t =>
    optional [] parseDigestFile (readMountFile cfg mount parentFile t))
  list := askTree (listTree cfg)
  remove layer := match getLayerDirectory cfg layer with
    | .error e => fun w => (.error e, w)
    | .ok dir => onTree (fun t => .ok (removeAll dir t))
  removeMount mount := onTree (fun t => .ok (removeAll (getMountDirectory cfg mount) t))

/-- The backend of a daemon: this metadata store, a graph driver, and the
    tar-split library, which like the driver knows nothing of the metadata. -/
def fileBackend (driver : Driver δ) (tar : TarData δ Path) : Backend (FileWorld δ) Path where
  driver :=
    { create := fun id parent mountLabel storageOpt =>
        onDriver (driver.create id parent mountLabel storageOpt)
      createReadWrite := fun id parent mountLabel storageOpt =>
        onDriver (driver.createReadWrite id parent mountLabel storageOpt)
      remove := fun id => onDriver (driver.remove id)
      get := fun id mountLabel => onDriver (driver.get id mountLabel)
      put := fun id => onDriver (driver.put id)
      existsID := fun id w => driver.existsID id w.driver
      applyDiff := fun id parent diff => onDriver (driver.applyDiff id parent diff) }
  store := fileMetadataStore cfg
  tar :=
    { newInputTarStream := fun tx ts => onDriver (tar.newInputTarStream tx ts)
      openTarData := fun file => onDriver (tar.openTarData file)
      copyTarData := fun tx file => onDriver (tar.copyTarData tx file) }

/-- A graph driver that keeps the ids it was given and nothing else. -/
def idDriver : Driver (List Str) where
  create id _ _ _ := fun ids => (.ok (), id :: ids)
  createReadWrite id _ _ _ := fun ids => (.ok (), id :: ids)
  remove id := fun ids => (.ok (), ids.filter (fun d => decide (d ≠ id)))
  get id _ := fun ids => (.ok id, ids)
  put _ := fun ids => (.ok (), ids)
  existsID id := fun ids => decide (id ∈ ids)
  applyDiff _ _ diff := fun ids => (.ok (Int64.ofNat diff.length), ids)

/-- The tar-split library when nothing in it fails. -/
def idTar : TarData (List Str) Path where
  newInputTarStream _ _ := pure ()
  openTarData _ := pure ()
  copyTarData _ _ := pure ()

/-- A metadata store at the root, which draws its temporary names in order. -/
def rootConfig : FileConfig where
  root := []
  suffix := Nat.toDigits 10
  codec := { marshal := fun d => d.digest, unmarshal := fun s => some ⟨[], 0, s, []⟩ }

/-- A daemon's backend that can be run. -/
def idBackend : Backend (FileWorld (List Str)) Path := fileBackend rootConfig idDriver idTar

/-- A world without files. -/
def emptyWorld : FileWorld (List Str) := { tree := .dir [], draws := 0, driver := [] }

end FileStore

end Dao.Layer
