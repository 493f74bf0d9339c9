import Dao.Core.Image.Store
import Dao.Core.Reference.Store
import Dao.Lib.PathName

/-!
# Loading an Image Archive

`Load` of the archive exporter. It unpacks an archive into a temporary
directory and reads the images described in it into the stores of the daemon:
with a `manifest.json` item by item, and without one in the legacy mode, where
every directory is an image that names its parent.

The unpacked archive does not change while it is read, so it is a function
from paths to contents. Whether a path stays in the directory is the answer of
`safePath`. The decoders are parameters, and a decoded map is a list in the
order it is iterated in. The layer that `loadLayer` registers comes from
`register`, which also decompresses.

`legacyLoadImage` loads the parent of an image first, by calling itself, and
nothing in the archive bounds how often. It is given fuel, and `none` is a
call that has not returned when the fuel is used up.
-/

namespace Dao.TarExport

open Lib Layer Image

structure ManifestItem where
  config : Str
  repoTags : List Str
  layers : List Str
  parent : ID
  layerSources : List (DiffID × Descriptor)

/-- Why a file cannot be opened. -/
inductive OpenError where
  | notExist
  | other (f : Fault)

/-- The unpacked archive: the directories at its top, where a path leads, and
    what is there. -/
structure Archive where
  dirs : Except Fault (List Str)
  safePath : Str → Except Fault Str
  readFile : Str → Except OpenError Bytes

def manifestFileName : Str := "manifest.json".toList
def legacyLayerFileName : Str := "layer.tar".toList
def legacyConfigFileName : Str := "json".toList
def legacyRepositoriesFileName : Str := "repositories".toList

/-- The errors of `Load`. -/
inductive LoadError where
  /-- The error of a call. -/
  | fault (f : Fault)
  /-- "invalid manifest, layers length mismatch: expected %q, got %q". -/
  | lengthMismatch (expected actual : Nat)
  /-- "invalid diffID for layer %d: expected %q, got %q". -/
  | invalidDiffID (i : Nat) (expected actual : DiffID)
  /-- "invalid tag %q". -/
  | invalidTag (repoTag : Str)
  /-- The error of a reference. -/
  | reference (e : Reference.RefError)
  /-- The error of the reference store. -/
  | store (e : Reference.StoreError)
  /-- "image %v is not a valid parent for %v". -/
  | invalidParent (parent id : ID)
  /-- "invalid target ID: %v". -/
  | invalidTarget (oldID : Str)
  /-- The error of closing a file that was not opened. -/
  | invalidArgument

/-- The error of a file, where its absence is an error like the others. -/
def OpenError.toLoadError : OpenError → LoadError
  | .notExist => .fault (.error "no such file or directory".toList)
  | .other f => .fault f

/-- What `Load` is built over: the stores, and the decoders. -/
structure Exporter (φ ψ η ρ : Type) where
  is : Ports φ ψ η
  register : Bytes → ChainID → Descriptor → Call Fault ψ η
  diffID : η → DiffID
  codec : Reference.Codec ρ
  decodeManifest : Bytes → Except Fault (List ManifestItem)
  decodeRepositories : Bytes → Except Fault (List (Str × List (Str × Str)))
  decodeParent : Bytes → Except Fault Str
  historyFromConfig : Bytes → Except Fault History
  makeConfigFromV1Config : Bytes → RootFS → List History → Except Fault Bytes

/-- The stores. `saves` says which of the coming writes of the reference store
    succeed, `held` are the layers whose release is deferred, the last one
    first. `created` is not of the program: the configurations that were given
    to `Create`. -/
structure World (φ ψ η ρ : Type) where
  images : Image.Sys φ ψ η
  refs : Reference.Sys ρ
  saves : List Bool
  held : List η
  created : List Bytes

section Calls

variable {φ ψ η ρ : Type} (ex : Exporter φ ψ η ρ)

/-- What was computed without the stores. -/
def check {ω α : Type} (x : Except Fault α) : Call LoadError ω α := fun w =>
  match x with
  | .error e => (.error (.fault e), w)
  | .ok a => (.ok a, w)

/-- A call of the layer store. -/
def onLayers {α : Type} (x : Call Fault ψ α) : Call LoadError (World φ ψ η ρ) α := fun w =>
  let w' := { w with images := { w.images with layers := (x w.images.layers).2 } }
  match (x w.images.layers).1 with
  | .error e => (.error (.fault e), w')
  | .ok a => (.ok a, w')

/-- `Create`, whose two halves are not interrupted here. -/
def create (config : Bytes) : Call LoadError (World φ ψ η ρ) ID := fun w =>
  let (r, fs) := createSet ex.is config w.images.fs
  let w := { w with images := { w.images with fs := fs }, created := w.created ++ [config] }
  match r with
  | .error e => (.error (.fault e), w)
  | .ok c =>
    let (r, store, layers) := createLocked ex.is c w.images.store w.images.layers
    let w := { w with images := { w.images with store := store, layers := layers } }
    match r with
    | .error e => (.error (.fault e), w)
    | .ok _ => (.ok c.imageID, w)

/-- `Get` of the image store. -/
def getImage (id : ID) : Call LoadError (World φ ψ η ρ) (Image × RootFS) := fun w =>
  match Image.get ex.is id w.images.fs with
  | .error e => (.error (.fault e), w)
  | .ok (img, r, _) => (.ok (img, r), w)

def setParent (id parent : ID) : Call LoadError (World φ ψ η ρ) Unit := fun w =>
  let (r, images) := Image.setParent ex.is id parent w.images
  match r with
  | .error e => (.error (.fault e), { w with images := images })
  | .ok _ => (.ok (), { w with images := images })

/-- `AddTag` with force. -/
def addTag (ref : Reference.Named) (id : ID) : Call LoadError (World φ ψ η ρ) Unit := fun w =>
  let (r, refs) := Reference.addTag ex.codec ref id true (w.saves.headD true) w.refs
  let w := { w with refs := refs, saves := w.saves.tail }
  match r with
  | .error e => (.error (.store e), w)
  | .ok _ => (.ok (), w)

/-- `setLoadedTag`, whose error nobody looks at. -/
def setLoadedTag (ref : Reference.Named) (id : ID) : Call LoadError (World φ ψ η ρ) Unit := do
  let _ ← Call.observe (addTag ex ref id)
  pure ()

/-- `defer layer.ReleaseAndLog`. -/
def hold (h : η) : Call LoadError (World φ ψ η ρ) Unit := fun w =>
  (.ok (), { w with held := h :: w.held })

/-- The deferred releases, whose errors are logged. -/
def releaseHeld (w : World φ ψ η ρ) : World φ ψ η ρ :=
  { w with
    images := { w.images with
      layers := w.held.foldl (fun lw h => (ex.is.ls.release h lw).2) w.images.layers }
    held := [] }

/-- The file a path of the archive leads to. -/
def readSafe (ar : Archive) (path : Str) : Except LoadError Bytes :=
  match ar.safePath path with
  | .error e => .error (.fault e)
  | .ok file =>
    match ar.readFile file with
    | .error e => .error e.toLoadError
    | .ok content => .ok content

/-- What was read from the archive. -/
def given {ω α : Type} (x : Except LoadError α) : Call LoadError ω α := fun w => (x, w)

def loadLayer (ar : Archive) (file : Str) (rootFS : RootFS) (foreignSrc : Descriptor) :
    Call LoadError (World φ ψ η ρ) η :=
  match ar.readFile file with
  | .error e => Call.raise e.toLoadError
  | .ok rawTar => onLayers (ex.register rawTar rootFS.chainID foreignSrc)

end Calls

section Manifest

variable {φ ψ η ρ : Type} (ex : Exporter φ ψ η ρ) (ar : Archive)

/-- The layer of a chain, which is loaded from the archive when it is not in
    the store. -/
def getOrLoadLayer (m : ManifestItem) (file : Str) (rootFS : RootFS) (diffID : DiffID) :
    Call LoadError (World φ ψ η ρ) η := do
  match ← Call.observe (onLayers (ex.is.ls.get (rootFS.append diffID).chainID)) with
  | .ok l => pure l
  | .error _ => loadLayer ex ar file rootFS ((m.layerSources.lookup diffID).getD .empty)

/-- The loop over the layers of an image, from its `i`-th on. -/
def loadLayers (m : ManifestItem) : Nat → List (DiffID × Str) → RootFS →
    Call LoadError (World φ ψ η ρ) Unit
  | _, [], _ => pure ()
  | i, (diffID, layer) :: rest, rootFS => do
    let file ← check (ar.safePath layer)
    let l ← getOrLoadLayer ex ar m file rootFS diffID
    hold l
    if ex.diffID l ≠ diffID then Call.raise (.invalidDiffID i diffID (ex.diffID l))
    else loadLayers m (i + 1) rest (rootFS.append diffID)

/-- A tag of an image. -/
def loadTag (imgID : ID) (repoTag : Str) : Call LoadError (World φ ψ η ρ) Unit :=
  match Reference.parseNamed repoTag with
  | .error e => Call.raise (.reference e)
  | .ok ref =>
    if ref.tag = none then Call.raise (.invalidTag repoTag) else setLoadedTag ex ref imgID

structure ParentLink where
  id : ID
  parentID : ID
  deriving DecidableEq

/-- The body of the loop over the manifest. -/
def loadItem (m : ManifestItem) : Call LoadError (World φ ψ η ρ) ParentLink := do
  let config ← given (readSafe ar m.config)
  match newFromJSON ex.is.unmarshal config with
  | .error e => Call.raise (.fault (.error e))
  | .ok (_, rootFS) =>
    if m.layers.length ≠ rootFS.diffIDs.length then
      Call.raise (.lengthMismatch m.layers.length rootFS.diffIDs.length)
    else
      loadLayers ex ar m 0 (rootFS.diffIDs.zip m.layers) { rootFS with diffIDs := [] }
      let imgID ← create ex config
      m.repoTags.forM (loadTag ex imgID)
      pure ⟨imgID, m.parent⟩

/-- The loop over the manifest. -/
def loadItems : List ManifestItem → Call LoadError (World φ ψ η ρ) (List ParentLink)
  | [] => pure []
  | m :: ms => do
    let link ← loadItem ex ar m
    let links ← loadItems ms
    pure (link :: links)

/-- `validatedParentLinks`: a link to an image that is not another one of the
    archive is cleared. -/
def validatedParentLinks (pl : List ParentLink) : List ParentLink :=
  pl.map (fun p =>
    if pl.any (fun p2 => p2.id = p.parentID && p2.id ≠ p.id) then p else { p with parentID := [] })

def checkValidParent (img parent : Image) : Bool :=
  if img.history.length = 0 && parent.history.length = 0 then true
  else if img.history.length ≠ parent.history.length + 1 then false
  else parent.history.zip img.history |>.all (fun h => h.1 = h.2)

def setParentID (id parentID : ID) : Call LoadError (World φ ψ η ρ) Unit := do
  let (img, _) ← getImage ex id
  let (parent, _) ← getImage ex parentID
  if checkValidParent img parent then setParent ex id parentID
  else Call.raise (.invalidParent parentID id)

/-- The loop over the links. -/
def setParents (links : List ParentLink) : Call LoadError (World φ ψ η ρ) Unit :=
  links.forM (fun p => if p.parentID = [] then pure () else setParentID ex p.id p.parentID)

/-- `Load` from the manifest on, without the deferred calls. -/
def loadManifest (content : Bytes) : Call LoadError (World φ ψ η ρ) Unit := do
  let manifest ← check (ex.decodeManifest content)
  let links ← loadItems ex ar manifest
  setParents ex (validatedParentLinks links)

end Manifest

section Legacy

variable {φ ψ η ρ : Type} (ex : Exporter φ ψ η ρ) (ar : Archive)

/-- The stores and `legacyLoadedMap`. `entered` is not of the program: the
    names of the images that were not found in the map, in order. -/
structure Legacy (φ ψ η ρ : Type) where
  world : World φ ψ η ρ
  loadedMap : AMap Str ID
  entered : List Str

/-- What `legacyLoadImage` reads before it looks for the parent: the JSON of
    the image, and the name of the parent. -/
def readImageJSON (oldID : Str) : Except LoadError (Bytes × Str) :=
  match readSafe ar (PathName.joinTwo oldID legacyConfigFileName) with
  | .error e => .error e
  | .ok imageJSON =>
    match ex.decodeParent imageJSON with
    | .error e => .error (.fault e)
    | .ok parent => .ok (imageJSON, parent)

/-- What an image starts from: the root filesystem and the history of its
    parent, if it has one. -/
def inherited (parentID : ID) : Call LoadError (World φ ψ η ρ) (RootFS × List History) :=
  if parentID = [] then pure (newRootFS, [])
  else do
    let (parentImg, rootFS) ← getImage ex parentID
    pure (rootFS, parentImg.history)

/-- `legacyLoadImage` from the point on where the parent is loaded. -/
def legacyAddImage (oldID : Str) (imageJSON : Bytes) (parentID : ID) :
    Call LoadError (World φ ψ η ρ) ID := do
  let (rootFS, history) ← inherited ex parentID
  let file ← check (ar.safePath (PathName.joinTwo oldID legacyLayerFileName))
  let newLayer ← loadLayer ex ar file rootFS .empty
  let h ← check (ex.historyFromConfig imageJSON)
  let config ← check (ex.makeConfigFromV1Config imageJSON
    (rootFS.append (ex.diffID newLayer)) (history ++ [h]))
  let imgID ← create ex config
  let _ ← onLayers (ex.is.ls.release newLayer)
  Call.onlyIf (parentID ≠ []) (setParent ex imgID parentID)
  pure imgID

/-- The loop of `legacyLoadImage`: the parent is loaded until it is found in
    the map. -/
def loadParent (load : Str → Legacy φ ψ η ρ → Option (Except LoadError Unit × Legacy φ ψ η ρ))
    (parent : Str) : Nat → Legacy φ ψ η ρ → Option (Except LoadError ID × Legacy φ ψ η ρ)
  | 0, _ => none
  | fuel + 1, l =>
    match l.loadedMap.lookup parent with
    | some parentID => some (.ok parentID, l)
    | none =>
      match load parent l with
      | none => none
      | some (.error e, l') => some (.error e, l')
      | some (.ok _, l') => loadParent load parent fuel l'

/-- An image that is not in the map. -/
def Legacy.enter (l : Legacy φ ψ η ρ) (oldID : Str) : Legacy φ ψ η ρ :=
  { l with entered := l.entered ++ [oldID] }

/-- The end of `legacyLoadImage`: the image is added, and entered in the map. -/
def afterParent (oldID : Str) (imageJSON : Bytes) (parentID : ID) (l : Legacy φ ψ η ρ) :
    Except LoadError Unit × Legacy φ ψ η ρ :=
  match legacyAddImage ex ar oldID imageJSON parentID l.world with
  | (.error e, w) => (.error e, { l with world := w })
  | (.ok imgID, w) => (.ok (), { l with world := w, loadedMap := l.loadedMap.insert oldID imgID })

def legacyLoadImage : Nat → Str → Legacy φ ψ η ρ →
    Option (Except LoadError Unit × Legacy φ ψ η ρ)
  | 0, _, _ => none
  | fuel + 1, oldID, l =>
    match l.loadedMap.lookup oldID with
    | some _ => some (.ok (), l)
    | none =>
      match readImageJSON ex ar oldID with
      | .error e => some (.error e, l.enter oldID)
      | .ok (imageJSON, parent) =>
        match if parent = [] then some (.ok [], l.enter oldID)
          else loadParent (legacyLoadImage fuel) parent fuel (l.enter oldID) with
        | none => none
        | some (.error e, l') => some (.error e, l')
        | some (.ok parentID, l') => some (afterParent ex ar oldID imageJSON parentID l')

/-- The loop over the directories. -/
def legacyLoadImages (fuel : Nat) : List Str → Legacy φ ψ η ρ →
    Option (Except LoadError Unit × Legacy φ ψ η ρ)
  | [], l => some (.ok (), l)
  | d :: ds, l =>
    match legacyLoadImage ex ar fuel d l with
    | none => none
    | some (.error e, l') => some (.error e, l')
    | some (.ok _, l') => legacyLoadImages fuel ds l'

/-- One tag of the repositories file. -/
def legacyTag (loadedMap : AMap Str ID) (name : Str) (e : Str × Str) :
    Call LoadError (World φ ψ η ρ) Unit :=
  match loadedMap.lookup e.2 with
  | none => Call.raise (.invalidTarget e.2)
  | some imgID =>
    match Reference.withName name with
    | .error err => Call.raise (.reference err)
    | .ok named =>
      match Reference.withTag named e.1 with
      | .error err => Call.raise (.reference err)
      | .ok ref => setLoadedTag ex ref imgID

/-- The tags from the repositories file. When there is none, what is closed is
    a file that was not opened. -/
def legacyTags (loadedMap : AMap Str ID) : Call LoadError (World φ ψ η ρ) Unit := do
  let file ← check (ar.safePath legacyRepositoriesFileName)
  match ar.readFile file with
  | .error .notExist => Call.raise .invalidArgument
  | .error (.other f) => Call.raise (.fault f)
  | .ok content => do
    let repositories ← check (ex.decodeRepositories content)
    repositories.forM (fun r => r.2.forM (legacyTag ex loadedMap r.1))

/-- `legacyLoad`, with what it has loaded. -/
def legacyLoad (fuel : Nat) (w : World φ ψ η ρ) :
    Option (Except LoadError Unit × Legacy φ ψ η ρ) :=
  match ar.dirs with
  | .error e => some (.error (.fault e), ⟨w, ∅, []⟩)
  | .ok dirs =>
    match legacyLoadImages ex ar fuel dirs ⟨w, ∅, []⟩ with
    | none => none
    | some (.error e, l) => some (.error e, l)
    | some (.ok _, l) =>
      let (r, w') := legacyTags ex ar l.loadedMap l.world
      some (r, { l with world := w' })

/-- `Load`, of an archive that could be unpacked. -/
def load (fuel : Nat) (w : World φ ψ η ρ) : Option (Except LoadError Unit × World φ ψ η ρ) :=
  match ar.safePath manifestFileName with
  | .error e => some (.error (.fault e), w)
  | .ok file =>
    match ar.readFile file with
    | .error .notExist => (legacyLoad ex ar fuel w).map (fun r => (r.1, r.2.world))
    | .error (.other _) => some (.error .invalidArgument, w)
    | .ok content =>
      let (r, w') := loadManifest ex ar content { w with held := [] }
      some (r, releaseHeld ex w')

end Legacy

/-- A decoder that can be run: after its first byte, a configuration has a byte
    for each step of the history. -/
def stepsDecoder : Decoder
  | [] => .error "unexpected end of JSON input".toList
  | _ :: steps => .ok ⟨some newRootFS, steps.map (fun b => ⟨[Char.ofNat b.toNat], true⟩)⟩

/-- An exporter that can be run, whose archives have one manifest. The JSON of a
    legacy image is the name of its parent, and every layer is the one layer of
    the daemon. -/
def plainExporter (manifest : List ManifestItem) :
    Exporter (Node Bytes) (LayerStore × FileWorld (List Str)) (ChainID × Nat)
      Reference.Repositories where
  is := { idPorts with unmarshal := stepsDecoder }
  register _ _ _ := idPorts.ls.get aDiffID
  diffID h := h.1
  codec := ⟨fun m => m, some, fun m => ⟨m, rfl, fun _ _ => rfl⟩⟩
  decodeManifest _ := .ok manifest
  decodeRepositories _ := .ok []
  decodeParent json := .ok (ofUtf8 json)
  historyFromConfig _ := .ok ⟨[], false⟩
  makeConfigFromV1Config _ _ history := .ok (0 :: history.map (fun _ => 1))

/-- A daemon with one layer, no images and no references. -/
def plainWorld : World (Node Bytes) (LayerStore × FileWorld (List Str)) (ChainID × Nat)
    Reference.Repositories :=
  ⟨idSys, ⟨.empty, none⟩, [], [], []⟩

/-- An archive of directories, with the files it has. -/
def plainArchive (dirs : List Str) (files : List (Str × Bytes)) : Archive where
  dirs := .ok dirs
  safePath := .ok
  readFile path := match files.lookup path with
    | none => .error .notExist
    | some content => .ok content

end Dao.TarExport
