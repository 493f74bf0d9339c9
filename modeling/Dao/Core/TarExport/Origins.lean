import Dao.Core.TarExport.Load

/-!
# Where Images Come From

The operations of the daemon that make images and give them parents: loading
an archive, committing a container, and migrating the images of an older
daemon; with the deletion of images, and with those that only create one, a
pull or an import.

`Commit` and `migrateImage` build on an image as a legacy archive does: the
new image has the root filesystem and the history of its parent, with a layer
and an entry more. `migrateImage` migrates the parent first and takes fuel like
`legacyLoadImage`.

What a container or the graph directory holds is an argument of the call, and
so are the mappings of an earlier migration.
-/

namespace Dao.TarExport

open Lib Layer Image

/-- What the operations are built over. `marshalImage` is `json.Marshal` of an
    `Image`, whose other fields are the first argument: what it writes is read
    back with the history it was written with. -/
structure Origins (φ ψ η ρ : Type) extends Exporter φ ψ η ρ where
  registerTar : Bytes → ChainID → Call Fault ψ η
  registerByGraphID : Str → ChainID → DiffID → Int → Call Fault ψ η
  marshalImage : Bytes → RootFS → List History → Except Fault Bytes
  marshalImage_reads : ∀ others r history config, marshalImage others r history = .ok config →
    ∃ img, is.unmarshal config = .ok img ∧ img.history = history

def digestSHA256EmptyTar : DiffID :=
  "sha256:5f70bf18a086007016e948b04aed3b82103a36bea41755b6cddfaf10ace3c6ef".toList

/-- What `Commit` is called with: the image of the container, its files, the
    entry for the history, the other fields of the configuration, and the
    name for the new image. -/
structure CommitRequest where
  imageID : ID
  rwTar : Bytes
  record : Str
  others : Bytes
  repo : Str
  tag : Str

/-- What `migrateImage` reads under the graph directory. -/
structure Graph where
  dirs : Except Fault (List Str)
  getParent : Str → Except Fault Str
  diffID : Str → Except Fault DiffID
  size : Str → Except Fault Int
  json : Str → Except Fault Bytes

section Operations

variable {φ ψ η ρ : Type} (o : Origins φ ψ η ρ)

/-- The reference a commit is tagged with. -/
def commitTag (repo tag : Str) : Except LoadError Reference.Named :=
  match Reference.withName repo with
  | .error e => .error (.reference e)
  | .ok newTag =>
    if tag = [] then .ok newTag
    else match Reference.withTag newTag tag with
      | .error e => .error (.reference e)
      | .ok newTag => .ok newTag

/-- `Commit` from the registered layer on. -/
def commitLayer (c : CommitRequest) (rootFS : RootFS) (history : List History) (l : η) :
    Call LoadError (World φ ψ η ρ) ID := do
  let isEmpty := o.diffID l = digestSHA256EmptyTar
  let rootFS := if isEmpty then rootFS else rootFS.append (o.diffID l)
  let config ← check (o.marshalImage c.others rootFS (history ++ [⟨c.record, isEmpty⟩]))
  let id ← create o.toExporter config
  Call.onlyIf (c.imageID ≠ []) (setParent o.toExporter id c.imageID)
  if c.repo = [] then pure id
  else
    let newTag ← given (commitTag c.repo c.tag)
    addTag o.toExporter newTag id
    pure id

/-- `Commit`, with the deferred release of the layer. -/
def commit (c : CommitRequest) : Call LoadError (World φ ψ η ρ) ID := do
  let (rootFS, history) ← inherited o.toExporter c.imageID
  let l ← onLayers (o.registerTar c.rwTar rootFS.chainID)
  let r ← Call.observe (commitLayer o c rootFS history l)
  let _ ← Call.observe (onLayers (o.is.ls.release l))
  given r

/-- The stores and the mappings of the migration. -/
structure Migration (φ ψ η ρ : Type) where
  world : World φ ψ η ρ
  mappings : AMap Str ID

/-- `migrateImage` from the point on where the parent is migrated. -/
def migrateBody (g : Graph) (id : Str) (parentID : ID) : Call LoadError (World φ ψ η ρ) ID := do
  let (rootFS, history) ← inherited o.toExporter parentID
  let diffID ← check (g.diffID id)
  let size ← check (g.size id)
  let layer ← onLayers (o.registerByGraphID id rootFS.chainID diffID size)
  let imageJSON ← check (g.json id)
  let h ← check (o.historyFromConfig imageJSON)
  let config ← check (o.makeConfigFromV1Config imageJSON
    (rootFS.append (o.diffID layer)) (history ++ [h]))
  let strongID ← create o.toExporter config
  Call.onlyIf (parentID ≠ []) (setParent o.toExporter strongID parentID)
  let _ ← onLayers (o.is.ls.release layer)
  pure strongID

/-- The end of `migrateImage`. -/
def afterMigration (g : Graph) (id : Str) (parentID : ID) (m : Migration φ ψ η ρ) :
    Except LoadError Unit × Migration φ ψ η ρ :=
  match migrateBody o g id parentID m.world with
  | (.error e, w) => (.error e, { m with world := w })
  | (.ok strongID, w) => (.ok (), ⟨w, m.mappings.insert id strongID⟩)

def migrateImage (g : Graph) : Nat → Str → Migration φ ψ η ρ →
    Option (Except LoadError Unit × Migration φ ψ η ρ)
  | 0, _, _ => none
  | fuel + 1, id, m =>
    match g.getParent id with
    | .error e => some (.error (.fault e), m)
    | .ok parent =>
      if parent = [] then some (afterMigration o g id [] m)
      else match m.mappings.lookup parent with
        | some parentID => some (afterMigration o g id parentID m)
        | none =>
          match migrateImage g fuel parent m with
          | none => none
          | some (.error e, m') => some (.error e, m')
          | some (.ok _, m') =>
            some (afterMigration o g id ((m'.mappings.lookup parent).getD []) m')

/-- The loop of `migrateImages`, which goes on after an error. -/
def migrateLoop (g : Graph) (fuel : Nat) : List Str → Migration φ ψ η ρ → Option (Migration φ ψ η ρ)
  | [], m => some m
  | v1ID :: rest, m =>
    if Reference.validateID v1ID = false ∨ (m.mappings.lookup v1ID).isSome = true then
      migrateLoop g fuel rest m
    else match migrateImage o g fuel v1ID m with
      | none => none
      | some (_, m') => migrateLoop g fuel rest m'

def migrateImages (g : Graph) (fuel : Nat) (m : Migration φ ψ η ρ) :
    Option (Migration φ ψ η ρ) :=
  match g.dirs with
  | .error _ => some m
  | .ok dirs => migrateLoop o g fuel dirs m

/-- A call. -/
inductive Action where
  | load (ar : Archive) (fuel : Nat)
  | commit (c : CommitRequest)
  | migrate (g : Graph) (mappings : AMap Str ID) (fuel : Nat)
  | create (config : Bytes)
  | delete (id : ID) (order : Order)

/-- One call. The system has no next state when the call has not returned. -/
def step (a : Action) (w : World φ ψ η ρ) : Except Unit (Unit × World φ ψ η ρ) :=
  match a with
  | .load ar fuel =>
    match TarExport.load o.toExporter ar fuel w with
    | none => .error ()
    | some (_, w') => .ok ((), w')
  | .commit c => .ok ((), (TarExport.commit o c w).2)
  | .migrate g mappings fuel =>
    match migrateImages o g fuel ⟨w, mappings⟩ with
    | none => .error ()
    | some m => .ok ((), m.world)
  | .create config => .ok ((), (TarExport.create o.toExporter config w).2)
  | .delete id order => .ok ((), { w with images := (Image.delete o.is id order w.images).2 })

end Operations

/-- Operations that can be run. -/
def plainOrigins (manifest : List ManifestItem) :
    Origins (Node Bytes) (LayerStore × FileWorld (List Str)) (ChainID × Nat)
      Reference.Repositories where
  toExporter := plainExporter manifest
  registerTar _ _ := idPorts.ls.get aDiffID
  registerByGraphID _ _ _ _ := idPorts.ls.get aDiffID
  marshalImage _ _ history :=
    let config := 0 :: history.map (fun h => UInt8.ofNat (h.record.headD 'a').toNat)
    if (stepsDecoder config).map Image.history = .ok history then .ok config
    else .error (.error [])
  marshalImage_reads _ _ history config h := by
    simp only at h
    split at h
    · next hreads =>
      rw [← Except.ok.inj h]
      cases hdec : stepsDecoder
          (0 :: history.map (fun h => UInt8.ofNat (h.record.headD 'a').toNat)) with
      | error e =>
        rw [hdec] at hreads
        exact nomatch hreads
      | ok img =>
        rw [hdec] at hreads
        exact ⟨img, hdec, Except.ok.inj hreads⟩
    · exact nomatch h

end Dao.TarExport
