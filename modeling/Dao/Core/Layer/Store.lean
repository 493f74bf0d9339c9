import Dao.Core.Layer.Backend
import Dao.Lib.AMap

/-!
# The Layer Store

The in-memory state of `layerStore` and the functions that run under its
locks.

A `*roLayer` is a value here, not an address. Its fields are set before it is
put into `layerMap` and never change afterwards, except for the reference
count and the set of references, so those two live in a cell at the layer's
`ptr` and the rest is data. A layer then carries its parent inside it, which
makes `depth`, `Size` and the loop of `releaseLayer` recursions on the layer,
and makes a cycle of parents impossible to write down. The `ptr` is the
identity of the object: a layer that is removed and registered again is
another object, and a stale handle does not release it.

`releaseLayer` returns a `Panic` where the source calls `panic`. One round of
its loop is `releaseOne`, which either answers or asks to go on.
-/

namespace Dao.Layer

open Lib

/-- The fields of a `roLayer` that are fixed once it is in the map. -/
structure LayerInfo where
  ptr : Nat
  chainID : ChainID
  diffID : DiffID
  cacheID : Str
  size : Int64
  descriptor : Descriptor
  deriving DecidableEq

/-- A read-only layer: without a parent, or on top of one. -/
inductive RoLayer where
  | base (info : LayerInfo)
  | child (info : LayerInfo) (parent : RoLayer)
  deriving DecidableEq

namespace RoLayer

def info : RoLayer → LayerInfo
  | base i => i
  | child i _ => i

def parent : RoLayer → Option RoLayer
  | base _ => none
  | child _ p => some p

/-- The layer over an optional parent. -/
def mk (i : LayerInfo) : Option RoLayer → RoLayer
  | none => base i
  | some p => child i p

def ptr (l : RoLayer) : Nat := l.info.ptr
def chainID (l : RoLayer) : ChainID := l.info.chainID
def diffID (l : RoLayer) : DiffID := l.info.diffID
def cacheID (l : RoLayer) : Str := l.info.cacheID

/-- The identity of the parent, if there is one. -/
def parentPtr (l : RoLayer) : Option Nat := l.parent.map ptr

def depth : RoLayer → Nat
  | base _ => 1
  | child _ p => p.depth + 1

/-- `Size`: the size of the layer and everything below it. -/
def totalSize : RoLayer → Int64
  | base i => i.size
  | child i p => p.totalSize + i.size

/-- The diff IDs on the path from the root to the layer. -/
def diffIDs : RoLayer → List DiffID
  | base i => [i.diffID]
  | child i p => p.diffIDs ++ [i.diffID]

end RoLayer

/-- The two fields of a `roLayer` that change: `referenceCount` and
    `references`. -/
structure Cell where
  referenceCount : Nat
  references : Finset Nat

/-- A `mountedLayer`. The initID is empty when there is no init layer. -/
structure MountedLayer where
  name : Str
  mountID : Str
  initID : Str
  parent : Option RoLayer
  references : Finset Nat

namespace MountedLayer

def parentPtr (m : MountedLayer) : Option Nat := m.parent.map RoLayer.ptr

end MountedLayer

/-- `layerStore`. `cells` holds the changing fields of every object ever made;
    `nextPtr` and `nextRef` are the next unused identities of a layer and of a
    reference handle. -/
structure LayerStore where
  layerMap : AMap ChainID RoLayer
  mounts : AMap Str MountedLayer
  cells : Nat → Cell
  nextPtr : Nat
  nextRef : Nat

/-- A store with no layers and no mounts. -/
def LayerStore.empty : LayerStore :=
  { layerMap := ∅, mounts := ∅, cells := fun _ => ⟨0, ∅⟩, nextPtr := 0, nextRef := 0 }

/-- The errors of the package, and the text of a failed backend call. -/
inductive Err where
  | layerDoesNotExist
  | layerNotRetained
  | mountDoesNotExist
  | mountNameConflict
  | maxDepthExceeded
  | mismatchedParent
  | mountAlreadyExists
  | graphIDDoesNotExist (id : Str)
  | backend (msg : Str)
  deriving DecidableEq

/-- The places where the package panics. The first three are in
    `releaseLayer`; the last is the dereference of an absent parent. -/
inductive Panic where
  | layerNotRetained
  | removeLayerWithChild
  | deleteReferencedLayer
  | nilParent
  deriving DecidableEq

/-- `Metadata`, what a release reports about a layer it removed. -/
structure Metadata where
  chainID : ChainID
  diffID : DiffID
  size : Int64
  diffSize : Int64
  deriving DecidableEq

def maxLayerDepth : Nat := 125

namespace LayerStore

/-- Change one cell. -/
def setCell (ls : LayerStore) (q : Nat) (c : Cell) : LayerStore :=
  { ls with cells := Function.update ls.cells q c }

/-- `l.referenceCount++` -/
def retain (ls : LayerStore) (l : RoLayer) : LayerStore :=
  ls.setCell l.ptr
    { ls.cells l.ptr with referenceCount := (ls.cells l.ptr).referenceCount + 1 }

def getWithoutLock (ls : LayerStore) (c : ChainID) : Option RoLayer × LayerStore :=
  match ls.layerMap.lookup c with
  | none => (none, ls)
  | some l => (some l, ls.retain l)

/-- `getReference` on a layer: a fresh handle enters its references. -/
def getReference (ls : LayerStore) (l : RoLayer) : Nat × LayerStore :=
  (ls.nextRef, { ls.setCell l.ptr
    { ls.cells l.ptr with references := insert ls.nextRef (ls.cells l.ptr).references } with
    nextRef := ls.nextRef + 1 })

/-- `deleteReference` on a layer. -/
def deleteReference (ls : LayerStore) (l : RoLayer) (ref : Nat) : LayerStore :=
  ls.setCell l.ptr { ls.cells l.ptr with references := (ls.cells l.ptr).references.erase ref }

/-- Publish a new layer: allocate the object with count one, then
    `ls.layerMap[layer.chainID] = layer`. -/
def publish (ls : LayerStore) (l : RoLayer) : LayerStore :=
  { ls.setCell l.ptr ⟨1, ∅⟩ with
    layerMap := ls.layerMap.insert l.chainID l, nextPtr := ls.nextPtr + 1 }

/-- `getReference` on a mount. -/
def getMountReference (ls : LayerStore) (m : MountedLayer) : Nat × LayerStore :=
  (ls.nextRef, { ls with
    mounts := ls.mounts.insert m.name
      { m with references := insert ls.nextRef m.references },
    nextRef := ls.nextRef + 1 })

end LayerStore

section Calls

variable {ω τ : Type} (b : Backend ω τ)

/-- `deleteLayer`, up to the metadata it fills in. -/
def deleteLayer (l : RoLayer) : Call Str ω Metadata := do
  b.driver.remove l.cacheID
  b.store.remove l.chainID
  pure ⟨l.chainID, l.diffID, l.totalSize, l.info.size⟩

/-- `storeLayer`. The layer's own fields are given one by one, the layer not
    existing as an object before it is published. -/
def storeLayer (tx : τ) (diffID : DiffID) (size : Int64) (cacheID : Str)
    (descriptor : Descriptor) (parent : Option RoLayer) : Call Str ω Unit := do
  b.store.setDiffID tx diffID
  b.store.setSize tx size
  b.store.setCacheID tx cacheID
  -- Do not store empty descriptors.
  if descriptor.digest = [] then pure () else b.store.setDescriptor tx descriptor
  match parent with
  | none => pure ()
  | some p => b.store.setParent tx p.chainID

/-- `applyTar`: the size the driver extracted and the digest of what was
    read. -/
def applyTar (tx : τ) (ts : Bytes) (parent cacheID : Str) : Call Str ω (Int64 × DiffID) := do
  b.store.tarSplitWriter tx true
  b.tar.newInputTarStream tx ts
  let applySize ← b.driver.applyDiff cacheID parent ts
  pure (applySize, Digest.fromBytes ts)

/-- The init layer's name, `<graph-id>-init`. -/
def initIDOf (graphID : Str) : Str := graphID ++ ['-', 'i', 'n', 'i', 't']

/-- `initMount` from the mounted init layer on. A failed `initFunc` puts the
    mount back before it returns. -/
def runInitFunc (initID : Str) (initFunc : Str → Call Str ω Unit) (p : Str) : Call Str ω Str :=
  fun w =>
    match initFunc p w with
    | (.error e, w') => (.error e, (b.driver.put initID w').2)
    | (.ok _, w') => (do b.driver.put initID; pure initID : Call Str ω Str) w'

def initMount (graphID parent mountLabel : Str) (initFunc : Str → Call Str ω Unit)
    (storageOpt : List (Str × Str)) : Call Str ω Str := do
  b.driver.create (initIDOf graphID) parent mountLabel storageOpt
  let p ← b.driver.get (initIDOf graphID) []
  runInitFunc b (initIDOf graphID) initFunc p

/-- The calls of `saveMount`, before it enters the mount into the map. -/
def saveMountCalls (m : MountedLayer) : Call Str ω Unit := do
  b.store.setMountID m.name m.mountID
  if m.initID = [] then pure () else b.store.setInitID m.name m.initID
  match m.parent with
  | none => pure ()
  | some p => b.store.setMountParent m.name p.chainID

/-- What one round of the loop in `releaseLayer` leads to. -/
inductive Round (ω : Type) where
  | done (res : Except Err (List Metadata)) (ls : LayerStore) (w : ω)
  | next (removed : List Metadata) (ls : LayerStore) (w : ω)

/-- One round of the loop in `releaseLayer`, up to `l = l.parent`. -/
def releaseOne (depth : Nat) (removed : List Metadata) (l : RoLayer) (ls : LayerStore) (w : ω) :
    Except Panic (Round ω) :=
  let cell := ls.cells l.ptr
  if cell.referenceCount = 0 then .error .layerNotRetained
  else
    let ls := ls.setCell l.ptr { cell with referenceCount := cell.referenceCount - 1 }
    if cell.referenceCount - 1 ≠ 0 then .ok (.done (.ok removed) ls w)
    else if removed = [] ∧ depth > 0 then .error .removeLayerWithChild
    else if cell.references.Nonempty then .error .deleteReferencedLayer
    else match deleteLayer b l w with
      | (.error e, w') => .ok (.done (.error (.backend e)) ls w')
      | (.ok metadata, w') =>
        .ok (.next (removed ++ [metadata])
          { ls with layerMap := ls.layerMap.erase l.chainID } w')

/-- `releaseLayer`. The recursion is the loop, from a layer to its parent. -/
def releaseLayer (depth : Nat) (removed : List Metadata) :
    RoLayer → LayerStore → ω →
      Except Panic (Except Err (List Metadata) × LayerStore × ω)
  | .base i, ls, w =>
    match releaseOne b depth removed (.base i) ls w with
    | .error p => .error p
    | .ok (.done res ls' w') => .ok (res, ls', w')
    | .ok (.next removed' ls' w') => .ok (.ok removed', ls', w')
  | .child i p, ls, w =>
    match releaseOne b depth removed (.child i p) ls w with
    | .error p => .error p
    | .ok (.done res ls' w') => .ok (res, ls', w')
    | .ok (.next removed' ls' w') => releaseLayer (depth + 1) removed' p ls' w'

/-- The five reads of `loadLayer`, in its order. -/
def readLayer (c : ChainID) : Call Str ω (LayerInfo × ChainID) := do
  let diff ← b.store.getDiffID c
  let size ← b.store.getSize c
  let cacheID ← b.store.getCacheID c
  let parent ← b.store.getParent c
  let descriptor ← b.store.getDescriptor c
  pure (⟨0, c, diff, cacheID, size, descriptor⟩, parent)

/-- Enter a loaded layer: a new object with count zero. -/
def LayerStore.enter (ls : LayerStore) (l : RoLayer) : LayerStore :=
  { ls.setCell l.ptr ⟨0, ∅⟩ with
    layerMap := ls.layerMap.insert l.chainID l, nextPtr := ls.nextPtr + 1 }

/-- `loadLayer`. The fuel bounds the recursion through parents; running out of
    it is the recursion of the source not coming back. -/
def loadLayer : Nat → ChainID → LayerStore → ω →
    Option (Except Str RoLayer × LayerStore × ω)
  | 0, _, _, _ => none
  | fuel + 1, c, ls, w =>
    match ls.layerMap.lookup c with
    | some cl => some (.ok cl, ls, w)
    | none =>
      match readLayer b c w with
      | (.error e, w') => some (.error e, ls, w')
      | (.ok (i, parent), w') =>
        if parent = [] then
          let cl := RoLayer.base { i with ptr := ls.nextPtr }
          some (.ok cl, ls.enter cl, w')
        else match loadLayer fuel parent ls w' with
          | none => none
          | some (.error e, ls', w'') => some (.error e, ls', w'')
          | some (.ok p, ls', w'') =>
            let cl := RoLayer.child { i with ptr := ls'.nextPtr } p
            some (.ok cl, ls'.enter cl, w'')

/-- The first loop of `NewStoreFromGraphDriver`: load each id, and count it
    against its parent. A layer that does not load is skipped. -/
def loadLayers (fuel : Nat) : List ChainID → LayerStore → ω → Option (LayerStore × ω)
  | [], ls, w => some (ls, w)
  | c :: ids, ls, w =>
    match loadLayer b fuel c ls w with
    | none => none
    | some (.error _, ls', w') => loadLayers fuel ids ls' w'
    | some (.ok l, ls', w') =>
      match l.parent with
      | none => loadLayers fuel ids ls' w'
      | some p => loadLayers fuel ids (ls'.retain p) w'

/-- The three reads of `loadMount`, in its order. -/
def readMount (name : Str) : Call Str ω (Str × Str × ChainID) := do
  let mountID ← b.store.getMountID name
  let initID ← b.store.getInitID name
  let parent ← b.store.getMountParent name
  pure (mountID, initID, parent)

def loadMount (fuel : Nat) (name : Str) (ls : LayerStore) (w : ω) :
    Option (LayerStore × ω) :=
  match ls.mounts.lookup name with
  | some _ => some (ls, w)
  | none =>
    match readMount b name w with
    | (.error _, w') => some (ls, w')
    | (.ok (mountID, initID, parent), w') =>
      if parent = [] then
        some ({ ls with mounts := ls.mounts.insert name ⟨name, mountID, initID, none, ∅⟩ }, w')
      else match loadLayer b fuel parent ls w' with
        | none => none
        | some (.error _, ls', w'') => some (ls', w'')
        | some (.ok p, ls', w'') =>
          let ls'' := ls'.retain p
          some ({ ls'' with
            mounts := ls''.mounts.insert name ⟨name, mountID, initID, some p, ∅⟩ }, w'')

/-- The second loop of `NewStoreFromGraphDriver`. -/
def loadMounts (fuel : Nat) : List Str → LayerStore → ω → Option (LayerStore × ω)
  | [], ls, w => some (ls, w)
  | name :: names, ls, w =>
    match loadMount b fuel name ls w with
    | none => none
    | some (ls', w') => loadMounts fuel names ls' w'

/-- `NewStoreFromGraphDriver`. Nothing when the recursion through parents does
    not come back; an error when the listing fails. -/
def newStoreFromGraphDriver (fuel : Nat) (w : ω) : Option (Except Str LayerStore × ω) :=
  match b.store.list w with
  | (.error e, w') => some (.error e, w')
  | (.ok (ids, mounts), w') =>
    match loadLayers b fuel ids LayerStore.empty w' with
    | none => none
    | some (ls, w'') =>
      match loadMounts b fuel mounts ls w'' with
      | none => none
      | some (ls', w₃) => some (.ok ls', w₃)

end Calls

end Dao.Layer
