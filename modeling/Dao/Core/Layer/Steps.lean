import Dao.Core.Layer.Store
import Dao.Lib.Run

/-!
# The Layer Store under Concurrent Calls

The exported operations of `layerStore`, cut at the acquisitions of its two
mutexes, and the system they make when any number of them are in flight.

An operation that keeps `layerL` for its whole body, such as `Get`, is one
step. The others are several: what an operation does up to the end of its
first critical section happens when it is called, and it then waits in `ops`
for the scheduler to resume it. Between two of its steps every other
operation may run. `layerL` is always released at the end of a step, so it
needs no representation; `mountL` is held across steps by the operations on
mounts, and `mountL` says whether it is taken. A call that cannot take it is
not made.

An operation in flight may hold a reference on the layer it took as its
parent. `Op.parent` names that layer. The deferred function that releases it
when the operation fails is the step `releaseParent`, and `abandon` is the
return that leads to it.

The random IDs of `stringid.GenerateRandomID` are arguments of the call.
-/

namespace Dao.Layer

open Lib

/-- What an operation returns: a layer handle, a mount handle, the metadata of
    the layers it removed, or nothing. -/
inductive Value where
  | layer (c : ChainID) (ref : Nat)
  | rwLayer (name : Str) (ref : Nat)
  | metadata (removed : List Metadata)
  | unit
  deriving DecidableEq

abbrev Result : Type := Except Err Value

/-- An operation in flight, named after the code it runs next. The parent is
    the layer it holds a reference on. -/
inductive Op (ω τ : Type) where
  /-- `registerWithDescriptor`, from `driver.Create` to `storeLayer` -/
  | registerApply (parent : Option RoLayer) (ts : Bytes) (descriptor : Descriptor)
      (cacheID : Str)
  /-- `registerWithDescriptor`, from `layerL.Lock()` on -/
  | registerCommit (parent : Option RoLayer) (descriptor : Descriptor) (cacheID : Str) (tx : τ)
      (size : Int64) (diffID : DiffID)
  /-- `registerWithDescriptor`, its deferred `driver.Remove` and `tx.Cancel` -/
  | registerCleanup (parent : Option RoLayer) (cacheID : Str) (tx : τ) (res : Result)
  /-- `RegisterByGraphID`, from `layerL.Lock()` on -/
  | registerByGraphID (parent : Option RoLayer) (graphID : Str) (parentID : ChainID)
      (diffID : DiffID) (tarDataFile : Str) (size : Int64)
  /-- `CreateRWLayer`, from `mountID` to `saveMount` -/
  | createRWLayer (parent : Option RoLayer) (name mountLabel : Str)
      (initFunc : Option (Str → Call Str ω Unit)) (storageOpt : List (Str × Str)) (mountID : Str)
  /-- `CreateRWLayerByGraphID`, from the new `mountedLayer` to `saveMount` -/
  | createRWLayerByGraphID (parent : Option RoLayer) (name graphID : Str)
  /-- `ReleaseRWLayer`, from `layerL.Lock()` on -/
  | releaseRWLayer (parent : RoLayer)
  /-- the deferred `releaseLayer(p)` of a failed operation, holding `mountL` or
      not -/
  | releaseParent (parent : RoLayer) (mount : Bool) (res : Result)

/-- The layer the operation holds a reference on. -/
def Op.parent {ω τ : Type} : Op ω τ → Option RoLayer
  | registerApply p _ _ _ => p
  | registerCommit p _ _ _ _ _ => p
  | registerCleanup p _ _ _ => p
  | registerByGraphID p _ _ _ _ _ => p
  | createRWLayer p _ _ _ _ _ => p
  | createRWLayerByGraphID p _ _ => p
  | releaseRWLayer p => some p
  | releaseParent p _ _ => some p

/-- The identity of that layer. -/
def Op.parentPtr {ω τ : Type} (op : Op ω τ) : Option Nat := op.parent.map RoLayer.ptr

/-- The store, the world behind it, and the operations in flight. -/
structure Sys (ω τ : Type) where
  ls : LayerStore
  world : ω
  ops : List (Op ω τ)
  mountL : Bool

/-- A store with nothing in flight. -/
def Sys.init {ω : Type} (τ : Type) (ls : LayerStore) (w : ω) : Sys ω τ :=
  { ls := ls, world := w, ops := [], mountL := false }

/-- A call, or the scheduler resuming the operation at an index. -/
inductive Action (ω : Type) where
  | register (ts : Bytes) (parent : ChainID) (descriptor : Descriptor) (cacheID : Str)
  | registerByGraphID (graphID : Str) (parent : ChainID) (diffID : DiffID) (tarDataFile : Str)
      (size : Int64)
  | get (c : ChainID)
  | release (c : ChainID) (ref : Nat)
  | createRWLayer (name : Str) (parent : ChainID) (mountLabel : Str)
      (initFunc : Option (Str → Call Str ω Unit)) (storageOpt : List (Str × Str)) (mountID : Str)
  | createRWLayerByGraphID (name graphID : Str) (parent : ChainID)
  | getRWLayer (name : Str)
  | releaseRWLayer (name : Str) (ref : Nat)
  | resume (i : Nat)

section Steps

variable {ω τ : Type} (b : Backend ω τ)

/-- What the code of an operation does next: return, or wait to be resumed. -/
inductive Next (ω τ : Type) where
  | finish (res : Result)
  | wait (op : Op ω τ)

/-- Return with an error or, in `Register`, with the layer that already
    existed: the deferred release of the parent runs if there is one. -/
def abandon (mount : Bool) (res : Result) : Option RoLayer → Next ω τ
  | none => .finish res
  | some p => .wait (.releaseParent p mount res)

/-- Take the parent an operation names: `get` under `layerL`, unless the
    parent is empty. -/
def takeParent (ls : LayerStore) (parent : ChainID) : Option (Option RoLayer × LayerStore) :=
  if parent = [] then some (none, ls)
  else match ls.getWithoutLock parent with
    | (none, _) => none
    | (some p, ls') => some (some p, ls')

/-- The parent's cacheID, empty without a parent. -/
def parentCacheID : Option RoLayer → Str
  | none => []
  | some p => p.cacheID

/-- `registerWithDescriptor` up to its first lock-free part. -/
def startRegister (ts : Bytes) (parent : ChainID) (descriptor : Descriptor) (cacheID : Str)
    (ls : LayerStore) : Next ω τ × LayerStore :=
  match takeParent ls parent with
  | none => (.finish (.error .layerDoesNotExist), ls)
  | some (none, ls') => (.wait (.registerApply none ts descriptor cacheID), ls')
  | some (some p, ls') =>
    if p.depth ≥ maxLayerDepth then
      (abandon false (.error .maxDepthExceeded) (some p), ls')
    else (.wait (.registerApply (some p) ts descriptor cacheID), ls')

/-- The lock-free part of `registerWithDescriptor`. A failure after the
    transaction has started is cleaned up; an earlier one is not. -/
def registerApply (p : Option RoLayer) (ts : Bytes) (descriptor : Descriptor) (cacheID : Str)
    (w : ω) : Next ω τ × ω :=
  match b.driver.create cacheID (parentCacheID p) [] [] w with
  | (.error e, w₁) => (abandon false (.error (.backend e)) p, w₁)
  | (.ok _, w₁) =>
    match b.store.startTransaction w₁ with
    | (.error e, w₂) => (abandon false (.error (.backend e)) p, w₂)
    | (.ok tx, w₂) =>
      match (do
          let (size, diffID) ← applyTar b tx ts (parentCacheID p) cacheID
          storeLayer b tx diffID size cacheID descriptor p
          pure (size, diffID) : Call Str ω (Int64 × DiffID)) w₂ with
      | (.error e, w₃) => (.wait (.registerCleanup p cacheID tx (.error (.backend e))), w₃)
      | (.ok (size, diffID), w₃) =>
        (.wait (.registerCommit p descriptor cacheID tx size diffID), w₃)

/-- The chain ID `registerWithDescriptor` computes, with its own case for a
    layer without a parent. -/
def registerChainID (p : Option RoLayer) (diffID : DiffID) : ChainID :=
  match p with
  | none => diffID
  | some p => createChainIDFromParent p.chainID [diffID]

/-- `registerWithDescriptor` under its second lock. -/
def registerCommit (p : Option RoLayer) (descriptor : Descriptor) (cacheID : Str) (tx : τ)
    (size : Int64) (diffID : DiffID) (ls : LayerStore) (w : ω) : Next ω τ × LayerStore × ω :=
  let chainID := registerChainID p diffID
  match ls.getWithoutLock chainID with
  | (some l, ls₁) =>
    -- The layer exists: clean up what was made for it, and return the old one.
    let (ref, ls₂) := ls₁.getReference l
    (.wait (.registerCleanup p cacheID tx (.ok (.layer chainID ref))), ls₂, w)
  | (none, ls₁) =>
    match b.store.commit tx chainID w with
    | (.error e, w') => (.wait (.registerCleanup p cacheID tx (.error (.backend e))), ls₁, w')
    | (.ok _, w') =>
      let l := RoLayer.mk ⟨ls₁.nextPtr, chainID, diffID, cacheID, size, descriptor⟩ p
      let (ref, ls₂) := (ls₁.publish l).getReference l
      (.finish (.ok (.layer chainID ref)), ls₂, w')

/-- The cleanup of `registerWithDescriptor`. Its failures are only logged. -/
def registerCleanup (p : Option RoLayer) (cacheID : Str) (tx : τ) (res : Result) (w : ω) :
    Next ω τ × ω :=
  let w₁ := (b.driver.remove cacheID w).2
  let w₂ := (b.store.cancel tx w₁).2
  (abandon false res p, w₂)

/-- Calls in a transaction, with the deferred `tx.Cancel` that runs when one of
    them fails. -/
def cancelOnError (tx : τ) (x : Call Str ω Unit) : Call Str ω Unit := fun w =>
  match x w with
  | (.error e, w') => (.error e, (b.store.cancel tx w').2)
  | (.ok _, w') => (.ok (), w')

/-- The transaction of `RegisterByGraphID`. -/
def registerTransaction (p : Option RoLayer) (graphID : Str) (diffID : DiffID)
    (tarDataFile : Str) (size : Int64) (chainID : ChainID) : Call Str ω Unit := do
  let tx ← b.store.startTransaction
  cancelOnError b tx (do
    b.store.tarSplitWriter tx false
    b.tar.openTarData tarDataFile
    b.tar.copyTarData tx tarDataFile
    storeLayer b tx diffID size graphID Descriptor.empty p
    b.store.commit tx chainID)

/-- `RegisterByGraphID` under its second lock. -/
def registerByGraphID (p : Option RoLayer) (graphID : Str) (parentID : ChainID)
    (diffID : DiffID) (tarDataFile : Str) (size : Int64) (ls : LayerStore) (w : ω) :
    Next ω τ × LayerStore × ω :=
  let chainID := createChainIDFromParent parentID [diffID]
  match ls.getWithoutLock chainID with
  | (some l, ls₁) =>
    let (ref, ls₂) := ls₁.getReference l
    (abandon false (.ok (.layer chainID ref)) p, ls₂, w)
  | (none, ls₁) =>
    match registerTransaction b p graphID diffID tarDataFile size chainID w with
    | (.error e, w') => (abandon false (.error (.backend e)) p, ls₁, w')
    | (.ok _, w') =>
      let l := RoLayer.mk ⟨ls₁.nextPtr, chainID, diffID, graphID, size, Descriptor.empty⟩ p
      let (ref, ls₂) := (ls₁.publish l).getReference l
      (.finish (.ok (.layer chainID ref)), ls₂, w')

def get (c : ChainID) (ls : LayerStore) : Result × LayerStore :=
  match ls.getWithoutLock c with
  | (none, ls₁) => (.error .layerDoesNotExist, ls₁)
  | (some l, ls₁) =>
    let (ref, ls₂) := ls₁.getReference l
    (.ok (.layer c ref), ls₂)

/-- The result of a release, as an operation's result. -/
def releaseResult : Except Err (List Metadata) → Result
  | .error e => .error e
  | .ok removed => .ok (.metadata removed)

/-- `Release` of the handle `ref` on the chain `c`. -/
def release (c : ChainID) (ref : Nat) (ls : LayerStore) (w : ω) :
    Except Panic (Result × LayerStore × ω) :=
  match ls.layerMap.lookup c with
  | none => .ok (.ok (.metadata []), ls, w)
  | some l =>
    if ref ∈ (ls.cells l.ptr).references then
      match releaseLayer b 0 [] l (ls.deleteReference l ref) w with
      | .error p => .error p
      | .ok (res, ls', w') => .ok (releaseResult res, ls', w')
    else .ok (.error .layerNotRetained, ls, w)

/-- `CreateRWLayer` up to the parent it takes, `mountL` being taken. -/
def startCreateRWLayer (name : Str) (parent : ChainID) (mountLabel : Str)
    (initFunc : Option (Str → Call Str ω Unit)) (storageOpt : List (Str × Str)) (mountID : Str)
    (ls : LayerStore) : Next ω τ × LayerStore :=
  match ls.mounts.lookup name with
  | some _ => (.finish (.error .mountNameConflict), ls)
  | none =>
    match takeParent ls parent with
    | none => (.finish (.error .layerDoesNotExist), ls)
    | some (p, ls') =>
      (.wait (.createRWLayer p name mountLabel initFunc storageOpt mountID), ls')

/-- The init layer of `CreateRWLayer`, if there is an `initFunc`. -/
def createInit (p : Option RoLayer) (mountLabel : Str)
    (initFunc : Option (Str → Call Str ω Unit)) (storageOpt : List (Str × Str))
    (mountID : Str) : Call Str ω Str :=
  match initFunc with
  | none => pure []
  | some f => initMount b mountID (parentCacheID p) mountLabel f storageOpt

/-- The calls of `CreateRWLayer`: the init layer, the read-write layer, and
    the metadata of the mount. -/
def createRWLayerCalls (p : Option RoLayer) (name mountLabel : Str)
    (initFunc : Option (Str → Call Str ω Unit)) (storageOpt : List (Str × Str))
    (mountID : Str) : Call Str ω MountedLayer := do
  let initID ← createInit b p mountLabel initFunc storageOpt mountID
  b.driver.createReadWrite mountID (if initFunc.isSome then initID else parentCacheID p) []
    storageOpt
  let m : MountedLayer := ⟨name, mountID, initID, p, ∅⟩
  saveMountCalls b m
  pure m

/-- `CreateRWLayer` from there on. -/
def createRWLayer (p : Option RoLayer) (name mountLabel : Str)
    (initFunc : Option (Str → Call Str ω Unit)) (storageOpt : List (Str × Str)) (mountID : Str)
    (ls : LayerStore) (w : ω) : Next ω τ × LayerStore × ω :=
  match createRWLayerCalls b p name mountLabel initFunc storageOpt mountID w with
  | (.error e, w') => (abandon true (.error (.backend e)) p, ls, w')
  | (.ok m, w') =>
    let (ref, ls') := ls.getMountReference m
    (.finish (.ok (.rwLayer name ref)), ls', w')

/-- `CreateRWLayerByGraphID` up to the parent it takes. A repeated call reads
    the chain ID of the parent of the mount it finds, and panics when that
    mount has none. -/
def startCreateRWLayerByGraphID (name graphID : Str) (parent : ChainID) (ls : LayerStore)
    (w : ω) : Except Panic (Next ω τ × LayerStore) :=
  match ls.mounts.lookup name with
  | some m =>
    match m.parent with
    | none => .error .nilParent
    | some p =>
      if p.chainID ≠ parent then .ok (.finish (.error .mismatchedParent), ls)
      else if m.mountID ≠ graphID then .ok (.finish (.error .mountAlreadyExists), ls)
      else .ok (.finish (.ok .unit), ls)
  | none =>
    if b.driver.existsID graphID w then
      match takeParent ls parent with
      | none => .ok (.finish (.error .layerDoesNotExist), ls)
      | some (p, ls') => .ok (.wait (.createRWLayerByGraphID p name graphID), ls')
    else .ok (.finish (.error (.graphIDDoesNotExist graphID)), ls)

/-- `CreateRWLayerByGraphID` from there on. -/
def createRWLayerByGraphID (p : Option RoLayer) (name graphID : Str) (ls : LayerStore) (w : ω) :
    Next ω τ × LayerStore × ω :=
  let initID := if b.driver.existsID (initIDOf graphID) w then initIDOf graphID else []
  let m : MountedLayer := ⟨name, graphID, initID, p, ∅⟩
  match saveMountCalls b m w with
  | (.error e, w') => (abandon true (.error (.backend e)) p, ls, w')
  | (.ok _, w') => (.finish (.ok .unit), { ls with mounts := ls.mounts.insert name m }, w')

def getRWLayer (name : Str) (ls : LayerStore) : Result × LayerStore :=
  match ls.mounts.lookup name with
  | none => (.error .mountDoesNotExist, ls)
  | some m =>
    let (ref, ls') := ls.getMountReference m
    (.ok (.rwLayer name ref), ls')

/-- The removals of `ReleaseRWLayer`. -/
def releaseRWLayerCalls (m : MountedLayer) : Call Str ω Unit := do
  b.driver.remove m.mountID
  if m.initID = [] then pure () else b.driver.remove m.initID
  b.store.removeMount m.name

/-- `ReleaseRWLayer` of the handle `ref`, up to `layerL.Lock()`. A failed
    removal takes the handle back, so the mount is as it was. -/
def startReleaseRWLayer (name : Str) (ref : Nat) (ls : LayerStore) (w : ω) :
    Next ω τ × LayerStore × ω :=
  match ls.mounts.lookup name with
  | none => (.finish (.ok (.metadata [])), ls, w)
  | some m =>
    if ref ∈ m.references then
      let m' := { m with references := m.references.erase ref }
      if m'.references.Nonempty then
        (.finish (.ok (.metadata [])), { ls with mounts := ls.mounts.insert name m' }, w)
      else match releaseRWLayerCalls b m w with
        | (.error e, w') => (.finish (.error (.backend e)), ls, w')
        | (.ok _, w') =>
          let ls' := { ls with mounts := ls.mounts.erase name }
          match m.parent with
          | none => (.finish (.ok (.metadata [])), ls', w')
          | some p => (.wait (.releaseRWLayer p), ls', w')
    else (.finish (.error .layerNotRetained), ls, w)

/-- Put an operation into the system, or answer its caller. -/
def Sys.put (s : Sys ω τ) (mount : Bool) (ls : LayerStore) (w : ω) :
    Next ω τ → Option Result × Sys ω τ
  | .finish res => (some res, { s with ls := ls, world := w })
  | .wait op =>
    (none, { s with ls := ls, world := w, ops := s.ops ++ [op], mountL := mount || s.mountL })

/-- Replace the operation at an index by what it does next. -/
def Sys.advance (s : Sys ω τ) (i : Nat) (mount : Bool) (ls : LayerStore) (w : ω) :
    Next ω τ → Option Result × Sys ω τ
  | .finish res =>
    (some res, { ls := ls, world := w, ops := s.ops.eraseIdx i,
                 mountL := s.mountL && !mount })
  | .wait op => (none, { s with ls := ls, world := w, ops := s.ops.set i op })

/-- Resume the operation at an index. -/
def resume (i : Nat) (s : Sys ω τ) : Op ω τ → Except Panic (Option Result × Sys ω τ)
  | .registerApply p ts descriptor cacheID =>
    let (next, w) := registerApply b p ts descriptor cacheID s.world
    .ok (s.advance i false s.ls w next)
  | .registerCommit p descriptor cacheID tx size diffID =>
    let (next, ls, w) := registerCommit b p descriptor cacheID tx size diffID s.ls s.world
    .ok (s.advance i false ls w next)
  | .registerCleanup p cacheID tx res =>
    let (next, w) := registerCleanup b p cacheID tx res s.world
    .ok (s.advance i false s.ls w next)
  | .registerByGraphID p graphID parentID diffID tarDataFile size =>
    let (next, ls, w) :=
      registerByGraphID b p graphID parentID diffID tarDataFile size s.ls s.world
    .ok (s.advance i false ls w next)
  | .createRWLayer p name mountLabel initFunc storageOpt mountID =>
    let (next, ls, w) :=
      createRWLayer b p name mountLabel initFunc storageOpt mountID s.ls s.world
    .ok (s.advance i true ls w next)
  | .createRWLayerByGraphID p name graphID =>
    let (next, ls, w) := createRWLayerByGraphID b p name graphID s.ls s.world
    .ok (s.advance i true ls w next)
  | .releaseRWLayer p =>
    match releaseLayer b 0 [] p s.ls s.world with
    | .error e => .error e
    | .ok (res, ls, w) => .ok (s.advance i true ls w (.finish (releaseResult res)))
  | .releaseParent p mount res =>
    match releaseLayer b 0 [] p s.ls s.world with
    | .error e => .error e
    | .ok (_, ls, w) => .ok (s.advance i mount ls w (.finish res))

/-- One step of the system. -/
def step : Action ω → Sys ω τ → Except Panic (Option Result × Sys ω τ)
  | .register ts parent descriptor cacheID, s =>
    let (next, ls) := startRegister ts parent descriptor cacheID s.ls
    .ok (s.put false ls s.world next)
  | .registerByGraphID graphID parent diffID tarDataFile size, s =>
    match takeParent s.ls parent with
    | none => .ok (s.put false s.ls s.world (.finish (.error .layerDoesNotExist)))
    | some (p, ls) =>
      .ok (s.put false ls s.world
        (.wait (.registerByGraphID p graphID parent diffID tarDataFile size)))
  | .get c, s =>
    let (res, ls) := get c s.ls
    .ok (s.put false ls s.world (.finish res))
  | .release c ref, s =>
    match release b c ref s.ls s.world with
    | .error e => .error e
    | .ok (res, ls, w) => .ok (s.put false ls w (.finish res))
  | .createRWLayer name parent mountLabel initFunc storageOpt mountID, s =>
    if s.mountL then .ok (none, s)
    else
      let (next, ls) :=
        startCreateRWLayer name parent mountLabel initFunc storageOpt mountID s.ls
      .ok (s.put true ls s.world next)
  | .createRWLayerByGraphID name graphID parent, s =>
    if s.mountL then .ok (none, s)
    else match startCreateRWLayerByGraphID b name graphID parent s.ls s.world with
      | .error e => .error e
      | .ok (next, ls) => .ok (s.put true ls s.world next)
  | .getRWLayer name, s =>
    if s.mountL then .ok (none, s)
    else
      let (res, ls) := getRWLayer name s.ls
      .ok (s.put false ls s.world (.finish res))
  | .releaseRWLayer name ref, s =>
    if s.mountL then .ok (none, s)
    else
      let (next, ls, w) := startReleaseRWLayer b name ref s.ls s.world
      .ok (s.put true ls w next)
  | .resume i, s =>
    match s.ops[i]? with
    | none => .ok (none, s)
    | some op => resume b i s op

end Steps

end Dao.Layer
