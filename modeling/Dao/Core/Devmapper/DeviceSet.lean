import Dao.Core.Text
import Dao.Lib.AMap
import Dao.Lib.Bitmap
import Dao.Lib.Crash
import Dao.Lib.Run

/-!
# The Device Set

The devices of the `devmapper` graph driver: a table of devices in memory, a
metadata file for each, a bitmap of the device IDs in use, and a transaction
that is written down before the pool is changed and closed when the pool takes
over its number. A daemon that starts loads the files, marks their IDs, and
rolls a transaction back that was not closed.

Calls do not overlap. `AddDevice` and `DeleteDevice` take the lock of the device
set twice, and a call between the two is not modelled. What is outside answers as
it likes: for each kind of step a call carries a list of outcomes, one of which is
a crash before the step. Which devices the pool has is part of these answers. What
is read is there: a file that the walk of a start cannot look at, which it passes
over, is not modelled.

A file name is not cleaned when it is joined to the directory, so a hash with a
slash is not modelled. The old metadata file, the UUID and the filesystem of
the base device and the counter of deleted devices are left out. The worker
that deletes again what was busy makes calls of `DeleteDevice`.
-/

namespace Dao.Devmapper

open Lib Call

def maxDeviceID : Nat := 0xffffff

structure DevInfo where
  deviceID : Nat
  size : Nat
  transactionID : Nat
  initialized : Bool
  deleted : Bool
  deriving DecidableEq

structure Transaction where
  openTransactionID : Nat
  deviceIDHash : Str
  deviceID : Nat
  deriving DecidableEq

/-- The metadata directory: the files of the devices, the transaction file and the
    number in the file of the device set. -/
structure Disk where
  files : AMap Str DevInfo
  transaction : Option Transaction
  nextDeviceID : Option Nat

/-- What is lost in a crash. -/
structure Memory where
  devices : AMap Str DevInfo
  deviceIDMap : Bitmap
  nextDeviceID : Nat
  transactionID : Nat
  transaction : Transaction

/-- `NewDeviceSet`, before it is initialized. -/
def Memory.new : Memory := ⟨∅, .empty, 0, 0, ⟨0, [], 0⟩⟩

/-- The kinds of steps: files are written and removed, the pool is sent messages,
    and devices are activated, formatted and so on. -/
inductive Kind where
  | write
  | removal
  | message
  | device
  deriving DecidableEq

/-- How a step goes. A crash comes before it. -/
inductive Outcome where
  | done
  | failed
  /-- `ErrBusy`. -/
  | busy
  /-- `ErrDeviceIDExists`. -/
  | taken
  | crashed
  deriving DecidableEq

abbrev Outcomes : Type := Kind → List Outcome

/-- The state while a call runs. `pool` is the transaction ID of the pool. -/
structure World where
  disk : Disk
  pool : Nat
  mem : Memory
  outcomes : Outcomes

/-- The errors. -/
inductive DevError where
  /-- "devmapper: Unable to find a free device ID". -/
  | noFreeDeviceID
  /-- "devmapper: Error saving transaction metadata: %s". -/
  | saveTransaction
  /-- "devmapper: Error setting devmapper transaction ID: %s". -/
  | setTransactionID
  /-- The errors of `writeMetaFile`. -/
  | writeMetaFile
  /-- "devmapper: Error removing metadata file %s: %s". -/
  | removeMetadata
  | removeTransaction
  | createDevice
  | deleteDevice
  | busy
  /-- "devmapper: Unknown device %s". -/
  | unknownDevice (hash : Str)
  /-- "devmapper: Base device %v has been marked for deferred deletion". -/
  | baseDeleted (hash : Str)
  /-- "devmapper: device %s already exists. Deleted=%v". -/
  | alreadyExists (hash : Str) (deleted : Bool)
  /-- "devmapper: Container size cannot be smaller than %s". -/
  | containerSize (size : Nat)
  /-- "devmapper: Base device size cannot be smaller than %s". -/
  | baseSize (size : Nat)
  /-- A device that could not be activated, formatted or the like. -/
  | device
  deriving DecidableEq

/-- The options of the device set that its calls read. -/
structure Options where
  deferredDelete : Bool
  userBaseSize : Bool
  baseFsSize : Nat

abbrev Op (α : Type) : Type := Call (Stop DevError) World α

/-- A step that touches the world, if its outcome is that it is done. -/
def act (k : Kind) (e : DevError) (f : World → World) : Op Unit := fun w =>
  let w' := { w with outcomes := Function.update w.outcomes k (w.outcomes k).tail }
  match (w.outcomes k).headD .done with
  | .done => (.ok (), f w')
  | .busy => (.error (.error .busy), w')
  | .crashed => (.error .crash, w')
  | _ => (.error (.error e), w')

/-- Look at the world. -/
def look {α : Type} (f : World → α) : Op α := fun w => (.ok (f w), w)

/-- Change the memory. -/
def update (f : Memory → Memory) : Op Unit := fun w => (.ok (), { w with mem := f w.mem })

def fail {α : Type} (e : DevError) : Op α := raise (.error e)

section Files

def metadataFile (hash : Str) : Str := if hash = [] then "base".toList else hash

def saveMetadata (hash : Str) (info : DevInfo) : Op Unit :=
  act .write .writeMetaFile (fun w =>
    { w with disk := { w.disk with files := w.disk.files.insert (metadataFile hash) info } })

def removeMetadata (hash : Str) : Op Unit :=
  act .removal .removeMetadata (fun w =>
    { w with disk := { w.disk with files := w.disk.files.erase (metadataFile hash) } })

def loadMetadata (hash : Str) (disk : Disk) : Option DevInfo :=
  match disk.files.lookup (metadataFile hash) with
  | none => none
  | some info => if info.deviceID > maxDeviceID then none else some info

def saveDeviceSetMetaData : Op Unit :=
  act .write .writeMetaFile (fun w =>
    { w with disk := { w.disk with nextDeviceID := some w.mem.nextDeviceID } })

def lookupDevice (hash : Str) : Op DevInfo := do
  match ← look (fun w => w.mem.devices.lookup hash) with
  | some info => pure info
  | none =>
    match ← look (fun w => loadMetadata hash w.disk) with
    | none => fail (.unknownDevice hash)
    | some info =>
      update (fun m => { m with devices := m.devices.insert hash info })
      pure info

def unregisterDevice (hash : Str) : Op Unit := do
  update (fun m => { m with devices := m.devices.erase hash })
  removeMetadata hash

def registerDevice (id : Nat) (hash : Str) (size transactionID : Nat) : Op DevInfo := do
  let info : DevInfo := ⟨id, size, transactionID, false, false⟩
  update (fun m => { m with devices := m.devices.insert hash info })
  match ← attempt (saveMetadata hash info) with
  | .error e =>
    update (fun m => { m with devices := m.devices.erase hash })
    fail e
  | .ok _ => pure info

end Files

section DeviceIDs

def markDeviceIDUsed (id : Nat) (m : Memory) : Memory :=
  { m with deviceIDMap := m.deviceIDMap.set id }

def markDeviceIDFree (id : Nat) (m : Memory) : Memory :=
  { m with deviceIDMap := m.deviceIDMap.clear id }

def isDeviceIDFree (id : Nat) (m : Memory) : Bool := !m.deviceIDMap.test id

def incNextDeviceID (m : Memory) : Memory :=
  { m with nextDeviceID := (m.nextDeviceID + 1) &&& maxDeviceID }

/-- The loop of `getNextFreeDeviceID`. -/
def nextFree : Nat → Memory → Option Nat × Memory
  | 0, m => (none, m)
  | n + 1, m =>
    if isDeviceIDFree m.nextDeviceID m then (some m.nextDeviceID, markDeviceIDUsed m.nextDeviceID m)
    else nextFree n (incNextDeviceID m)

def getNextFreeDeviceID : Op Nat := fun w =>
  match nextFree (maxDeviceID + 1) (incNextDeviceID w.mem) with
  | (none, m) => (.error (.error .noFreeDeviceID), { w with mem := m })
  | (some id, m) => (.ok id, { w with mem := m })

end DeviceIDs

section Transactions

def saveTransactionMetaData : Op Unit :=
  act .write .saveTransaction (fun w =>
    { w with disk := { w.disk with transaction := some w.mem.transaction } })

/-- `openTransaction`, with `allocateTransactionID`. -/
def openTransaction (hash : Str) (deviceID : Nat) : Op Unit := do
  update (fun m => { m with transaction := ⟨(m.transactionID + 1) % 2 ^ 64, hash, deviceID⟩ })
  saveTransactionMetaData

def refreshTransaction (deviceID : Nat) : Op Unit := do
  update (fun m => { m with transaction := { m.transaction with deviceID := deviceID } })
  saveTransactionMetaData

/-- `closeTransaction`, with `updatePoolTransactionID`. The pool refuses a message
    with another old number than its own. -/
def closeTransaction : Op Unit := do
  if (← look (fun w => decide (w.pool = w.mem.transactionID))) then
    act .message .setTransactionID (fun w => { w with
      pool := w.mem.transaction.openTransactionID
      mem := { w.mem with transactionID := w.mem.transaction.openTransactionID } })
  else fail .setTransactionID

/-- `devicemapper.DeleteDevice`. -/
def poolDelete : Op Unit := act .message .deleteDevice (fun w => w)

def removeTransactionMetaData : Op Unit :=
  act .removal .removeTransaction (fun w => { w with disk := { w.disk with transaction := none } })

end Transactions

section Creation

variable (opts : Options)

/-- The loop around `CreateDevice` and `CreateSnapDevice`, along the outcomes of the
    messages. An ID that the pool says it has stays marked. -/
def createLoop (deviceID : Nat) : List Outcome → Op Nat
  | [] => pure deviceID
  | o :: rest => do
    let sent ← attempt (act .message .createDevice (fun w => w))
    if o = .taken then
      let deviceID ← getNextFreeDeviceID
      let _ ← attempt (refreshTransaction deviceID)
      createLoop deviceID rest
    else match sent with
      | .error e =>
        update (markDeviceIDFree deviceID)
        fail e
      | .ok _ => pure deviceID

/-- `createRegisterDevice` and `createRegisterSnapDevice` from the allocation on. -/
def createRegister (hash : Str) (size : Nat) : Op DevInfo := do
  let deviceID ← getNextFreeDeviceID
  match ← attempt (openTransaction hash deviceID) with
  | .error e =>
    update (markDeviceIDFree deviceID)
    fail e
  | .ok _ =>
    let deviceID ← createLoop deviceID (← look (fun w => w.outcomes .message))
    let transactionID ← look (fun w => w.mem.transaction.openTransactionID)
    match ← attempt (registerDevice deviceID hash size transactionID) with
    | .error e =>
      let _ ← attempt poolDelete
      update (markDeviceIDFree deviceID)
      fail e
    | .ok info =>
      match ← attempt closeTransaction with
      | .error e =>
        let _ ← attempt (unregisterDevice hash)
        let _ ← attempt poolDelete
        update (markDeviceIDFree deviceID)
        fail e
      | .ok _ => pure info

def createRegisterDevice (hash : Str) : Op DevInfo := createRegister hash opts.baseFsSize

/-- `createRegisterSnapDevice`, with `poolHasFreeSpace`. The base device is only read
    in the message to the pool. -/
def createRegisterSnapDevice (hash : Str) (size : Nat) : Op Unit := do
  act .device .device (fun w => w)
  let _ ← createRegister hash size

/-- `AddDevice`, with the size that `parseStorageOpt` found. -/
def addDevice (hash baseHash : Str) (size : Nat) : Op Unit := do
  let baseInfo ← lookupDevice baseHash
  if baseInfo.deleted then fail (.baseDeleted baseHash)
  else match ← attempt (lookupDevice hash) with
    | .ok info => fail (.alreadyExists hash info.deleted)
    | .error _ =>
      let size := if size = 0 then baseInfo.size else size
      if size < baseInfo.size then fail (.containerSize baseInfo.size)
      else
        createRegisterSnapDevice hash size
        if size > baseInfo.size then
          let _ ← lookupDevice hash
          act .device .device (fun w => w)

end Creation

section Deletion

variable (opts : Options)

def markForDeferredDeletion (hash : Str) (info : DevInfo) : Op Unit := do
  if info.deleted then pure ()
  else
    update (fun m => { m with devices := m.devices.insert hash { info with deleted := true } })
    match ← attempt (saveMetadata hash { info with deleted := true }) with
    | .error e =>
      update (fun m => { m with devices := m.devices.insert hash { info with deleted := false } })
      fail e
    | .ok _ => pure ()

/-- `deleteTransaction` while the transaction is open. -/
def deleteOpen (hash : Str) (info : DevInfo) (syncDelete : Bool) : Op Unit := do
  match ← attempt poolDelete with
  | .error e =>
    if syncDelete || !opts.deferredDelete || e ≠ .busy then fail e
    else markForDeferredDeletion hash info
  | .ok _ =>
    unregisterDevice hash
    update (markDeviceIDFree info.deviceID)

/-- `deleteTransaction`. The transaction is closed however the deletion went. -/
def deleteTransaction (hash : Str) (info : DevInfo) (syncDelete : Bool) : Op Unit := do
  openTransaction hash info.deviceID
  let deleted ← attempt (deleteOpen opts hash info syncDelete)
  let _ ← attempt closeTransaction
  match deleted with
  | .error e => fail e
  | .ok _ => pure ()

def deleteDevice (hash : Str) (syncDelete : Bool) : Op Unit := do
  let info ← lookupDevice hash
  act .device .device (fun w => w)
  deleteTransaction opts hash info syncDelete

end Deletion

section BaseImage

variable (opts : Options)

def checkGrowBaseDeviceFS (info : DevInfo) : Op Unit := do
  if !opts.userBaseSize then pure ()
  else if opts.baseFsSize < info.size then fail (.baseSize info.size)
  else if opts.baseFsSize = info.size then pure ()
  else
    let info := { info with size := opts.baseFsSize }
    update (fun m => { m with devices := m.devices.insert [] info })
    match ← attempt (saveMetadata [] info) with
    | .error e =>
      update (fun m => { m with devices := m.devices.erase [] })
      fail e
    | .ok _ => act .device .device (fun w => w)

def createBaseImage : Op Unit := do
  let info ← createRegisterDevice opts []
  act .device .device (fun w => w)
  update (fun m => { m with devices := m.devices.insert [] { info with initialized := true } })
  match ← attempt (saveMetadata [] { info with initialized := true }) with
  | .error e =>
    update (fun m => { m with devices := m.devices.insert [] { info with initialized := false } })
    fail e
  | .ok _ =>
    act .device .device (fun w => w)
    saveDeviceSetMetaData

def setupBaseImage : Op Unit := do
  match ← attempt (lookupDevice []) with
  | .error _ =>
    act .device .device (fun w => w)
    createBaseImage opts
  | .ok oldInfo =>
    if oldInfo.initialized && !oldInfo.deleted then
      act .device .device (fun w => w)
      checkGrowBaseDeviceFS opts oldInfo
    else
      deleteDevice opts [] true
      createBaseImage opts

end BaseImage

section Start

/-- The files that `deviceFileWalkFunction` passes over. -/
def skipped (name : Str) : Bool :=
  ".migrated".toList.isSuffixOf name || ".".toList.isPrefixOf name ||
    name = "deviceset-metadata".toList || name = "transaction-metadata".toList

def deviceFileWalkFunction (name : Str) : Op Unit := do
  if skipped name then pure ()
  else
    let _ ← lookupDevice (if name = "base".toList then [] else name)

def loadDeviceFilesOnStart : List Str → Op Unit
  | [] => pure ()
  | name :: names => do
    deviceFileWalkFunction name
    loadDeviceFilesOnStart names

def constructDeviceIDMap (m : Memory) : Memory :=
  m.devices.entries.foldl (fun m e => markDeviceIDUsed e.2.deviceID m) m

/-- `rollbackTransaction`, of which every error is only logged. -/
def rollbackTransaction : Op Unit := do
  let t ← look (fun w => w.mem.transaction)
  let _ ← attempt poolDelete
  match ← attempt (removeMetadata t.deviceIDHash) with
  | .error _ => pure ()
  | .ok _ => update (markDeviceIDFree t.deviceID)
  let _ ← attempt removeTransactionMetaData

def loadTransactionMetaData : Op Unit := do
  match ← look (fun w => w.disk.transaction) with
  | none => update (fun m =>
    { m with transaction := { m.transaction with openTransactionID := m.transactionID } })
  | some t => update (fun m => { m with transaction := t })

def processPendingTransaction : Op Unit := do
  loadTransactionMetaData
  if (← look (fun w => decide (w.mem.transactionID < w.mem.transaction.openTransactionID))) then
    rollbackTransaction
    update (fun m =>
      { m with transaction := { m.transaction with openTransactionID := m.transactionID } })

/-- `initMetaData`, and `loadDeviceSetMetaData`. -/
def initMetaData : Op Unit := do
  let pool ← look (fun w => w.pool)
  update (fun m => { m with transactionID := pool })
  loadDeviceFilesOnStart (← look (fun w => w.disk.files.keys))
  update constructDeviceIDMap
  processPendingTransaction
  let next ← look (fun w => w.disk.nextDeviceID)
  update (fun m => { m with nextDeviceID := next.getD m.nextDeviceID })

end Start

/-- The daemon, which may be down, and what outlives it. -/
structure State where
  disk : Disk
  pool : Nat
  mem : Option Memory

/-- No device, and no daemon. -/
def State.initial : State := ⟨⟨∅, none, none⟩, 0, none⟩

/-- What may happen. A restart is also a crash of a daemon that is up. -/
inductive Action where
  | crash
  | restart
  | setupBaseImage
  | addDevice (hash baseHash : Str) (size : Nat)
  | deleteDevice (hash : Str) (syncDelete : Bool)
  | lookupDevice (hash : Str)
  | saveDeviceSetMetaData

/-- The call of an action on a daemon that is up. -/
def call (opts : Options) : Action → Op Unit
  | .crash => raise .crash
  | .restart => initMetaData
  | .setupBaseImage => setupBaseImage opts
  | .addDevice hash baseHash size => addDevice hash baseHash size
  | .deleteDevice hash syncDelete => deleteDevice opts hash syncDelete
  | .lookupDevice hash => do let _ ← lookupDevice hash
  | .saveDeviceSetMetaData => saveDeviceSetMetaData

/-- The state that a call leaves. A daemon whose start fails is down. -/
def leave (a : Action) : Except (Stop DevError) Unit × World → State
  | (.error .crash, w) => ⟨w.disk, w.pool, none⟩
  | (.error (.error _), w) =>
    match a with
    | .restart => ⟨w.disk, w.pool, none⟩
    | _ => ⟨w.disk, w.pool, some w.mem⟩
  | (.ok _, w) => ⟨w.disk, w.pool, some w.mem⟩

/-- The memory in which an action runs, if the daemon is up or comes up. -/
def memoryFor (s : State) : Action → Option Memory
  | .restart => some .new
  | _ => s.mem

/-- One action, with the outcomes of its steps. -/
def step (opts : Options) (r : Action × Outcomes) (s : State) : Except Empty (Unit × State) :=
  match memoryFor s r.1 with
  | none => .ok ((), s)
  | some m => .ok ((), leave r.1 (call opts r.1 ⟨s.disk, s.pool, m, r.2⟩))

end Dao.Devmapper
