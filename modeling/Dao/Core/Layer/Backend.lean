import Dao.Core.Digest
import Dao.Lib.Call

/-!
# The Backends of the Layer Store

The two interfaces the layer store is written against, `graphdriver.Driver`
and `MetadataStore`, as records of calls. Every call goes to one world that
both backends share, and every call may fail; what a failed call has done to
the world is up to the implementation, as it is in the source. The layer
store is modelled over any such record, so what is proved about it holds for
every driver, every metadata store and every pattern of their failures.

`TarData` collects what the layer store calls that belongs to neither
interface: the tar-split library and the file operations of the migration.

A chain ID is computed from the diff IDs below it by `createChainIDFromParent`,
the recursion of the source with its special case for an absent parent.
-/

namespace Dao.Layer

open Lib

/-- A layer chain's content hash. The empty string stands for no chain. -/
abbrev ChainID : Type := Digest

/-- The hash of one layer's tar stream. -/
abbrev DiffID : Type := Digest

structure Descriptor where
  mediaType : Str
  size : Int64
  digest : Digest
  urls : List Str
  deriving DecidableEq

/-- The zero value, which `Register` passes and `storeLayer` does not store. -/
def Descriptor.empty : Descriptor := ⟨[], 0, [], []⟩

def createChainIDFromParent : ChainID → List DiffID → ChainID
  | parent, [] => parent
  | parent, d :: ds =>
    if parent = [] then createChainIDFromParent d ds
    else createChainIDFromParent (Digest.fromBytes (utf8 (parent ++ ' ' :: d))) ds

def createChainID (dgsts : List DiffID) : ChainID := createChainIDFromParent [] dgsts

theorem createChainIDFromParent_cons (parent : ChainID) (d : DiffID) (ds : List DiffID) :
    createChainIDFromParent parent (d :: ds) =
      createChainIDFromParent (createChainIDFromParent parent [d]) ds := by
  by_cases h : parent = []
  · simp [createChainIDFromParent, if_pos h]
  · simp [createChainIDFromParent, if_neg h]

theorem createChainIDFromParent_append (a b : List DiffID) : ∀ parent : ChainID,
    createChainIDFromParent parent (a ++ b) =
      createChainIDFromParent (createChainIDFromParent parent a) b := by
  induction a with
  | nil => exact fun _ => rfl
  | cons d a ih =>
    intro parent
    rw [List.cons_append, createChainIDFromParent_cons, ih, ← createChainIDFromParent_cons]

/-- The calls of `graphdriver.Driver` the layer store makes. -/
structure Driver (ω : Type) where
  /-- `Create(id, parent, mountLabel, storageOpt)` -/
  create : Str → Str → Str → List (Str × Str) → Call Str ω Unit
  /-- `CreateReadWrite(id, parent, mountLabel, storageOpt)` -/
  createReadWrite : Str → Str → Str → List (Str × Str) → Call Str ω Unit
  /-- `Remove(id)` -/
  remove : Str → Call Str ω Unit
  /-- `Get(id, mountLabel)`, which returns the path it mounted -/
  get : Str → Str → Call Str ω Str
  /-- `Put(id)` -/
  put : Str → Call Str ω Unit
  /-- `Exists(id)` -/
  existsID : Str → ω → Bool
  /-- `ApplyDiff(id, parent, diff)`, which returns the size it extracted -/
  applyDiff : Str → Str → Bytes → Call Str ω Int64

/-- The calls of `MetadataStore` and `MetadataTransaction`. Transactions are
    named by values of `τ`. -/
structure MetadataStore (ω τ : Type) where
  startTransaction : Call Str ω τ
  setSize : τ → Int64 → Call Str ω Unit
  setParent : τ → ChainID → Call Str ω Unit
  setDiffID : τ → DiffID → Call Str ω Unit
  setCacheID : τ → Str → Call Str ω Unit
  setDescriptor : τ → Descriptor → Call Str ω Unit
  tarSplitWriter : τ → Bool → Call Str ω Unit
  commit : τ → ChainID → Call Str ω Unit
  cancel : τ → Call Str ω Unit
  getSize : ChainID → Call Str ω Int64
  getParent : ChainID → Call Str ω ChainID
  getDiffID : ChainID → Call Str ω DiffID
  getCacheID : ChainID → Call Str ω Str
  getDescriptor : ChainID → Call Str ω Descriptor
  setMountID : Str → Str → Call Str ω Unit
  setInitID : Str → Str → Call Str ω Unit
  setMountParent : Str → ChainID → Call Str ω Unit
  getMountID : Str → Call Str ω Str
  getInitID : Str → Call Str ω Str
  getMountParent : Str → Call Str ω ChainID
  list : Call Str ω (List ChainID × List Str)
  remove : ChainID → Call Str ω Unit
  removeMount : Str → Call Str ω Unit

/-- The tar-split library and the file operations of the migration. -/
structure TarData (ω τ : Type) where
  /-- `asm.NewInputTarStream` over the stream and the transaction's packer -/
  newInputTarStream : τ → Bytes → Call Str ω Unit
  /-- `os.Open(tarDataFile)` -/
  openTarData : Str → Call Str ω Unit
  /-- `io.Copy(tsw, tdf)` -/
  copyTarData : τ → Str → Call Str ω Unit

/-- What a layer store is built over: its `driver` and `store` fields. -/
structure Backend (ω τ : Type) where
  driver : Driver ω
  store : MetadataStore ω τ
  tar : TarData ω τ

/-- The same backend when its calls may fail. A script says for each call in
    turn whether it fails, and a call that fails does nothing. -/
def Backend.faulty {ω τ : Type} (b : Backend ω τ) : Backend (List Bool × ω) τ where
  driver :=
    { create := fun id parent mountLabel storageOpt =>
        .faulty ioError (b.driver.create id parent mountLabel storageOpt)
      createReadWrite := fun id parent mountLabel storageOpt =>
        .faulty ioError (b.driver.createReadWrite id parent mountLabel storageOpt)
      remove := fun id => .faulty ioError (b.driver.remove id)
      get := fun id mountLabel => .faulty ioError (b.driver.get id mountLabel)
      put := fun id => .faulty ioError (b.driver.put id)
      existsID := fun id w => b.driver.existsID id w.2
      applyDiff := fun id parent diff => .faulty ioError (b.driver.applyDiff id parent diff) }
  store :=
    { startTransaction := .faulty ioError b.store.startTransaction
      setSize := fun tx size => .faulty ioError (b.store.setSize tx size)
      setParent := fun tx parent => .faulty ioError (b.store.setParent tx parent)
      setDiffID := fun tx diff => .faulty ioError (b.store.setDiffID tx diff)
      setCacheID := fun tx cacheID => .faulty ioError (b.store.setCacheID tx cacheID)
      setDescriptor := fun tx ref => .faulty ioError (b.store.setDescriptor tx ref)
      tarSplitWriter := fun tx compress => .faulty ioError (b.store.tarSplitWriter tx compress)
      commit := fun tx layer => .faulty ioError (b.store.commit tx layer)
      cancel := fun tx => .faulty ioError (b.store.cancel tx)
      getSize := fun layer => .faulty ioError (b.store.getSize layer)
      getParent := fun layer => .faulty ioError (b.store.getParent layer)
      getDiffID := fun layer => .faulty ioError (b.store.getDiffID layer)
      getCacheID := fun layer => .faulty ioError (b.store.getCacheID layer)
      getDescriptor := fun layer => .faulty ioError (b.store.getDescriptor layer)
      setMountID := fun mount id => .faulty ioError (b.store.setMountID mount id)
      setInitID := fun mount id => .faulty ioError (b.store.setInitID mount id)
      setMountParent := fun mount parent => .faulty ioError (b.store.setMountParent mount parent)
      getMountID := fun mount => .faulty ioError (b.store.getMountID mount)
      getInitID := fun mount => .faulty ioError (b.store.getInitID mount)
      getMountParent := fun mount => .faulty ioError (b.store.getMountParent mount)
      list := .faulty ioError b.store.list
      remove := fun layer => .faulty ioError (b.store.remove layer)
      removeMount := fun mount => .faulty ioError (b.store.removeMount mount) }
  tar :=
    { newInputTarStream := fun tx ts => .faulty ioError (b.tar.newInputTarStream tx ts)
      openTarData := fun file => .faulty ioError (b.tar.openTarData file)
      copyTarData := fun tx file => .faulty ioError (b.tar.copyTarData tx file) }
where
  /-- The text of the failures. -/
  ioError : Str := ['i', '/', 'o']

end Dao.Layer
