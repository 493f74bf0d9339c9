import Dao.Core.Layer.FileStore
import Dao.Theory.Layer.Load

/-!
# Safety of the Layer Store

The accounting of references over whole runs: a store is loaded, and from
there on any number of operations run interleaved in any way, with every call
to the driver and to the metadata store free to fail.

The load needs the metadata to be read the same way each time it is asked
for. `transient_read_panics` is what happens otherwise. The outer loop of
`NewStoreFromGraphDriver` gives up on a layer whose read fails, a child that
is loaded later reads it again and succeeds, and the layer is in the map
without being counted against its own parent. Releasing the child then
releases the parent one time too many.

## Theorems

* `run_balanced`: Every state of every run is balanced, and no run takes a
  panic of `releaseLayer`.
* `run_balanced_three`: The same for a store of three layers.
* `transient_read_panics`: One failed read during the load breaks both.
-/

namespace Dao.Layer

open Lib Call

section Files

variable {δ : Type} (cfg : FileConfig) (driver : Driver δ) (tar : TarData δ Path)

theorem keeps_askTree {α : Type} (f : Node Str → Except Str α) :
    Keeps Eq (askTree f : Call Str (FileWorld δ) α) := fun _ => rfl

theorem keeps_readLayer (c : ChainID) : Keeps Eq (readLayer (fileBackend cfg driver tar) c) := by
  refine keeps_bind (keeps_askTree _) fun diff => ?_
  refine keeps_bind (keeps_askTree _) fun size => ?_
  refine keeps_bind (keeps_askTree _) fun cacheID => ?_
  refine keeps_bind (keeps_askTree _) fun parent => ?_
  exact keeps_bind (keeps_askTree _) fun descriptor => keeps_pure

theorem keeps_readMount (name : Str) : Keeps Eq (readMount (fileBackend cfg driver tar) name) := by
  refine keeps_bind (keeps_askTree _) fun mountID => ?_
  refine keeps_bind (keeps_askTree _) fun initID => ?_
  exact keeps_bind (keeps_askTree _) fun parent => keeps_pure

theorem fileBackend_stable (w : FileWorld δ) :
    StableReads (fileBackend cfg driver tar) (fun v => v = w)
      (fun c => (readLayer (fileBackend cfg driver tar) c w).1)
      (fun n => (readMount (fileBackend cfg driver tar) n w).1) := by
  refine ⟨fun v c hv => ⟨w, ?_, rfl⟩, fun v n hv => ⟨w, ?_, rfl⟩⟩
  · rw [hv]
    exact Prod.ext rfl (keeps_readLayer cfg driver tar c w).symm
  · rw [hv]
    exact Prod.ext rfl (keeps_readMount cfg driver tar n w).symm

end Files

theorem rootConfig_suffix : ∀ k, '/' ∉ rootConfig.suffix k := fun k hk =>
  absurd (Nat.isDigit_of_mem_toDigits (by omega) (by omega) hk) (by decide)

/-- A digest all of whose digits are one character. -/
def flatDigest (c : Char) : Digest :=
  Digest.newDigestFromHex Digest.sha256 (List.replicate 64 c)

/-- An id all of whose digits are one character. -/
def flatID (c : Char) : Str := List.replicate 64 c

/-- The chain IDs of three layers on top of one another. -/
def bottomID : ChainID := flatDigest 'a'
def middleID : ChainID := createChainIDFromParent bottomID [flatDigest 'c']
def topID : ChainID := createChainIDFromParent middleID [flatDigest 'b']

/-- Register the three layers, each call run to its end. -/
def registerThree {ω : Type} : List (Action ω) :=
  [.registerByGraphID (flatID 'a') [] (flatDigest 'a') [] 1, .resume 0,
   .registerByGraphID (flatID 'c') bottomID (flatDigest 'c') [] 2, .resume 0,
   .registerByGraphID (flatID 'b') middleID (flatDigest 'b') [] 3, .resume 0]

/-- The world that a run from an empty store leaves. -/
def worldAfter (as : List (Action (FileWorld (List Str)))) : FileWorld (List Str) :=
  match run (step idBackend) as (Sys.init Path LayerStore.empty emptyWorld) with
  | .error _ => emptyWorld
  | .ok (_, s) => s.world

/-- Run actions on an empty store, load it again with calls failing as the
    script says, and go on with other actions: the panic, if there is one. -/
def panicAfterRestart (before : List (Action (FileWorld (List Str)))) (script : List Bool)
    (after : List (Action (List Bool × FileWorld (List Str)))) : Option Panic :=
  match newStoreFromGraphDriver idBackend.faulty 4 (script, worldAfter before) with
  | some (.ok ls, w) =>
    match run (step idBackend.faulty) after (Sys.init Path ls w) with
    | .error e => some e
    | .ok _ => none
  | _ => none

/-- The parent that is read for a layer, if the layer can be read. -/
def parentRead (w : FileWorld (List Str)) (c : ChainID) : Option ChainID :=
  match (readLayer idBackend c w).1 with
  | .ok (_, parent) => some parent
  | .error _ => none

/-- The height of the three layers in their chain. -/
def threeRank (c : ChainID) : Nat := if c = bottomID then 0 else if c = middleID then 1 else 2

theorem list_of_listTree (w : FileWorld (List Str)) (r : List ChainID × List Str)
    (h : (listTree rootConfig w.tree).toOption = some r) :
    idBackend.store.list w = (.ok r, w) := by
  have hlist : idBackend.store.list w = (listTree rootConfig w.tree, w) := rfl
  rw [hlist]
  cases ht : listTree rootConfig w.tree with
  | error e =>
    rw [ht] at h
    simp only [Except.toOption, reduceCtorEq] at h
  | ok r' =>
    rw [ht] at h
    simp only [Except.toOption, Option.some.injEq] at h
    rw [h]

theorem consistent_three :
    Consistent (fun c => (readLayer idBackend c (worldAfter registerThree)).1)
      (fun n => (readMount idBackend n (worldAfter registerThree)).1)
      [middleID, bottomID, topID] [] threeRank := by
  have hparent : ∀ c ∈ [middleID, bottomID, topID],
      ∀ p ∈ parentRead (worldAfter registerThree) c, p ≠ [] →
        p ∈ [middleID, bottomID, topID] ∧ threeRank p < threeRank c := by
    decide +kernel
  refine ⟨by decide +kernel, fun c hc i p hread hne => hparent c hc p ?_ hne, fun n hn => ?_⟩
  · rw [Option.mem_def, parentRead, hread]
  · nomatch hn

section Balanced

variable {ω τ : Type}

/-- Every reference count is the number of handles, children, mounts and
    operations in flight that hold the layer, and every parent is in the
    map. -/
structure Balanced (s : Sys ω τ) : Prop where
  count : ∀ c l, s.ls.layerMap.lookup c = some l →
    (s.ls.cells l.ptr).referenceCount = (s.ls.cells l.ptr).references.card +
      children s.ls l.ptr + mountsOn s.ls l.ptr + inFlight s.ops l.ptr
  parent : ∀ c l p, s.ls.layerMap.lookup c = some l → l.parent = some p →
    s.ls.layerMap.lookup p.chainID = some p
  mountParent : ∀ n m p, s.ls.mounts.lookup n = some m → m.parent = some p →
    s.ls.layerMap.lookup p.chainID = some p

theorem balanced_of_sysOK {s : Sys ω τ} (h : SysOK s) : Balanced s :=
  ⟨h.acc.count, h.acc.parentIn, h.acc.mountParentIn⟩

theorem accounted_empty : Accounted LayerStore.empty (fun _ => 0) :=
  accounted_of_loading List.nodup_nil (loading_empty (fun _ => .error []) (fun _ => .error []) [])

theorem sysOK_init {ls : LayerStore} (w : ω) (h : Accounted ls (fun _ => 0)) :
    SysOK (Sys.init τ ls w) where
  acc := h
  parents := nofun
  lock := rfl
  newMount := nofun

/-- A store loaded from a consistent listing with stable reads stays balanced
    in every state of every run, and no run takes a panic of
    `releaseLayer`. -/
theorem run_balanced (b : Backend ω τ) {W : ω → Prop}
    {layers : ChainID → Except Str (LayerInfo × ChainID)}
    {mounts : Str → Except Str (Str × Str × ChainID)} {ids : List ChainID} {names : List Str}
    {rank : ChainID → Nat} (hs : StableReads b W layers mounts)
    (hc : Consistent layers mounts ids names rank) (fuel : Nat)
    (hfuel : ∀ c ∈ ids, rank c < fuel) (w w₁ : ω)
    (hlist : b.store.list w = (.ok (ids, names), w₁)) (hw : W w₁) :
    ∃ ls w', newStoreFromGraphDriver b fuel w = some (.ok ls, w') ∧ ∀ as : List (Action ω),
        (∀ rs s, run (step b) as (Sys.init τ ls w') = .ok (rs, s) → Balanced s) ∧
        ∀ e, run (step b) as (Sys.init τ ls w') = .error e → e = .nilParent := by
  rcases newStore_loading hs hc fuel hfuel w w₁ hlist hw with ⟨ls, w', hnew, _, hload⟩
  refine ⟨ls, w', hnew, fun as => ?_⟩
  -- What is loaded counts children and mounts only, and nothing is in flight yet.
  have hinit : SysOK (Sys.init τ ls w') := sysOK_init w' (accounted_of_loading hc.nodup hload)
  rcases run_sysOK b hinit as with ⟨hok, herr⟩
  exact ⟨fun rs s hrun => balanced_of_sysOK (hok rs s hrun), herr⟩

end Balanced

theorem run_balanced_three :
    ∃ ls w', newStoreFromGraphDriver idBackend 3 (worldAfter registerThree) = some (.ok ls, w') ∧
      ∀ as : List (Action (FileWorld (List Str))),
        (∀ rs s, run (step idBackend) as (Sys.init Path ls w') = .ok (rs, s) → Balanced s) ∧
        ∀ e, run (step idBackend) as (Sys.init Path ls w') = .error e → e = .nilParent :=
  run_balanced idBackend (fileBackend_stable rootConfig idDriver idTar _) consistent_three 3
    (by decide +kernel) _ _
    (list_of_listTree _ ([middleID, bottomID, topID], []) (by decide +kernel)) rfl

/-- The second call of the load fails: it is the first read of the layer in
    the middle. The layer on top brings it in again, uncounted. -/
theorem transient_read_panics :
    panicAfterRestart registerThree [false, true] [.get topID, .release topID 0] =
      some .layerNotRetained := by
  decide +kernel

end Dao.Layer
