import Dao.Lib.FileTree
import Dao.Theory.Layer.Provenance

/-!
# Releasing Layers

A layer that can be got should have its data in the graph driver and its
entry in the metadata store. This is an ownership argument. A graph driver
knows its data by strings, and the store hands such a string to the driver to
have it removed: the cacheID of a layer, the mountID and the initID of a
mount, and the cacheID of a registration that failed. The data of a layer is
safe as long as its string belongs to nobody else.

`Contract` is what the argument needs of a driver and of a metadata store. It
says of each call what it spares, whether it fails or not, and says nothing
about when a call fails. `Stored` is the invariant: each layer has its data
and its entry, and the strings of layers, mounts and operations in flight are
apart.

One pattern of failures breaks it. `deleteLayer` removes the data first and
the entry second, and if the second removal fails the layer stays in the map
without its data. `RemovesMetadata` says that this does not happen in a
release, and `run_stored` is the invariant over the runs where it does not.

## Theorems

* `releaseLayer_stored`: A release.
* `step_stored`: A step keeps `Stored`.
* `run_stored`: It holds in these runs.
-/

namespace Dao.Layer

open Lib FileTree Digest Call List

section Contract

variable {ω τ : Type} (b : Backend ω τ) (E : ω → ChainID → Prop)

/-- Data other than that of `ids`, and entries other than those of `chains`,
    are still there. -/
def Spares (ids : List Str) (chains : List ChainID) (w w' : ω) : Prop :=
  (∀ id, id ∉ ids → b.driver.existsID id w = true → b.driver.existsID id w' = true) ∧
    ∀ c, IsSha256 c → c ∉ chains → E w c → E w' c

instance (ids : List Str) (chains : List ChainID) : Std.Refl (Spares b E ids chains) :=
  ⟨fun _ => ⟨fun _ _ h => h, fun _ _ _ h => h⟩⟩

instance (ids : List Str) (chains : List ChainID) : IsTrans ω (Spares b E ids chains) :=
  ⟨fun _ _ _ h₁ h₂ => ⟨fun id hid h => h₂.1 id hid (h₁.1 id hid h),
    fun c hs hc h => h₂.2 c hs hc (h₁.2 c hs hc h)⟩⟩

variable {b E}

theorem spares_mono {ids ids' : List Str} {chains chains' : List ChainID} {w w' : ω}
    (h : Spares b E ids chains w w') (hids : ∀ id ∈ ids, id ∈ ids')
    (hchains : ∀ c ∈ chains, c ∈ chains') : Spares b E ids' chains' w w' :=
  ⟨fun id hid => h.1 id fun hc => hid (hids id hc),
    fun c hs hc => h.2 c hs fun hc' => hc (hchains c hc')⟩

variable {ids : List Str} {chains : List ChainID}

theorem spares_of_all {w w' : ω} (h : Spares b E [] [] w w') : Spares b E ids chains w w' :=
  spares_mono h nofun nofun

theorem spares_trans {w1 w2 w3 : ω} (h1 : Spares b E ids chains w1 w2)
    (h2 : Spares b E ids chains w2 w3) :
    Spares b E ids chains w1 w3 := IsTrans.trans w1 w2 w3 h1 h2

variable (b E)

/-- What the store relies on. Layer IDs are SHA-256 digests, transactions are
    those that were started, and mounts have names that are file names. Every
    statement is about the call whether it fails or not, unless it says
    otherwise. -/
structure Contract (Tx : τ → Prop) : Prop where
  create : ∀ id parent mountLabel storageOpt,
    Keeps (Spares b E [id] []) (b.driver.create id parent mountLabel storageOpt)
  created : ∀ id parent mountLabel storageOpt w w',
    b.driver.create id parent mountLabel storageOpt w = (.ok (), w') →
      b.driver.existsID id w' = true
  createReadWrite : ∀ id parent mountLabel storageOpt,
    Keeps (Spares b E [id] []) (b.driver.createReadWrite id parent mountLabel storageOpt)
  remove : ∀ id, Keeps (Spares b E [id] []) (b.driver.remove id)
  /-- a removal that fails leaves the data -/
  removeFailed : ∀ id w e w', b.driver.remove id w = (.error e, w') → Spares b E [] [] w w'
  get : ∀ id mountLabel, Keeps (Spares b E [] []) (b.driver.get id mountLabel)
  put : ∀ id, Keeps (Spares b E [] []) (b.driver.put id)
  applyDiff : ∀ id parent diff, Keeps (Spares b E [] []) (b.driver.applyDiff id parent diff)
  startTransaction : Keeps (Spares b E [] []) b.store.startTransaction
  started : ∀ w tx w', b.store.startTransaction w = (.ok tx, w') → Tx tx
  setSize : ∀ tx size, Tx tx → Keeps (Spares b E [] []) (b.store.setSize tx size)
  setParent : ∀ tx parent, Tx tx → Keeps (Spares b E [] []) (b.store.setParent tx parent)
  setDiffID : ∀ tx diff, Tx tx → Keeps (Spares b E [] []) (b.store.setDiffID tx diff)
  setCacheID : ∀ tx cacheID, Tx tx → Keeps (Spares b E [] []) (b.store.setCacheID tx cacheID)
  setDescriptor : ∀ tx ref, Tx tx → Keeps (Spares b E [] []) (b.store.setDescriptor tx ref)
  tarSplitWriter : ∀ tx compress, Tx tx →
    Keeps (Spares b E [] []) (b.store.tarSplitWriter tx compress)
  commit : ∀ tx c, Tx tx → IsSha256 c → Keeps (Spares b E [] []) (b.store.commit tx c)
  committed : ∀ tx c w w', Tx tx → IsSha256 c → b.store.commit tx c w = (.ok (), w') → E w' c
  cancel : ∀ tx, Tx tx → Keeps (Spares b E [] []) (b.store.cancel tx)
  setMountID : ∀ n id, Plain n → Keeps (Spares b E [] []) (b.store.setMountID n id)
  setInitID : ∀ n id, Plain n → Keeps (Spares b E [] []) (b.store.setInitID n id)
  setMountParent : ∀ n c, Plain n →
    Keeps (Spares b E [] []) (b.store.setMountParent n c)
  removeEntry : ∀ c, IsSha256 c → Keeps (Spares b E [] [c]) (b.store.remove c)
  removeMount : ∀ n, Plain n → Keeps (Spares b E [] []) (b.store.removeMount n)
  newInputTarStream : ∀ tx ts, Tx tx → Keeps (Spares b E [] []) (b.tar.newInputTarStream tx ts)
  openTarData : ∀ file, Keeps (Spares b E [] []) (b.tar.openTarData file)
  copyTarData : ∀ tx file, Tx tx → Keeps (Spares b E [] []) (b.tar.copyTarData tx file)

variable {b E} {Tx : τ → Prop}

theorem keeps_all {α : Type} {x : Call Str ω α} (h : Keeps (Spares b E [] []) x) :
    Keeps (Spares b E ids chains) x :=
  fun w => spares_of_all (h w)

theorem keeps_mono {α : Type} {ids ids' : List Str} {x : Call Str ω α}
    (h : Keeps (Spares b E ids chains) x) (hids : ∀ id ∈ ids, id ∈ ids') :
    Keeps (Spares b E ids' chains) x :=
  fun w => spares_mono (h w) hids fun _ hc => hc

section Calls

variable (hb : Contract b E Tx)

include hb

theorem storeLayer_spares {tx : τ} (htx : Tx tx) (diffID : DiffID) (size : Int64)
    (cacheID : Str) (descriptor : Descriptor) (parent : Option RoLayer) :
    Keeps (Spares b E [] []) (storeLayer b tx diffID size cacheID descriptor parent) := by
  refine keeps_bind (hb.setDiffID tx diffID htx) fun _ => ?_
  refine keeps_bind (hb.setSize tx size htx) fun _ => ?_
  refine keeps_bind (hb.setCacheID tx cacheID htx) fun _ => ?_
  have hdescriptor := hb.setDescriptor tx descriptor htx
  cases parent with
  | none => exact keeps_skip hdescriptor keeps_pure
  | some p => exact keeps_skip hdescriptor (hb.setParent tx p.chainID htx)

theorem applyTar_spares {tx : τ} (htx : Tx tx) (ts : Bytes) (parent cacheID : Str) :
    Keeps (Spares b E [] []) (applyTar b tx ts parent cacheID) := by
  refine keeps_bind (hb.tarSplitWriter tx true htx) fun _ => ?_
  refine keeps_bind (hb.newInputTarStream tx ts htx) fun _ => ?_
  exact keeps_bind (hb.applyDiff cacheID parent ts) fun _ => keeps_pure

/-- The calls of `Register` that a failure undoes. -/
theorem applied_spares {tx : τ} (htx : Tx tx) (ts : Bytes) (parent cacheID : Str)
    (descriptor : Descriptor) (p : Option RoLayer) :
    Keeps (Spares b E [] []) (do
      let (size, diffID) ← applyTar b tx ts parent cacheID
      storeLayer b tx diffID size cacheID descriptor p
      pure (size, diffID) : Call Str ω (Int64 × DiffID)) :=
  keeps_bind (applyTar_spares hb htx _ _ _) fun _ =>
    keeps_bind (storeLayer_spares hb htx _ _ _ _ _) fun _ => keeps_pure

theorem saveMountCalls_spares (m : MountedLayer) (hname : Plain m.name) :
    Keeps (Spares b E [] []) (saveMountCalls b m) := by
  refine keeps_bind (hb.setMountID m.name m.mountID hname) fun _ => ?_
  have hinit := hb.setInitID m.name m.initID hname
  cases m.parent with
  | none => exact keeps_skip hinit keeps_pure
  | some p => exact keeps_skip hinit (hb.setMountParent m.name p.chainID hname)

end Calls

end Contract

/-- The names of the driver's data that belong to a mount. -/
def MountedLayer.ids (m : MountedLayer) : List Str :=
  if m.initID = [] then [m.mountID] else [m.mountID, m.initID]

section Ownership

variable {ω τ : Type}

/-- The names of the driver's data that an operation makes, or removes. -/
def Op.claims : Op ω τ → List Str
  | registerApply _ _ _ cacheID => [cacheID]
  | registerCommit _ _ cacheID _ _ _ => [cacheID]
  | registerCleanup _ cacheID _ _ => [cacheID]
  | registerByGraphID _ graphID _ _ _ _ => [graphID]
  | createRWLayer _ _ _ _ _ mountID => [mountID, initIDOf mountID]
  | createRWLayerByGraphID _ _ graphID => [graphID, initIDOf graphID]
  | releaseRWLayer _ => []
  | releaseParent _ _ _ => []

variable (b : Backend ω τ) (E : ω → ChainID → Prop) (Tx : τ → Prop)

/-- The `initFunc` of a mount leaves the data of others alone. -/
def Harmless (mountID : Str) (initFunc : Option (Str → Call Str ω Unit)) : Prop :=
  ∀ f, initFunc = some f → ∀ p, Keeps (Spares b E [mountID, initIDOf mountID] []) (f p)

/-- What an operation in flight relies on when it goes on. -/
def Op.Ready (w : ω) : Op ω τ → Prop
  | registerCommit _ _ cacheID tx _ diffID =>
    b.driver.existsID cacheID w = true ∧ Tx tx ∧ IsSha256 diffID
  | registerCleanup _ _ tx _ => Tx tx
  | registerByGraphID _ graphID parentID diffID _ _ =>
    b.driver.existsID graphID w = true ∧ IsSha256 (createChainIDFromParent parentID [diffID])
  | createRWLayer _ name _ initFunc _ mountID =>
    Plain name ∧ Harmless b E mountID initFunc
  | createRWLayerByGraphID _ name _ => Plain name
  | _ => True

/-- Every layer has its data and its entry, and what belongs to layers, to
    mounts and to operations in flight is apart. -/
structure Stored (ls : LayerStore) (ops : List (Op ω τ)) (w : ω) : Prop where
  layers : ∀ c l, ls.layerMap.lookup c = some l →
    IsSha256 c ∧ b.driver.existsID l.cacheID w = true ∧ E w c
  distinct : ∀ c d l k, ls.layerMap.lookup c = some l → ls.layerMap.lookup d = some k →
    l.cacheID = k.cacheID → c = d
  mountNames : ∀ n m, ls.mounts.lookup n = some m → Plain m.name
  mountApart : ∀ c l n m, ls.layerMap.lookup c = some l → ls.mounts.lookup n = some m →
    l.cacheID ∉ m.ids
  opLayers : ∀ op ∈ ops, ∀ c l, ls.layerMap.lookup c = some l → l.cacheID ∉ op.claims
  opMounts : ∀ op ∈ ops, ∀ n m, ls.mounts.lookup n = some m → ∀ id ∈ op.claims, id ∉ m.ids
  opApart : ops.Pairwise fun op op' => op.claims.Disjoint op'.claims
  ready : ∀ op ∈ ops, op.Ready b E Tx w

variable {b E Tx} {ls ls' : LayerStore} {ops : List (Op ω τ)} {w w' : ω}

variable {op : Op ω τ}

theorem stored_tail (h : Stored b E Tx ls (op :: ops) w) : Stored b E Tx ls ops w :=
  { h with
    opLayers := fun op' hop => h.opLayers op' (mem_cons_of_mem _ hop)
    opMounts := fun op' hop => h.opMounts op' (mem_cons_of_mem _ hop)
    opApart := (pairwise_cons.mp h.opApart).2
    ready := fun op' hop => h.ready op' (mem_cons_of_mem _ hop) }

/-- The name belongs to nobody. -/
def Unused (ls : LayerStore) (ops : List (Op ω τ)) (id : Str) : Prop :=
  (∀ c l, ls.layerMap.lookup c = some l → l.cacheID ≠ id) ∧
    (∀ n m, ls.mounts.lookup n = some m → id ∉ m.ids) ∧ ∀ op ∈ ops, id ∉ op.claims

/-- What the first operation claims belongs to nobody else. -/
theorem unused_of_claims (h : Stored b E Tx ls (op :: ops) w) :
    ∀ id ∈ op.claims, Unused ls ops id := by
  intro id hid
  refine ⟨fun c l hl hc => ?_, fun n m hm => h.opMounts op mem_cons_self n m hm id hid,
    fun op' hop hid' => ?_⟩
  · exact h.opLayers op mem_cons_self c l hl (hc ▸ hid)
  · exact (pairwise_cons.mp h.opApart).1 op' hop hid hid'

theorem ready_world (h : op.Ready b E Tx w)
    (hkept : ∀ id ∈ op.claims, b.driver.existsID id w = true → b.driver.existsID id w' = true) :
    op.Ready b E Tx w' := by
  cases op with
  | registerCommit p descriptor cacheID =>
    exact ⟨hkept cacheID (mem_singleton_self _) h.1, h.2⟩
  | registerByGraphID p graphID =>
    exact ⟨hkept graphID (mem_singleton_self _) h.1, h.2⟩
  | _ => exact h

section Keep

variable (h : Stored b E Tx ls ops w)
include h

theorem stored_perm {ops' : List (Op ω τ)} (hperm : ops.Perm ops') : Stored b E Tx ls ops' w :=
  { h with
    opLayers := fun op hop => h.opLayers op (hperm.mem_iff.mpr hop)
    opMounts := fun op hop => h.opMounts op (hperm.mem_iff.mpr hop)
    opApart := (hperm.pairwise_iff fun h => h.symm).mp h.opApart
    ready := fun op hop => h.ready op (hperm.mem_iff.mpr hop) }

/-- An operation that claims what belongs to nobody may join. -/
theorem stored_cons (hclaims : ∀ id ∈ op.claims, Unused ls ops id) (hready : op.Ready b E Tx w) :
    Stored b E Tx ls (op :: ops) w where
  layers := h.layers
  distinct := h.distinct
  mountNames := h.mountNames
  mountApart := h.mountApart
  -- The names the new operation claims are not among those of the others.
  opLayers := by
    intro op' hop c l hl hid
    rcases mem_cons.mp hop with hop | hop
    · rw [hop] at hid
      exact (hclaims _ hid).1 c l hl rfl
    · exact h.opLayers op' hop c l hl hid
  opMounts := by
    intro op' hop n m hm id hid
    rcases mem_cons.mp hop with hop | hop
    · rw [hop] at hid
      exact (hclaims id hid).2.1 n m hm
    · exact h.opMounts op' hop n m hm id hid
  opApart := pairwise_cons.mpr
    ⟨fun op' hop id hid hid' => (hclaims id hid).2.2 op' hop hid', h.opApart⟩
  ready := by
    intro op' hop
    rcases mem_cons.mp hop with hop | hop
    · rw [hop]
      exact hready
    · exact h.ready op' hop

/-- The frame rule: what a call does not spare belongs to nobody. -/
theorem stored_world {ids : List Str} {chains : List ChainID} (hs : Spares b E ids chains w w')
    (hlayers : ∀ c l, ls.layerMap.lookup c = some l → l.cacheID ∉ ids ∧ c ∉ chains)
    (hops : ∀ op ∈ ops, ∀ id ∈ op.claims, id ∉ ids) : Stored b E Tx ls ops w' := by
  refine { h with layers := fun c l hl => ?_, ready := fun op hop => ?_ }
  · rcases h.layers c l hl with ⟨hc, hdata, hentry⟩
    rcases hlayers c l hl with ⟨hids, hchains⟩
    exact ⟨hc, hs.1 _ hids hdata, hs.2 c hc hchains hentry⟩
  · exact ready_world (h.ready op hop) fun id hid => hs.1 id (hops op hop id hid)

theorem stored_of_unused {ids : List Str} (hs : Spares b E ids [] w w')
    (hids : ∀ id ∈ ids, Unused ls ops id) : Stored b E Tx ls ops w' := by
  refine stored_world h hs (fun c l hl => ⟨fun hid => ?_, not_mem_nil⟩) ?_
  · exact (hids _ hid).1 c l hl rfl
  · exact fun op hop id hid hids' => (hids id hids').2.2 op hop hid

theorem stored_of_spared (hs : Spares b E [] [] w w') : Stored b E Tx ls ops w' :=
  stored_of_unused h hs nofun

theorem stored_shrink (hmap : Submap ls'.layerMap ls.layerMap)
    (hmounts : ∀ n m, ls'.mounts.lookup n = some m →
      ∃ m', ls.mounts.lookup n = some m' ∧ m.ids = m'.ids ∧ m.name = m'.name) :
    Stored b E Tx ls' ops w where
  layers := fun c l hl => h.layers c l (hmap c l hl)
  distinct := fun c d l k hl hk => h.distinct c d l k (hmap c l hl) (hmap d k hk)
  mountNames := by
    intro n m hm
    rcases hmounts n m hm with ⟨m', hm', _, hname⟩
    rw [hname]
    exact h.mountNames n m' hm'
  mountApart := by
    intro c l n m hl hm
    rcases hmounts n m hm with ⟨m', hm', hids, _⟩
    rw [hids]
    exact h.mountApart c l n m' (hmap c l hl) hm'
  opLayers := fun op hop c l hl => h.opLayers op hop c l (hmap c l hl)
  opMounts := by
    intro op hop n m hm
    rcases hmounts n m hm with ⟨m', hm', hids, _⟩
    rw [hids]
    exact h.opMounts op hop n m' hm'
  opApart := h.opApart
  ready := h.ready

theorem stored_same (hmap : ls'.layerMap = ls.layerMap) (hmounts : ls'.mounts = ls.mounts) :
    Stored b E Tx ls' ops w := by
  refine stored_shrink h (fun c l hl => by rw [← hmap]; exact hl) fun n m hm => ?_
  rw [hmounts] at hm
  exact ⟨m, hm, rfl, rfl⟩

end Keep

theorem stored_swap {op op' : Op ω τ} (h : Stored b E Tx ls (op :: ops) w)
    (hclaims : ∀ id ∈ op'.claims, id ∈ op.claims) (hready : op'.Ready b E Tx w) :
    Stored b E Tx ls (op' :: ops) w :=
  stored_cons (stored_tail h) (fun id hid => unused_of_claims h id (hclaims id hid)) hready

theorem stored_publish {i : LayerInfo} {p : Option RoLayer} (h : Stored b E Tx ls (op :: ops) w)
    (hclaims : i.cacheID ∈ op.claims) (hc : IsSha256 i.chainID)
    (hdata : b.driver.existsID i.cacheID w = true) (hentry : E w i.chainID) :
    Stored b E Tx ((ls.publish (.mk i p)).getReference (.mk i p)).2 ops w := by
  rw [← mk_chainID i p] at hc hentry
  have hcacheID : i.cacheID = (RoLayer.mk i p).cacheID := by rw [RoLayer.cacheID, mk_info]
  rw [hcacheID] at hclaims hdata
  generalize RoLayer.mk i p = l at hclaims hc hdata hentry
  have hunused := unused_of_claims h _ hclaims
  have htail := stored_tail h
  have hcases : ∀ c k, ((ls.publish l).getReference l).2.layerMap.lookup c = some k →
      (c = l.chainID ∧ k = l) ∨ ls.layerMap.lookup c = some k :=
    fun _ _ hk => AMap.lookup_insert_or (m := ls.layerMap) hk
  refine { htail with
    layers := fun c k hk => ?_, distinct := fun c d k k' hk hk' heq => ?_
    mountApart := fun c k n m hk hm => ?_, opLayers := fun op' hop c k hk => ?_ }
  · rcases hcases c k hk with ⟨heq, hkl⟩ | hk
    · rw [heq, hkl]
      exact ⟨hc, hdata, hentry⟩
    · exact htail.layers c k hk
  -- The layer takes over the claim, which no other layer can have shared.
  · rcases hcases c k hk with ⟨hcl, hkl⟩ | hk
    · rcases hcases d k' hk' with ⟨hdl, _⟩ | hk'
      · rw [hcl, hdl]
      · rw [hkl] at heq
        exact absurd heq.symm (hunused.1 d k' hk')
    · rcases hcases d k' hk' with ⟨_, hkl'⟩ | hk'
      · rw [hkl'] at heq
        exact absurd heq (hunused.1 c k hk)
      · exact htail.distinct c d k k' hk hk' heq
  · rcases hcases c k hk with ⟨_, hkl⟩ | hk
    · rw [hkl]
      exact hunused.2.1 n m hm
    · exact htail.mountApart c k n m hk hm
  · rcases hcases c k hk with ⟨_, hkl⟩ | hk
    · rw [hkl]
      exact hunused.2.2 op' hop
    · exact htail.opLayers op' hop c k hk

theorem stored_mount {n : Str} {m : MountedLayer} (h : Stored b E Tx ls (op :: ops) w)
    (hids : ∀ id ∈ m.ids, id ∈ op.claims) (hname : Plain m.name)
    (hmap : ls'.layerMap = ls.layerMap) (hmounts : ls'.mounts = ls.mounts.insert n m) :
    Stored b E Tx ls' ops w := by
  have htail := stored_tail h
  have hunused : ∀ id ∈ m.ids, Unused ls ops id := fun id hid =>
    unused_of_claims h id (hids id hid)
  suffices hnew : Stored b E Tx { ls with mounts := ls.mounts.insert n m } ops w from
    stored_same hnew hmap hmounts
  refine { htail with
    mountNames := fun k m' hm' => ?_, mountApart := fun c l k m' hl hm' hid => ?_
    opMounts := fun op' hop k m' hm' id hid hid' => ?_ }
  · rcases AMap.lookup_insert_or hm' with ⟨_, heq⟩ | hm'
    · rw [heq]
      exact hname
    · exact htail.mountNames k m' hm'
  · rcases AMap.lookup_insert_or hm' with ⟨_, heq⟩ | hm'
    · rw [heq] at hid
      exact (hunused _ hid).1 c l hl rfl
    · exact htail.mountApart c l k m' hl hm' hid
  · rcases AMap.lookup_insert_or hm' with ⟨_, heq⟩ | hm'
    · rw [heq] at hid'
      exact (hunused id hid').2.2 op' hop hid
    · exact htail.opMounts op' hop k m' hm' id hid hid'

end Ownership

section Loop

variable {ω τ : Type} (b : Backend ω τ)

/-- If a round of the release loop removes the data of the layer, it removes
    its entry. -/
def Removes (l : RoLayer) (ls : LayerStore) (w : ω) : Prop :=
  (ls.cells l.ptr).referenceCount = 1 →
    match b.driver.remove l.cacheID w with
    | (.error _, _) => True
    | (.ok _, w₁) => (b.store.remove l.chainID w₁).1 = .ok ()

/-- Every round of a release that removes data removes the entry. -/
def RemovesMetadata : Nat → List Metadata → RoLayer → LayerStore → ω → Prop
  | _, _, .base i, ls, w => Removes b (.base i) ls w
  | depth, removed, .child i p, ls, w =>
    Removes b (.child i p) ls w ∧
      match releaseOne b depth removed (.child i p) ls w with
      | .ok (.next removed' ls' w') => RemovesMetadata (depth + 1) removed' p ls' w'
      | _ => True

variable {l : RoLayer} {ls ls' : LayerStore} {w w' : ω}

theorem removes_of_removesMetadata {depth : Nat} {removed : List Metadata}
    (h : RemovesMetadata b depth removed l ls w) :
    Removes b l ls w := by
  cases l with
  | base i => exact h
  | child i p => exact h.1

/-- A deletion fails at the driver, or at the metadata store when the data is
    already gone. -/
theorem deleteLayer_error {e : Str} (h : deleteLayer b l w = (.error e, w')) :
    b.driver.remove l.cacheID w = (.error e, w') ∨
      ∃ w1, b.driver.remove l.cacheID w = (.ok (), w1) ∧
        b.store.remove l.chainID w1 = (.error e, w') := by
  unfold deleteLayer at h
  rw [bind_apply] at h
  rcases hdriver : b.driver.remove l.cacheID w with ⟨r, w1⟩
  rw [hdriver] at h
  rcases r with e' | u
  · cases h
    exact .inl rfl
  simp only [bind_apply] at h
  rcases hstore : b.store.remove l.chainID w1 with ⟨r2, w2⟩
  rw [hstore] at h
  cases r2 with
  | error e' =>
    cases h
    exact .inr ⟨w1, rfl, hstore⟩
  | ok v => simp [pure_apply] at h

theorem deleteLayer_ok {metadata : Metadata} (h : deleteLayer b l w = (.ok metadata, w')) :
    ∃ w1, b.driver.remove l.cacheID w = (.ok (), w1) ∧
      b.store.remove l.chainID w1 = (.ok (), w') := by
  rcases bind_eq_ok.mp h with ⟨_, w1, hdriver, h⟩
  rcases bind_eq_ok.mp h with ⟨_, w2, hstore, h⟩
  cases h
  exact ⟨w1, hdriver, hstore⟩

/-- The layer and all those below it are in the map. -/
def ChainIn (ls : LayerStore) : RoLayer → Prop
  | .base i => InMap ls (.base i)
  | .child i p => InMap ls (.child i p) ∧ ChainIn ls p

theorem inMap_of_chainIn (h : ChainIn ls l) : InMap ls l := by
  cases l with
  | base i => exact h
  | child i p => exact h.1

theorem chainIn_of_inMap {ls : LayerStore} {held : Nat → Nat} (h : Accounted ls held)
    (l : RoLayer) (hl : InMap ls l) : ChainIn ls l := by
  induction l with
  | base i => exact hl
  | child i p ih => exact ⟨hl, ih (h.parentIn _ _ p hl rfl)⟩

theorem chainIn_congr (hmap : ls'.layerMap = ls.layerMap) (l : RoLayer) (h : ChainIn ls l) :
    ChainIn ls' l := by
  induction l with
  | base i =>
    rw [ChainIn, InMap, hmap]
    exact h
  | child i p ih =>
    rw [ChainIn, InMap, hmap]
    exact ⟨h.1, ih h.2⟩

theorem chainIn_dropped {held : Nat → Nat} {c : ChainID} {ref : Nat} (h : Accounted ls held)
    (hl : ls.layerMap.lookup c = some l) : ChainIn (ls.deleteReference l ref) l :=
  @chainIn_congr ls (ls.deleteReference l ref) rfl l (chainIn_of_inMap h l (inMap_of_lookup h hl))

theorem chainIn_erase (hl : InMap ls l) (hmap : ls'.layerMap = ls.layerMap.erase l.chainID)
    (p : RoLayer) (hlt : p.depth < l.depth) (hp : ChainIn ls p) : ChainIn ls' p := by
  have hkeep : ∀ q : RoLayer, InMap ls q → q.depth < l.depth → InMap ls' q := by
    intro q hq hd
    have hne : q.chainID ≠ l.chainID := by
      intro heq
      rw [InMap, heq, hl, Option.some.injEq] at hq
      rw [hq] at hd
      omega
    rw [InMap, hmap, AList.lookup_erase_ne hne]
    exact hq
  induction p with
  | base i => exact hkeep _ hp hlt
  | child i q ih =>
    have hq : (RoLayer.child i q).depth = q.depth + 1 := rfl
    exact ⟨hkeep _ hp.1 hlt, ih (by omega) hp.2⟩

variable {b} {E : ω → ChainID → Prop} {Tx : τ → Prop}

/-- A round that deletes a layer of the map takes its data and its entry, and
    the layer is not in the map any more. -/
theorem stored_deleted (hb : Contract b E Tx) {ops : List (Op ω τ)} {metadata : Metadata}
    (h : Stored b E Tx ls ops w) (hl : InMap ls l) (hdel : deleteLayer b l w = (.ok metadata, w'))
    (hmap : ls'.layerMap = ls.layerMap.erase l.chainID) (hmounts : ls'.mounts = ls.mounts) :
    Stored b E Tx ls' ops w' := by
  rcases deleteLayer_ok b hdel with ⟨w1, hdriver, hstore⟩
  have hchain := (h.layers _ _ hl).1
  have h1 : Spares b E [l.cacheID] [l.chainID] w w1 := by
    have := hb.remove l.cacheID w
    rw [hdriver] at this
    exact spares_mono this (fun _ hid => hid) nofun
  have h2 : Spares b E [l.cacheID] [l.chainID] w1 w' := by
    have := hb.removeEntry l.chainID hchain w1
    rw [hstore] at this
    exact spares_mono this nofun fun _ hc => hc
  have hsub : Submap ls'.layerMap ls.layerMap := by
    rw [hmap]
    exact submap_erase _ _
  have hshrunk : Stored b E Tx ls' ops w := stored_shrink h hsub (fun n m hm => by
    rw [hmounts] at hm
    exact ⟨m, hm, rfl, rfl⟩)
  -- The data and the entry that go belong to the layer alone, which has left the map.
  refine stored_world hshrunk (spares_trans h1 h2) (fun c k hk => ?_) fun op hop id hid hid' => ?_
  · have hne : c ≠ l.chainID := by
      intro heq
      rw [hmap, heq, AList.lookup_erase] at hk
      nomatch hk
    refine ⟨fun hid => hne ?_, fun hc => hne (mem_singleton.mp hc)⟩
    exact h.distinct c l.chainID k l (hsub c k hk) hl (mem_singleton.mp hid)
  · rw [mem_singleton.mp hid'] at hid
    exact h.opLayers op hop _ _ hl hid

theorem releaseLayer_stored (hb : Contract b E Tx) {ops : List (Op ω τ)} (l : RoLayer) {depth : Nat}
    {removed : List Metadata} {res : Except Err (List Metadata)} (hl : ChainIn ls l)
    (h : Stored b E Tx ls ops w) (hremoves : RemovesMetadata b depth removed l ls w)
    (hrel : releaseLayer b depth removed l ls w = .ok (res, ls', w')) :
    Stored b E Tx ls' ops w' := by
  refine releaseLayer_rule b (fun depth removed l ls w => ChainIn ls l ∧ Stored b E Tx ls ops w ∧
      RemovesMetadata b depth removed l ls w)
    (fun ls w => Stored b E Tx ls ops w) ?_ ?_ ?_ l ⟨hl, h, hremoves⟩ hrel
  · rintro depth removed l ls w res ls' w' ⟨hl, h, hremoves⟩ hone
    rcases releaseOne_done b hone with ⟨hmap, hmounts, hworld⟩
    refine stored_same ?_ hmap hmounts
    rcases hworld with hw | ⟨hcount, e, hdel⟩
    · rw [hw]
      exact h
    -- The deletion failed, so it failed at the driver.
    rcases deleteLayer_error b hdel with hdriver | ⟨w2, hdriver, hstore⟩
    · exact stored_of_spared h (hb.removeFailed _ _ _ _ hdriver)
    · have hclean := removes_of_removesMetadata b hremoves hcount
      rw [hdriver] at hclean
      simp [hstore] at hclean
  · rintro depth removed i ls w removed' ls' w' ⟨hl, h, _⟩ hone
    rcases releaseOne_next b hone with ⟨hmap, hmounts, metadata, hdel⟩
    exact stored_deleted hb h (inMap_of_chainIn hl) hdel hmap hmounts
  · rintro depth removed i p ls w removed' ls' w' ⟨hl, h, hremoves⟩ hone
    have hrest := hremoves.2
    rw [hone] at hrest
    rcases releaseOne_next b hone with ⟨hmap, hmounts, metadata, hdel⟩
    exact ⟨chainIn_erase hl.1 hmap p (Nat.lt_succ_self _) hl.2,
      stored_deleted hb h hl.1 hdel hmap hmounts, hrest⟩

end Loop

section Segments

variable {ω τ : Type} {b : Backend ω τ} {E : ω → ChainID → Prop} {Tx : τ → Prop}
  {ls : LayerStore} {ops : List (Op ω τ)} {w : ω}

/-- The invariant once an operation has gone on to what it does next. -/
def StoredNext (b : Backend ω τ) (E : ω → ChainID → Prop) (Tx : τ → Prop) (ls : LayerStore)
    (ops : List (Op ω τ)) (w : ω) : Next ω τ → Prop
  | .finish _ => Stored b E Tx ls ops w
  | .wait op => Stored b E Tx ls (op :: ops) w

/-- The same of all that is left. -/
def StoredAfter (b : Backend ω τ) (E : ω → ChainID → Prop) (Tx : τ → Prop) (ops : List (Op ω τ))
    (x : Next ω τ × LayerStore × ω) : Prop := StoredNext b E Tx x.2.1 ops x.2.2 x.1

theorem storedNext_of_after {x : Next ω τ × LayerStore × ω} {next : Next ω τ}
    (h : StoredAfter b E Tx ops x) (heq : x = (next, ls, w)) : StoredNext b E Tx ls ops w next := by
  rw [heq] at h
  exact h

theorem storedNext_abandon (h : Stored b E Tx ls ops w) (mount : Bool) (res : Result)
    (p : Option RoLayer) : StoredNext b E Tx ls ops w (abandon mount res p) := by
  cases p with
  | none => exact h
  | some q => exact stored_cons h nofun trivial

/-- A call that leaves the maps alone goes on to an operation with names of its own. -/
theorem stored_start {ls' : LayerStore} {op : Op ω τ} (h : Stored b E Tx ls ops w)
    (hsame : ls'.layerMap = ls.layerMap ∧ ls'.mounts = ls.mounts)
    (hunused : ∀ id ∈ op.claims, Unused ls ops id) (hready : op.Ready b E Tx w) :
    Stored b E Tx ls' (op :: ops) w := by
  refine stored_cons (stored_same h hsame.1 hsame.2) (fun id hid => ?_) hready
  rw [Unused, hsame.1, hsame.2]
  exact hunused id hid

variable {p : Option RoLayer} {cacheID mountID mountLabel name : Str} {m : MountedLayer}
  {initFunc : Option (Str → Call Str ω Unit)} {storageOpt : List (Str × Str)}

/-- The chain ID that `RegisterByGraphID` computes, from the parent's ID. -/
theorem createChainIDFromParent_sha256 {parent : ChainID} {d : DiffID}
    (h : parent = [] → IsSha256 d) :
    IsSha256 (createChainIDFromParent parent [d]) := by
  by_cases hp : parent = []
  · simp only [createChainIDFromParent, if_pos hp]
    exact h hp
  · simp only [createChainIDFromParent, if_neg hp]
    exact isSha256_of_canonical (fromBytes_canonical _)

theorem registerChainID_sha256 (p : Option RoLayer) {d : DiffID} (hd : IsSha256 d) :
    IsSha256 (registerChainID p d) := by
  cases p with
  | none => exact hd
  | some q => exact createChainIDFromParent_sha256 fun _ => hd

theorem ids_of_initID {m : MountedLayer} {mountID : Str} (hm : m.mountID = mountID)
    (hi : m.initID = [] ∨ m.initID = initIDOf mountID) :
    ∀ id ∈ m.ids, id ∈ [mountID, initIDOf mountID] := by
  intro id hid
  unfold MountedLayer.ids at hid
  rcases hi with hi | hi
  · rw [if_pos hi, mem_singleton] at hid
    rw [hid, hm]
    exact mem_cons_self
  · rw [hm, hi] at hid
    split at hid
    · rw [mem_singleton.mp hid]
      exact mem_cons_self
    · exact hid

theorem createInit_initID {mountID initID : Str} {w' : ω}
    (h : createInit b p mountLabel initFunc storageOpt mountID w = (.ok initID, w')) :
    initID = [] ∨ initID = initIDOf mountID := by
  rcases initFunc with _ | f
  · cases h
    exact .inl rfl
  rcases bind_eq_ok.mp h with ⟨_, w1, _, h⟩
  rcases bind_eq_ok.mp h with ⟨path, w2, _, h⟩
  unfold runInitFunc at h
  rcases hf : f path w2 with ⟨r, w3⟩
  rw [hf] at h
  rcases r with e | u
  · nomatch h
  rcases bind_eq_ok.mp h with ⟨_, w4, _, h⟩
  cases h
  exact .inr rfl

/-- The mount that is made owns what the operation claims. -/
theorem createRWLayerCalls_ids {w' : ω}
    (h : createRWLayerCalls b p name mountLabel initFunc storageOpt mountID w = (.ok m, w')) :
    m.name = name ∧ ∀ id ∈ m.ids, id ∈ [mountID, initIDOf mountID] := by
  rcases bind_eq_ok.mp h with ⟨initID, w1, hinit, h⟩
  rcases bind_eq_ok.mp h with ⟨_, w2, _, h⟩
  rcases bind_eq_ok.mp h with ⟨_, w3, _, h⟩
  cases h
  exact ⟨rfl, ids_of_initID rfl (createInit_initID hinit)⟩

theorem stored_references (h : Stored b E Tx ls ops w) (hm : ls.mounts.lookup name = some m)
    (references : Finset Nat) {ls' : LayerStore} (hmap : ls'.layerMap = ls.layerMap)
    (hmounts : ls'.mounts = ls.mounts.insert name { m with references := references }) :
    Stored b E Tx ls' ops w := by
  refine stored_shrink h (fun c l hl => by rw [← hmap]; exact hl) fun n k hk => ?_
  rw [hmounts] at hk
  rcases AMap.lookup_insert_cases hk with ⟨_, hold⟩ | ⟨rfl, rfl⟩
  · exact ⟨k, hold, rfl, rfl⟩
  · exact ⟨m, hm, rfl, rfl⟩

variable (hb : Contract b E Tx)
include hb

theorem registerApply_stored {ts : Bytes} {descriptor : Descriptor}
    (h : Stored b E Tx ls (.registerApply p ts descriptor cacheID :: ops) w) :
    StoredNext b E Tx ls ops (registerApply b p ts descriptor cacheID w).2
      (registerApply b p ts descriptor cacheID w).1 := by
  have hunused := unused_of_claims h
  have htail := stored_tail h
  have hcreate := hb.create cacheID (parentCacheID p) [] [] w
  unfold registerApply
  rcases hc : b.driver.create cacheID (parentCacheID p) [] [] w with ⟨r, w1⟩
  rw [hc] at hcreate
  rcases r with e | u
  · exact storedNext_abandon (stored_of_unused htail hcreate hunused) _ _ _
  have hdata := hb.created _ _ _ _ _ _ hc
  have hstart := hb.startTransaction w1
  simp only
  rcases hs : b.store.startTransaction w1 with ⟨r2, w2⟩
  rw [hs] at hstart
  have h2 := stored_of_unused htail (spares_trans hcreate (spares_of_all hstart)) hunused
  rcases r2 with e | tx
  · exact storedNext_abandon h2 _ _ _
  have htx := hb.started _ _ _ hs
  have hbody2 := applied_spares hb htx ts (parentCacheID p) cacheID descriptor p w2
  simp only
  split
  · next e w3 heq =>
    rw [heq] at hbody2
    exact stored_cons (stored_of_spared h2 hbody2) hunused htx
  next size diffID w3 heq =>
  rw [heq] at hbody2
  -- The operation goes on with its data, its transaction and a digest of the stream.
  refine stored_cons (stored_of_spared h2 hbody2) hunused ⟨?_, htx, ?_⟩
  · exact hbody2.1 _ not_mem_nil (hstart.1 _ not_mem_nil hdata)
  rcases bind_eq_ok.mp heq with
    ⟨⟨size', diffID'⟩, w', happly, hrest⟩
  rcases bind_eq_ok.mp hrest with ⟨_, w'', _, hpure⟩
  cases hpure
  rw [applyTar_diffID b happly]
  exact isSha256_of_canonical (fromBytes_canonical ts)

theorem registerCommit_stored {descriptor : Descriptor} {tx : τ} {size : Int64} {diffID : DiffID}
    (h : Stored b E Tx ls (.registerCommit p descriptor cacheID tx size diffID :: ops) w) :
    StoredAfter b E Tx ops (registerCommit b p descriptor cacheID tx size diffID ls w) := by
  rcases h.ready _ mem_cons_self with ⟨hdata, htx, hdiff⟩
  have hchain := registerChainID_sha256 p hdiff
  unfold StoredAfter registerCommit
  rcases getWithoutLock_cases ls (registerChainID p diffID) with ⟨_, hget⟩ | ⟨l, _, hget⟩
  · simp only [hget]
    have hcommit := hb.commit tx _ htx hchain w
    rcases hc : b.store.commit tx (registerChainID p diffID) w with ⟨r, w'⟩
    rw [hc] at hcommit
    have h' := stored_of_spared h hcommit
    cases r with
    | error e => exact stored_swap h' (fun _ hid => hid) htx
    | ok u =>
      exact stored_publish h' (mem_singleton_self _) hchain (hcommit.1 _ not_mem_nil hdata)
        (hb.committed _ _ _ _ htx hchain hc)
  · simp only [hget]
    exact stored_swap (stored_same h rfl rfl) (fun _ hid => hid) htx

theorem registerCleanup_stored {tx : τ} {res : Result}
    (h : Stored b E Tx ls (.registerCleanup p cacheID tx res :: ops) w) :
    StoredNext b E Tx ls ops (registerCleanup b p cacheID tx res w).2
      (registerCleanup b p cacheID tx res w).1 := by
  have htx : Tx tx := h.ready _ mem_cons_self
  have hspares := spares_trans (hb.remove cacheID w)
    (spares_of_all (hb.cancel tx htx (b.driver.remove cacheID w).2))
  exact storedNext_abandon (stored_of_unused (stored_tail h) hspares (unused_of_claims h)) _ _ _

/-- The transaction of `RegisterByGraphID` spares everything, and has made the
    entry when it succeeds. -/
theorem registerTransaction_spares (p : Option RoLayer) (graphID : Str) (diffID : DiffID)
    (tarDataFile : Str) (size : Int64) {chainID : ChainID} (hchain : IsSha256 chainID)
    (w : ω) :
    Spares b E [] [] w (registerTransaction b p graphID diffID tarDataFile size chainID w).2 ∧
      ((registerTransaction b p graphID diffID tarDataFile size chainID w).1 = .ok () →
        E (registerTransaction b p graphID diffID tarDataFile size chainID w).2 chainID) := by
  have hstart := hb.startTransaction w
  unfold registerTransaction
  rw [bind_apply]
  rcases hs : b.store.startTransaction w with ⟨r, w1⟩
  rw [hs] at hstart
  cases r with
  | error e => exact ⟨hstart, fun hok => by simp at hok⟩
  | ok tx =>
    have htx := hb.started _ _ _ hs
    have hbody : Keeps (Spares b E [] []) (do
        b.store.tarSplitWriter tx false
        b.tar.openTarData tarDataFile
        b.tar.copyTarData tx tarDataFile
        storeLayer b tx diffID size graphID Descriptor.empty p
        b.store.commit tx chainID : Call Str ω Unit) :=
      keeps_bind (hb.tarSplitWriter tx false htx) (fun _ =>
        keeps_bind (hb.openTarData tarDataFile) (fun _ =>
          keeps_bind (hb.copyTarData tx tarDataFile htx) (fun _ =>
            keeps_bind (storeLayer_spares hb htx _ _ _ _ _) (fun _ =>
              hb.commit tx chainID htx hchain))))
    have hbody1 := hbody w1
    -- A failure cancels the transaction, which spares everything too.
    simp only [cancelOnError]
    split
    · next e w' heq =>
      rw [heq] at hbody1
      exact ⟨spares_trans hstart (spares_trans hbody1 (hb.cancel tx htx w')),
        fun hok => by simp at hok⟩
    · next u w' heq =>
      rw [heq] at hbody1
      refine ⟨spares_trans hstart hbody1, fun _ => ?_⟩
      rcases bind_eq_ok.mp heq with ⟨_, w2, _, heq⟩
      rcases bind_eq_ok.mp heq with ⟨_, w3, _, heq⟩
      rcases bind_eq_ok.mp heq with ⟨_, w4, _, heq⟩
      rcases bind_eq_ok.mp heq with ⟨_, w5, _, hcommit⟩
      exact hb.committed _ _ _ _ htx hchain hcommit

theorem registerByGraphID_stored {p : Option RoLayer} {graphID : Str} {parentID : ChainID}
    {diffID : DiffID} {tarDataFile : Str} {size : Int64}
    (h : Stored b E Tx ls
      (.registerByGraphID p graphID parentID diffID tarDataFile size :: ops) w) :
    StoredAfter b E Tx ops
      (registerByGraphID b p graphID parentID diffID tarDataFile size ls w) := by
  rcases h.ready _ mem_cons_self with ⟨hdata, hchain⟩
  have htail := stored_tail h
  unfold StoredAfter registerByGraphID
  rcases getWithoutLock_cases ls (createChainIDFromParent parentID [diffID]) with
    ⟨_, hget⟩ | ⟨l, _, hget⟩
  · simp only [hget]
    rcases registerTransaction_spares hb p graphID diffID tarDataFile size hchain w with
      ⟨hspares, hentry⟩
    cases hreg : registerTransaction b p graphID diffID tarDataFile size
        (createChainIDFromParent parentID [diffID]) w with
    | mk r w' =>
      rw [hreg] at hspares hentry
      cases r with
      | error e => exact storedNext_abandon (stored_of_spared htail hspares) _ _ _
      | ok u =>
        exact stored_publish (stored_of_spared h hspares) (mem_singleton_self _) hchain
          (hspares.1 _ not_mem_nil hdata) (hentry rfl)
  -- Somebody else has registered the chain ID: the handle is handed out, and the data stays.
  · simp only [hget]
    have hsame : Stored b E Tx ((ls.retain l).getReference l).2 ops w :=
      stored_same htail rfl rfl
    exact storedNext_abandon hsame ..

theorem createInit_spares (p : Option RoLayer) (mountLabel : Str) (storageOpt : List (Str × Str))
    (hinit : Harmless b E mountID initFunc) :
    Keeps (Spares b E [mountID, initIDOf mountID] [])
      (createInit b p mountLabel initFunc storageOpt mountID) := by
  rcases initFunc with _ | f
  · exact keeps_pure
  refine keeps_bind (keeps_mono (hb.create _ _ _ _) (by simp)) (fun _ => ?_)
  refine keeps_bind (keeps_all (hb.get _ _)) (fun path w => ?_)
  have hf := hinit f rfl path w
  unfold runInitFunc
  rcases hr : f path w with ⟨r, w1⟩
  rw [hr] at hf
  have hput : Spares b E [mountID, initIDOf mountID] [] w (b.driver.put (initIDOf mountID) w1).2 :=
    spares_trans hf (spares_of_all (hb.put _ w1))
  cases r with
  | error e => exact hput
  | ok u =>
    exact spares_trans hf (keeps_bind (keeps_all (hb.put _)) (fun _ => keeps_pure) w1)

theorem createRWLayerCalls_spares (p : Option RoLayer) (hname : Plain name)
    (mountLabel : Str) (storageOpt : List (Str × Str)) (hinit : Harmless b E mountID initFunc) :
    Keeps (Spares b E [mountID, initIDOf mountID] [])
      (createRWLayerCalls b p name mountLabel initFunc storageOpt mountID) := by
  refine keeps_bind (createInit_spares hb p mountLabel storageOpt hinit) (fun initID => ?_)
  refine keeps_bind (keeps_mono (hb.createReadWrite _ _ _ _) (by simp)) (fun _ => ?_)
  exact keeps_bind (keeps_all (saveMountCalls_spares hb _ hname)) (fun _ => keeps_pure)

theorem createRWLayer_stored
    (h : Stored b E Tx ls (.createRWLayer p name mountLabel initFunc storageOpt mountID :: ops) w) :
    StoredAfter b E Tx ops
      (createRWLayer b p name mountLabel initFunc storageOpt mountID ls w) := by
  rcases h.ready _ mem_cons_self with ⟨hname, hinit⟩
  have hspares := createRWLayerCalls_spares hb p hname mountLabel storageOpt hinit w
  have hunused := unused_of_claims h
  have htail := stored_tail h
  unfold StoredAfter createRWLayer
  rcases hc : createRWLayerCalls b p name mountLabel initFunc storageOpt mountID w with ⟨r, w'⟩
  rw [hc] at hspares
  have h' := stored_of_unused htail hspares hunused
  rcases r with e | m
  · exact storedNext_abandon h' ..
  rcases createRWLayerCalls_ids hc with ⟨hmname, hids⟩
  have hplain : Plain m.name := hmname ▸ hname
  -- The mount takes over what the operation claimed.
  have hop : Stored b E Tx ls (.createRWLayerByGraphID p name mountID :: ops) w' :=
    stored_cons h' hunused hname
  exact stored_mount (m := { m with references := insert ls.nextRef m.references })
    hop hids hplain rfl rfl

theorem createRWLayerByGraphID_stored {name graphID : Str}
    (h : Stored b E Tx ls (.createRWLayerByGraphID p name graphID :: ops) w) :
    StoredAfter b E Tx ops (createRWLayerByGraphID b p name graphID ls w) := by
  have hname : Plain name := h.ready _ mem_cons_self
  have hinitID := (ite_eq_or_eq (b.driver.existsID (initIDOf graphID) w = true)
    (initIDOf graphID) []).symm
  unfold StoredAfter createRWLayerByGraphID
  generalize (if b.driver.existsID (initIDOf graphID) w then initIDOf graphID else []) = initID
    at hinitID
  have hspares := saveMountCalls_spares hb ⟨name, graphID, initID, p, ∅⟩ hname w
  simp only
  rcases hc : saveMountCalls b ⟨name, graphID, initID, p, ∅⟩ w with ⟨r, w'⟩
  rw [hc] at hspares
  cases r with
  | error e => exact storedNext_abandon (stored_of_spared (stored_tail h) hspares) _ _ _
  | ok u =>
    exact stored_mount (stored_of_spared h hspares) (ids_of_initID rfl hinitID) hname rfl rfl

theorem releaseRWLayerCalls_spares (m : MountedLayer) (hname : Plain m.name) :
    Keeps (Spares b E m.ids []) (releaseRWLayerCalls b m) := by
  unfold releaseRWLayerCalls
  by_cases hi : m.initID = []
  · have hids : m.ids = [m.mountID] := by rw [MountedLayer.ids, if_pos hi]
    rw [hids, if_pos hi]
    exact keeps_bind (hb.remove m.mountID) fun _ => keeps_all (hb.removeMount _ hname)
  · have hids : m.ids = [m.mountID, m.initID] := by rw [MountedLayer.ids, if_neg hi]
    rw [hids, if_neg hi]
    refine keeps_bind (keeps_mono (hb.remove m.mountID) (by simp)) fun _ => ?_
    exact keeps_bind (keeps_mono (hb.remove m.initID) (by simp))
      (fun _ => keeps_all (hb.removeMount _ hname))

theorem startReleaseRWLayer_stored (h : Stored b E Tx ls ops w) (name : Str) (ref : Nat) :
    StoredAfter b E Tx ops (startReleaseRWLayer b name ref ls w) := by
  unfold StoredAfter startReleaseRWLayer
  rcases hm : ls.mounts.lookup name with _ | m
  · exact h
  simp only
  split
  · split
    · exact stored_references h hm (m.references.erase ref) rfl rfl
    have hspares := releaseRWLayerCalls_spares hb m (h.mountNames name m hm) w
    -- Whatever the removals do, they do it to what the mount owns.
    have hafter : ∀ w', Spares b E m.ids [] w w' → Stored b E Tx ls ops w' := fun w' hs =>
      stored_world h hs (fun c l hl => ⟨h.mountApart c l name m hl hm, not_mem_nil⟩)
        (fun op hop id hid => h.opMounts op hop name m hm id hid)
    rcases hr : releaseRWLayerCalls b m w with ⟨r, w'⟩
    rw [hr] at hspares
    rcases r with e | u
    · exact hafter w' hspares
    have herased : Stored b E Tx { ls with mounts := ls.mounts.erase name } ops w' := by
      refine stored_shrink (hafter w' hspares) (submap_refl _) fun n k hk => ?_
      exact ⟨k, (AMap.lookup_erase_cases hk).2, rfl, rfl⟩
    cases hp : m.parent with
    | none => exact herased
    | some p =>
      exact stored_cons herased nofun trivial
  · exact h

end Segments

section Steps

variable {ω τ : Type} {b : Backend ω τ} {E : ω → ChainID → Prop} {Tx : τ → Prop}

/-- The invariant of the system. -/
def StoredSys (b : Backend ω τ) (E : ω → ChainID → Prop) (Tx : τ → Prop) (s : Sys ω τ) : Prop :=
  Stored b E Tx s.ls s.ops s.world

variable {s s' : Sys ω τ} {ls : LayerStore} {w : ω} {r : Option Result}

theorem stored_put {mount : Bool} (next : Next ω τ) (h : StoredNext b E Tx ls s.ops w next)
    (hs' : s.put mount ls w next = (r, s')) : StoredSys b E Tx s' := by
  cases next with
  | finish res =>
    cases hs'
    exact h
  | wait op =>
    cases hs'
    exact stored_perm h (perm_append_singleton op s.ops).symm

theorem stored_advance {i : Nat} {op : Op ω τ} (hop : s.ops[i]? = some op) {mount : Bool}
    (next : Next ω τ) (h : StoredNext b E Tx ls (s.ops.eraseIdx i) w next)
    (hs' : s.advance i mount ls w next = (r, s')) : StoredSys b E Tx s' := by
  cases next with
  | finish res =>
    cases hs'
    exact h
  | wait op' =>
    cases hs'
    exact stored_perm h (set_perm op' hop).symm

/-- A release by an operation in flight removes metadata where it removes
    data. -/
def Op.Removes (b : Backend ω τ) (ls : LayerStore) (w : ω) : Op ω τ → Prop
  | releaseRWLayer p => RemovesMetadata b 0 [] p ls w
  | releaseParent p _ _ => RemovesMetadata b 0 [] p ls w
  | _ => True

/-- What a step has to respect. The name a caller gives to data of its own
    belongs to nobody else, as the random ones do; a graph ID names data that
    exists and a diff ID is a digest; mounts have names that are file names;
    and a release that removes data removes the entry. -/
def Careful (b : Backend ω τ) (E : ω → ChainID → Prop) (s : Sys ω τ) : Action ω → Prop
  | .register _ _ _ cacheID => Unused s.ls s.ops cacheID
  | .registerByGraphID graphID parent diffID _ _ =>
    Unused s.ls s.ops graphID ∧ b.driver.existsID graphID s.world = true ∧
      (parent = [] → IsSha256 diffID)
  | .createRWLayer name _ _ initFunc _ mountID => s.ls.mounts.lookup name = none →
    Plain name ∧ Harmless b E mountID initFunc ∧
      ∀ id ∈ [mountID, initIDOf mountID], Unused s.ls s.ops id
  | .createRWLayerByGraphID name graphID _ => s.ls.mounts.lookup name = none →
    Plain name ∧ ∀ id ∈ [graphID, initIDOf graphID], Unused s.ls s.ops id
  | .release c ref => ∀ l ∈ s.ls.layerMap.lookup c, ref ∈ (s.ls.cells l.ptr).references →
    RemovesMetadata b 0 [] l (s.ls.deleteReference l ref) s.world
  | .resume i => ∀ op ∈ s.ops[i]?, op.Removes b s.ls s.world
  | _ => True

variable (hb : Contract b E Tx)
include hb

theorem resume_stored {i : Nat} {op : Op ω τ} {next : Next ω τ} (hok : SysOK s)
    (h : StoredSys b E Tx s) (hop : s.ops[i]? = some op) (hremoves : op.Removes b s.ls s.world)
    (hdoes : op.Does b s next ls w) : StoredNext b E Tx ls (s.ops.eraseIdx i) w next := by
  have hcons := stored_perm h (perm_of_getElem? hop)
  have hmem : op ∈ s.ops := mem_of_getElem? hop
  -- An operation that ends with a release holds the layer it releases.
  have hrelease : ∀ p res, op.parent = some p → RemovesMetadata b 0 [] p s.ls s.world →
      releaseLayer b 0 [] p s.ls s.world = .ok (res, ls, w) →
      Stored b E Tx ls (s.ops.eraseIdx i) w := by
    intro p res hp hrem hrel
    have hchain := chainIn_of_inMap hok.acc p (hok.parents op hmem p hp)
    exact releaseLayer_stored hb p hchain (stored_tail hcons) hrem hrel
  cases op with
  | registerApply =>
    have hnext := registerApply_stored hb hcons
    rw [hdoes.1] at hnext
    rw [hdoes.2]
    exact hnext
  | registerCommit => exact storedNext_of_after (registerCommit_stored hb hcons) hdoes
  | registerCleanup =>
    have hnext := registerCleanup_stored hb hcons
    rw [hdoes.1] at hnext
    rw [hdoes.2]
    exact hnext
  | registerByGraphID => exact storedNext_of_after (registerByGraphID_stored hb hcons) hdoes
  | createRWLayer => exact storedNext_of_after (createRWLayer_stored hb hcons) hdoes
  | createRWLayerByGraphID =>
    exact storedNext_of_after (createRWLayerByGraphID_stored hb hcons) hdoes
  | releaseRWLayer p =>
    rcases hdoes with ⟨res, hrel, rfl⟩
    exact hrelease p res rfl hremoves hrel
  | releaseParent p =>
    rcases hdoes with ⟨res', hrel, rfl⟩
    exact hrelease p res' rfl hremoves hrel

theorem release_stored {held : Nat → Nat} {ls ls' : LayerStore} {ops : List (Op ω τ)} {w w' : ω}
    {c : ChainID} {ref : Nat} {res : Result} (hacc : Accounted ls held) (h : Stored b E Tx ls ops w)
    (hremoves : ∀ l ∈ ls.layerMap.lookup c, ref ∈ (ls.cells l.ptr).references →
      RemovesMetadata b 0 [] l (ls.deleteReference l ref) w)
    (hrel : release b c ref ls w = .ok (res, ls', w')) : Stored b E Tx ls' ops w' := by
  rcases release_cases b hrel with ⟨hls, hw⟩ | ⟨l, hl, href, res', hloop⟩
  · rw [hls, hw]
    exact h
  · exact releaseLayer_stored hb l (chainIn_dropped hacc hl) (stored_same h rfl rfl)
      (hremoves l hl href) hloop

theorem start_stored {a : Action ω} {next : Next ω τ} (hok : SysOK s) (h : StoredSys b E Tx s)
    (hcare : Careful b E s a) (hdoes : a.Does b s next ls w) :
    StoredNext b E Tx ls s.ops w next := by
  cases a with
  | register =>
    rcases hdoes with ⟨hstart, rfl⟩
    -- The parent is taken by counting it, which neither map shows.
    rcases startRegister_cases hstart with ⟨e, rfl, rfl⟩ | ⟨p, ht, ⟨e, rfl⟩ | ⟨rfl, _⟩⟩
    · exact h
    · rcases takeParent_same ht with ⟨hmap, hmounts⟩
      exact storedNext_abandon (stored_same h hmap hmounts) _ _ _
    · exact stored_start h (takeParent_same ht) (fun id hid => mem_singleton.mp hid ▸ hcare) trivial
  | registerByGraphID =>
    rcases hcare with ⟨hunused, hdata, hdiff⟩
    rcases hdoes with ⟨e, rfl, rfl, rfl⟩ | ⟨p, ht, rfl, rfl⟩
    · exact h
    · exact stored_start h (takeParent_same ht) (fun id hid => mem_singleton.mp hid ▸ hunused)
        ⟨hdata, createChainIDFromParent_sha256 hdiff⟩
  | get c =>
    rcases hdoes with ⟨res, hget, rfl, rfl⟩
    unfold get at hget
    rcases getWithoutLock_cases s.ls c with ⟨_, hfound⟩ | ⟨l, _, hfound⟩
    · simp only [hfound, Prod.mk.injEq] at hget
      exact hget.2 ▸ h
    · simp only [hfound, Prod.mk.injEq] at hget
      exact hget.2 ▸ stored_same h rfl rfl
  | release =>
    rcases hdoes with ⟨res, hrel, rfl⟩
    exact release_stored hb hok.acc h hcare hrel
  | createRWLayer =>
    rcases hdoes with ⟨hstart, rfl⟩
    rcases startCreateRWLayer_cases hstart with ⟨e, rfl, rfl⟩ | ⟨hm, p, ht, rfl⟩
    · exact h
    · rcases hcare hm with ⟨hname, hinit, hunused⟩
      exact stored_start h (takeParent_same ht) hunused ⟨hname, hinit⟩
  | createRWLayerByGraphID =>
    rcases hdoes with ⟨hstart, rfl⟩
    rcases startCreateRWLayerByGraphID_cases b hstart with ⟨res, rfl, rfl⟩ | ⟨hm, p, ht, rfl⟩
    · exact h
    · rcases hcare hm with ⟨hname, hunused⟩
      exact stored_start h (takeParent_same ht) hunused hname
  | getRWLayer name =>
    rcases hdoes with ⟨res, hget, rfl, rfl⟩
    unfold getRWLayer at hget
    cases hm : s.ls.mounts.lookup name with
    | none =>
      simp only [hm, Prod.mk.injEq] at hget
      exact hget.2 ▸ h
    | some m =>
      simp only [hm, Prod.mk.injEq] at hget
      rw [← hok.acc.mountKey name m hm] at hm
      exact hget.2 ▸ stored_references h hm (insert s.ls.nextRef m.references) rfl rfl
  | releaseRWLayer name ref =>
    exact storedNext_of_after (startReleaseRWLayer_stored hb h name ref) hdoes
  | resume i => exact absurd hdoes not_false

theorem step_stored {a : Action ω} (hok : SysOK s) (h : StoredSys b E Tx s)
    (hcare : Careful b E s a) (hstep : step b a s = .ok (r, s')) : StoredSys b E Tx s' := by
  rcases step_cases b hstep with ⟨mount, next, ls, w, hdoes, hs'⟩ |
    ⟨i, op, mount, next, ls, w, rfl, hop, hdoes, hs'⟩ | ⟨_, rfl⟩
  · exact stored_put next (start_stored hb hok h hcare hdoes) hs'
  · exact stored_advance hop next (resume_stored hb hok h hop (hcare op hop) hdoes) hs'
  · exact h

/-- In a run of careful steps every layer of every state has its data in the
    driver and its entry in the metadata store. -/
theorem run_stored (as : List (Action ω)) (s t : Sys ω τ) (rs : List (Option Result))
    (hok : SysOK s) (h : StoredSys b E Tx s) (hmeets : Meets (step b) (Careful b E) as s)
    (hrun : run (step b) as s = .ok (rs, t)) : SysOK t ∧ StoredSys b E Tx t :=
  run_invariant_of_meets (Careful b E) (fun s => SysOK s ∧ StoredSys b E Tx s)
    (fun _ _ _ _ hI hcare hstep => ⟨sysOK_of_step b hI.1 hstep,
      step_stored hb hI.1 hI.2 hcare hstep⟩)
    as s t rs ⟨hok, h⟩ hmeets hrun

end Steps

end Dao.Layer
