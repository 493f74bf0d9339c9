import Dao.Theory.Layer.Safety
import Dao.Theory.Layer.Saved

/-!
# Restarting the Daemon

A store that is loaded from the files another one has left has the same
layers and the same mounts, and counts only what they hold of each other. It
does not matter in which order the files are listed.

The history of a store may itself contain restarts. What carries a restart is
that the files agree with the store (`Saved`), so that every layer and every
mount is read back, and that what is listed is consistent, so that the load
reaches all of it (`newStore_loading`).

The IDs have to be ones that the metadata store reads back. It writes any ID
it is given, and `RegisterByGraphID` takes any ID that its caller has: a layer
with another ID is registered, and gone after a restart.

## Theorems

* `restart_restores`: A restart restores the store.
* `graphID_lost`: A layer with another ID is lost.
-/

namespace Dao.Layer

open Lib List RoLayer Option Except FileTree Digest

/-- The same backend, its metadata store listing layers and mounts in the
    given order. -/
def Backend.listing {ω τ : Type} (b : Backend ω τ) (ids : List ChainID) (names : List Str) :
    Backend ω τ :=
  { b with store := { b.store with list := fun w => (.ok (ids, names), w) } }

/-- What a layer is known by: diffID, cacheID, size and parent. -/
def RoLayer.record (l : RoLayer) : DiffID × Str × Int64 × ChainID :=
  (l.diffID, l.cacheID, l.info.size, parentID l.parent)

/-- What a mount is known by: mountID, initID and parent. -/
def MountedLayer.record (m : MountedLayer) : Str × Str × ChainID :=
  (m.mountID, m.initID, parentID m.parent)

/-- A store has the layers and the mounts of another, on parents of its own,
    and each layer is counted once for each of its children and mounts. -/
structure Restored (ls ls' : LayerStore) : Prop where
  layers : ∀ c, (ls'.layerMap.lookup c).map RoLayer.record =
    (ls.layerMap.lookup c).map RoLayer.record
  mounts : ∀ n, (ls'.mounts.lookup n).map MountedLayer.record =
    (ls.mounts.lookup n).map MountedLayer.record
  parent : ∀ c l p, ls'.layerMap.lookup c = some l → l.parent = some p → InMap ls' p
  mountParent : ∀ n m p, ls'.mounts.lookup n = some m → m.parent = some p → InMap ls' p
  count : ∀ c l, ls'.layerMap.lookup c = some l →
    (ls'.cells l.ptr).referenceCount = children ls' l.ptr + mountsOn ls' l.ptr

section Listing

variable {δ : Type} {cfg : FileConfig} {ls : LayerStore} {ops : List (Op (FileWorld δ) Path)}
  {t : Node Str}

theorem layer_iff_dir (h : Saved cfg ls ops t) (hx : Name) :
    (∃ l, ls.layerMap.lookup (newDigestFromHex sha256 hx) = some l) ↔
      ∃ es, FileTree.get (layerPath cfg hx) t = .ok (.dir es) := by
  have hsaved := h.layers hx
  cases hl : ls.layerMap.lookup (newDigestFromHex sha256 hx) with
  | none =>
    rw [hl, LayerSaved] at hsaved
    simp [hsaved]
  | some l =>
    rw [hl] at hsaved
    exact ⟨fun _ => dir_of_get_append hsaved.2.diff, fun _ => ⟨l, rfl⟩⟩

theorem mount_iff_dir (h : Saved cfg ls ops t) (n : Name) : (∃ m, ls.mounts.lookup n = some m) ↔
      ∃ es, FileTree.get (mountPath cfg n) t = .ok (.dir es) := by
  have hsaved := h.mounts n
  cases hm : ls.mounts.lookup n with
  | none =>
    rw [hm, MountSaved] at hsaved
    simp [hsaved]
  | some m =>
    rw [hm] at hsaved
    exact ⟨fun _ => dir_of_get_append hsaved.2.2.mountID, fun _ => ⟨m, rfl⟩⟩

theorem mem_layerIDs {infos : List (Name × Bool)} {c : ChainID} :
    c ∈ layerIDs sha256 infos ↔ ∃ n ∈ subdirs infos,
      c = newDigestFromHex sha256 n ∧ validate c = .ok () := by
  rw [layerIDs, mem_filterMap]
  refine exists_congr fun n => and_congr_right (fun _ => ?_)
  by_cases hn : n = mountsDir
  · rw [if_pos hn]
    constructor
    · intro hc
      nomatch hc
    -- The directory of the mounts is not 64 digits long.
    rintro ⟨hc, hvalid⟩
    rw [hc] at hvalid
    have hlen := validate_hex_length hvalid
    rw [hn] at hlen
    exact absurd hlen (by decide)
  · rw [if_neg hn]
    exact listed_eq_some.trans (and_congr_left fun _ => eq_comm)

theorem layerIDs_nodup {infos : List (Name × Bool)} (h : (subdirs infos).Nodup) :
    (layerIDs sha256 infos).Nodup := by
  refine h.filterMap fun n n' c hn hn' => ?_
  -- An id that is kept is the digest of the name it comes from.
  split at hn
  · cases hn
  split at hn'
  · cases hn'
  exact newDigestFromHex_inj ((listed_eq_some.mp hn).1.trans (listed_eq_some.mp hn').1.symm)

theorem list_layers (h : Saved cfg ls ops t) :
    ∃ ids, listTree cfg t = listTree.listMounts cfg ids t ∧ ids.Nodup ∧
      ∀ c, c ∈ ids ↔ ∃ l, ls.layerMap.lookup c = some l := by
  have hkey : ∀ c l, ls.layerMap.lookup c = some l →
      ∃ hx es, c = newDigestFromHex sha256 hx ∧ validate c = .ok () ∧
        FileTree.get (cfg.root ++ [Digest.sha256] ++ [hx]) t = .ok (.dir es) := by
    intro c l hl
    rcases h.digests c l hl with ⟨hx, hc, hvalid⟩
    rcases (layer_iff_dir h hx).mp ⟨l, hc ▸ hl⟩ with ⟨es, hes⟩
    refine ⟨hx, es, hc, hvalid, ?_⟩
    rw [append_assoc]
    exact hes
  unfold listTree
  rw [join_one _ (by decide)]
  -- A directory that was never made lists nothing, and then there is no layer.
  rcases readDir_listable h.layerRoot with ⟨habsent, hread⟩ | ⟨es, infos, _, hread⟩
  · rw [hread]
    refine ⟨[], rfl, nodup_nil, fun c => ⟨nofun, ?_⟩⟩
    rintro ⟨l, hl⟩
    rcases hkey c l hl with ⟨hx, es, _, _, hes⟩
    rcases dir_of_get_append hes with ⟨es', hes'⟩
    simp [habsent] at hes'
  · rw [hread]
    rcases readDir_ok hread with ⟨hnodup, hsub⟩
    refine ⟨_, rfl, layerIDs_nodup hnodup, fun c => ?_⟩
    rw [mem_layerIDs]
    constructor
    · rintro ⟨n, hn, hc, _⟩
      rcases (hsub n).mp hn with ⟨es', hes'⟩
      rw [append_assoc] at hes'
      rw [hc]
      exact (layer_iff_dir h n).mpr ⟨es', hes'⟩
    · rintro ⟨l, hl⟩
      rcases hkey c l hl with ⟨hx, es', hc, hvalid, hes'⟩
      exact ⟨hx, (hsub hx).mpr ⟨es', hes'⟩, hc, hvalid⟩

theorem list_mounts (h : Saved cfg ls ops t) (ids : List ChainID) :
    ∃ names, listTree.listMounts cfg ids t = .ok (ids, names) ∧
      ∀ n, n ∈ names ↔ ∃ m, ls.mounts.lookup n = some m := by
  rw [listTree.listMounts, join_one _ (by decide)]
  rcases readDir_listable h.mountRoot with ⟨habsent, hread⟩ | ⟨es, infos, _, hread⟩
  · rw [hread]
    refine ⟨[], rfl, fun n => ⟨nofun, fun hm => ?_⟩⟩
    rcases (mount_iff_dir h n).mp hm with ⟨es, hes⟩
    rw [mountPath, ← singleton_append, ← append_assoc] at hes
    rcases dir_of_get_append hes with ⟨es', hes'⟩
    simp [habsent] at hes'
  · rw [hread]
    refine ⟨_, rfl, fun n => ?_⟩
    rw [(readDir_ok hread).2 n, mount_iff_dir h n, append_assoc]
    rfl

theorem list_saved (h : Saved cfg ls ops t) :
    ∃ ids names, listTree cfg t = .ok (ids, names) ∧ ids.Nodup ∧
      (∀ c, c ∈ ids ↔ ∃ l, ls.layerMap.lookup c = some l) ∧
      ∀ n, n ∈ names ↔ ∃ m, ls.mounts.lookup n = some m := by
  rcases list_layers h with ⟨ids, hids, hnodup, hlayers⟩
  rcases list_mounts h ids with ⟨names, hnames, hmounts⟩
  exact ⟨ids, names, hids.trans hnames, hnodup, hlayers, hmounts⟩

end Listing

section Loading

variable {δ : Type} {cfg : FileConfig} (driver : Driver δ) (tar : TarData δ Path)
  {ls ls' : LayerStore} {held : Nat → Nat} {ops : List (Op (FileWorld δ) Path)}
  {w : FileWorld δ}

/-- What is read for the layers and for the mounts. -/
def layerReads (cfg : FileConfig) (w : FileWorld δ)
    (c : ChainID) : Except Str (LayerInfo × ChainID) :=
  (readLayer (fileBackend cfg driver tar) c w).1

def mountReads (cfg : FileConfig) (w : FileWorld δ) (n : Str) : Except Str (Str × Str × ChainID) :=
  (readMount (fileBackend cfg driver tar) n w).1

/-- The fields of a layer that are read back: its identity is not stored, and
    neither is an empty descriptor. -/
def LayerInfo.stored (i : LayerInfo) : LayerInfo :=
  { i with ptr := 0, descriptor := storedDescriptor i.descriptor }

theorem layerReads_saved (hacc : Accounted ls held) (h : Saved cfg ls ops w.tree) {c : ChainID}
    {l : RoLayer} (hl : ls.layerMap.lookup c = some l) :
    layerReads driver tar cfg w c = .ok (l.info.stored, parentID l.parent) := by
  rcases h.digests c l hl with ⟨hx, hc, hvalid⟩
  have hsaved := h.layers hx
  rw [← hc, hl] at hsaved
  rcases hsaved with ⟨⟨hdiff, hcache, hdescriptor⟩, hfiles⟩
  have hparent := parentValid_of_saved h fun q hq => hacc.parentIn c l q hl hq
  have hkey : l.info.chainID = c := hacc.key c l hl
  rw [hc] at hvalid hkey ⊢
  refine (congrArg Prod.fst
    (readLayer_files hdescriptor hvalid hdiff hcache hparent hfiles)).trans ?_
  rw [← hkey]
  rfl

theorem mountReads_saved (hacc : Accounted ls held) (h : Saved cfg ls ops w.tree) {n : Str}
    {m : MountedLayer} (hm : ls.mounts.lookup n = some m) :
    mountReads driver tar cfg w n = .ok (m.mountID, m.initID, parentID m.parent) := by
  have hsaved := h.mounts n
  rw [hm] at hsaved
  rcases hsaved with ⟨hname, ⟨hmount, hinit⟩, hfiles⟩
  have hparent := parentValid_of_saved h fun q hq => hacc.mountParentIn n m q hm hq
  exact congrArg Prod.fst (readMount_files hname hmount hinit hparent hfiles)

/-- The height of a layer in its chain. -/
def heightIn (ls : LayerStore) (c : ChainID) : Nat :=
  ((ls.layerMap.lookup c).map RoLayer.depth).getD 0

theorem parent_of_parentID {p : Option RoLayer} (h : parentID p ≠ []) :
    ∃ q, p = some q ∧ q.chainID = parentID p := by
  cases p with
  | none => exact absurd rfl h
  | some q => exact ⟨q, rfl, rfl⟩

theorem consistent_saved (hacc : Accounted ls held) (h : Saved cfg ls ops w.tree)
    {ids : List ChainID} {names : List Str} (hnodup : ids.Nodup)
    (hids : ∀ c, c ∈ ids ↔ ∃ l, ls.layerMap.lookup c = some l)
    (hnames : ∀ n, n ∈ names ↔ ∃ m, ls.mounts.lookup n = some m) :
    Consistent (layerReads driver tar cfg w) (mountReads driver tar cfg w) ids names
      (heightIn ls) := by
  refine ⟨hnodup, fun c hc i p hread hp => ?_, fun n hn mountID initID p hread hp => ?_⟩
  · rcases (hids c).mp hc with ⟨l, hl⟩
    rw [layerReads_saved driver tar hacc h hl, ok.injEq, Prod.mk.injEq] at hread
    rw [← hread.2] at hp ⊢
    rcases parent_of_parentID hp with ⟨q, hq, hqc⟩
    have hin := hacc.parentIn c l q hl hq
    rw [← hqc]
    refine ⟨(hids _).mpr ⟨q, hin⟩, ?_⟩
    -- The rank is the depth, which is one more than that of the parent.
    have hdepth : l.depth = q.depth + 1 := by
      cases l with
      | base j => simp [parent] at hq
      | child j q' =>
        rw [parent, some.injEq] at hq
        rw [hq, depth]
    rw [InMap] at hin
    simp only [heightIn, hl, hin, map_some, getD_some]
    omega
  · rcases (hnames n).mp hn with ⟨m, hm⟩
    rw [mountReads_saved driver tar hacc h hm, ok.injEq, Prod.mk.injEq, Prod.mk.injEq] at hread
    rw [← hread.2.2] at hp ⊢
    rcases parent_of_parentID hp with ⟨q, hq, hqc⟩
    rw [← hqc]
    exact (hids _).mpr ⟨q, hacc.mountParentIn n m q hm hq⟩

theorem exists_readable (hacc : Accounted ls held) (h : Saved cfg ls ops w.tree) (l : RoLayer)
    (hl : ChainIn ls l) :
    ∃ l', Readable (layerReads driver tar cfg w) l' ∧ l'.chainID = l.chainID := by
  have hread := layerReads_saved driver tar hacc h (inMap_of_chainIn hl)
  induction l with
  | base i => exact ⟨.base i.stored, ⟨_, hread, rfl⟩, rfl⟩
  | child i p ih =>
    rcases ih hl.2 (layerReads_saved driver tar hacc h (inMap_of_chainIn hl.2)) with ⟨p', hp', hpc⟩
    refine ⟨.child i.stored p', ⟨⟨i.stored, ?_, rfl⟩, ?_, hp'⟩, rfl⟩
    · rw [hpc]
      exact hread
    · rw [hpc]
      exact ne_nil_of_validate (parentValid_of_saved h (p := some p)
        (fun q hq => some.inj hq ▸ inMap_of_chainIn hl.2) p rfl)

variable {layers : ChainID → Except Str (LayerInfo × ChainID)}

theorem readable_read {l : RoLayer} (h : Readable layers l) :
    ∃ j, layers l.chainID = .ok (j, parentID l.parent) ∧ l.info = { j with ptr := l.ptr } := by
  cases l with
  | base i => exact h
  | child i p => exact h.1

theorem mountReadable_record {mounts : Str → Except Str (Str × Str × ChainID)} {m : MountedLayer}
    (h : MountReadable layers mounts m) : mounts m.name = .ok m.record := by
  rcases h with ⟨_, h⟩
  rw [MountedLayer.record]
  cases hp : m.parent with
  | none =>
    rw [hp] at h
    exact h
  | some p =>
    rw [hp] at h
    exact h.1

/-- Parents with chain IDs are the same when what is read of them is. -/
theorem map_chainID_of_parentID {p q : Option RoLayer} (hp : ParentValid p) (hq : ParentValid q)
    (h : parentID p = parentID q) : p.map chainID = q.map chainID := by
  have hne : ∀ {p : Option RoLayer} {l : RoLayer}, ParentValid p → p = some l → l.chainID ≠ [] :=
    fun hp hl => ne_nil_of_validate (hp _ hl)
  cases p with
  | none =>
    cases q with
    | none => rfl
    | some l => exact absurd h.symm (hne hq rfl)
  | some l =>
    cases q with
    | none => exact absurd h (hne hp rfl)
    | some k =>
      exact congrArg some h

variable {descriptor : Descriptor} {f : Name → Except FsError (Node Str)}

theorem layerFiles_parent {diffID : DiffID} {size : Int64} {cacheID : Str} {p q : Option RoLayer}
    (h : LayerFiles cfg f diffID size cacheID descriptor p)
    (hq : q.map chainID = p.map chainID) :
    LayerFiles cfg f diffID size cacheID descriptor q :=
  { h with parent := by rw [hq]; exact h.parent }

/-- The files do not tell a descriptor that is not stored from the empty
    one. -/
theorem layerFiles_stored {diffID : DiffID} {size : Int64} {cacheID : Str} {p : Option RoLayer}
    (h : LayerFiles cfg f diffID size cacheID descriptor p) :
    LayerFiles cfg f diffID size cacheID (storedDescriptor descriptor) p := by
  refine { h with descriptor := ?_ }
  rw [h.descriptor, storedDescriptor]
  by_cases hd : descriptor.digest = []
  · rw [if_pos hd, if_pos hd]
    rfl
  · rw [if_neg hd, if_neg hd, if_neg hd]

theorem readsBack_stored (h : ReadsBack cfg descriptor) :
    ReadsBack cfg (storedDescriptor descriptor) := by
  rw [storedDescriptor]
  by_cases hd : descriptor.digest = []
  · rw [if_pos hd]
    exact fun hc => absurd rfl hc
  · rw [if_neg hd]
    exact h

section Loaded

variable {driver tar} (hacc : Accounted ls held) (h : Saved cfg ls ops w.tree) {ids : List ChainID}
  {names : List Str} (hids : ∀ c, c ∈ ids ↔ ∃ l, ls.layerMap.lookup c = some l)
  (hnames : ∀ n, n ∈ names ↔ ∃ m, ls.mounts.lookup n = some m)
  (hload : Loading (layerReads driver tar cfg w) (mountReads driver tar cfg w) ids ids names ls')

include hacc h hload

include hids in
theorem loaded_layer {c : ChainID} {l' : RoLayer} (hl' : ls'.layerMap.lookup c = some l') :
    ∃ l, ls.layerMap.lookup c = some l ∧ l'.info = { l.info.stored with ptr := l'.ptr } ∧
      parentID l'.parent = parentID l.parent := by
  rcases (hids c).mp (hload.listed c l' hl') with ⟨l, hl⟩
  rcases readable_read (hload.readable c l' hl') with ⟨j, hread, hinfo⟩
  rw [hload.key c l' hl', layerReads_saved driver tar hacc h hl, ok.injEq, Prod.mk.injEq] at hread
  refine ⟨l, hl, ?_, hread.2.symm⟩
  rw [hread.1]
  exact hinfo

include hids in
theorem layer_loaded {c : ChainID} {l : RoLayer} (hl : ls.layerMap.lookup c = some l) :
    ∃ l', ls'.layerMap.lookup c = some l' := by
  cases hl' : ls'.layerMap.lookup c with
  | some l' => exact ⟨l', rfl⟩
  | none =>
    have hin := inMap_of_lookup hacc hl
    rcases exists_readable driver tar hacc h l (chainIn_of_inMap hacc l hin) with ⟨l1, hread, hc⟩
    refine absurd ?_ (hload.settled c ((hids c).mpr ⟨l, hl⟩) hl' l1 hread)
    rw [hc, hacc.key c l hl]

include hnames

theorem loaded_mount {n : Str} {m' : MountedLayer} (hm' : ls'.mounts.lookup n = some m') :
    ∃ m, ls.mounts.lookup n = some m ∧ m'.record = m.record := by
  rcases (hnames n).mp (hload.mountListed n m' hm') with ⟨m, hm⟩
  have hread := mountReadable_record (hload.mountReadable n m' hm')
  rw [hload.mountKey n m' hm', mountReads_saved driver tar hacc h hm, ok.injEq] at hread
  exact ⟨m, hm, hread.symm⟩

theorem mount_loaded {n : Str} {m : MountedLayer} (hm : ls.mounts.lookup n = some m) :
    ∃ m', ls'.mounts.lookup n = some m' := by
  cases hm' : ls'.mounts.lookup n with
  | some m' => exact ⟨m', rfl⟩
  | none =>
    have hread := mountReads_saved driver tar hacc h hm
    have hsettled := hload.mountSettled n ((hnames n).mpr ⟨m, hm⟩) hm'
    cases hp : m.parent with
    | none =>
      rw [hp] at hread
      exact absurd rfl (hsettled ⟨n, m.mountID, m.initID, none, ∅⟩ ⟨rfl, hread⟩)
    | some p =>
      have hin := hacc.mountParentIn n m p hm hp
      rcases exists_readable driver tar hacc h p
        (chainIn_of_inMap hacc p hin) with ⟨p', hpread, hpc⟩
      have hne : p'.chainID ≠ [] := by
        rw [hpc]
        exact ne_nil_of_validate (parentValid_of_saved h (p := some p)
          (fun q hq => some.inj hq ▸ hin) p rfl)
      rw [hp, parentID, ← hpc] at hread
      exact absurd rfl (hsettled ⟨n, m.mountID, m.initID, some p', ∅⟩ ⟨rfl, hread, hne, hpread⟩)

include hids in
theorem loading_restored (hnodup : ids.Nodup) : Restored ls ls' := by
  have hacc' := accounted_of_loading hnodup hload
  refine ⟨fun c => ?_, fun n => ?_, hacc'.parentIn, hacc'.mountParentIn, fun c l hl => ?_⟩
  -- What is loaded was there, and what was there is loaded.
  · cases hl : ls.layerMap.lookup c with
    | none =>
      cases hl' : ls'.layerMap.lookup c with
      | none => rfl
      | some l' =>
        rcases loaded_layer hacc h hids hload hl' with ⟨l, hl1, _⟩
        simp [hl] at hl1
    | some l =>
      rcases layer_loaded hacc h hids hload hl with ⟨l', hl'⟩
      rcases loaded_layer hacc h hids hload hl' with ⟨l1, hl1, hinfo, hparent⟩
      rw [hl, some.injEq] at hl1
      rw [hl', map_some, map_some, record, record, diffID, cacheID, hinfo, hparent, hl1]
      rfl
  · cases hm : ls.mounts.lookup n with
    | none =>
      cases hm' : ls'.mounts.lookup n with
      | none => rfl
      | some m' =>
        rcases loaded_mount hacc h hnames hload hm' with ⟨m, hm1, _⟩
        simp [hm] at hm1
    | some m =>
      rcases mount_loaded hacc h hnames hload hm with ⟨m', hm'⟩
      rcases loaded_mount hacc h hnames hload hm' with ⟨m1, hm1, hrecord⟩
      rw [hm] at hm1
      cases hm1
      rw [hm', map_some, map_some, hrecord]
  · rw [hacc'.count c l hl, hload.handles, Finset.card_empty]
    omega

include hids in
/-- The files agree with what is loaded as they did with what was there. -/
theorem saved_loaded (hnodup : ids.Nodup) :
    Saved cfg ls' ([] : List (Op (FileWorld δ) Path)) w.tree := by
  have hacc' := accounted_of_loading hnodup hload
  have hvalid : ∀ {p : Option RoLayer}, (∀ q, p = some q → InMap ls' q) → ParentValid p := by
    intro p hp q hq
    rcases loaded_layer hacc h hids hload (hp q hq) with ⟨l, hl, _⟩
    rcases h.digests _ l hl with ⟨_, _, hv⟩
    exact hv
  refine ⟨fun hx => ?_, fun c l' hl' => ?_, fun n => ?_, nofun,
    nofun, Pairwise.nil, h.layerRoot, h.mountRoot⟩
  · have hsaved := h.layers hx
    cases hl' : ls'.layerMap.lookup (newDigestFromHex sha256 hx) with
    | none =>
      cases hl : ls.layerMap.lookup (newDigestFromHex sha256 hx) with
      | none =>
        rw [hl] at hsaved
        exact hsaved
      | some l =>
        rcases layer_loaded hacc h hids hload hl with ⟨l', hl1⟩
        simp [hl'] at hl1
    | some l' =>
      rcases loaded_layer hacc h hids hload hl' with ⟨l, hl, hinfo, hparent⟩
      rw [hl] at hsaved
      rcases hsaved with ⟨⟨hdiff, hcache, hdescriptor⟩, hfiles⟩
      -- The fields are the same, and the parents have the same chain ID.
      have hmap := map_chainID_of_parentID (hvalid fun q hq => hacc'.parentIn _ l' q hl' hq)
        (parentValid_of_saved h fun q hq => hacc.parentIn _ l q hl hq) hparent
      rw [LayerSaved, Legible, diffID, cacheID, hinfo]
      exact ⟨⟨hdiff, hcache, readsBack_stored hdescriptor⟩,
        layerFiles_stored (layerFiles_parent hfiles hmap)⟩
  · rcases loaded_layer hacc h hids hload hl' with ⟨l, hl, _⟩
    exact h.digests c l hl
  · have hsaved := h.mounts n
    cases hm' : ls'.mounts.lookup n with
    | none =>
      cases hm : ls.mounts.lookup n with
      | none =>
        rw [hm] at hsaved
        exact hsaved
      | some m =>
        rcases mount_loaded hacc h hnames hload hm with ⟨m', hm1⟩
        simp [hm'] at hm1
    | some m' =>
      rcases loaded_mount hacc h hnames hload hm' with ⟨m, hm, hrecord⟩
      simp only [MountedLayer.record, Prod.mk.injEq] at hrecord
      rw [hm] at hsaved
      rcases hsaved with ⟨hname, hlegible, hfiles⟩
      have hmap := map_chainID_of_parentID (hvalid fun q hq => hacc'.mountParentIn n m' q hm' hq)
        (parentValid_of_saved h fun q hq => hacc.mountParentIn n m q hm hq) hrecord.2.2
      rw [MountSaved, MountedLayer.Legible, hrecord.1, hrecord.2.1]
      refine ⟨hname, hlegible, hfiles.mountID, hfiles.initID, ?_⟩
      rw [hmap]
      exact hfiles.parent

end Loaded

end Loading

section History

variable {δ : Type} {cfg : FileConfig} {driver : Driver δ} {tar : TarData δ Path}

/-- Nothing is recorded yet: the directories of the layers and of the mounts
    are missing or empty. -/
def Fresh (cfg : FileConfig) (t : Node Str) : Prop :=
  ∀ n ∈ [Digest.sha256, mountsDir], FileTree.get (cfg.root ++ [n]) t = .error .notExist ∨
    FileTree.get (cfg.root ++ [n]) t = .ok (.dir [])

/-- The store and the world that operations which all succeed lead to from an
    empty store, in any interleaving and with restarts in between. -/
inductive History (cfg : FileConfig) (driver : Driver δ) (tar : TarData δ Path) :
    LayerStore → FileWorld δ → Prop
  | empty {w : FileWorld δ} (hfresh : Fresh cfg w.tree) : History cfg driver tar .empty w
  | run {ls : LayerStore} {w : FileWorld δ} {as : List (Action (FileWorld δ))}
      {rs : List (Option Result)} {s : Sys (FileWorld δ) Path}
      (hbefore : History cfg driver tar ls w) (hnamed : ∀ a ∈ as, Named cfg a)
      (hrun : run (step (fileBackend cfg driver tar)) as (Sys.init Path ls w) = .ok (rs, s))
      (hrs : ∀ r ∈ rs, ¬ IsError r) (hops : s.ops = []) : History cfg driver tar s.ls s.world
  | restart {ls ls' : LayerStore} {w w' : FileWorld δ} {ids ids₀ : List ChainID}
      {names names₀ : List Str} {fuel : Nat} (hbefore : History cfg driver tar ls w)
      (hlist : (fileBackend cfg driver tar).store.list w = (.ok (ids₀, names₀), w))
      (hids : ids.Perm ids₀) (hnames : names.Perm names₀)
      (hnew : newStoreFromGraphDriver ((fileBackend cfg driver tar).listing ids names) fuel w =
        some (.ok ls', w')) : History cfg driver tar ls' w'

theorem saved_empty {t : Node Str} (h : Fresh cfg t) :
    Saved cfg LayerStore.empty ([] : List (Op (FileWorld δ) Path)) t := by
  have habsent : ∀ n ∈ [sha256, mountsDir], ∀ m,
      FileTree.get (cfg.root ++ [n, m]) t = .error .notExist := by
    intro n hn m
    rw [← singleton_append, ← append_assoc, get_append]
    rcases h n hn with hget | hget
    · rw [hget]
    · rw [hget]
      rfl
  have hroot : ∀ n ∈ [sha256, mountsDir], FileTree.Listable (FileTree.get (cfg.root ++ [n]) t) := by
    intro n hn
    rcases h n hn with hget | hget
    · rw [hget]
      exact trivial
    · exact listable_of_dir hget
  refine ⟨fun hx => ?_, fun c l hl => ?_, fun n => ?_, nofun, nofun, Pairwise.nil,
    hroot _ mem_cons_self, hroot _ (mem_cons_of_mem _ mem_cons_self)⟩
  · rw [LayerStore.empty, AList.lookup_empty]
    exact habsent _ mem_cons_self hx
  · simp [LayerStore.empty, AList.lookup_empty] at hl
  · rw [LayerStore.empty, AList.lookup_empty]
    exact habsent _ (mem_cons_of_mem _ mem_cons_self) n

/-- A store whose files agree with it is loaded again, whatever the order of
    the listing. -/
theorem restart_loads {ls : LayerStore} {w : FileWorld δ} (hacc : Accounted ls (fun _ => 0))
    (h : Saved cfg ls ([] : List (Op (FileWorld δ) Path)) w.tree) {ids ids0 : List ChainID}
    {names names0 : List Str}
    (hlist : (fileBackend cfg driver tar).store.list w = (.ok (ids0, names0), w))
    (hids : ids.Perm ids0) (hnames : names.Perm names0) :
    ∃ fuel ls', newStoreFromGraphDriver ((fileBackend cfg driver tar).listing ids names) fuel w =
        some (.ok ls', w) ∧
      Accounted ls' (fun _ => 0) ∧ Saved cfg ls' ([] : List (Op (FileWorld δ) Path)) w.tree ∧
      Restored ls ls' := by
  rcases list_saved h with ⟨ids1, names1, hlist1, hnodup1, hids1, hnames1⟩
  have hsame : (ok (ids0, names0) : Except Str _) = .ok (ids1, names1) :=
    (congrArg Prod.fst hlist).symm.trans hlist1
  rw [ok.injEq, Prod.mk.injEq] at hsame
  rw [hsame.1] at hids
  rw [hsame.2] at hnames
  have hnodup := hids.nodup_iff.mpr hnodup1
  have hidsIff : ∀ c, c ∈ ids ↔ ∃ l, ls.layerMap.lookup c = some l := fun c =>
    hids.mem_iff.trans (hids1 c)
  have hnamesIff : ∀ n, n ∈ names ↔ ∃ m, ls.mounts.lookup n = some m := fun n =>
    hnames.mem_iff.trans (hnames1 n)
  have hstable : StableReads ((fileBackend cfg driver tar).listing ids names) (fun v => v = w)
      (layerReads driver tar cfg w) (mountReads driver tar cfg w) :=
    ⟨(fileBackend_stable cfg driver tar w).readLayer,
      (fileBackend_stable cfg driver tar w).readMount⟩
  -- All the heights together are fuel enough for each.
  have hfuel : ∀ c ∈ ids, heightIn ls c < (ids.map (heightIn ls)).sum + 1 := fun c hc =>
    Nat.lt_succ_of_le (single_le_sum (fun _ _ => Nat.zero_le _) _ (mem_map_of_mem hc))
  rcases newStore_loading hstable (consistent_saved driver tar hacc h hnodup hidsIff hnamesIff)
    _ hfuel w w rfl rfl with ⟨ls', w', hnew, hw', hload⟩
  rw [hw'] at hnew
  exact ⟨_, ls', hnew, accounted_of_loading hnodup hload,
    saved_loaded hacc h hidsIff hnamesIff hload hnodup,
    loading_restored hacc h hidsIff hnamesIff hload hnodup⟩

/-- Throughout a history the store is accounted for and the files agree with
    it. -/
theorem history_saved (hsuffix : ∀ k, '/' ∉ cfg.suffix k) {ls : LayerStore} {w : FileWorld δ}
    (h : History cfg driver tar ls w) :
    Accounted ls (fun _ => 0) ∧ Saved cfg ls ([] : List (Op (FileWorld δ) Path)) w.tree := by
  induction h with
  | empty hfresh => exact ⟨accounted_empty, saved_empty hfresh⟩
  | run hbefore hnamed hrun hrs hops ih =>
    rcases run_saved hsuffix (sysOK_init _ ih.1) ih.2 hnamed hrun hrs hops with ⟨hok, hsaved⟩
    have hacc := hok.acc
    rw [hops] at hacc hsaved
    exact ⟨hacc, hsaved⟩
  | restart hbefore hlist hids hnames hnew ih =>
    rcases restart_loads ih.1 ih.2 hlist hids hnames with ⟨fuel, ls1, hnew1, hacc, hsaved, _⟩
    -- The fuel does not matter, so this is the store that was loaded.
    have h1 := newStore_mono (Nat.le_max_left _ fuel) hnew
    rw [newStore_mono (Nat.le_max_right _ fuel) hnew1, some.injEq, Prod.mk.injEq, ok.injEq] at h1
    rw [← h1.1, ← h1.2]
    exact ⟨hacc, hsaved⟩

/-- After any history, loading the store again gives the same layers and the
    same mounts, each layer counted for its children and mounts only, in
    whatever order they are listed. -/
theorem restart_restores (hsuffix : ∀ k, '/' ∉ cfg.suffix k) {ls : LayerStore} {w : FileWorld δ}
    (h : History cfg driver tar ls w) :
    ∃ ids₀ names₀, (fileBackend cfg driver tar).store.list w = (.ok (ids₀, names₀), w) ∧
      ∀ ids names, ids.Perm ids₀ → names.Perm names₀ → ∃ enough ls', Restored ls ls' ∧
        ∀ fuel, enough ≤ fuel →
          newStoreFromGraphDriver ((fileBackend cfg driver tar).listing ids names) fuel w =
            some (.ok ls', w) := by
  rcases history_saved hsuffix h with ⟨hacc, hsaved⟩
  rcases list_saved hsaved with ⟨ids₀, names₀, hlist, _⟩
  have hcall : (fileBackend cfg driver tar).store.list w = (.ok (ids₀, names₀), w) :=
    Prod.ext hlist rfl
  refine ⟨ids₀, names₀, hcall, fun ids names hids hnames => ?_⟩
  rcases restart_loads hacc hsaved hcall hids hnames with ⟨fuel, ls', hnew, _, _, hrestored⟩
  exact ⟨fuel, ls', hrestored, fun fuel' hle => newStore_mono hle hnew⟩

end History

/-- Three layers and a mount on top of them. -/
def registerMount {ω : Type} : List (Action ω) :=
  registerThree ++ [.createRWLayer ['m'] topID [] none [] (flatID 'd'), .resume 0]

/-- Whether every call of a run from an empty store succeeds and is over. -/
def succeeds (as : List (Action (FileWorld (List Str)))) : Bool :=
  match run (step idBackend) as (Sys.init Path LayerStore.empty emptyWorld) with
  | .error _ => false
  | .ok (rs, s) => decide (∀ r ∈ rs, ¬ IsError r) && s.ops.isEmpty

/-- Whether a layer is in the map after a run, and whether it is still there
    after a restart. -/
def foundAfterRestart (as : List (Action (FileWorld (List Str)))) (c : ChainID) :
    Option (Bool × Bool) :=
  match run (step idBackend) as (Sys.init Path LayerStore.empty emptyWorld) with
  | .error _ => none
  | .ok (_, s) =>
    match newStoreFromGraphDriver idBackend 4 s.world with
    | some (.ok ls, _) =>
      some ((s.ls.layerMap.lookup c).isSome, (ls.layerMap.lookup c).isSome)
    | _ => none

theorem restart_restores_mount :
    ∃ ls w, History rootConfig idDriver idTar ls w ∧ (ls.layerMap.lookup topID).isSome = true ∧
      ∃ ids₀ names₀, idBackend.store.list w = (.ok (ids₀, names₀), w) ∧
        ∀ ids names, ids.Perm ids₀ → names.Perm names₀ → ∃ enough ls', Restored ls ls' ∧
          ∀ fuel, enough ≤ fuel →
            newStoreFromGraphDriver (idBackend.listing ids names) fuel w = some (.ok ls', w) := by
  have hsucceeds : succeeds registerMount = true := by decide +kernel
  have hfound : foundAfterRestart registerMount topID = some (true, true) := by decide +kernel
  have hnamed : ∀ a ∈ (registerMount : List (Action (FileWorld (List Str)))),
      Named rootConfig a := by
    have hids : ∀ d ∈ ['a', 'b', 'c', 'd'], validate (flatDigest d) = .ok () ∧
        IsStringID (flatID d) ∧ IsStringID (initIDOf (flatID d)) :=
      List.all_iff_forall_prop.mp (by decide +kernel)
    have hregister : ∀ d ∈ ['a', 'b', 'c', 'd'], ∀ parent size,
        Named rootConfig (.registerByGraphID (flatID d) parent (flatDigest d) [] size :
          Action (FileWorld (List Str))) :=
      fun d hd _ _ => ⟨(hids d hd).2.1, (hids d hd).1, fun _ => ⟨_, rfl, (hids d hd).1⟩⟩
    have hmount := (hids 'd' (by decide)).2
    intro a ha
    simp only [registerMount, registerThree, List.cons_append, List.nil_append, List.mem_cons,
      List.not_mem_nil, or_false] at ha
    rcases ha with rfl | rfl | rfl | rfl | rfl | rfl | rfl | rfl
    · exact hregister 'a' (by decide) _ _
    · exact trivial
    · exact hregister 'c' (by decide) _ _
    · exact trivial
    · exact hregister 'b' (by decide) _ _
    · exact trivial
    · exact ⟨by decide, hmount.1, hmount.2, fun f hf => by simp at hf⟩
    · exact trivial
  unfold succeeds at hsucceeds
  cases hrun : run (step idBackend) registerMount
      (Sys.init Path LayerStore.empty emptyWorld) with
  | error e =>
    simp [hrun] at hsucceeds
  | ok out =>
    rcases out with ⟨rs, s⟩
    rw [hrun] at hsucceeds
    simp only [Bool.and_eq_true, decide_eq_true_eq, List.isEmpty_iff] at hsucceeds
    have hhistory : History rootConfig idDriver idTar s.ls s.world :=
      .run (.empty fun n _ => .inl rfl) hnamed hrun hsucceeds.1 hsucceeds.2
    refine ⟨s.ls, s.world, hhistory, ?_, restart_restores rootConfig_suffix hhistory⟩
    rw [foundAfterRestart, hrun] at hfound
    simp only at hfound
    split at hfound
    · simp only [Option.some.injEq, Prod.mk.injEq] at hfound
      exact hfound.1
    · nomatch hfound

/-- `RegisterByGraphID` with an ID that is not 64 digits long succeeds, and
    the layer is not found by the next load. -/
theorem graphID_lost :
    succeeds [.registerByGraphID ['x'] [] (flatDigest 'a') [] 1, .resume 0] = true ∧
      foundAfterRestart [.registerByGraphID ['x'] [] (flatDigest 'a') [] 1, .resume 0]
        (flatDigest 'a') = some (true, false) := by
  decide +kernel

end Dao.Layer
