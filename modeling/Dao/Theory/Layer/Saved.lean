import Dao.Theory.Layer.Records

/-!
# What the Files Say About the Store

The metadata store holds the layers and the mounts of the layer store and
nothing else: a layer or mount of the maps has a directory with its record,
and where the maps have nothing there is no directory. This holds point by
point, for one chain ID or name at a time, so that an operation which works
in one directory has to account for that directory only.

It is an invariant of runs in which every operation succeeds. A failed
`saveMount` leaves half a record behind, so a failed operation is followed
only until it has told its caller: an operation in flight that carries an
error stands for it in the meantime.

## Theorems

* `step_saved`: A step keeps the invariant.
* `run_saved`: It holds in these runs.
-/

namespace Dao.Layer

open Lib AList FileTree Digest Call List

/-- The transaction an operation in flight has open. -/
def Op.draft {ω τ : Type} : Op ω τ → Option τ
  | registerCommit _ _ _ tx _ _ => some tx
  | registerCleanup _ _ tx _ => some tx
  | _ => none

/-- The init function does not touch the metadata. -/
def KeepsFiles {δ : Type} (initFunc : Option (Str → Call Str (FileWorld δ) Unit)) : Prop :=
  ∀ f, initFunc = some f → ∀ path w, (f path w).2.tree = w.tree

/-- The descriptor can be read back, if it is stored at all. -/
def ReadsBack (cfg : FileConfig) (d : Descriptor) : Prop :=
  d.digest ≠ [] → cfg.codec.RoundTrips d

/-- The getters accept what a layer is recorded with. -/
def RoLayer.Legible (cfg : FileConfig) (l : RoLayer) : Prop :=
  validate l.diffID = .ok () ∧ IsStringID l.cacheID ∧ ReadsBack cfg l.info.descriptor

/-- The getters accept what a mount is recorded with. -/
def MountedLayer.Legible (m : MountedLayer) : Prop :=
  IsStringID m.mountID ∧ (m.initID = [] ∨ IsStringID m.initID)

section Saved

variable {δ : Type} (cfg : FileConfig)

/-- The getters will accept what an operation is going to record. -/
def Op.Legible : Op (FileWorld δ) Path → Prop
  | registerApply _ _ descriptor cacheID => IsStringID cacheID ∧ ReadsBack cfg descriptor
  | registerCommit _ descriptor cacheID _ _ diffID =>
    (IsStringID cacheID ∧ ReadsBack cfg descriptor) ∧ IsSha256 diffID
  | registerByGraphID _ graphID parentID diffID _ _ =>
    IsStringID graphID ∧ validate diffID = .ok () ∧
      IsSha256 (createChainIDFromParent parentID [diffID])
  | createRWLayer _ name _ initFunc _ mountID =>
    Plain name ∧ IsStringID mountID ∧ IsStringID (initIDOf mountID) ∧ KeepsFiles initFunc
  | createRWLayerByGraphID _ name graphID =>
    Plain name ∧ IsStringID graphID ∧ IsStringID (initIDOf graphID)
  | _ => True

/-- The directory of an operation's transaction, which holds the record of the
    layer once it has been applied. -/
def Op.Drafted (t : Node Str) : Op (FileWorld δ) Path → Prop
  | registerCommit p descriptor cacheID tx size diffID =>
    (∃ n es, tx = draftPath cfg n ∧ FileTree.get tx t = .ok (.dir es)) ∧
      LayerFiles cfg (entries t tx) diffID size cacheID descriptor p
  | registerCleanup _ _ tx _ => ∃ n es, tx = draftPath cfg n ∧ FileTree.get tx t = .ok (.dir es)
  | _ => True

/-- The directory of a chain ID: the record of its layer, or nothing. -/
def LayerSaved (t : Node Str) (hx : Name) : Option RoLayer → Prop
  | none => FileTree.get (layerPath cfg hx) t = .error .notExist
  | some l => l.Legible cfg ∧ LayerFiles cfg (entries t (layerPath cfg hx)) l.diffID l.info.size
      l.cacheID l.info.descriptor l.parent

/-- The directory of a name: the record of its mount, or nothing. -/
def MountSaved (t : Node Str) (n : Name) : Option MountedLayer → Prop
  | none => FileTree.get (mountPath cfg n) t = .error .notExist
  | some m => Plain n ∧ m.Legible ∧
      MountFiles (entries t (mountPath cfg n)) m.mountID m.initID m.parent

/-- The files agree with the store and with the operations in flight. -/
structure Saved (ls : LayerStore) (ops : List (Op (FileWorld δ) Path)) (t : Node Str) : Prop where
  layers : ∀ hx, LayerSaved cfg t hx (ls.layerMap.lookup (newDigestFromHex sha256 hx))
  digests : ∀ c l, ls.layerMap.lookup c = some l → IsSha256 c
  mounts : ∀ n, MountSaved cfg t n (ls.mounts.lookup n)
  legible : ∀ op ∈ ops, op.Legible cfg
  drafts : ∀ op ∈ ops, op.Drafted cfg t
  apart : ops.Pairwise fun op op' => ∀ tx, op.draft = some tx → op'.draft ≠ some tx
  layerRoot : FileTree.Listable (FileTree.get (cfg.root ++ [Digest.sha256]) t)
  mountRoot : FileTree.Listable (FileTree.get (cfg.root ++ [mountsDir]) t)

variable {cfg} {ls ls' : LayerStore} {ops ops' : List (Op (FileWorld δ) Path)}
  {op : Op (FileWorld δ) Path} {t t' : Node Str}

variable {hx n : Name}

theorem layerSaved_congr
    (h : FileTree.get (layerPath cfg hx) t' = FileTree.get (layerPath cfg hx) t)
    {o : Option RoLayer} (hsaved : LayerSaved cfg t hx o) : LayerSaved cfg t' hx o := by
  cases o with
  | none => exact h.trans hsaved
  | some l =>
    rw [LayerSaved, entries_congr h]
    exact hsaved

theorem mountSaved_congr (h : FileTree.get (mountPath cfg n) t' = FileTree.get (mountPath cfg n) t)
    {o : Option MountedLayer} (hsaved : MountSaved cfg t n o) : MountSaved cfg t' n o := by
  cases o with
  | none => exact h.trans hsaved
  | some m =>
    rw [MountSaved, entries_congr h]
    exact hsaved

theorem draft_dir (h : op.Drafted cfg t) {tx : Path} (htx : op.draft = some tx) :
    ∃ n es, tx = draftPath cfg n ∧ FileTree.get tx t = .ok (.dir es) := by
  cases op with
  | registerCommit =>
    cases htx
    exact h.1
  | registerCleanup =>
    cases htx
    exact h
  | _ => simp [Op.draft] at htx

theorem drafted_congr (h : op.Drafted cfg t)
    (hsame : ∀ tx, op.draft = some tx → FileTree.get tx t' = FileTree.get tx t) :
    op.Drafted cfg t' := by
  cases op with
  | registerCommit p descriptor cacheID tx =>
    rcases h with ⟨⟨n, es, htx, hget⟩, hfiles⟩
    refine ⟨⟨n, es, htx, (hsame tx rfl).trans hget⟩, ?_⟩
    rw [entries_congr (hsame tx rfl)]
    exact hfiles
  | registerCleanup p cacheID tx res =>
    rcases h with ⟨n, es, htx, hget⟩
    exact ⟨n, es, htx, (hsame tx rfl).trans hget⟩
  | _ => exact trivial

theorem saved_tail (h : Saved cfg ls (op :: ops) t) : Saved cfg ls ops t where
  layers := h.layers
  digests := h.digests
  mounts := h.mounts
  legible := fun op' hop => h.legible op' (mem_cons_of_mem _ hop)
  drafts := fun op' hop => h.drafts op' (mem_cons_of_mem _ hop)
  apart := h.apart.of_cons
  layerRoot := h.layerRoot
  mountRoot := h.mountRoot

theorem draft_of_head (h : Saved cfg ls (op :: ops) t) (htx : op.draft = some (draftPath cfg n)) :
    ∀ op' ∈ ops, ∀ m ∈ [n], op'.draft ≠ some (draftPath cfg m) := by
  intro op' hop m hm
  rw [mem_singleton.mp hm]
  exact (pairwise_cons.mp h.apart).1 op' hop _ htx

variable (h : Saved cfg ls ops t)
include h

theorem saved_perm (hperm : ops.Perm ops') : Saved cfg ls ops' t where
  layers := h.layers
  digests := h.digests
  mounts := h.mounts
  legible := fun op hop => h.legible op (hperm.mem_iff.mpr hop)
  drafts := fun op hop => h.drafts op (hperm.mem_iff.mpr hop)
  apart := (hperm.pairwise_iff fun hab tx hb ha => hab tx ha hb).mp h.apart
  layerRoot := h.layerRoot
  mountRoot := h.mountRoot

theorem saved_cons (hlegible : op.Legible cfg) (hdrafted : op.Drafted cfg t)
    (hapart : ∀ op' ∈ ops, ∀ tx, op.draft = some tx → op'.draft ≠ some tx) :
    Saved cfg ls (op :: ops) t where
  layers := h.layers
  digests := h.digests
  mounts := h.mounts
  legible := forall_mem_cons.mpr ⟨hlegible, h.legible⟩
  drafts := forall_mem_cons.mpr ⟨hdrafted, h.drafts⟩
  apart := pairwise_cons.mpr ⟨hapart, h.apart⟩
  layerRoot := h.layerRoot
  mountRoot := h.mountRoot

/-- A change in the directories of some chain IDs, names and transactions:
    those of the chain IDs and names are accounted for, and those of the
    transactions are of no operation in flight. -/
theorem saved_of_frame {layers mounts drafts : List Name}
    (hframe : Frame cfg layers mounts drafts t t') (hlayers : ∀ hx, hx ∉ layers →
      ls'.layerMap.lookup (newDigestFromHex sha256 hx) =
      ls.layerMap.lookup (newDigestFromHex sha256 hx))
    (hnew : ∀ hx ∈ layers, LayerSaved cfg t' hx (ls'.layerMap.lookup (newDigestFromHex sha256 hx)))
    (hdigests : ∀ c l, ls'.layerMap.lookup c = some l → IsSha256 c)
    (hmounts : ∀ n, n ∉ mounts → ls'.mounts.lookup n = ls.mounts.lookup n)
    (hnewMounts : ∀ n ∈ mounts, MountSaved cfg t' n (ls'.mounts.lookup n))
    (hdrafts : ∀ op ∈ ops, ∀ n ∈ drafts, op.draft ≠ some (draftPath cfg n)) :
    Saved cfg ls' ops t' where
  layers := by
    intro hx
    by_cases hmem : hx ∈ layers
    · exact hnew hx hmem
    · rw [hlayers hx hmem]
      exact layerSaved_congr (hframe.layer hx hmem) (h.layers hx)
  digests := hdigests
  mounts := by
    intro n
    by_cases hmem : n ∈ mounts
    · exact hnewMounts n hmem
    · rw [hmounts n hmem]
      exact mountSaved_congr (hframe.mount n hmem) (h.mounts n)
  legible := h.legible
  -- A transaction outside of the frame is where it was, with what it held.
  drafts := by
    intro op hop
    refine drafted_congr (h.drafts op hop) fun tx htx => ?_
    rcases draft_dir (h.drafts op hop) htx with ⟨n, es, hn, _⟩
    rw [hn] at htx ⊢
    exact hframe.draft n fun hmem => hdrafts op hop n hmem htx
  apart := h.apart
  layerRoot := hframe.layerRoot h.layerRoot
  mountRoot := hframe.mountRoot h.mountRoot

theorem saved_of_drafts {drafts : List Name} (hframe : Frame cfg [] [] drafts t t')
    (hdrafts : ∀ op ∈ ops, ∀ n ∈ drafts, op.draft ≠ some (draftPath cfg n)) : Saved cfg ls ops t' :=
  saved_of_frame h hframe (fun _ _ => rfl) nofun h.digests (fun _ _ => rfl) nofun hdrafts

theorem saved_same (hmap : ls'.layerMap = ls.layerMap) (hmounts : ls'.mounts = ls.mounts) :
    Saved cfg ls' ops t := by
  refine { h with layers := ?_, digests := ?_, mounts := ?_ }
  · rw [hmap]
    exact h.layers
  · rw [hmap]
    exact h.digests
  · rw [hmounts]
    exact h.mounts

theorem parentValid_of_saved {p : Option RoLayer} (hp : ∀ q, p = some q → InMap ls q) :
    ParentValid p := by
  intro q hq
  rcases h.digests _ _ (hp q hq) with ⟨hx, hc, hvalid⟩
  exact hvalid

/-- No operation in flight has a transaction where nothing is. -/
theorem drafts_apart (hfresh : ∀ x, FileTree.get (draftPath cfg n) t ≠ .ok x) :
    ∀ op ∈ ops, ∀ m ∈ [n], op.draft ≠ some (draftPath cfg m) := by
  intro op hop m hm htx
  rw [mem_singleton.mp hm] at htx
  rcases draft_dir (h.drafts op hop) htx with ⟨_, es, _, hget⟩
  exact hfresh _ hget

theorem saved_publish {l : RoLayer} (hframe : Frame cfg [hx] [] [n] t t')
    (hdrafts : ∀ op ∈ ops, ∀ m ∈ [n], op.draft ≠ some (draftPath cfg m))
    (hvalid : validate (newDigestFromHex sha256 hx) = .ok ())
    (hchain : l.chainID = newDigestFromHex sha256 hx)
    (hmap : ls'.layerMap = ls.layerMap.insert l.chainID l) (hmounts : ls'.mounts = ls.mounts)
    (hsaved : LayerSaved cfg t' hx (some l)) : Saved cfg ls' ops t' := by
  rw [hchain] at hmap
  refine saved_of_frame h hframe (fun hx' hmem => ?_) (fun hx' hmem => ?_) (fun c k hk => ?_)
    (fun m _ => by rw [hmounts]) nofun hdrafts
  · have hne : newDigestFromHex sha256 hx' ≠ newDigestFromHex sha256 hx := by
      intro heq
      rw [newDigestFromHex_inj heq] at hmem
      exact hmem (mem_singleton_self hx)
    rw [hmap, lookup_insert_ne hne]
  · rw [mem_singleton.mp hmem, hmap, lookup_insert]
    exact hsaved
  · by_cases hc : c = newDigestFromHex sha256 hx
    · exact ⟨hx, hc, hc ▸ hvalid⟩
    · rw [hmap, lookup_insert_ne hc] at hk
      exact h.digests c k hk

theorem saved_erase (hframe : Frame cfg [hx] [] [] t t')
    (hmap : ls'.layerMap = ls.layerMap.erase (newDigestFromHex sha256 hx))
    (hmounts : ls'.mounts = ls.mounts)
    (hgone : FileTree.get (layerPath cfg hx) t' = .error .notExist) : Saved cfg ls' ops t' := by
  refine saved_of_frame h hframe (fun hx' hmem => ?_) (fun hx' hmem => ?_) (fun c k hk => ?_)
    (fun m _ => by rw [hmounts]) nofun
    nofun
  · have hne : newDigestFromHex sha256 hx' ≠ newDigestFromHex sha256 hx := by
      intro heq
      rw [newDigestFromHex_inj heq] at hmem
      exact hmem (mem_singleton_self hx)
    rw [hmap, lookup_erase_ne hne]
  · rw [mem_singleton.mp hmem, hmap, lookup_erase]
    exact hgone
  · rw [hmap] at hk
    exact h.digests c k (submap_erase _ _ c k hk)

theorem saved_mount {m : MountedLayer} (hframe : Frame cfg [] [n] [] t t')
    (hmap : ls'.layerMap = ls.layerMap) (hmounts : ls'.mounts = ls.mounts.insert n m)
    (hsaved : MountSaved cfg t' n (some m)) : Saved cfg ls' ops t' := by
  refine saved_of_frame h hframe (fun hx _ => by rw [hmap])
    nofun (fun c k hk => ?_) (fun k hmem => ?_)
    (fun k hmem => ?_) nofun
  · rw [hmap] at hk
    exact h.digests c k hk
  · have hne : k ≠ n := fun heq => hmem (mem_singleton.mpr heq)
    rw [hmounts, lookup_insert_ne hne]
  · rw [mem_singleton.mp hmem, hmounts, lookup_insert]
    exact hsaved

theorem saved_unmount (hframe : Frame cfg [] [n] [] t t') (hmap : ls'.layerMap = ls.layerMap)
    (hmounts : ls'.mounts = ls.mounts.erase n)
    (hgone : FileTree.get (mountPath cfg n) t' = .error .notExist) : Saved cfg ls' ops t' := by
  refine saved_of_frame h hframe (fun hx _ => by rw [hmap])
    nofun (fun c k hk => ?_) (fun k hmem => ?_)
    (fun k hmem => ?_) nofun
  · rw [hmap] at hk
    exact h.digests c k hk
  · have hne : k ≠ n := fun heq => hmem (mem_singleton.mpr heq)
    rw [hmounts, lookup_erase_ne hne]
  · rw [mem_singleton.mp hmem, hmounts, lookup_erase]
    exact hgone

theorem saved_references {m : MountedLayer} (hm : ls.mounts.lookup n = some m)
    (references : Finset Nat) (hmap : ls'.layerMap = ls.layerMap)
    (hmounts : ls'.mounts = ls.mounts.insert n { m with references := references }) :
    Saved cfg ls' ops t := by
  have hsaved := h.mounts n
  rw [hm] at hsaved
  exact saved_mount h (frame_refl ..) hmap hmounts hsaved

end Saved

/-- The operation is going to return an error. -/
def Op.failed {ω τ : Type} : Op ω τ → Bool
  | registerCleanup _ _ _ (.error _) => true
  | releaseParent _ _ (.error _) => true
  | _ => false

section Segments

variable {δ : Type} {cfg : FileConfig} {driver : Driver δ} {tar : TarData δ Path}
  {ls ls' : LayerStore} {ops : List (Op (FileWorld δ) Path)} {w w' : FileWorld δ}
  {next : Next (FileWorld δ) Path}

/-- The invariant once an operation has gone on to what it does next, unless
    it has failed. -/
def SavedNext (cfg : FileConfig) (ls : LayerStore) (ops : List (Op (FileWorld δ) Path))
    (t : Node Str) : Next (FileWorld δ) Path → Prop
  | .finish res => (∃ e, res = .error e) ∨ Saved cfg ls ops t
  | .wait op => op.failed = true ∨ Saved cfg ls (op :: ops) t

variable {p : Option RoLayer}

theorem savedNext_error {mount : Bool} {e : Err} {t : Node Str} :
    SavedNext cfg ls ops t (abandon mount (.error e) p) := by
  cases p with
  | none => exact .inl ⟨e, rfl⟩
  | some q => exact .inl rfl

variable {t : Node Str} {size : Int64} {diffID : DiffID} {p : Option RoLayer}
  {cacheID graphID name : Str}

theorem saved_wait (op : Op (FileWorld δ) Path) (h : Saved cfg ls ops t) (hdraft : op.draft = none)
    (hlegible : op.Legible cfg) : Saved cfg ls (op :: ops) t := by
  refine saved_cons h hlegible ?_ fun op' _ tx htx => ?_
  · cases op <;> first | exact trivial | simp only [Op.draft, reduceCtorEq] at hdraft
  · simp [hdraft] at htx

theorem savedNext_abandon (h : Saved cfg ls ops t) (mount : Bool) (res : Result)
    (p : Option RoLayer) : SavedNext cfg ls ops t (abandon mount res p) := by
  cases p with
  | none => exact .inr h
  | some q => exact .inr (saved_wait _ h rfl trivial)

theorem onDriver_tree {α : Type} {x : Call Str δ α} {r : Except Str α}
    (h : onDriver x w = (r, w')) : w'.tree = w.tree :=
  (congrArg (fun out => out.2.tree) h).symm

theorem blank_of_empty {dir : Path} (h : FileTree.get dir t = .ok (.dir [])) :
    Blank (entries t dir) :=
  ⟨get_entry h _, get_entry h _, get_entry h _⟩

theorem blank_of_absent {dir : Path} (h : FileTree.get dir t = .error .notExist) :
    Blank (entries t dir) := by
  have habsent : ∀ g, entries t dir g = fileOr none := by
    intro g
    rw [entries, get_append, h]
    rfl
  exact ⟨habsent _, habsent _, habsent _⟩

/-- The tar-split file is not one of the record. -/
theorem tarSplit_blank {n : Name} (hblank : Blank (entries w.tree (draftPath cfg n)))
    (h : setFile (draftPath cfg n) tarSplitFile [] w = (.ok (), w')) :
    Blank (entries w'.tree (draftPath cfg n)) ∧ InDraft cfg n w w' := by
  refine ⟨?_, setFile_inDraft cfg n (by decide) h⟩
  rw [setFile_entries cfg (by decide) h]
  exact hblank

variable {diffID : DiffID} {size : Int64}

theorem applyTar_blank {n : Name} {ts : Bytes} {parent cacheID : Str}
    (hblank : Blank (entries w.tree (draftPath cfg n)))
    (h : applyTar (fileBackend cfg driver tar) (draftPath cfg n) ts parent cacheID w =
      (.ok (size, diffID), w')) :
    Blank (entries w'.tree (draftPath cfg n)) ∧ InDraft cfg n w w' := by
  rcases bind_eq_ok.mp h with ⟨_, w1, h1, h⟩
  rcases bind_eq_ok.mp h with ⟨_, w2, h2, h⟩
  rcases bind_eq_ok.mp h with ⟨k, w3, h3, h⟩
  cases h
  rcases tarSplit_blank hblank h1 with ⟨hblank1, hframe⟩
  have htree : w'.tree = w1.tree := by
    rw [onDriver_tree h3, onDriver_tree h2]
  rw [InDraft, htree]
  exact ⟨hblank1, hframe⟩

/-- The lock-free part of `Register` leaves the record of the layer in a
    transaction of its own. -/
theorem registerApply_saved (hsuffix : ∀ k, '/' ∉ cfg.suffix k) {ts : Bytes}
    {descriptor : Descriptor}
    (h : Saved cfg ls (.registerApply p ts descriptor cacheID :: ops) w.tree)
    (hrun : registerApply (fileBackend cfg driver tar) p ts descriptor cacheID w = (next, w')) :
    SavedNext cfg ls ops w'.tree next := by
  have hcache : IsStringID cacheID ∧ ReadsBack cfg descriptor := h.legible _ mem_cons_self
  unfold registerApply at hrun
  rcases hc : (fileBackend cfg driver tar).driver.create cacheID (parentCacheID p) [] [] w with
    ⟨r, w1⟩
  have htree := onDriver_tree hc
  rw [hc] at hrun
  rcases r with e | u
  · cases hrun
    exact savedNext_error
  simp only at hrun
  -- The new transaction is where nothing was, so it is no other operation's.
  rcases startTransaction_frame cfg hsuffix w1 with ⟨e, w2, hs, _⟩ |
    ⟨n, w2, hs, hframe, _, hfresh, hdir⟩
  · rw [show (fileBackend cfg driver tar).store.startTransaction w1 = _ from hs] at hrun
    cases hrun
    exact savedNext_error
  rw [show (fileBackend cfg driver tar).store.startTransaction w1 = _ from hs] at hrun
  simp only at hrun
  rw [htree] at hframe hfresh
  split at hrun
  · cases hrun
    exact .inl rfl
  next size diffID w3 heq =>
  cases hrun
  rcases bind_eq_ok.mp heq with ⟨⟨size', diffID'⟩, w4, happly, hrest⟩
  rcases bind_eq_ok.mp hrest with ⟨_, w5, hstore, hpure⟩
  simp only [pure_apply, Prod.mk.injEq, Except.ok.injEq] at hpure
  rcases applyTar_blank (blank_of_empty hdir) happly with ⟨hblank, hframe4⟩
  rcases storeLayer_files cfg driver tar hblank hstore with ⟨hfiles, hframe5⟩
  have hdiff := applyTar_diffID _ happly
  have hall : Frame cfg [] [] [n] w.tree w5.tree :=
    frame_trans hframe (frame_trans hframe4 hframe5)
  rw [← hpure.1.1, ← hpure.1.2, ← hpure.2]
  have htail := saved_tail h
  have hapart := drafts_apart htail hfresh
  refine .inr (saved_cons (saved_of_drafts htail hall hapart) ⟨hcache, ?_⟩ ⟨?_, hfiles⟩ ?_)
  · rw [hdiff]
    exact isSha256_of_canonical (fromBytes_canonical ts)
  · rcases dir_of_get_append hfiles.diff with ⟨es, hes⟩
    exact ⟨n, es, rfl, hes⟩
  · intro op' hop tx htx
    cases htx
    exact hapart op' hop n (mem_singleton_self n)

theorem layerSaved_mk {hx : Name} {i : LayerInfo} (hdiff : validate i.diffID = .ok ())
    (hcache : IsStringID i.cacheID) (hdescriptor : ReadsBack cfg i.descriptor)
    (h : LayerFiles cfg (entries t (layerPath cfg hx)) i.diffID i.size i.cacheID i.descriptor p) :
    LayerSaved cfg t hx (some (RoLayer.mk i p)) := by
  rw [LayerSaved, RoLayer.Legible, RoLayer.diffID, RoLayer.cacheID, mk_info, mk_parent]
  exact ⟨⟨hdiff, hcache, hdescriptor⟩, h⟩

theorem registerCommit_saved {descriptor : Descriptor} {cacheID : Str} {tx : Path}
    (h : Saved cfg ls (.registerCommit p descriptor cacheID tx size diffID :: ops) w.tree)
    (hrun : registerCommit (fileBackend cfg driver tar) p descriptor cacheID tx size diffID ls w =
      (next, ls', w')) :
    SavedNext cfg ls' ops w'.tree next := by
  rcases h.legible _ mem_cons_self with ⟨⟨hcache, hdescriptor⟩, hdiff⟩
  rcases h.drafts _ mem_cons_self with ⟨⟨n, es, htx, hget⟩, hfiles⟩
  rcases registerChainID_sha256 p hdiff with ⟨hx, hchain, hvalid⟩
  have hapart := draft_of_head h (n := n) (by rw [Op.draft, htx])
  rw [hchain] at hvalid
  unfold registerCommit at hrun
  rcases getWithoutLock_cases ls (registerChainID p diffID) with ⟨_, hlook⟩ | ⟨l, _, hlook⟩
  · simp only [hlook] at hrun
    rw [htx, hchain] at hrun
    rcases commit_frame cfg n hvalid w with ⟨e, w1, hcommit, _⟩ |
      ⟨es', w1, hcommit, hframe, _, hsrc, hdst⟩
    · rw [show (fileBackend cfg driver tar).store.commit (draftPath cfg n)
        (newDigestFromHex sha256 hx) w = _ from hcommit] at hrun
      cases hrun
      exact .inl rfl
    · rw [show (fileBackend cfg driver tar).store.commit (draftPath cfg n)
        (newDigestFromHex sha256 hx) w = _ from hcommit] at hrun
      cases hrun
      rcases hdiff with ⟨_, _, hdiffValid⟩
      refine .inr (saved_publish (saved_tail h) hframe hapart hvalid (mk_chainID _ _) rfl rfl
        (layerSaved_mk hdiffValid hcache hdescriptor ?_))
      -- The directory has been moved as it was.
      rw [entries_congr (hdst.trans hsrc.symm), ← htx]
      exact hfiles
  · simp only [hlook] at hrun
    cases hrun
    exact .inr (saved_cons (saved_same (saved_tail h) rfl rfl) trivial ⟨n, es, htx, hget⟩
      ((pairwise_cons.mp h.apart).1))

theorem registerCleanup_saved {tx : Path} {res : Result}
    (h : Saved cfg ls (.registerCleanup p cacheID tx res :: ops) w.tree)
    (hrun : registerCleanup (fileBackend cfg driver tar) p cacheID tx res w = (next, w')) :
    SavedNext cfg ls ops w'.tree next := by
  rcases h.drafts _ mem_cons_self with ⟨n, es, htx, _⟩
  have hapart := draft_of_head h (n := n) (by rw [Op.draft, htx])
  cases hrun
  rw [htx]
  refine savedNext_abandon (saved_of_drafts (saved_tail h) ?_ hapart) _ _ _
  exact (cancel_frame cfg n ((fileBackend cfg driver tar).driver.remove cacheID w).2).1

/-- The transaction of `RegisterByGraphID` leaves the record of the layer in
    its place. -/
theorem registerTransaction_files (hsuffix : ∀ k, '/' ∉ cfg.suffix k)
    {graphID : Str} {tarDataFile : Str} {hx : Name}
    (hvalid : validate (newDigestFromHex sha256 hx) = .ok ())
    (h : registerTransaction (fileBackend cfg driver tar) p graphID diffID tarDataFile size
      (newDigestFromHex sha256 hx) w = (.ok (), w')) :
    ∃ n, Frame cfg [hx] [] [n] w.tree w'.tree ∧
      (∀ x, FileTree.get (draftPath cfg n) w.tree ≠ .ok x) ∧
      LayerFiles cfg (entries w'.tree (layerPath cfg hx)) diffID size graphID Descriptor.empty
        p := by
  rcases bind_eq_ok.mp h with ⟨tx, w1, hs, h⟩
  rcases startTransaction_frame cfg hsuffix w with ⟨e, w1', hs', _⟩ |
    ⟨n, w1', hs', hframe, _, hfresh, hdir⟩
  · simp [show (fileBackend cfg driver tar).store.startTransaction w = _ from hs'] at hs
  rw [show (fileBackend cfg driver tar).store.startTransaction w = _ from hs', Prod.mk.injEq,
    Except.ok.injEq] at hs
  rw [← hs.1, ← hs.2, cancelOnError] at h
  split at h
  · nomatch h
  next u w2 heq =>
  rw [h] at heq
  rcases bind_eq_ok.mp heq with ⟨_, w3, htar, heq⟩
  rcases bind_eq_ok.mp heq with ⟨_, w4, hopen, heq⟩
  rcases bind_eq_ok.mp heq with ⟨_, w5, hcopy, heq⟩
  rcases bind_eq_ok.mp heq with ⟨_, w6, hstore, hcommit⟩
  -- The record is written into the draft, and the commit moves it to its place.
  rcases tarSplit_blank (blank_of_empty hdir) htar with ⟨hblank, hframe3⟩
  have htree : w5.tree = w3.tree := (onDriver_tree hcopy).trans (onDriver_tree hopen)
  rw [InDraft, ← htree] at hframe3
  rw [← htree] at hblank
  rcases storeLayer_files cfg driver tar hblank hstore with ⟨hfiles, hframe6⟩
  rcases commit_frame cfg n hvalid w6 with ⟨e, w7, hcall, _⟩ |
    ⟨es, w7, hcall, hframe7, _, hsrc, hdst⟩
  · have heq := hcommit.symm.trans hcall
    nomatch heq
  have heq := hcommit.symm.trans hcall
  simp only [Prod.mk.injEq, true_and] at heq
  rw [heq]
  have hdraft : Frame cfg [] [] [n] w.tree w6.tree :=
    frame_trans hframe (frame_trans hframe3 hframe6)
  refine ⟨n, frame_trans (frame_mono (nil_subset _) (Subset.refl _)
    (Subset.refl _) hdraft) hframe7, hfresh, ?_⟩
  rw [entries_congr (hdst.trans hsrc.symm)]
  exact hfiles

theorem registerByGraphID_saved (hsuffix : ∀ k, '/' ∉ cfg.suffix k)
    {graphID : Str} {parentID : ChainID} {tarDataFile : Str}
    (h : Saved cfg ls (.registerByGraphID p graphID parentID diffID tarDataFile size :: ops) w.tree)
    (hrun : registerByGraphID (fileBackend cfg driver tar) p graphID parentID diffID tarDataFile
      size ls w = (next, ls', w')) :
    SavedNext cfg ls' ops w'.tree next := by
  rcases h.legible _ mem_cons_self with ⟨hgraph, hdiff, hx, hchain, hvalid⟩
  have htail := saved_tail h
  rw [hchain] at hvalid
  unfold registerByGraphID at hrun
  rcases getWithoutLock_cases ls (createChainIDFromParent parentID [diffID]) with
    ⟨_, hlook⟩ | ⟨l, _, hlook⟩
  · simp only [hlook] at hrun
    rw [hchain] at hrun
    rcases hreg : registerTransaction (fileBackend cfg driver tar) p graphID diffID tarDataFile
      size (newDigestFromHex sha256 hx) w with ⟨r, w1⟩
    rw [hreg] at hrun
    cases r with
    | error e =>
      cases hrun
      exact savedNext_error
    | ok u =>
      rcases registerTransaction_files hsuffix hvalid hreg with ⟨n, hframe, hfresh, hfiles⟩
      cases hrun
      exact .inr (saved_publish htail hframe (drafts_apart htail hfresh) hvalid (mk_chainID _ _)
        rfl rfl (layerSaved_mk hdiff hgraph (absurd rfl) hfiles))
  -- The chain ID is there already: nothing was written, and the parent is given back.
  · simp only [hlook] at hrun
    cases hrun
    have hsame : Saved cfg ((ls.retain l).getReference l).2 ops w.tree :=
      saved_same htail rfl rfl
    exact savedNext_abandon hsame ..

variable {initFunc : Option (Str → Call Str (FileWorld δ) Unit)}

theorem createInit_tree {mountLabel : Str} {storageOpt : List (Str × Str)}
    {mountID initID : Str} (hinit : KeepsFiles initFunc)
    (h : createInit (fileBackend cfg driver tar) p mountLabel initFunc storageOpt mountID w =
      (.ok initID, w')) : w'.tree = w.tree := by
  rcases initFunc with _ | f
  · simp only [createInit, pure_apply, Prod.mk.injEq] at h
    rw [h.2]
  rcases bind_eq_ok.mp h with ⟨_, w1, h1, h⟩
  rcases bind_eq_ok.mp h with ⟨path, w2, h2, h⟩
  have hf := hinit f rfl path w2
  unfold runInitFunc at h
  rcases hr : f path w2 with ⟨r, w3⟩
  rw [hr] at h hf
  rcases r with e | u
  · nomatch h
  rcases bind_eq_ok.mp h with ⟨_, w4, h4, h⟩
  simp only [pure_apply, Prod.mk.injEq] at h
  rw [← h.2, onDriver_tree h4, hf, onDriver_tree h2, onDriver_tree h1]

theorem saveMountCalls_saved {m : MountedLayer} (h : Saved cfg ls ops w.tree)
    (hname : Plain m.name) (hfree : ls.mounts.lookup m.name = none)
    (hlegible : m.Legible) (references : Finset Nat)
    (hsave : saveMountCalls (fileBackend cfg driver tar) m w = (.ok (), w'))
    (hmap : ls'.layerMap = ls.layerMap)
    (hmounts : ls'.mounts = ls.mounts.insert m.name { m with references := references }) :
    Saved cfg ls' ops w'.tree := by
  have hnone := h.mounts m.name
  rw [hfree] at hnone
  rcases saveMountCalls_files cfg driver tar hname (blank_of_absent hnone) hsave with
    ⟨hfiles, hframe⟩
  exact saved_mount h hframe hmap hmounts ⟨hname, hlegible, hfiles⟩

theorem createRWLayer_saved {name mountLabel : Str} {storageOpt : List (Str × Str)}
    {mountID : Str} (hfree : ls.mounts.lookup name = none)
    (h : Saved cfg ls (.createRWLayer p name mountLabel initFunc storageOpt mountID :: ops) w.tree)
    (hrun : createRWLayer (fileBackend cfg driver tar) p name mountLabel initFunc storageOpt
      mountID ls w = (next, ls', w')) :
    SavedNext cfg ls' ops w'.tree next := by
  rcases h.legible _ mem_cons_self with ⟨hname, hmountID, hinitID, hinit⟩
  unfold createRWLayer at hrun
  rcases hc : createRWLayerCalls (fileBackend cfg driver tar) p name mountLabel initFunc storageOpt
    mountID w with ⟨r, w1⟩
  rw [hc] at hrun
  rcases r with e | m
  · cases hrun
    exact savedNext_error
  cases hrun
  -- The first two calls are on the driver, and only the last one writes files.
  rcases bind_eq_ok.mp hc with ⟨initID, w2, hi, hc⟩
  rcases bind_eq_ok.mp hc with ⟨_, w3, hrw, hc⟩
  rcases bind_eq_ok.mp hc with ⟨_, w4, hsave, hc⟩
  cases hc
  have htree : w3.tree = w.tree := (onDriver_tree hrw).trans (createInit_tree hinit hi)
  have hlegible : (⟨name, mountID, initID, p, ∅⟩ : MountedLayer).Legible := by
    refine ⟨hmountID, (createInit_initID hi).imp_right fun heq => ?_⟩
    rw [heq]
    exact hinitID
  have hbefore : Saved cfg ls ops w3.tree := by
    rw [htree]
    exact saved_tail h
  exact .inr (saveMountCalls_saved hbefore hname hfree hlegible _ hsave rfl rfl)

theorem createRWLayerByGraphID_saved {name graphID : Str} (hfree : ls.mounts.lookup name = none)
    (h : Saved cfg ls (.createRWLayerByGraphID p name graphID :: ops) w.tree)
    (hrun : createRWLayerByGraphID (fileBackend cfg driver tar) p name graphID ls w =
      (next, ls', w')) :
    SavedNext cfg ls' ops w'.tree next := by
  rcases h.legible _ mem_cons_self with ⟨hname, hgraph, hinitID⟩
  unfold createRWLayerByGraphID at hrun
  simp only at hrun
  split at hrun
  · cases hrun
    exact savedNext_error
  next u w1 hsave =>
  cases hrun
  refine .inr (saveMountCalls_saved (saved_tail h) hname hfree ⟨hgraph, ?_⟩ ∅ hsave rfl rfl)
  split
  · exact .inr hinitID
  · exact .inl rfl

/-- A deletion takes the directory of a layer of the map, or fails in the
    driver with the files as they were. -/
theorem deleteLayer_files {l : RoLayer} (h : Saved cfg ls ops w.tree) (hl : InMap ls l) :
    (∀ e, deleteLayer (fileBackend cfg driver tar) l w = (.error e, w') → w'.tree = w.tree) ∧
    (∀ metadata, deleteLayer (fileBackend cfg driver tar) l w = (.ok metadata, w') →
      ∃ hx, l.chainID = newDigestFromHex sha256 hx ∧ Frame cfg [hx] [] [] w.tree w'.tree ∧
        FileTree.get (layerPath cfg hx) w'.tree = .error .notExist) := by
  rcases h.digests _ _ hl with ⟨hx, hc, hvalid⟩
  rw [hc] at hvalid
  have hsaved := h.layers hx
  rw [← hc, show ls.layerMap.lookup l.chainID = some l from hl] at hsaved
  rcases dir_of_get_append hsaved.2.diff with ⟨es, hdir⟩
  constructor
  · intro e hdel
    -- The removal of an entry does not fail, so the driver did.
    rcases deleteLayer_error _ hdel with hdriver | ⟨w1, _, hstore⟩
    · exact onDriver_tree hdriver
    rcases removeEntry_frame cfg hvalid w1 with ⟨w2, hremove, _⟩
    rw [hc, show (fileBackend cfg driver tar).store.remove
      (newDigestFromHex sha256 hx) w1 = _ from hremove] at hstore
    nomatch hstore
  · intro metadata hdel
    rcases deleteLayer_ok _ hdel with ⟨w1, hdriver, hstore⟩
    rcases removeEntry_frame cfg hvalid w1 with ⟨w2, hremove, htree, hframe, _⟩
    rw [hc, show (fileBackend cfg driver tar).store.remove
      (newDigestFromHex sha256 hx) w1 = _ from hremove, Prod.mk.injEq] at hstore
    rw [onDriver_tree hdriver] at hframe htree
    rw [← hstore.2]
    refine ⟨hx, hc, hframe, ?_⟩
    rw [htree, layerPath, ← singleton_append, ← append_assoc]
    rw [layerPath, ← singleton_append, ← append_assoc] at hdir
    exact get_removeAll_entry hdir

theorem releaseLayer_saved (l : RoLayer) {depth : Nat} {removed : List Metadata}
    {res : Except Err (List Metadata)} (hl : ChainIn ls l) (h : Saved cfg ls ops w.tree)
    (hrel : releaseLayer (fileBackend cfg driver tar) depth removed l ls w = .ok (res, ls', w')) :
    Saved cfg ls' ops w'.tree := by
  have hdeleted : ∀ {l : RoLayer} {ls ls' : LayerStore} {w w' : FileWorld δ} {metadata : Metadata},
      Saved cfg ls ops w.tree → InMap ls l →
      deleteLayer (fileBackend cfg driver tar) l w = (.ok metadata, w') →
      ls'.layerMap = ls.layerMap.erase l.chainID → ls'.mounts = ls.mounts →
      Saved cfg ls' ops w'.tree := by
    intro l ls ls' w w' metadata h hl hdel hmap hmounts
    rcases (deleteLayer_files h hl).2 metadata hdel with ⟨hx, hc, hframe, hgone⟩
    rw [hc] at hmap
    exact saved_erase h hframe hmap hmounts hgone
  refine releaseLayer_rule (fileBackend cfg driver tar)
    (fun _ _ l ls w => ChainIn ls l ∧ Saved cfg ls ops w.tree)
    (fun ls w => Saved cfg ls ops w.tree) ?_ ?_ ?_ l ⟨hl, h⟩ hrel
  -- A round that ends the loop has left the files alone, also when a deletion failed.
  · rintro depth removed l ls w res ls' w' ⟨hl, h⟩ hone
    rcases releaseOne_done _ hone with ⟨hmap, hmounts, hworld⟩
    refine saved_same ?_ hmap hmounts
    rcases hworld with hw | ⟨_, e, hdel⟩
    · rw [hw]
      exact h
    · rw [(deleteLayer_files h (inMap_of_chainIn hl)).1 e hdel]
      exact h
  · rintro depth removed i ls w removed' ls' w' ⟨hl, h⟩ hone
    rcases releaseOne_next _ hone with ⟨hmap, hmounts, metadata, hdel⟩
    exact hdeleted h hl hdel hmap hmounts
  · rintro depth removed i p ls w removed' ls' w' ⟨hl, h⟩ hone
    rcases releaseOne_next _ hone with ⟨hmap, hmounts, metadata, hdel⟩
    exact ⟨chainIn_erase hl.1 hmap p (Nat.lt_succ_self _) hl.2, hdeleted h hl.1 hdel hmap hmounts⟩

theorem release_saved {held : Nat → Nat} {c : ChainID} {ref : Nat} {res : Result}
    (hacc : Accounted ls held) (h : Saved cfg ls ops w.tree)
    (hrel : release (fileBackend cfg driver tar) c ref ls w = .ok (res, ls', w')) :
    Saved cfg ls' ops w'.tree := by
  rcases release_cases _ hrel with ⟨hls, hw⟩ | ⟨l, hl, _, res', hloop⟩
  · rw [hls, hw]
    exact h
  · exact releaseLayer_saved l (chainIn_dropped hacc hl) (saved_same h rfl rfl) hloop

/-- The removals of `ReleaseRWLayer` take the directory of the mount. -/
theorem releaseRWLayerCalls_files {name : Str} {m : MountedLayer}
    (hsaved : MountSaved cfg w.tree name (some m)) (hkey : m.name = name)
    (h : releaseRWLayerCalls (fileBackend cfg driver tar) m w = (.ok (), w')) :
    Frame cfg [] [name] [] w.tree w'.tree ∧
      FileTree.get (mountPath cfg name) w'.tree = .error .notExist := by
  rcases hsaved with ⟨hname, _, hfiles⟩
  rcases dir_of_get_append hfiles.mountID with ⟨es, hdir⟩
  rcases bind_eq_ok.mp h with ⟨_, w1, h1, h⟩
  -- The driver is called once or twice, which the files do not show.
  have hrest : ∃ w2, w2.tree = w1.tree ∧
      (fileBackend cfg driver tar).store.removeMount m.name w2 = (.ok (), w') := by
    by_cases hi : m.initID = []
    · rw [if_pos hi] at h
      exact ⟨w1, rfl, h⟩
    · rw [if_neg hi] at h
      rcases bind_eq_ok.mp h with ⟨_, w2, h2, h⟩
      exact ⟨w2, onDriver_tree h2, h⟩
  rcases hrest with ⟨w2, htree, hremove⟩
  rcases removeMount_frame cfg hname w2 with ⟨w3, hcall, hremoved, hframe, _⟩
  rw [hkey, show (fileBackend cfg driver tar).store.removeMount name w2 = _ from hcall,
    Prod.mk.injEq] at hremove
  rw [htree, onDriver_tree h1] at hframe hremoved
  rw [← hremove.2]
  refine ⟨hframe, ?_⟩
  rw [hremoved, mountPath, ← singleton_append, ← append_assoc]
  rw [mountPath, ← singleton_append, ← append_assoc] at hdir
  exact get_removeAll_entry hdir

theorem startReleaseRWLayer_saved {ref : Nat} {held : Nat → Nat} (hacc : Accounted ls held)
    (h : Saved cfg ls ops w.tree)
    (hrun : startReleaseRWLayer (fileBackend cfg driver tar) name ref ls w = (next, ls', w')) :
    SavedNext cfg ls' ops w'.tree next := by
  unfold startReleaseRWLayer at hrun
  rcases hm : ls.mounts.lookup name with _ | m
  · rw [hm] at hrun
    cases hrun
    exact .inr h
  have hsaved := h.mounts name
  have hkey := hacc.mountKey name m hm
  rw [hm] at hsaved hrun
  simp only at hrun
  split at hrun
  · split at hrun
    · cases hrun
      exact .inr (saved_references h hm _ rfl rfl)
    split at hrun
    · cases hrun
      exact .inl ⟨_, rfl⟩
    -- The directory goes before the entry of the mount does.
    next u w1 hcalls =>
    have herased : Saved cfg { ls with mounts := ls.mounts.erase name } ops w1.tree := by
      rcases releaseRWLayerCalls_files hsaved hkey hcalls with ⟨hframe, hgone⟩
      exact saved_unmount h hframe rfl rfl hgone
    cases hp : m.parent with
    | none =>
      rw [hp] at hrun
      cases hrun
      exact .inr herased
    | some p =>
      rw [hp] at hrun
      cases hrun
      exact .inr (saved_wait _ herased rfl trivial)
  · cases hrun
    exact .inr h

end Segments

/-- What a call has to be given for its metadata to be read back: IDs that the
    getters accept, a descriptor that JSON can carry, diff IDs that are
    digests, of the algorithm that is listed if the layer has no parent, mount
    names that are file names, and an init function that leaves the metadata
    alone. -/
def Named {δ : Type} (cfg : FileConfig) : Action (FileWorld δ) → Prop
  | .register _ _ descriptor cacheID => IsStringID cacheID ∧ ReadsBack cfg descriptor
  | .registerByGraphID graphID parent diffID _ _ =>
    IsStringID graphID ∧ validate diffID = .ok () ∧ (parent = [] → IsSha256 diffID)
  | .createRWLayer name _ _ initFunc _ mountID =>
    Plain name ∧ IsStringID mountID ∧ IsStringID (initIDOf mountID) ∧ KeepsFiles initFunc
  | .createRWLayerByGraphID name graphID _ =>
    Plain name ∧ IsStringID graphID ∧ IsStringID (initIDOf graphID)
  | _ => True

/-- An operation in flight is going to return an error. -/
def Failing {ω τ : Type} (ops : List (Op ω τ)) : Prop := ∃ op ∈ ops, op.failed = true

/-- A result that is an error. -/
def IsError (r : Option Result) : Prop := ∃ e, r = some (.error e)

instance : DecidablePred IsError := fun r =>
  match r with
  | none => isFalse fun ⟨_, h⟩ => by simp at h
  | some (.ok _) => isFalse fun ⟨_, h⟩ => by simp at h
  | some (.error e) => isTrue ⟨e, rfl⟩

/-- An operation that carries an error passes it on or returns it. -/
theorem failed_next {ω τ : Type} {b : Backend ω τ} {s : Sys ω τ} {op : Op ω τ} {next : Next ω τ}
    {ls : LayerStore} {w : ω} (h : op.failed = true) (hdoes : op.Does b s next ls w) :
    (∃ e, next = .finish (.error e)) ∨ ∃ op', next = .wait op' ∧ op'.failed = true := by
  cases op with
  | registerCleanup p cacheID tx res =>
    cases res with
    | ok v => nomatch h
    | error e =>
      simp only [Op.Does, registerCleanup, Prod.mk.injEq] at hdoes
      rw [← hdoes.1.1]
      cases p with
      | none => exact .inl ⟨e, rfl⟩
      | some q => exact .inr ⟨_, rfl, rfl⟩
  | releaseParent p mount res =>
    cases res with
    | ok v => nomatch h
    | error e =>
      rcases hdoes with ⟨_, _, hnext⟩
      exact .inl ⟨e, hnext⟩
  | _ => nomatch h

/-- A failed operation is in flight until its error is returned. -/
theorem step_failing {ω τ : Type} {b : Backend ω τ} {s s' : Sys ω τ} {a : Action ω}
    {r : Option Result} (h : Failing s.ops) (hstep : step b a s = .ok (r, s')) :
    IsError r ∨ Failing s'.ops := by
  rcases h with ⟨op, hop, hfailed⟩
  rcases step_cases b hstep with ⟨mount, next, ls, w, _, hput⟩ |
    ⟨i, op', mount, next, ls, w, _, hi, hdoes, hadv⟩ | ⟨_, hs'⟩
  · right
    cases next with
    | finish res =>
      cases hput
      exact ⟨op, hop, hfailed⟩
    | wait =>
      cases hput
      exact ⟨op, mem_append_left _ hop, hfailed⟩
  · -- Either the failed operation is the one that goes on, or it stays.
    rcases mem_cons.mp ((perm_of_getElem? hi).mem_iff.mp hop) with heq | hrest
    · rw [heq] at hfailed
      rcases failed_next hfailed hdoes with ⟨e, hnext⟩ | ⟨op1, hnext, hfailed1⟩
      · rw [hnext] at hadv
        cases hadv
        exact .inl ⟨e, rfl⟩
      · rw [hnext] at hadv
        cases hadv
        exact .inr ⟨op1, (set_perm op1 hi).mem_iff.mpr mem_cons_self, hfailed1⟩
    · right
      cases next with
      | finish res =>
        cases hadv
        exact ⟨op, hrest, hfailed⟩
      | wait op1 =>
        cases hadv
        exact ⟨op, (set_perm op1 hi).mem_iff.mpr (mem_cons_of_mem _ hrest), hfailed⟩
  · rw [hs']
    exact .inr ⟨op, hop, hfailed⟩

section Steps

variable {δ : Type} {cfg : FileConfig} {driver : Driver δ} {tar : TarData δ Path}
  {s s' : Sys (FileWorld δ) Path} {next : Next (FileWorld δ) Path} {ls : LayerStore}
  {w : FileWorld δ} {r : Option Result}

/-- The files agree with the system, or an error is on its way. -/
def SavedSys (cfg : FileConfig) (s : Sys (FileWorld δ) Path) : Prop :=
  Saved cfg s.ls s.ops s.world.tree ∨ Failing s.ops

theorem saved_put {mount : Bool} (h : SavedNext cfg ls s.ops w.tree next)
    (hs' : s.put mount ls w next = (r, s')) : IsError r ∨ SavedSys cfg s' := by
  cases next with
  | finish res =>
    cases hs'
    rcases h with ⟨e, he⟩ | h
    · exact .inl ⟨e, by rw [he]⟩
    · exact .inr (.inl h)
  | wait op =>
    cases hs'
    rcases h with hfailed | h
    · exact .inr (.inr ⟨op, mem_append_right _ (mem_singleton_self op), hfailed⟩)
    · exact .inr (.inl (saved_perm h (perm_append_singleton op s.ops).symm))

theorem saved_advance {i : Nat} {op : Op (FileWorld δ) Path} (hop : s.ops[i]? = some op)
    {mount : Bool} (h : SavedNext cfg ls (s.ops.eraseIdx i) w.tree next)
    (hs' : s.advance i mount ls w next = (r, s')) : IsError r ∨ SavedSys cfg s' := by
  cases next with
  | finish res =>
    cases hs'
    rcases h with ⟨e, he⟩ | h
    · exact .inl ⟨e, by rw [he]⟩
    · exact .inr (.inl h)
  | wait op' =>
    cases hs'
    rcases h with hfailed | h
    · exact .inr (.inr ⟨op', (set_perm op' hop).mem_iff.mpr mem_cons_self, hfailed⟩)
    · exact .inr (.inl (saved_perm h (set_perm op' hop).symm))

/-- What a call does when it starts agrees with the files. -/
theorem action_saved {a : Action (FileWorld δ)} (hok : SysOK s)
    (h : Saved cfg s.ls s.ops s.world.tree) (hnamed : Named cfg a)
    (hdoes : a.Does (fileBackend cfg driver tar) s next ls w) :
    SavedNext cfg ls s.ops w.tree next := by
  -- A call that waits has only taken a reference, which no file records.
  cases a with
  | register =>
    rcases hdoes with ⟨hstart, hw⟩
    rcases startRegister_cases hstart with ⟨e, rfl, _⟩ | ⟨p, ht, ⟨e, rfl⟩ | ⟨rfl, _⟩⟩
    · exact .inl ⟨e, rfl⟩
    · exact savedNext_error
    · rcases takeParent_same ht with ⟨hmap, hmounts⟩
      rw [hw]
      exact .inr (saved_wait _ (saved_same h hmap hmounts) rfl hnamed)
  | registerByGraphID =>
    rcases hdoes with ⟨e, hnext, _⟩ | ⟨p, ht, hw, hnext⟩
    · rw [hnext]
      exact .inl ⟨e, rfl⟩
    rcases takeParent_same ht with ⟨hmap, hmounts⟩
    rw [hnext, hw]
    refine .inr (saved_wait _ (saved_same h hmap hmounts) rfl ⟨hnamed.1, hnamed.2.1, ?_⟩)
    exact createChainIDFromParent_sha256 hnamed.2.2
  | get c =>
    rcases hdoes with ⟨res, hget, hnext, hw⟩
    rw [hnext, hw]
    refine .inr ?_
    unfold get at hget
    rcases getWithoutLock_cases s.ls c with ⟨_, hlook⟩ | ⟨l, _, hlook⟩
    all_goals
      simp only [hlook] at hget
      cases hget
      exact saved_same h rfl rfl
  | release =>
    rcases hdoes with ⟨res, hrel, hnext⟩
    rw [hnext]
    exact .inr (release_saved hok.acc h hrel)
  | createRWLayer =>
    rcases hdoes with ⟨hstart, hw⟩
    rcases startCreateRWLayer_cases hstart with ⟨e, rfl, _⟩ | ⟨_, p, ht, rfl⟩
    · exact .inl ⟨e, rfl⟩
    · rcases takeParent_same ht with ⟨hmap, hmounts⟩
      rw [hw]
      exact .inr (saved_wait _ (saved_same h hmap hmounts) rfl hnamed)
  | createRWLayerByGraphID =>
    rcases hdoes with ⟨hstart, hw⟩
    rcases startCreateRWLayerByGraphID_cases _ hstart with ⟨res, rfl, rfl⟩ | ⟨_, p, ht, rfl⟩
    · rw [hw]
      exact .inr h
    · rcases takeParent_same ht with ⟨hmap, hmounts⟩
      rw [hw]
      exact .inr (saved_wait _ (saved_same h hmap hmounts) rfl hnamed)
  | getRWLayer name =>
    rcases hdoes with ⟨res, hget, hnext, hw⟩
    rw [hnext, hw]
    refine .inr ?_
    unfold getRWLayer at hget
    cases hm : s.ls.mounts.lookup name with
    | none =>
      rw [hm] at hget
      cases hget
      exact h
    | some m =>
      have hname := hok.acc.mountKey name m hm
      rw [hm] at hget
      cases hget
      rw [← hname] at hm
      exact saved_references h hm (insert s.ls.nextRef m.references) rfl rfl
  | releaseRWLayer => exact startReleaseRWLayer_saved hok.acc h hdoes
  | resume i => exact absurd hdoes not_false

/-- What an operation does when it is resumed agrees with the files. -/
theorem op_saved (hsuffix : ∀ k, '/' ∉ cfg.suffix k) {op : Op (FileWorld δ) Path}
    {ops : List (Op (FileWorld δ) Path)} (hok : SysOK s) (hmem : op ∈ s.ops)
    (h : Saved cfg s.ls (op :: ops) s.world.tree)
    (hdoes : op.Does (fileBackend cfg driver tar) s next ls w) :
    SavedNext cfg ls ops w.tree next := by
  -- An operation that ends with a release holds the layer it releases.
  have hchain : ∀ p, op.parent = some p → ChainIn s.ls p := fun p hp =>
    chainIn_of_inMap hok.acc p (hok.parents op hmem p hp)
  cases op with
  | registerApply =>
    rw [hdoes.2]
    exact registerApply_saved hsuffix h hdoes.1
  | registerCommit => exact registerCommit_saved h hdoes
  | registerCleanup =>
    rw [hdoes.2]
    exact registerCleanup_saved h hdoes.1
  | registerByGraphID =>
    exact registerByGraphID_saved hsuffix h hdoes
  | createRWLayer p name =>
    exact createRWLayer_saved (hok.newMount _ hmem name rfl) h hdoes
  | createRWLayerByGraphID p name =>
    exact createRWLayerByGraphID_saved (hok.newMount _ hmem name rfl) h hdoes
  | releaseRWLayer p =>
    rcases hdoes with ⟨res, hrel, hnext⟩
    rw [hnext]
    exact .inr (releaseLayer_saved p (hchain p rfl) (saved_tail h) hrel)
  | releaseParent p =>
    rcases hdoes with ⟨res', hrel, hnext⟩
    rw [hnext]
    exact .inr (releaseLayer_saved p (hchain p rfl) (saved_tail h) hrel)

theorem step_saved (hsuffix : ∀ k, '/' ∉ cfg.suffix k) {a : Action (FileWorld δ)} (hok : SysOK s)
    (h : SavedSys cfg s) (hnamed : Named cfg a)
    (hstep : step (fileBackend cfg driver tar) a s = .ok (r, s')) :
    IsError r ∨ SavedSys cfg s' := by
  rcases h with h | hfailing
  · rcases step_cases _ hstep with ⟨mount, next, ls, w, hdoes, hput⟩ |
      ⟨i, op, mount, next, ls, w, _, hop, hdoes, hadv⟩ | ⟨_, hs'⟩
    · exact saved_put (action_saved hok h hnamed hdoes) hput
    · exact saved_advance hop (op_saved hsuffix hok (mem_of_getElem? hop)
        (saved_perm h (perm_of_getElem? hop)) hdoes) hadv
    · rw [hs']
      exact .inr (.inl h)
  · exact (step_failing hfailing hstep).imp_right .inr

theorem run_saved (hsuffix : ∀ k, '/' ∉ cfg.suffix k) {as : List (Action (FileWorld δ))}
    {rs : List (Option Result)} (hok : SysOK s) (h : Saved cfg s.ls s.ops s.world.tree)
    (hnamed : ∀ a ∈ as, Named cfg a)
    (hrun : run (step (fileBackend cfg driver tar)) as s = .ok (rs, s'))
    (hrs : ∀ r ∈ rs, ¬ IsError r) (hops : s'.ops = []) :
    SysOK s' ∧ Saved cfg s'.ls s'.ops s'.world.tree := by
  have hinv : SysOK s' ∧ SavedSys cfg s' := by
    refine run_invariant_of_results (fun _ a => Named cfg a) (fun r => ¬ IsError r)
      (fun s => SysOK s ∧ SavedSys cfg s) ?_ as s s' rs ⟨hok, .inl h⟩
      (meets_of_forall hnamed s) hrun hrs
    rintro a s r s' ⟨hok, h⟩ hnamed hstep hr
    exact ⟨sysOK_of_step _ hok hstep, (step_saved hsuffix hok h hnamed hstep).resolve_left hr⟩
  rcases hinv.2 with h' | ⟨op, hop, _⟩
  · exact ⟨hinv.1, h'⟩
  · simp [hops] at hop

end Steps

end Dao.Layer
