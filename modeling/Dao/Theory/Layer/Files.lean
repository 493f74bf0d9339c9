import Dao.Core.Layer.FileStore
import Dao.Theory.Layer.Release

/-!
# The Files of the Metadata Store

What the calls of `fileMetadataStore` do to the file tree, in terms of three
kinds of directories under its root: the one of a layer, the one of a mount,
and the one of a transaction. Each call works in one of them, and `Frame`
says that the others are as they were. That the three kinds do not overlap is
because they are under different names, and that two of one kind do not is
because digests, mount names and temporary names are plain components.

With a driver that keeps its part of the contract the file store keeps the
whole of it, whether calls fail or not.

## Theorems

* `fileBackend_contract`: The file store keeps the contract.
-/

namespace Dao.Layer

open Lib Call Except FileTree Digest List

/-- The hex digits of a digest that passes the check are a file name. -/
theorem plain_of_validate {hx : Str} (h : validate (newDigestFromHex sha256 hx) = .ok ()) :
    Plain hx := by
  have hlen := validate_hex_length h
  have hne : ∀ s : Str, s.length ≠ 64 → hx ≠ s := fun s hs heq => hs (heq ▸ hlen)
  refine ⟨hne _ (by decide), hne _ (by decide), hne _ (by decide), fun hslash => ?_⟩
  have huses := uses_of_validate h '/' (mem_append_right _ (mem_cons_of_mem _ hslash))
  exact absurd huses (by decide)

section Paths

variable (cfg : FileConfig)

def layerPath (hx : Name) : Path := cfg.root ++ [sha256, hx]
def mountPath (n : Name) : Path := cfg.root ++ [mountsDir, n]
def draftPath (n : Name) : Path := cfg.root ++ [tmpDir, n]

theorem join_two {n : Name} (m : Name) (hn : Plain n) (hm : Plain m) :
    join cfg.root [m, n] = cfg.root ++ [m, n] := by
  rw [join_plain _ _ _ hm, join_plain _ _ _ hn, join_nil, append_assoc, cons_append, nil_append]

theorem join_one (p : Path) {n : Name} (hn : Plain n) : join p [n] = p ++ [n] := by
  rw [join_plain _ _ _ hn, join_nil]

theorem getLayerDirectory_eq {hx : Str} (h : validate (newDigestFromHex sha256 hx) = .ok ()) :
    getLayerDirectory cfg (newDigestFromHex sha256 hx) = .ok (layerPath cfg hx) := by
  rw [getLayerDirectory, cut_newDigestFromHex, layerPath]
  simp only
  rw [join_two cfg _ (plain_of_validate h) (by decide)]

theorem getMountDirectory_eq {n : Str} (h : Plain n) :
    getMountDirectory cfg n = mountPath cfg n := by
  rw [getMountDirectory, mountPath, join_two cfg _ h (by decide)]

/-- Directories of different kinds are apart, and so are those of one kind
    under different names. -/
theorem apart_kinds {m m' : Name} (h : m ≠ m') (n n' : Name) (p : Path) :
    Apart (cfg.root ++ m :: n :: p) (cfg.root ++ [m', n']) :=
  apart_of_ne cfg.root h _ _

theorem apart_names (m : Name) {n n' : Name} (h : n ≠ n') (p : Path) :
    Apart (cfg.root ++ m :: n :: p) (cfg.root ++ [m, n']) := by
  have happ := apart_of_ne (cfg.root ++ [m]) h p []
  rw [append_assoc, append_assoc] at happ
  exact happ

/-- The directory that holds all those of one kind is apart from the others. -/
theorem apart_root {m m' : Name} (h : m ≠ m') (n : Name) (p : Path) :
    Apart (cfg.root ++ m :: n :: p) (cfg.root ++ [m']) :=
  apart_of_ne cfg.root h _ _

theorem not_prefix_short {m m' n : Name} : ¬ cfg.root ++ [m, n] <+: cfg.root ++ [m'] := by
  intro h
  have := h.length_le
  simp only [length_append, length_cons, length_nil] at this
  omega

end Paths

/-- The directories of layers, mounts and transactions other than the given
    ones are as they were, and where layers and mounts could be listed they
    still can. -/
structure Frame (cfg : FileConfig) (layers mounts drafts : List Name) (t t' : Node Str) : Prop where
  layer : ∀ hx, hx ∉ layers → FileTree.get (layerPath cfg hx) t' = FileTree.get (layerPath cfg hx) t
  mount : ∀ n, n ∉ mounts → FileTree.get (mountPath cfg n) t' = FileTree.get (mountPath cfg n) t
  draft : ∀ n, n ∉ drafts → FileTree.get (draftPath cfg n) t' = FileTree.get (draftPath cfg n) t
  layerRoot : Listable (FileTree.get (cfg.root ++ [Digest.sha256]) t) →
    Listable (FileTree.get (cfg.root ++ [Digest.sha256]) t')
  mountRoot : Listable (FileTree.get (cfg.root ++ [mountsDir]) t) →
    Listable (FileTree.get (cfg.root ++ [mountsDir]) t')

section Frames

variable {cfg : FileConfig} {layers mounts drafts : List Name} {t t' t'' : Node Str}

theorem frame_refl (cfg : FileConfig) (layers mounts drafts : List Name) (t : Node Str) :
    Frame cfg layers mounts drafts t t :=
  ⟨fun _ _ => rfl, fun _ _ => rfl, fun _ _ => rfl, id, id⟩

theorem frame_trans (h1 : Frame cfg layers mounts drafts t t')
    (h2 : Frame cfg layers mounts drafts t' t'') : Frame cfg layers mounts drafts t t'' :=
  ⟨fun hx h => (h2.layer hx h).trans (h1.layer hx h),
    fun n h => (h2.mount n h).trans (h1.mount n h),
    fun n h => (h2.draft n h).trans (h1.draft n h), fun h => h2.layerRoot (h1.layerRoot h),
    fun h => h2.mountRoot (h1.mountRoot h)⟩

theorem frame_mono {layers' mounts' drafts' : List Name} (hl : layers ⊆ layers')
    (hm : mounts ⊆ mounts') (hd : drafts ⊆ drafts') (h : Frame cfg layers mounts drafts t t') :
    Frame cfg layers' mounts' drafts' t t' :=
  ⟨fun hx hx' => h.layer hx fun hmem => hx' (hl hmem),
    fun n hn => h.mount n fun hmem => hn (hm hmem),
    fun n hn => h.draft n fun hmem => hn (hd hmem), h.layerRoot, h.mountRoot⟩

theorem frame_of_none (h : Frame cfg [] [] [] t t') : Frame cfg layers mounts drafts t t' :=
  frame_mono (nil_subset _) (nil_subset _) (nil_subset _) h

theorem frame_draft {n : Name} {p : Path}
    (h : ∀ q, Apart (cfg.root ++ tmpDir :: n :: p) q →
      FileTree.get q t' = FileTree.get q t) : Frame cfg [] [] [n] t t' where
  layer := fun hx _ => h _ (apart_kinds cfg (by decide) n hx p)
  mount := fun m _ => h _ (apart_kinds cfg (by decide) n m p)
  draft := fun m hm => h _ (apart_names cfg tmpDir (fun heq => hm (mem_singleton.mpr heq.symm)) p)
  layerRoot := fun hr => by
    rw [h _ (apart_root cfg (by decide) n p)]
    exact hr
  mountRoot := fun hr => by
    rw [h _ (apart_root cfg (by decide) n p)]
    exact hr

theorem frame_mount {n : Name} {p : Path}
    (h : ∀ q, Apart (cfg.root ++ mountsDir :: n :: p) q →
      FileTree.get q t' = FileTree.get q t)
    (hroot : Listable (FileTree.get (cfg.root ++ [mountsDir]) t) →
      Listable (FileTree.get (cfg.root ++ [mountsDir]) t')) :
    Frame cfg [] [n] [] t t' where
  layer := fun hx _ => h _ (apart_kinds cfg (by decide) n hx p)
  mount := fun m hm => h _ (apart_names cfg mountsDir
    (fun heq => hm (mem_singleton.mpr heq.symm)) p)
  draft := fun m _ => h _ (apart_kinds cfg (by decide) n m p)
  layerRoot := fun hr => by
    rw [h _ (apart_root cfg (by decide) n p)]
    exact hr
  mountRoot := hroot

theorem frame_layer {hx : Name} {p : Path}
    (h : ∀ q, Apart (cfg.root ++ sha256 :: hx :: p) q →
      FileTree.get q t' = FileTree.get q t)
    (hroot : Listable (FileTree.get (cfg.root ++ [sha256]) t) →
      Listable (FileTree.get (cfg.root ++ [sha256]) t')) :
    Frame cfg [hx] [] [] t t' where
  layer := fun hx' hm => h _ (apart_names cfg sha256 (fun heq => hm (mem_singleton.mpr heq.symm)) p)
  mount := fun m _ => h _ (apart_kinds cfg (by decide) hx m p)
  draft := fun m _ => h _ (apart_kinds cfg (by decide) hx m p)
  layerRoot := hroot
  mountRoot := fun hr => by
    rw [h _ (apart_root cfg (by decide) hx p)]
    exact hr

theorem listable_mkdirAll {m m' : Name} (h : mkdirAll (cfg.root ++ [m]) t = .ok t')
    (hr : Listable (FileTree.get (cfg.root ++ [m']) t)) :
    Listable (FileTree.get (cfg.root ++ [m']) t') := by
  by_cases hm : m' = m
  · rcases get_mkdirAll h with ⟨es, hes⟩
    rw [hm]
    exact listable_of_dir hes
  · have hpre : ¬ cfg.root ++ [m'] <+: cfg.root ++ [m] := fun hpre => by
      rw [prefix_append_right_inj, cons_prefix_cons] at hpre
      exact hm hpre.1
    rw [get_mkdirAll_frame hpre h]
    exact hr

theorem listable_removeAll (p : Path) (n : Name) (hr : Listable (FileTree.get p t)) :
    Listable (FileTree.get p (removeAll (p ++ [n]) t)) := by
  rcases get_removeAll_parent p n t with ⟨_, es', _, hget⟩ | hsame
  · exact listable_of_dir hget
  · rw [hsame]
    exact hr

/-- What can be reached by a name is in a directory, which can be listed. -/
theorem listable_above {p : Path} {n : Name} {x : Node Str}
    (h : FileTree.get (p ++ [n]) t = .ok x) : Listable (FileTree.get p t) := by
  rcases dir_of_get_append h with ⟨es, hes⟩
  exact listable_of_dir hes

theorem frame_mkdirAll {m : Name} (h : mkdirAll (cfg.root ++ [m]) t = .ok t') :
    Frame cfg [] [] [] t t' where
  layer := fun _ _ => get_mkdirAll_frame (not_prefix_short cfg) h
  mount := fun _ _ => get_mkdirAll_frame (not_prefix_short cfg) h
  draft := fun _ _ => get_mkdirAll_frame (not_prefix_short cfg) h
  layerRoot := listable_mkdirAll h
  mountRoot := listable_mkdirAll h

end Frames

section Calls

variable {δ : Type} (cfg : FileConfig) {w w' : FileWorld δ}

theorem onTree_cases (f : Node Str → Except FsError (Node Str)) (w : FileWorld δ) :
    (∃ e, onTree f w = (.error e, w)) ∨
      ∃ t, f w.tree = .ok t ∧ onTree f w = (.ok (), { w with tree := t }) := by
  unfold onTree
  cases h : f w.tree with
  | error e => exact .inl ⟨_, rfl⟩
  | ok t => exact .inr ⟨t, rfl, rfl⟩

theorem setFile_frame (n : Name) {file : Name} (hfile : Plain file) (content : Str)
    (w : FileWorld δ) :
    Frame cfg [] [] [n] w.tree (setFile (draftPath cfg n) file content w).2.tree ∧
      (setFile (draftPath cfg n) file content w).2.driver = w.driver := by
  unfold setFile
  rcases onTree_cases (writeFile (join (draftPath cfg n) [file]) content) w with
    ⟨e, he⟩ | ⟨t, ht, hok⟩
  · rw [he]
    exact ⟨frame_refl .., rfl⟩
  rw [hok]
  refine ⟨frame_draft (p := [file]) fun q hq => ?_, rfl⟩
  rw [join_one _ hfile, draftPath, append_assoc] at ht
  exact get_update_apart hq ht

theorem setFile_ok {n file : Name} (hfile : Plain file) {content : Str}
    (h : setFile (draftPath cfg n) file content w = (.ok (), w')) :
    FileTree.get (draftPath cfg n ++ [file]) w'.tree = .ok (.file content) ∧
      ∀ g, g ≠ file → FileTree.get (draftPath cfg n ++ [g]) w'.tree =
        FileTree.get (draftPath cfg n ++ [g]) w.tree := by
  unfold setFile at h
  rcases onTree_cases (writeFile (join (draftPath cfg n) [file]) content) w with
    ⟨e, he⟩ | ⟨t, ht, hok⟩
  · simp [he] at h
  rw [hok] at h
  cases h
  rw [join_one _ hfile] at ht
  constructor
  · exact get_writeFile ht
  · intro g hg
    refine get_update_apart ?_ ht
    exact apart_of_ne (draftPath cfg n) (fun heq => hg heq.symm) [] []

/-- The loop of `ioutil.TempDir` makes one directory, or fails and makes
    none. -/
theorem tempDir_frame (hsuffix : ∀ k, '/' ∉ cfg.suffix k) (tries : Nat) : ∀ (w : FileWorld δ),
    (∃ e w', tempDir cfg (cfg.root ++ [tmpDir]) ['l', 'a', 'y', 'e', 'r', '-'] tries w =
      (.error e, w') ∧ w'.tree = w.tree ∧ w'.driver = w.driver) ∨
    (∃ n w', tempDir cfg (cfg.root ++ [tmpDir]) ['l', 'a', 'y', 'e', 'r', '-'] tries w =
      (.ok (draftPath cfg n), w') ∧ mkdir (draftPath cfg n) w.tree = .ok w'.tree ∧
        w'.driver = w.driver) := by
  induction tries with
  | zero => exact fun w => .inl ⟨_, w, rfl, rfl, rfl⟩
  | succ tries ih =>
    intro w
    have hplain : Plain (['l', 'a', 'y', 'e', 'r', '-'] ++ cfg.suffix w.draws) := by
      refine ⟨by simp, by simp, by simp, fun hc => ?_⟩
      rcases mem_append.mp hc with hc | hc
      · exact absurd hc (by decide)
      · exact hsuffix _ hc
    have hpath : join (cfg.root ++ [tmpDir])
        [['l', 'a', 'y', 'e', 'r', '-'] ++ cfg.suffix w.draws] =
        draftPath cfg (['l', 'a', 'y', 'e', 'r', '-'] ++ cfg.suffix w.draws) := by
      rw [join_one _ hplain, append_assoc]
      rfl
    simp only [tempDir, hpath]
    cases hm : mkdir
        (draftPath cfg (['l', 'a', 'y', 'e', 'r', '-'] ++ cfg.suffix w.draws)) w.tree with
    | ok t => exact .inr ⟨_, _, rfl, hm, rfl⟩
    -- A name that is taken is drawn again, any other error ends the loop.
    | error e =>
      cases e with
      | alreadyExists => exact ih { w with draws := w.draws + 1 }
      | _ => exact .inl ⟨_, _, rfl, rfl, rfl⟩

/-- Starting a transaction makes an empty directory where nothing was, or
    fails with the directories as they were. -/
theorem startTransaction_frame (hsuffix : ∀ k, '/' ∉ cfg.suffix k) (w : FileWorld δ) :
    (∃ e w', startTransaction cfg w = (.error e, w') ∧ Frame cfg [] [] [] w.tree w'.tree ∧
      w'.driver = w.driver) ∨
    (∃ n w', startTransaction cfg w = (.ok (draftPath cfg n), w') ∧
      Frame cfg [] [] [n] w.tree w'.tree ∧ w'.driver = w.driver ∧
      (∀ x, FileTree.get (draftPath cfg n) w.tree ≠ .ok x) ∧
      FileTree.get (draftPath cfg n) w'.tree = .ok (.dir [])) := by
  unfold startTransaction
  rw [join_one _ (by decide), bind_apply]
  rcases onTree_cases (mkdirAll (cfg.root ++ [tmpDir])) w with ⟨e, he⟩ | ⟨t, ht, hok⟩
  · rw [he]
    exact .inl ⟨e, w, rfl, frame_refl .., rfl⟩
  rw [hok]
  have hframe := frame_mkdirAll ht
  rcases tempDir_frame cfg hsuffix 10000 { w with tree := t } with
    ⟨e, w', hcall, htree, hdriver⟩ | ⟨n, w', hcall, hmkdir, hdriver⟩
  · refine .inl ⟨e, w', hcall, ?_, hdriver⟩
    rw [htree]
    exact hframe
  right
  -- `Mkdir` fails where something is, so nothing was there before.
  rcases get_update hmkdir with ⟨old, new, hf, hold, hnew⟩
  have hfresh : old = none ∧ new = some (.dir []) := by
    cases old with
    | none =>
      cases hf
      exact ⟨rfl, rfl⟩
    | some x => nomatch hf
  refine ⟨n, w', hcall, frame_trans (frame_of_none hframe) ?_, hdriver, fun x hx => ?_, ?_⟩
  · exact frame_draft (p := []) fun q hq => get_update_apart hq hmkdir
  · rw [← hframe.draft n not_mem_nil] at hx
    have := (hold x).mpr hx
    simp [hfresh.1] at this
  · have hget := hnew []
    rw [append_nil, hfresh.2] at hget
    exact hget

/-- `Commit` moves the directory of a transaction to the place of a layer,
    where nothing or an empty directory was, or fails with the directories as
    they were. -/
theorem commit_frame (n : Name) {hx : Str} (hvalid : validate (newDigestFromHex sha256 hx) = .ok ())
    (w : FileWorld δ) :
    (∃ e w', commit cfg (draftPath cfg n) (newDigestFromHex sha256 hx) w =
        (.error e, w') ∧ Frame cfg [] [] [] w.tree w'.tree ∧ w'.driver = w.driver) ∨
    (∃ es w', commit cfg (draftPath cfg n) (newDigestFromHex sha256 hx) w =
        (.ok (), w') ∧ Frame cfg [hx] [] [n] w.tree w'.tree ∧ w'.driver = w.driver ∧
      FileTree.get (draftPath cfg n) w.tree = .ok (.dir es) ∧
      FileTree.get (layerPath cfg hx) w'.tree = .ok (.dir es)) := by
  unfold commit
  rw [getLayerDirectory_eq cfg hvalid]
  have hparent : (layerPath cfg hx).dropLast = cfg.root ++ [sha256] := by
    rw [layerPath, dropLast_append_cons]
    rfl
  have hne : draftPath cfg n ≠ layerPath cfg hx := by
    intro heq
    have happ := append_cancel_left heq
    simp only [List.cons.injEq] at happ
    exact absurd happ.1 (by decide)
  simp only [hparent]
  rw [bind_apply]
  rcases onTree_cases (mkdirAll (cfg.root ++ [sha256])) w with
    ⟨e, he⟩ | ⟨t, ht, hok⟩
  · rw [he]
    exact .inl ⟨e, w, rfl, frame_refl .., rfl⟩
  rw [hok]
  have hframe := frame_mkdirAll ht
  simp only
  rcases onTree_cases (rename (draftPath cfg n) (layerPath cfg hx))
    { w with tree := t } with ⟨e, he⟩ | ⟨t', ht', hok'⟩
  · rw [he]
    exact .inl ⟨e, _, rfl, hframe, rfl⟩
  rw [hok']
  right
  rcases renamed_of_ok hne ht' with ⟨es, hren⟩
  have hmoved := hren.moved []
  rw [append_nil] at hmoved
  -- Only the two ends of the rename change, and all the others are apart from both.
  refine ⟨es, _, rfl, frame_trans (frame_of_none hframe) ⟨?_, ?_, ?_, ?_, ?_⟩, rfl, ?_, hmoved⟩
  · intro hx' hmem
    exact hren.frame _ (apart_kinds cfg (by decide) n hx' [])
      (apart_names cfg sha256 (fun heq => hmem (mem_singleton.mpr heq.symm)) [])
  · intro m _
    exact hren.frame _ (apart_kinds cfg (by decide) n m []) (apart_kinds cfg (by decide) hx m [])
  · intro m hmem
    exact hren.frame _ (apart_names cfg tmpDir (fun heq => hmem (mem_singleton.mpr heq.symm)) [])
      (apart_kinds cfg (by decide) hx m [])
  · rw [layerPath, ← singleton_append, ← append_assoc] at hmoved
    exact fun _ => listable_above hmoved
  · intro hr
    rw [hren.frame _ (apart_root cfg (by decide) n []) (apart_root cfg (by decide) hx [])]
    exact hr
  · rw [← hframe.draft n not_mem_nil]
    exact hren.source

theorem cancel_frame (n : Name) (w : FileWorld δ) :
    Frame cfg [] [] [n] w.tree ((fileMetadataStore cfg).cancel (draftPath cfg n) w).2.tree ∧
      ((fileMetadataStore cfg).cancel (draftPath cfg n) w).2.driver = w.driver :=
  ⟨frame_draft (p := []) fun _ hq => get_removeAll_apart hq w.tree, rfl⟩

/-- Removing the entry of a layer always succeeds, and nothing is left of
    it. -/
theorem removeEntry_frame {hx : Str} (hvalid : validate (newDigestFromHex sha256 hx) = .ok ())
    (w : FileWorld δ) :
    ∃ w', (fileMetadataStore cfg).remove (newDigestFromHex sha256 hx) w =
        (.ok (), w') ∧ w'.tree = removeAll (layerPath cfg hx) w.tree ∧
      Frame cfg [hx] [] [] w.tree w'.tree ∧ w'.driver = w.driver := by
  refine ⟨{ w with tree := removeAll (layerPath cfg hx) w.tree }, ?_, rfl, ?_, rfl⟩
  · simp only [fileMetadataStore, getLayerDirectory_eq cfg hvalid]
    rfl
  refine frame_layer (p := []) (fun _ hq => get_removeAll_apart hq w.tree) fun hr => ?_
  have hremove := listable_removeAll (cfg.root ++ [sha256]) hx hr
  rw [append_assoc] at hremove
  exact hremove

theorem removeMount_frame {n : Str} (hn : Plain n) (w : FileWorld δ) :
    ∃ w', (fileMetadataStore cfg).removeMount n w = (.ok (), w') ∧
      w'.tree = removeAll (mountPath cfg n) w.tree ∧
      Frame cfg [] [n] [] w.tree w'.tree ∧ w'.driver = w.driver := by
  refine ⟨{ w with tree := removeAll (mountPath cfg n) w.tree }, ?_, rfl, ?_, rfl⟩
  · simp only [fileMetadataStore, getMountDirectory_eq cfg hn]
    rfl
  refine frame_mount (p := []) (fun _ hq => get_removeAll_apart hq w.tree) fun hr => ?_
  have hremove := listable_removeAll (cfg.root ++ [mountsDir]) n hr
  rw [append_assoc] at hremove
  exact hremove

/-- Making the directory of a mount changes no other directory of a layer, a
    mount or a transaction, and what is in it stays. -/
theorem mkdirAll_mount {n : Name} {t t' : Node Str} (h : mkdirAll (mountPath cfg n) t = .ok t') :
    Frame cfg [] [n] [] t t' ∧
      ∀ g, FileTree.get (mountPath cfg n ++ [g]) t' = FileTree.get (mountPath cfg n ++ [g]) t := by
  have hbranch : ∀ {m n' : Name}, m ≠ mountsDir ∨ n' ≠ n →
    ¬ cfg.root ++ [m, n'] <+: mountPath cfg n := by
    intro m n' hne hpre
    rw [mountPath, prefix_append_right_inj, cons_prefix_cons, cons_prefix_cons] at hpre
    rcases hne with hne | hne
    · exact hne hpre.1
    · exact hne hpre.2.1
  refine ⟨⟨fun hx _ => ?_, fun m hm => ?_, fun m _ => ?_, fun hr => ?_, fun _ => ?_⟩, fun g => ?_⟩
  · exact get_mkdirAll_frame (hbranch (.inl (by decide))) h
  · exact get_mkdirAll_frame (hbranch (.inr fun heq => hm (mem_singleton.mpr heq))) h
  · exact get_mkdirAll_frame (hbranch (.inl (by decide))) h
  · have hpre : ¬ cfg.root ++ [sha256] <+: mountPath cfg n := fun hpre => by
      rw [mountPath, prefix_append_right_inj, cons_prefix_cons] at hpre
      exact absurd hpre.1 (by decide)
    rw [get_mkdirAll_frame hpre h]
    exact hr
  · rcases get_mkdirAll h with ⟨es, hes⟩
    rw [mountPath, ← singleton_append, ← append_assoc] at hes
    exact listable_above hes
  -- Only the way to the directory is made, and a file in it is not on the way.
  · refine get_mkdirAll_frame (fun hpre => ?_) h
    have := hpre.length_le
    simp only [length_append, length_cons, length_nil] at this
    omega

theorem setMountFile_frame {n file : Name} (hn : Plain n) (hfile : Plain file)
    (content : Str) (w : FileWorld δ) :
    Frame cfg [] [n] [] w.tree (setMountFile cfg file n content w).2.tree ∧
      (setMountFile cfg file n content w).2.driver = w.driver := by
  unfold setMountFile
  rw [getMountDirectory_eq cfg hn, join_one _ hfile, bind_apply]
  rcases onTree_cases (mkdirAll (mountPath cfg n)) w with ⟨e, he⟩ | ⟨t, ht, hok⟩
  · rw [he]
    exact ⟨frame_refl .., rfl⟩
  rw [hok]
  have hframe := (mkdirAll_mount cfg ht).1
  simp only
  rcases onTree_cases (writeFile (mountPath cfg n ++ [file]) content)
    { w with tree := t } with ⟨e, he⟩ | ⟨t', ht', hok'⟩
  · rw [he]
    exact ⟨hframe, rfl⟩
  rw [hok']
  refine ⟨frame_trans hframe (frame_mount (p := [file]) (fun q hq => ?_) fun _ => ?_), rfl⟩
  · rw [mountPath, append_assoc] at ht'
    exact get_update_apart hq ht'
  · rcases dir_of_get_append (get_writeFile ht') with ⟨es, hes⟩
    rw [mountPath, ← singleton_append, ← append_assoc] at hes
    exact listable_above hes

end Calls

section Contract

variable {δ : Type} (driver : Driver δ) (tar : TarData δ Path)

/-- Data other than that of `ids` is still there. -/
def Holds (ids : List Str) (d d' : δ) : Prop :=
  ∀ id, id ∉ ids → driver.existsID id d = true → driver.existsID id d' = true

/-- What is asked of a driver, and of the tar-split library beside it: a call
    about one name leaves the data of the others alone. -/
structure DriverContract : Prop where
  create : ∀ id parent mountLabel storageOpt,
    Keeps (Holds driver [id]) (driver.create id parent mountLabel storageOpt)
  created : ∀ id parent mountLabel storageOpt d d',
    driver.create id parent mountLabel storageOpt d = (.ok (), d') → driver.existsID id d' = true
  createReadWrite : ∀ id parent mountLabel storageOpt,
    Keeps (Holds driver [id]) (driver.createReadWrite id parent mountLabel storageOpt)
  remove : ∀ id, Keeps (Holds driver [id]) (driver.remove id)
  removeFailed : ∀ id d e d', driver.remove id d = (.error e, d') → Holds driver [] d d'
  get : ∀ id mountLabel, Keeps (Holds driver []) (driver.get id mountLabel)
  put : ∀ id, Keeps (Holds driver []) (driver.put id)
  applyDiff : ∀ id parent diff, Keeps (Holds driver []) (driver.applyDiff id parent diff)
  newInputTarStream : ∀ tx ts, Keeps (Holds driver []) (tar.newInputTarStream tx ts)
  openTarData : ∀ file, Keeps (Holds driver []) (tar.openTarData file)
  copyTarData : ∀ tx file, Keeps (Holds driver []) (tar.copyTarData tx file)

variable (cfg : FileConfig)

/-- The metadata store has an entry for a layer: its directory. -/
def HasEntry (w : FileWorld δ) (c : ChainID) : Prop :=
  ∃ hx es, c = newDigestFromHex sha256 hx ∧ FileTree.get (layerPath cfg hx) w.tree = .ok (.dir es)

/-- A transaction is the directory it writes to. -/
def IsDraft (tx : Path) : Prop := ∃ n, tx = draftPath cfg n

variable {driver tar cfg}

theorem spares_of_frame {layers mounts drafts : List Name} {w w' : FileWorld δ}
    (h : Frame cfg layers mounts drafts w.tree w'.tree) (hd : w'.driver = w.driver) :
    Spares (fileBackend cfg driver tar) (HasEntry cfg) []
      (layers.map (newDigestFromHex sha256)) w w' := by
  refine ⟨fun id _ hid => ?_, fun c _ hne hc => ?_⟩
  · have heq : (fileBackend cfg driver tar).driver.existsID id w' =
        (fileBackend cfg driver tar).driver.existsID id w :=
      congrArg (driver.existsID id) hd
    rw [heq]
    exact hid
  · rcases hc with ⟨hx, es, hc, hget⟩
    have hmem : hx ∉ layers := fun hm => hne (hc ▸ mem_map_of_mem hm)
    exact ⟨hx, es, hc, (h.layer hx hmem).trans hget⟩

theorem spares_of_call {α : Type} {x : Call Str (FileWorld δ) α} {r : Except Str α}
    {layers mounts drafts : List Name} {w w' : FileWorld δ} (hcall : x w = (r, w'))
    (h : Frame cfg layers mounts drafts w.tree w'.tree) (hd : w'.driver = w.driver) :
    Spares (fileBackend cfg driver tar) (HasEntry cfg) []
      (layers.map (newDigestFromHex sha256)) w (x w).2 := by
  rw [hcall]
  exact spares_of_frame h hd

theorem keeps_onDriver {α : Type} {ids : List Str} {x : Call Str δ α}
    (h : Keeps (Holds driver ids) x) :
    Keeps (Spares (fileBackend cfg driver tar) (HasEntry cfg) ids []) (onDriver x) :=
  fun w => ⟨fun id hid hex => h w.driver id hid hex, fun _ _ _ hc => hc⟩

theorem keeps_setFile {tx : Path} {file : Name} (content : Str) (htx : IsDraft cfg tx)
    (hfile : Plain file) :
    Keeps (Spares (fileBackend cfg driver tar) (HasEntry cfg) [] []) (setFile tx file content) := by
  rcases htx with ⟨n, htx⟩
  intro w
  rw [htx]
  rcases setFile_frame cfg n hfile content w with ⟨hframe, hdrv⟩
  exact spares_of_frame hframe hdrv

theorem keeps_setMountFile {n file : Name} (content : Str) (hn : Plain n) (hfile : Plain file) :
    Keeps (Spares (fileBackend cfg driver tar) (HasEntry cfg) [] [])
      (setMountFile cfg file n content) := by
  intro w
  rcases setMountFile_frame cfg hn hfile content w with ⟨hframe, hdrv⟩
  exact spares_of_frame hframe hdrv

theorem fileBackend_contract (hd : DriverContract driver tar) (hsuffix : ∀ k, '/' ∉ cfg.suffix k) :
    Contract (fileBackend cfg driver tar) (HasEntry cfg) (IsDraft cfg) where
  create := fun id parent mountLabel storageOpt =>
    keeps_onDriver (hd.create id parent mountLabel storageOpt)
  created := by
    intro id parent mountLabel storageOpt w w' h
    simp only [fileBackend, onDriver, Prod.mk.injEq] at h
    rw [← h.2]
    exact hd.created id parent mountLabel storageOpt w.driver _ (Prod.ext h.1 rfl)
  createReadWrite := fun id parent mountLabel storageOpt =>
    keeps_onDriver (hd.createReadWrite id parent mountLabel storageOpt)
  remove := fun id => keeps_onDriver (hd.remove id)
  removeFailed := by
    intro id w e w' h
    simp only [fileBackend, onDriver, Prod.mk.injEq] at h
    have hheld := hd.removeFailed id w.driver e _ (Prod.ext h.1 rfl)
    rw [← h.2]
    exact ⟨fun id' hid hex => hheld id' hid hex, fun _ _ _ hc => hc⟩
  get := fun id mountLabel => keeps_onDriver (hd.get id mountLabel)
  put := fun id => keeps_onDriver (hd.put id)
  applyDiff := fun id parent diff => keeps_onDriver (hd.applyDiff id parent diff)
  startTransaction := by
    intro w
    rcases startTransaction_frame cfg hsuffix w with ⟨e, w', hcall, hframe, hdrv⟩ |
      ⟨n, w', hcall, hframe, hdrv, _⟩
    all_goals exact spares_of_call hcall hframe hdrv
  started := by
    intro w tx w' h
    rcases startTransaction_frame cfg hsuffix w with ⟨e, w1, hcall, _⟩ | ⟨n, w1, hcall, _⟩
    · have heq : (ok tx, w') = (error e, w1) := h.symm.trans hcall
      nomatch heq
    · have heq : (ok tx, w') = (ok (draftPath cfg n), w1) := h.symm.trans hcall
      cases heq
      exact ⟨n, rfl⟩
  setSize := fun tx size htx => keeps_setFile (formatInt size) htx (by decide)
  setParent := fun tx parent htx => keeps_setFile parent htx (by decide)
  setDiffID := fun tx diff htx => keeps_setFile diff htx (by decide)
  setCacheID := fun tx cacheID htx => keeps_setFile cacheID htx (by decide)
  setDescriptor := fun tx ref htx => keeps_setFile (cfg.codec.marshal ref) htx (by decide)
  tarSplitWriter := fun tx _ htx => keeps_setFile [] htx (by decide)
  commit := by
    rintro tx c ⟨n, htx⟩ ⟨hx, hc, hvalid⟩ w
    rw [hc] at hvalid
    rw [htx, hc]
    rcases commit_frame cfg n hvalid w with ⟨e, w', hcall, hframe, hdrv⟩ |
      ⟨es, w', hcall, hframe, hdrv, _, hget⟩
    · exact spares_of_call hcall hframe hdrv
    · have hw : ((fileBackend cfg driver tar).store.commit (draftPath cfg n)
          (newDigestFromHex sha256 hx) w).2 = w' := congrArg Prod.snd hcall
      rw [hw]
      have hspares : Spares (fileBackend cfg driver tar) (HasEntry cfg) []
          [newDigestFromHex sha256 hx] w w' := spares_of_frame hframe hdrv
      -- The entry that is made is there afterwards, whatever was there before.
      refine ⟨hspares.1, fun c' hs _ hc' => ?_⟩
      by_cases heq : c' = newDigestFromHex sha256 hx
      · exact ⟨hx, es, heq, hget⟩
      · exact hspares.2 c' hs (fun hmem => heq (mem_singleton.mp hmem)) hc'
  committed := by
    rintro tx c w w' ⟨n, htx⟩ ⟨hx, hc, hvalid⟩ h
    rw [hc] at hvalid
    rw [htx, hc] at h
    rcases commit_frame cfg n hvalid w with ⟨e, w1, hcall, _⟩ | ⟨es, w1, hcall, _, _, _, hget⟩
    · have heq : (ok (), w') = (error e, w1) := h.symm.trans hcall
      nomatch heq
    have heq : (ok (), w') = (ok (), w1) := h.symm.trans hcall
    simp only [Prod.mk.injEq, true_and] at heq
    rw [heq]
    exact ⟨hx, es, hc, hget⟩
  cancel := by
    rintro tx ⟨n, htx⟩ w
    rw [htx]
    exact spares_of_frame (cancel_frame cfg n w).1 rfl
  setMountID := fun n id hn => keeps_setMountFile id hn (by decide)
  setInitID := fun n id hn => keeps_setMountFile id hn (by decide)
  setMountParent := fun n c hn => keeps_setMountFile c hn (by decide)
  removeEntry := by
    rintro c ⟨hx, hc, hvalid⟩ w
    rw [hc] at hvalid ⊢
    rcases removeEntry_frame cfg hvalid w with ⟨w', hcall, _, hframe, hdrv⟩
    exact spares_of_call hcall hframe hdrv
  removeMount := by
    intro n hn w
    rcases removeMount_frame cfg hn w with ⟨w', hcall, _, hframe, hdrv⟩
    exact spares_of_call hcall hframe hdrv
  newInputTarStream := fun tx ts _ => keeps_onDriver (hd.newInputTarStream tx ts)
  openTarData := fun file => keeps_onDriver (hd.openTarData file)
  copyTarData := fun tx file _ => keeps_onDriver (hd.copyTarData tx file)

end Contract

end Dao.Layer
