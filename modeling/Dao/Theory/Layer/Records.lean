import Dao.Theory.Layer.Files

/-!
# Records of Layers and Mounts

What `storeLayer` and `saveMount` write, and what `loadLayer` and `loadMount`
read back from it.

A directory is seen here through its `entries`, a function of file names, so
that writing a file is a point update of that function and moving a directory
leaves it as it is. `LayerFiles` and `MountFiles` say what the function is for
a layer and for a mount. Both are read back as they were written, provided
that the getters accept the text: a cache ID, a mount ID or an init ID has to
match `stringIDRegexp`, and a diff ID has to be a digest.

## Theorems

* `readLayer_files`: A layer is read back.
* `readMount_files`: A mount is.
-/

namespace Dao.Layer

open Lib FileTree Call Regex Digest Function

/-- The files of a directory. -/
def entries (t : Node Str) (dir : Path) : Name → Except FsError (Node Str) :=
  fun g => FileTree.get (dir ++ [g]) t

theorem entries_congr {t t' : Node Str} {dir dir' : Path}
    (h : FileTree.get dir' t' = FileTree.get dir t) : entries t' dir' = entries t dir := by
  ext g
  rw [entries, entries, get_append, get_append, h]

/-- A file with a content, or no file. -/
def fileOr : Option Str → Except FsError (Node Str)
  | none => .error .notExist
  | some content => .ok (.file content)

/-- An ID that `GetCacheID`, `GetMountID` and `GetInitID` accept. -/
def IsStringID (id : Str) : Prop := stringIDRegexp.accepts id = true

instance (id : Str) : Decidable (IsStringID id) := inferInstanceAs (Decidable (_ = _))

/-- What `storeLayer` leaves in the directory of a layer. -/
structure LayerFiles (cfg : FileConfig) (f : Name → Except FsError (Node Str)) (diffID : DiffID)
    (size : Int64) (cacheID : Str) (descriptor : Descriptor) (parent : Option RoLayer) : Prop where
  diff : f diffFile = .ok (.file diffID)
  size : f sizeFile = .ok (.file (formatInt size))
  cacheID : f cacheIDFile = .ok (.file cacheID)
  descriptor : f descriptorFile =
    fileOr (if descriptor.digest = [] then none else some (cfg.codec.marshal descriptor))
  parent : f parentFile = fileOr (parent.map RoLayer.chainID)

/-- What `saveMount` leaves in the directory of a mount. -/
structure MountFiles (f : Name → Except FsError (Node Str)) (mountID initID : Str)
    (parent : Option RoLayer) : Prop where
  mountID : f mountIDFile = .ok (.file mountID)
  initID : f initIDFile = fileOr (if initID = [] then none else some initID)
  parent : f parentFile = fileOr (parent.map RoLayer.chainID)

/-- The files that need not be written are not there. -/
def Blank (f : Name → Except FsError (Node Str)) : Prop :=
  f descriptorFile = fileOr none ∧ f parentFile = fileOr none ∧ f initIDFile = fileOr none

section Writing

variable {δ : Type} (cfg : FileConfig) (driver : Driver δ) (tar : TarData δ Path)
  {w w' : FileWorld δ}

variable {n file : Name} {content : Str}

/-- Writing a file of a transaction updates its entries at that file. -/
theorem setFile_entries (hfile : Plain file)
    (h : setFile (draftPath cfg n) file content w = (.ok (), w')) :
    entries w'.tree (draftPath cfg n) =
      update (entries w.tree (draftPath cfg n)) file (.ok (.file content)) := by
  rcases setFile_ok cfg hfile h with ⟨hself, hother⟩
  ext g
  by_cases hg : g = file
  · rw [hg, update_self]
    exact hself
  · rw [update_of_ne hg]
    exact hother g hg

theorem setMountFile_entries (hn : Plain n) (hfile : Plain file)
    (h : setMountFile cfg file n content w = (.ok (), w')) :
    entries w'.tree (mountPath cfg n) =
      update (entries w.tree (mountPath cfg n)) file (.ok (.file content)) := by
  unfold setMountFile at h
  rw [getMountDirectory_eq cfg hn, join_one _ hfile] at h
  rcases bind_eq_ok.mp h with ⟨_, w1, hmkdir, hwrite⟩
  rcases onTree_cases (mkdirAll (mountPath cfg n)) w with ⟨e, he⟩ | ⟨t, ht, hok⟩
  · simp [he] at hmkdir
  rw [hok, Prod.mk.injEq] at hmkdir
  rw [← hmkdir.2] at hwrite
  rcases onTree_cases (writeFile (mountPath cfg n ++ [file]) content)
    { w with tree := t } with ⟨e, he⟩ | ⟨t', ht', hok'⟩
  · simp [he] at hwrite
  rw [hok'] at hwrite
  cases hwrite
  ext g
  by_cases hg : g = file
  · rw [hg, update_self]
    exact get_writeFile ht'
  · rw [update_of_ne hg, entries, entries, ← (mkdirAll_mount cfg ht).2 g]
    exact get_update_apart (apart_of_ne (mountPath cfg n) (fun heq => hg heq.symm) [] []) ht'

/-- The frame of a call that works in one transaction. -/
def InDraft (n : Name) (w w' : FileWorld δ) : Prop := Frame cfg [] [] [n] w.tree w'.tree

instance (n : Name) : Std.Refl (InDraft cfg n : FileWorld δ → FileWorld δ → Prop) :=
  ⟨fun _ => frame_refl ..⟩

instance (n : Name) : IsTrans (FileWorld δ) (InDraft cfg n) :=
  ⟨fun _ _ _ h₁ h₂ => frame_trans h₁ h₂⟩

theorem setFile_inDraft (n : Name) (hfile : Plain file)
    (h : setFile (draftPath cfg n) file content w = (.ok (), w')) : InDraft cfg n w w' := by
  have hframe := (setFile_frame cfg n hfile content w).1
  rw [h] at hframe
  exact hframe

theorem storeLayer_files {n : Name} {diffID : DiffID} {size : Int64} {cacheID : Str}
    {descriptor : Descriptor} {parent : Option RoLayer}
    (hblank : Blank (entries w.tree (draftPath cfg n)))
    (h : storeLayer (fileBackend cfg driver tar) (draftPath cfg n) diffID size cacheID descriptor
      parent w = (.ok (), w')) :
    LayerFiles cfg (entries w'.tree (draftPath cfg n)) diffID size cacheID descriptor parent ∧
      InDraft cfg n w w' := by
  rcases bind_eq_ok.mp h with ⟨_, w1, h1, h⟩
  rcases bind_eq_ok.mp h with ⟨_, w2, h2, h⟩
  rcases bind_eq_ok.mp h with ⟨_, w3, h3, h⟩
  have e1 := setFile_entries cfg (by decide) h1
  have e2 := setFile_entries cfg (by decide) h2
  have e3 := setFile_entries cfg (by decide) h3
  have hframe : InDraft cfg n w w3 := IsTrans.trans _ _ _ (setFile_inDraft cfg n (by decide) h1)
    (IsTrans.trans _ _ _ (setFile_inDraft cfg n (by decide) h2)
      (setFile_inDraft cfg n (by decide) h3))
  -- The last two files are written only when there is something to write.
  have hrest : ∀ x : Call Str (FileWorld δ) Unit, (do
        if descriptor.digest = [] then pure ()
        else (fileBackend cfg driver tar).store.setDescriptor (draftPath cfg n) descriptor
        x) w3 = (.ok (), w') →
      ∃ w4, entries w4.tree (draftPath cfg n) =
          update (entries w3.tree (draftPath cfg n)) descriptorFile (fileOr
            (if descriptor.digest = [] then none else some (cfg.codec.marshal descriptor))) ∧
        InDraft cfg n w3 w4 ∧ x w4 = (.ok (), w') := by
    intro x h
    by_cases hd : descriptor.digest = []
    · rw [if_pos hd] at h ⊢
      refine ⟨w3, ?_, Std.Refl.refl w3, h⟩
      rw [← hblank.1, eq_comm, update_eq_self_iff, e3, e2, e1]
      rfl
    · rw [if_neg hd] at h ⊢
      rcases bind_eq_ok.mp h with ⟨_, w4, h4, h⟩
      exact ⟨w4, setFile_entries cfg (by decide) h4, setFile_inDraft cfg n (by decide) h4, h⟩
  rcases hrest _ h with ⟨w4, e4, hframe4, h⟩
  have hlast : entries w'.tree (draftPath cfg n) =
      update (entries w4.tree (draftPath cfg n)) parentFile
        (fileOr (parent.map RoLayer.chainID)) ∧ InDraft cfg n w4 w' := by
    cases parent with
    | none =>
      simp only [pure_apply, Prod.mk.injEq, true_and] at h
      rw [← h]
      refine ⟨?_, Std.Refl.refl w4⟩
      rw [Option.map_none, ← hblank.2.1, eq_comm, update_eq_self_iff, e4, e3, e2, e1]
      rfl
    | some p => exact ⟨setFile_entries cfg (by decide) h, setFile_inDraft cfg n (by decide) h⟩
  rw [hlast.1, e4, e3, e2, e1]
  exact ⟨⟨rfl, rfl, rfl, rfl, rfl⟩,
    IsTrans.trans _ _ _ hframe (IsTrans.trans _ _ _ hframe4 hlast.2)⟩

theorem saveMountCalls_files {m : MountedLayer} (hname : Plain m.name)
    (hblank : Blank (entries w.tree (mountPath cfg m.name)))
    (h : saveMountCalls (fileBackend cfg driver tar) m w = (.ok (), w')) :
    MountFiles (entries w'.tree (mountPath cfg m.name)) m.mountID m.initID m.parent ∧
      Frame cfg [] [m.name] [] w.tree w'.tree := by
  have hset : ∀ {file : Name} {content : Str} {v v' : FileWorld δ}, Plain file →
      setMountFile cfg file m.name content v = (.ok (), v') →
      Frame cfg [] [m.name] [] v.tree v'.tree := by
    intro file content v v' hfile hv
    have hframe := (setMountFile_frame cfg hname hfile content v).1
    rw [hv] at hframe
    exact hframe
  rcases bind_eq_ok.mp h with ⟨_, w1, h1, h⟩
  have e1 := setMountFile_entries cfg hname (by decide) h1
  -- An empty init ID is not written, and the directory was blank there.
  have hrest : ∀ x : Call Str (FileWorld δ) Unit, (do
        if m.initID = [] then pure ()
        else (fileBackend cfg driver tar).store.setInitID m.name m.initID
        x) w1 = (.ok (), w') →
      ∃ w2, entries w2.tree (mountPath cfg m.name) =
          update (entries w1.tree (mountPath cfg m.name)) initIDFile
            (fileOr (if m.initID = [] then none else some m.initID)) ∧
        Frame cfg [] [m.name] [] w1.tree w2.tree ∧ x w2 = (.ok (), w') := by
    intro x h
    by_cases hi : m.initID = []
    · rw [if_pos hi] at h ⊢
      refine ⟨w1, ?_, frame_refl .., h⟩
      rw [← hblank.2.2, eq_comm, update_eq_self_iff, e1]
      rfl
    · rw [if_neg hi] at h ⊢
      rcases bind_eq_ok.mp h with ⟨_, w2, h2, h⟩
      exact ⟨w2, setMountFile_entries cfg hname (by decide) h2, hset (by decide) h2, h⟩
  rcases hrest _ h with ⟨w2, e2, hframe2, h⟩
  have hlast : entries w'.tree (mountPath cfg m.name) =
      update (entries w2.tree (mountPath cfg m.name)) parentFile
        (fileOr (m.parent.map RoLayer.chainID)) ∧ Frame cfg [] [m.name] [] w2.tree w'.tree := by
    cases hp : m.parent with
    | none =>
      rw [hp] at h
      cases h
      refine ⟨?_, frame_refl ..⟩
      rw [Option.map_none, ← hblank.2.1, eq_comm, update_eq_self_iff, e2, e1]
      rfl
    | some p =>
      rw [hp] at h
      exact ⟨setMountFile_entries cfg hname (by decide) h, hset (by decide) h⟩
  rw [hlast.1, e2, e1]
  exact ⟨⟨rfl, rfl, rfl⟩, frame_trans (hset (by decide) h1) (frame_trans hframe2 hlast.2)⟩

end Writing

section Reading

variable {δ : Type} {cfg : FileConfig} {driver : Driver δ} {tar : TarData δ Path}
  {w : FileWorld δ}

/-- What reading such a file gives. -/
def readOr : Option Str → Except FsError Str
  | none => .error .notExist
  | some content => .ok content

variable {o : Option Str} {parent : Option RoLayer}

theorem readFile_entries {t : Node Str} {dir : Path} {g : Name} (h : entries t dir g = fileOr o) :
    readFile (dir ++ [g]) t = readOr o := by
  unfold readFile
  rw [entries] at h
  rw [h]
  cases o <;> rfl

theorem askLayer_entries {α : Type} (parse : Except FsError Str → Except Str α) {hx : Str}
    {file : Name} (hvalid : validate (newDigestFromHex sha256 hx) = .ok ())
    (hfile : Plain file) (h : entries w.tree (layerPath cfg hx) file = fileOr o) :
    askTree (fun t => do
      parse (← readLayerFile cfg (newDigestFromHex sha256 hx) file t)) w =
      (parse (readOr o), w) := by
  have hread : readLayerFile cfg (newDigestFromHex sha256 hx) file w.tree = .ok (readOr o) := by
    rw [readLayerFile, getLayerDirectory_eq cfg hvalid]
    simp only
    rw [join_one _ hfile, readFile_entries h]
  rw [askTree, hread]
  rfl

theorem readMountFile_entries {n : Str} {file : Name} {t : Node Str} (hn : Plain n)
    (hfile : Plain file) (h : entries t (mountPath cfg n) file = fileOr o) :
    readMountFile cfg n file t = readOr o := by
  rw [readMountFile, getMountDirectory_eq cfg hn, join_one _ hfile, readFile_entries h]

theorem parseDigestFile_valid {d : Digest} (h : validate d = .ok ()) :
    parseDigestFile d = .ok d := by
  rw [parseDigestFile, trimSpace_eq_self d (validate_no_space h), parseDigest, h]

theorem stringID_no_space {id : Str} (h : IsStringID id) : ∀ c ∈ id, isSpace c = false := by
  intro c hc
  have huses := uses_of_mem _ _ ((accepts_iff _ _).mp h) c hc
  have hchars : ∀ n, (times n (.cls [('a', 'f'), ('0', '9')])).uses c = true →
      inClass [('a', 'f'), ('0', '9')] c = true := by
    intro n
    induction n with
    | zero => exact nofun
    | succ n ih =>
      intro h
      rw [times, uses, Bool.or_eq_true] at h
      rcases h with h | h
      · exact h
      · exact ih h
  -- Every character is a hex digit or one of those of the suffix.
  have hrange : 45 ≤ c.toNat ∧ c.toNat ≤ 116 := by
    rw [stringIDRegexp, uses, Bool.or_eq_true] at huses
    rcases huses with huses | huses
    · have hclass := hchars 64 huses
      simp only [inClass, List.any_cons, List.any_nil, Bool.or_eq_true, Bool.and_eq_true,
        Nat.ble_eq, Char.reduceToNat, Bool.false_eq_true, or_false] at hclass
      omega
    · simp only [opt, literal, uses, inClass, List.any_cons, List.any_nil,
        Bool.or_eq_true, Bool.and_eq_true, Nat.ble_eq, Char.reduceToNat, Bool.false_eq_true,
        or_false] at huses
      omega
  rw [← Bool.not_eq_true]
  simp only [isSpace, Bool.or_eq_true, Bool.and_eq_true, Nat.ble_eq, beq_iff_eq]
  omega

theorem parseIDFile_stringID {what id : Str} (h : IsStringID id) :
    parseIDFile what id = .ok id := by
  rw [parseIDFile, trimSpace_eq_self id (stringID_no_space h)]
  exact if_pos h

/-- The descriptor that is read back: an empty one is not stored. -/
def storedDescriptor (d : Descriptor) : Descriptor :=
  if d.digest = [] then Descriptor.empty else d

/-- The parent of a layer or a mount has a digest for its chain ID. -/
def ParentValid (parent : Option RoLayer) : Prop :=
  ∀ q, parent = some q → validate q.chainID = .ok ()

theorem optional_parent (h : ParentValid parent) :
    optional [] parseDigestFile (readOr (parent.map RoLayer.chainID)) = .ok (parentID parent) := by
  cases parent with
  | none => rfl
  | some q => exact parseDigestFile_valid (h q rfl)

theorem readLayer_files {hx : Str} {diffID : DiffID} {size : Int64} {cacheID : Str}
    {descriptor : Descriptor} (hcodec : descriptor.digest ≠ [] → cfg.codec.RoundTrips descriptor)
    (hvalid : validate (newDigestFromHex sha256 hx) = .ok ())
    (hdiff : validate diffID = .ok ()) (hcache : IsStringID cacheID)
    (hparent : ParentValid parent)
    (h : LayerFiles cfg (entries w.tree (layerPath cfg hx)) diffID size cacheID descriptor parent) :
    readLayer (fileBackend cfg driver tar) (newDigestFromHex sha256 hx) w =
      (.ok (⟨0, newDigestFromHex sha256 hx, diffID, cacheID, size,
        storedDescriptor descriptor⟩, parentID parent), w) := by
  have hgetDiff : (fileBackend cfg driver tar).store.getDiffID
      (newDigestFromHex sha256 hx) w = (.ok diffID, w) := by
    refine (askLayer_entries (required parseDigestFile) (o := some diffID) hvalid (by decide)
      h.diff).trans ?_
    rw [readOr, required, parseDigestFile_valid hdiff]
  have hgetSize : (fileBackend cfg driver tar).store.getSize
      (newDigestFromHex sha256 hx) w = (.ok size, w) := by
    refine (askLayer_entries _ (o := some (formatInt size)) hvalid (by decide) h.size).trans ?_
    simp [readOr, required, parseInt_formatInt]
  have hgetCache : (fileBackend cfg driver tar).store.getCacheID
      (newDigestFromHex sha256 hx) w = (.ok cacheID, w) := by
    refine (askLayer_entries (required (parseIDFile "cache".toList)) (o := some cacheID) hvalid
      (by decide) h.cacheID).trans ?_
    rw [readOr, required, parseIDFile_stringID hcache]
  have hgetParent : (fileBackend cfg driver tar).store.getParent
      (newDigestFromHex sha256 hx) w = (.ok (parentID parent), w) := by
    refine (askLayer_entries (optional [] parseDigestFile) hvalid (by decide) h.parent).trans ?_
    rw [optional_parent hparent]
  have hgetDescriptor : (fileBackend cfg driver tar).store.getDescriptor
      (newDigestFromHex sha256 hx) w = (.ok (storedDescriptor descriptor), w) := by
    refine (askLayer_entries _ hvalid (by decide) h.descriptor).trans ?_
    -- A descriptor without a digest has no file, and is read as the empty one.
    by_cases hd : descriptor.digest = []
    · rw [if_pos hd, storedDescriptor, if_pos hd]
      rfl
    have hcodecd : cfg.codec.unmarshal (cfg.codec.marshal descriptor) = some descriptor :=
      hcodec hd
    rw [if_neg hd, storedDescriptor, if_neg hd]
    simp [readOr, optional, hcodecd]
  refine bind_eq_ok.mpr ⟨_, w, hgetDiff, ?_⟩
  refine bind_eq_ok.mpr ⟨_, w, hgetSize, ?_⟩
  refine bind_eq_ok.mpr ⟨_, w, hgetCache, ?_⟩
  refine bind_eq_ok.mpr ⟨_, w, hgetParent, ?_⟩
  exact bind_eq_ok.mpr ⟨_, w, hgetDescriptor, rfl⟩

theorem readMount_files {n mountID initID : Str} (hn : Plain n)
    (hmount : IsStringID mountID) (hinit : initID = [] ∨ IsStringID initID)
    (hparent : ParentValid parent)
    (h : MountFiles (entries w.tree (mountPath cfg n)) mountID initID parent) :
    readMount (fileBackend cfg driver tar) n w = (.ok (mountID, initID, parentID parent), w) := by
  have hgetMount : (fileBackend cfg driver tar).store.getMountID n w = (.ok mountID, w) := by
    refine Prod.ext ?_ rfl
    change required (parseIDFile "mount".toList) (readMountFile cfg n mountIDFile w.tree) = _
    rw [readMountFile_entries (o := some mountID) hn (by decide) h.mountID, readOr, required,
      parseIDFile_stringID hmount]
  have hgetInit : (fileBackend cfg driver tar).store.getInitID n w = (.ok initID, w) := by
    refine Prod.ext ?_ rfl
    change optional [] (parseIDFile "init".toList) (readMountFile cfg n initIDFile w.tree) = _
    rw [readMountFile_entries hn (by decide) h.initID]
    -- An empty init ID has no file either, and is what is read then.
    by_cases hi : initID = []
    · rw [if_pos hi, hi]
      rfl
    · rw [if_neg hi, readOr, optional, parseIDFile_stringID (hinit.resolve_left hi)]
  have hgetParent : (fileBackend cfg driver tar).store.getMountParent n w =
      (.ok (parentID parent), w) := by
    refine Prod.ext ?_ rfl
    change optional [] parseDigestFile (readMountFile cfg n parentFile w.tree) = _
    rw [readMountFile_entries hn (by decide) h.parent, optional_parent hparent]
  refine bind_eq_ok.mpr ⟨_, w, hgetMount, ?_⟩
  refine bind_eq_ok.mpr ⟨_, w, hgetInit, ?_⟩
  exact bind_eq_ok.mpr ⟨_, w, hgetParent, rfl⟩

end Reading

end Dao.Layer
