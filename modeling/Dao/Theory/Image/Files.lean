import Dao.Theory.Image.Contracts
import Dao.Theory.Layer.Files

/-!
# The File Backend Keeps Its Contract

`fs` keeps the contract of the image store's file backend.

The two observations of an image are two files, and the files of different
images, and the two files of one image, are apart in the tree. So every call
is seen by looking at the one path it works on. The exception is
`DeleteMetadata` with an ID that is not a digest. It may work on any path at
all, as long as the last component of the path is the key, and what is needed
of it is that it does not touch a configuration. It does not, unless the root
itself leads through a directory of that name.

## Theorems

* `fs_contract`: The backend keeps its contract.
* `faulty_contract`: It does when writes fail.
-/

namespace Dao.Image

open Lib Layer FileTree Function Except Call Digest List

/-- The hex digits of a canonical digest. -/
def IsHex (hx : Str) : Prop := hx.length = 64 ∧ ∀ c ∈ hx, c ∈ Sha256.hexAlphabet

theorem canonical_of_hex {hx : Str} (h : IsHex hx) :
    IsCanonical (newDigestFromHex sha256 hx) := ⟨hx, rfl, h⟩

theorem plain_of_hex {hx : Str} (h : IsHex hx) : FileTree.Plain hx :=
  plain_of_validate (validate_canonical _ (canonical_of_hex h))

section Paths

variable (root : Path)

def contentRoot : Path := root ++ [contentDirName, sha256]
def contentPath (hx : Name) : Path := root ++ [contentDirName, sha256, hx]
def metaPath (hx : Name) : Path := root ++ [metadataDirName, sha256, hx]
def parentPath (hx : Name) : Path := root ++ [metadataDirName, sha256, hx, parentKey]

theorem contentPath_eq (hx : Name) : contentPath root hx = contentRoot root ++ [hx] := by
  simp [contentPath, contentRoot]

theorem parentPath_eq (hx : Name) : parentPath root hx = metaPath root hx ++ [parentKey] := by
  simp [parentPath, metaPath]

theorem idPath_hex {dir : Name} (hdir : FileTree.Plain dir) {hx : Str} (h : IsHex hx) :
    idPath root dir (newDigestFromHex sha256 hx) = .ok (root ++ [dir, sha256, hx]) := by
  rw [idPath, cut_newDigestFromHex]
  simp only
  rw [join_plain _ _ _ hdir, join_plain _ _ _ (by decide),
    join_plain _ _ _ (plain_of_hex h), join_nil]
  simp

theorem contentFile_hex {hx : Str} (h : IsHex hx) :
    contentFile root (newDigestFromHex sha256 hx) = .ok (contentPath root hx) :=
  idPath_hex root (by decide) h

theorem metadataDir_hex {hx : Str} (h : IsHex hx) :
    metadataDir root (newDigestFromHex sha256 hx) = .ok (metaPath root hx) :=
  idPath_hex root (by decide) h

theorem join_parentKey (p : Path) : join p [parentKey] = p ++ [parentKey] := by
  rw [join_plain _ _ _ (by decide), join_nil]

theorem apart_contents {hx hx' : Name} (h : hx ≠ hx') :
    Apart (contentPath root hx) (contentPath root hx') := by
  rw [contentPath_eq, contentPath_eq]
  exact apart_of_ne _ h [] []

theorem apart_content_meta (hx hx' : Name) (r : Path) :
    Apart (contentPath root hx) (metaPath root hx' ++ r) := by
  simp only [contentPath, metaPath, append_assoc, cons_append, nil_append]
  exact apart_of_ne root (by decide) _ _

theorem apart_contentRoot_meta (hx : Name) (r : Path) :
    Apart (contentRoot root) (metaPath root hx ++ r) := by
  simp only [contentRoot, metaPath, append_assoc, cons_append, nil_append]
  exact apart_of_ne root (by decide) _ _

theorem apart_parents {hx hx' : Name} (h : hx ≠ hx') (r r' : Path) :
    Apart (metaPath root hx ++ r) (metaPath root hx' ++ r') := by
  have hsplit : ∀ (n : Name) (q : Path), metaPath root n ++ q =
      (root ++ [metadataDirName, sha256]) ++ n :: q := by
    simp [metaPath]
  rw [hsplit, hsplit]
  exact apart_of_ne _ h r r'

end Paths

/-- The content of a file, if there is one at the path. -/
def stored (t : Node Bytes) (q : Path) : Option Bytes :=
  match FileTree.readFile q t with
  | .error _ => none
  | .ok content => some content

theorem stored_congr {t t' : Node Bytes} {q : Path} (h : FileTree.get q t' = FileTree.get q t) :
    stored t' q = stored t q := by
  rw [stored, stored, FileTree.readFile, FileTree.readFile, h]

theorem stored_file {t : Node Bytes} {q : Path} {c : Bytes}
    (h : FileTree.get q t = .ok (.file c)) : stored t q = some c := by
  rw [stored, FileTree.readFile, h]

theorem stored_error {t : Node Bytes} {q : Path} {e : FsError}
    (h : FileTree.get q t = .error e) : stored t q = none := by
  rw [stored, FileTree.readFile, h]

theorem stored_dir {t : Node Bytes} {q : Path} {es : List (Name × Node Bytes)}
    (h : FileTree.get q t = .ok (.dir es)) : stored t q = none := by
  rw [stored, FileTree.readFile, h]

open Classical in
/-- What the file backend shows. The metadata is looked at whether or not
    there is a configuration. -/
noncomputable def fsView (root : Path) : FsView (Node Bytes) where
  ok t := ∃ es, FileTree.get (contentRoot root) t = .ok (.dir es)
  content t id :=
    match fsGet root id t with
    | .error _ => none
    | .ok content => some content
  parentData t id :=
    if Digest.IsCanonical id then
      match cut ':' id with
      | none => none
      | some (_, hx) => stored t (parentPath root hx)
    else none

section View

variable (root : Path)

variable {hx : Str} {id : ID} {t t' : Node Bytes}

theorem fsGet_hex (h : IsHex hx) (t : Node Bytes) : fsGet root (newDigestFromHex sha256 hx) t =
      match FileTree.readFile (contentPath root hx) t with
      | .error e => .error (.error (fsErrorText e))
      | .ok content =>
        if fromBytes content = newDigestFromHex sha256 hx then .ok content
        else .error (.error ("failed to verify image: ".toList ++ newDigestFromHex sha256 hx)) := by
  simp only [fsGet, bind, Except.bind, contentFile_hex root h, readFile]
  cases FileTree.readFile (contentPath root hx) t with
  | error e => rfl
  | ok => rfl

theorem fsGet_ok {c : Bytes} (h : fsGet root id t = .ok c) : fromBytes c = id := by
  simp only [fsGet, bind, Except.bind] at h
  rcases hfile : contentFile root id with e | file
  · simp [hfile] at h
  rw [hfile] at h
  simp only at h
  rcases hread : readFile file t with e | content
  · simp [hread] at h
  rw [hread] at h
  simp only at h
  by_cases hid : fromBytes content = id
  · rw [if_pos hid] at h
    cases h
    exact hid
  · rw [if_neg hid] at h
    nomatch h

theorem content_eq_some {c : Bytes} :
    (fsView root).content t id = some c ↔ fsGet root id t = .ok c := by
  simp only [fsView]
  cases fsGet root id t with
  | error e => simp
  | ok => simp

theorem content_noncanonical (h : ¬ IsCanonical id) (t : Node Bytes) :
    (fsView root).content t id = none := by
  rcases hc : (fsView root).content t id with _ | c
  · rfl
  have hid := fsGet_ok root ((content_eq_some root).mp hc)
  rw [← hid] at h
  exact absurd (fromBytes_canonical c) h

theorem parentData_noncanonical (h : ¬ IsCanonical id) (t : Node Bytes) :
    (fsView root).parentData t id = none := if_neg h

theorem content_hex (h : IsHex hx) (t : Node Bytes) :
    (fsView root).content t (newDigestFromHex sha256 hx) =
      (stored t (contentPath root hx)).filter (fun c =>
        decide (fromBytes c = newDigestFromHex sha256 hx)) := by
  simp only [fsView, fsGet_hex root h, stored]
  rcases FileTree.readFile (contentPath root hx) t with e | c
  · rfl
  simp only [Option.filter, decide_eq_true_eq]
  by_cases hid : fromBytes c = newDigestFromHex sha256 hx
  · rw [if_pos hid, if_pos hid]
  · rw [if_neg hid, if_neg hid]

theorem parentData_hex (h : IsHex hx) (t : Node Bytes) :
    (fsView root).parentData t (newDigestFromHex sha256 hx) = stored t (parentPath root hx) := by
  simp only [fsView]
  rw [if_pos (canonical_of_hex h), cut_newDigestFromHex]

theorem content_congr (h : ∀ hx, id = newDigestFromHex sha256 hx → IsHex hx →
      stored t' (contentPath root hx) = stored t (contentPath root hx)) :
    (fsView root).content t' id = (fsView root).content t id := by
  by_cases hid : IsCanonical id
  · rcases hid with ⟨hx, hid, hhex⟩
    have hsame := h hx hid hhex
    rw [hid, content_hex root hhex, content_hex root hhex, hsame]
  · rw [content_noncanonical root hid, content_noncanonical root hid]

theorem parentData_congr (h : ∀ hx, id = newDigestFromHex sha256 hx → IsHex hx →
      stored t' (parentPath root hx) = stored t (parentPath root hx)) :
    (fsView root).parentData t' id = (fsView root).parentData t id := by
  by_cases hid : IsCanonical id
  · rcases hid with ⟨hx, hid, hhex⟩
    have hsame := h hx hid hhex
    rw [hid, parentData_hex root hhex, parentData_hex root hhex, hsame]
  · rw [parentData_noncanonical root hid, parentData_noncanonical root hid]

theorem content_same
    (h : ∀ hx, IsHex hx → stored t' (contentPath root hx) = stored t (contentPath root hx)) :
    (fsView root).content t' = (fsView root).content t := by
  ext1 id
  exact content_congr root fun hx _ hhex => h hx hhex

theorem parentData_same
    (h : ∀ hx, IsHex hx → stored t' (parentPath root hx) = stored t (parentPath root hx)) :
    (fsView root).parentData t' = (fsView root).parentData t := by
  ext1 id
  exact parentData_congr root fun hx _ hhex => h hx hhex

theorem content_update (x : Option Bytes)
    (hself : (fsView root).content t' (newDigestFromHex sha256 hx) = x)
    (h : ∀ hx', IsHex hx' → hx ≠ hx' →
      stored t' (contentPath root hx') = stored t (contentPath root hx')) :
    (fsView root).content t' = update ((fsView root).content t) (newDigestFromHex sha256 hx) x := by
  ext1 id
  by_cases hid : id = newDigestFromHex sha256 hx
  · rw [hid, hself, update_self]
  · rw [update_of_ne hid]
    exact content_congr root fun hx' hid' hhex' => h hx' hhex' (fun hc => hid (hc ▸ hid'))

theorem parentData_update (hhex : IsHex hx) (x : Option Bytes)
    (hself : stored t' (parentPath root hx) = x)
    (h : ∀ hx', IsHex hx' → hx ≠ hx' →
      stored t' (parentPath root hx') = stored t (parentPath root hx')) :
    (fsView root).parentData t' = update ((fsView root).parentData t)
      (newDigestFromHex sha256 hx) x := by
  ext1 id
  by_cases hid : id = newDigestFromHex sha256 hx
  · rw [hid, parentData_hex root hhex, hself, update_self]
  · rw [update_of_ne hid]
    exact parentData_congr root fun hx' hid' hhex' => h hx' hhex' (fun hc => hid (hc ▸ hid'))

end View

section Laws

variable {root : Path}

theorem changeFiles_cases (f : Node Bytes → Except FsError (Node Bytes)) (t : Node Bytes) :
    (∃ msg, changeFiles f t = (.error (.error msg), t)) ∨
      ∃ t', f t = .ok t' ∧ changeFiles f t = (.ok (), t') := by
  simp only [changeFiles]
  cases f t with
  | error e => exact .inl ⟨_, rfl⟩
  | ok t' => exact .inr ⟨t', rfl, rfl⟩

variable {t t' : Node Bytes} {id : ID} {r : Except Fault Unit}

theorem fs_walk (hok : (fsView root).ok t) : ∃ ids, fsWalk root t = .ok ids ∧
    ids.Nodup ∧ (∀ id ∈ ids, validate id = .ok ()) ∧
    ∀ id c, (fsView root).content t id = some c → id ∈ ids := by
  rcases hok with ⟨es, hes⟩
  have hjoin : join root [contentDirName, sha256] = contentRoot root := by
    rw [join_plain _ _ _ (by decide), join_plain _ _ _ (by decide),
      join_nil, contentRoot, append_assoc, cons_append, nil_append]
  have hread : ∃ infos, readDir (contentRoot root) t = .ok infos ∧ (infos.map Prod.fst).Nodup ∧
      ∀ n x, FileTree.get (contentRoot root ++ [n]) t = .ok x → ∃ isDir, (n, isDir) ∈ infos := by
    refine ⟨_, by rw [readDir, hes], ?_, fun n x hx => ?_⟩
    · rw [map_map]
      simp only [comp_def, map_id']
      exact (perm_insertionSort _ _).nodup_iff.mpr (nodup_dedup _)
    · rw [get_entry hes] at hx
      cases hfind : find n es with
      | none =>
        simp [hfind] at hx
      | some y => exact ⟨_, mem_map.mpr ⟨n, (mem_names n es).mpr ⟨y, hfind⟩, rfl⟩⟩
  rcases hread with ⟨infos, hinfos, hnodup, hmem⟩
  refine ⟨_, by rw [fsWalk, hjoin, hinfos], ?_, fun id hid => ?_, fun id c hc => ?_⟩
  · -- Every ID is made from one name.
    refine pairwise_filterMap.mpr ((pairwise_map.mp hnodup).imp ?_)
    intro v w hne id hv id' hw heq
    rcases listed_eq_some.mp hv, listed_eq_some.mp hw with ⟨⟨hv, _⟩, hw, _⟩
    exact hne (newDigestFromHex_inj (hv.trans (heq.trans hw.symm)))
  · rcases mem_filterMap.mp hid with ⟨v, _, hv⟩
    exact (listed_eq_some.mp hv).2
  · have hdig := fsGet_ok root ((content_eq_some root).mp hc)
    have hcan : IsCanonical id := by
      rw [← hdig]
      exact fromBytes_canonical c
    rcases hcan with ⟨hx, hid, hhex⟩
    rw [hid, content_hex root hhex, stored, FileTree.readFile] at hc
    cases hget : FileTree.get (contentPath root hx) t with
    | error e =>
      rw [hget] at hc
      simp at hc
    | ok x =>
      rw [contentPath_eq] at hget
      rcases hmem hx x hget with ⟨isDir, hin⟩
      refine mem_filterMap.mpr ⟨(hx, isDir), hin, ?_⟩
      rw [validate_canonical _ (canonical_of_hex hhex), hid]

theorem fs_get_error (h : (fsView root).content t id = none) (hval : validate id = .ok ()) :
    ∃ msg, fsGet root id t = .error (.error msg) := by
  have hcut : ∃ q, cut ':' id = some q := by
    cases hc : cut ':' id with
    | none =>
      rw [validate, hc] at hval
      split at hval <;> cases hval
    | some q => exact ⟨q, rfl⟩
  rcases hcut with ⟨⟨alg, hx⟩, hcut⟩
  cases hget : fsGet root id t with
  | ok c =>
    simp [(content_eq_some root).mpr hget] at h
  | error e =>
    cases e with
    | error msg => exact ⟨msg, rfl⟩
    -- A digest with an algorithm has its file name, so the panic is not reached.
    | panic =>
      simp only [fsGet, bind, Except.bind, contentFile, idPath, hcut, readFile] at hget
      split at hget
      · next heq =>
        split at heq
        · simp only [Except.error.injEq] at heq
          rw [← heq] at hget
          cases hget
        · cases heq
      · split at hget
        · cases hget
        · cases hget

theorem fsGetMetadata_hex {hx : Str} (h : IsHex hx) (t : Node Bytes) :
    fsGetMetadata root (newDigestFromHex sha256 hx) parentKey t =
      match fsGet root (newDigestFromHex sha256 hx) t with
      | .error e => .error e
      | .ok _ => readFile (parentPath root hx) t := by
  simp only [fsGetMetadata, bind, Except.bind, metadataDir_hex root h, join_parentKey,
    ← parentPath_eq]
  cases fsGet root (newDigestFromHex sha256 hx) t with
  | error e => rfl
  | ok c => rfl

theorem readFile_stored (q : Path) (t : Node Bytes) (d : Bytes) :
    readFile q t = .ok d ↔ stored t q = some d := by
  rw [readFile, stored]
  cases FileTree.readFile q t with
  | error e => simp
  | ok c => simp

theorem fs_getMetadata (t : Node Bytes) (id : ID) (d : Bytes) :
    fsGetMetadata root id parentKey t = .ok d ↔
      ((fsView root).content t id).isSome = true ∧ (fsView root).parentData t id = some d := by
  by_cases hcan : IsCanonical id
  · rcases hcan with ⟨hx, hid, hhex⟩
    rw [hid, fsGetMetadata_hex hhex, parentData_hex root hhex]
    simp only [fsView]
    cases fsGet root (newDigestFromHex sha256 hx) t with
    | error e => simp
    | ok c =>
      simp only [Option.isSome_some, true_and]
      exact readFile_stored _ t d
  · rw [content_noncanonical root hcan]
    simp only [Option.isSome_none, Bool.false_eq_true, false_and, iff_false]
    intro h
    simp only [fsGetMetadata, bind, Except.bind] at h
    cases hget : fsGet root id t with
    | error e =>
      simp [hget] at h
    | ok c =>
      rw [← fsGet_ok root hget] at hcan
      exact hcan (fromBytes_canonical c)

theorem fs_getMetadata_error (t : Node Bytes) (hcan : IsCanonical id) :
    fsGetMetadata root id parentKey t ≠ .error .panic := by
  rcases hcan with ⟨hx, hid, hhex⟩
  rw [hid, fsGetMetadata_hex hhex]
  cases hget : fsGet root (newDigestFromHex sha256 hx) t with
  | error e =>
    have hnone : (fsView root).content t (newDigestFromHex sha256 hx) = none := by
      simp [fsView, hget]
    rcases fs_get_error hnone (validate_canonical _ (canonical_of_hex hhex)) with
      ⟨msg, hmsg⟩
    rw [hget] at hmsg
    cases hmsg
    simp
  | ok c =>
    simp only [readFile]
    cases FileTree.readFile (parentPath root hx) t with
    | error e => simp
    | ok d => simp

theorem fs_set {data : Bytes} {r : Except Fault ID} (hok : (fsView root).ok t)
    (h : fsSet root data t = (r, t')) :
    (fsView root).ok t' ∧ (fsView root).parentData t' = (fsView root).parentData t ∧
      ((∃ e, r = .error e) ∧ (fsView root).content t' = (fsView root).content t ∨
        r = .ok (fromBytes data) ∧ (fsView root).content t' =
          update ((fsView root).content t) (fromBytes data) (some data)) := by
  have hsame : ∀ e, (r, t') = (.error e, t) → (fsView root).ok t' ∧
      (fsView root).parentData t' = (fsView root).parentData t ∧
      ((∃ e, r = .error e) ∧ (fsView root).content t' = (fsView root).content t ∨
        r = .ok (fromBytes data) ∧ (fsView root).content t' =
          update ((fsView root).content t) (fromBytes data) (some data)) := by
    intro e heq
    cases heq
    exact ⟨hok, rfl, .inl ⟨⟨e, rfl⟩, rfl⟩⟩
  unfold fsSet at h
  by_cases hdata : data = []
  · rw [if_pos hdata] at h
    exact hsame _ h.symm
  rcases fromBytes_canonical data with ⟨hx, hid, hhex⟩
  rw [if_neg hdata, hid, contentFile_hex root hhex, bind_apply] at h
  simp only [lift] at h
  rw [bind_apply] at h
  rcases changeFiles_cases (writeFile (contentPath root hx) data) t with
    ⟨msg, hchange⟩ | ⟨t1, hwrite, hchange⟩
  · rw [hchange] at h
    exact hsame _ h.symm
  rw [hchange] at h
  simp only [pure_apply, Prod.mk.injEq] at h
  rw [← h.2, ← h.1, hid]
  have hparent : FileTree.get (contentPath root hx) t1 = .ok (.file data) :=
    get_writeFile hwrite
  -- The file is apart from the metadata, and from the files of the other digests.
  refine ⟨?_, parentData_same root fun hx' _ => ?_, .inr ⟨rfl, ?_⟩⟩
  · rw [contentPath_eq] at hparent
    exact dir_of_get_append hparent
  · rw [parentPath_eq]
    exact stored_congr (get_update_apart (apart_content_meta root hx hx' _) hwrite)
  · refine content_update root _ ?_ (fun hx' _ hne => ?_)
    · rw [content_hex root hhex, stored_file hparent]
      simp [hid]
    · exact stored_congr (get_update_apart (apart_contents root hne) hwrite)

/-- The metadata of an image can go without its configuration. -/
theorem stored_content_removeAll (hx hx' : Name) (t : Node Bytes) :
    stored (removeAll (metaPath root hx) t) (contentPath root hx') =
      stored t (contentPath root hx') := by
  have := apart_content_meta root hx' hx []
  rw [append_nil] at this
  exact stored_congr (get_removeAll_apart (apart_symm this) t)

theorem stored_parent_removeAll (hx : Name) (t : Node Bytes) :
    stored (removeAll (metaPath root hx) t) (parentPath root hx) = none := by
  have hne : metaPath root hx ≠ [] := append_ne_nil_of_right_ne_nil _ (cons_ne_nil _ _)
  rcases get_removeAll hne t [parentKey] with ⟨e, he⟩
  rw [← parentPath_eq] at he
  exact stored_error he

/-- A deletion removes the metadata, and then the content unless that fails. -/
theorem fsDelete_cases {hx : Str} (hhex : IsHex hx)
    (h : fsDelete root (newDigestFromHex sha256 hx) t = (r, t')) :
    (∃ msg, r = .error (.error msg) ∧ t' = removeAll (metaPath root hx) t) ∨
      remove (contentPath root hx) (removeAll (metaPath root hx) t) = .ok t' ∧ r = .ok () := by
  rw [fsDelete, metadataDir_hex root hhex, contentFile_hex root hhex, bind_apply] at h
  simp only [lift] at h
  rw [bind_apply] at h
  simp only [changeFiles] at h
  rw [bind_apply] at h
  simp only [lift] at h
  rcases changeFiles_cases (remove (contentPath root hx))
    (removeAll (metaPath root hx) t) with ⟨msg, hchange⟩ | ⟨t1, hremove, hchange⟩
  · rw [hchange] at h
    cases h
    exact .inl ⟨msg, rfl, rfl⟩
  · rw [hchange] at h
    cases h
    exact .inr ⟨hremove, rfl⟩

theorem fs_delete (hok : (fsView root).ok t) (hcan : IsCanonical id)
    (h : fsDelete root id t = (r, t')) :
    (fsView root).ok t' ∧ r ≠ .error .panic ∧
      (∀ x, x ≠ id → (fsView root).content t' x = (fsView root).content t x ∧
        (fsView root).parentData t' x = (fsView root).parentData t x) ∧
      (r = .ok () → (fsView root).content t' id = none ∧
        (fsView root).parentData t' id = none) := by
  rcases hcan with ⟨hx, hid, hhex⟩
  rw [hid]
  -- The files after the metadata is gone.
  have hmeta : Apart (metaPath root hx) (contentRoot root) := by
    have := apart_contentRoot_meta root hx []
    rw [append_nil] at this
    exact apart_symm this
  have hcontent := fun hx' => @stored_content_removeAll root hx hx' t
  have hother : ∀ hx', hx ≠ hx' → stored (removeAll (metaPath root hx) t)
      (parentPath root hx') = stored t (parentPath root hx') := by
    intro hx' hne
    have := apart_parents root hne [] [parentKey]
    rw [append_nil, ← parentPath_eq] at this
    exact stored_congr (get_removeAll_apart this t)
  have hgone := @stored_parent_removeAll root hx t
  have hok1 : (fsView root).ok (removeAll (metaPath root hx) t) := by
    rcases hok with ⟨es, hes⟩
    exact ⟨es, by rw [get_removeAll_apart hmeta]; exact hes⟩
  rw [hid] at h
  -- What holds of the other images once their files are the same.
  have hframe : ∀ t2 : Node Bytes,
      (∀ hx', hx ≠ hx' → stored t2 (contentPath root hx') = stored t (contentPath root hx')) →
      (∀ hx', hx ≠ hx' → stored t2 (parentPath root hx') = stored t (parentPath root hx')) →
      ∀ x, x ≠ newDigestFromHex sha256 hx → (fsView root).content t2 x = (fsView root).content t x ∧
        (fsView root).parentData t2 x = (fsView root).parentData t x := by
    intro t2 h1 h2 x hxne
    exact ⟨content_congr root fun hx' hid' _ => h1 hx' (fun hc => hxne (hc ▸ hid')),
      parentData_congr root fun hx' hid' _ => h2 hx' (fun hc => hxne (hc ▸ hid'))⟩
  rcases fsDelete_cases hhex h with ⟨msg, rfl, rfl⟩ | ⟨hremove, rfl⟩
  · refine ⟨hok1, by simp, hframe _ (fun hx' _ => hcontent hx') hother, fun hc => ?_⟩
    nomatch hc
  refine ⟨?_, by simp, hframe _ (fun hx' hne => ?_) fun hx' hne => ?_, fun _ => ⟨?_, ?_⟩⟩
  · rw [contentPath_eq] at hremove
    exact get_update_parent _ _ hremove
  · rw [stored_congr (get_update_apart (apart_contents root hne) hremove), hcontent]
  · have hap := apart_content_meta root hx hx' [parentKey]
    rw [← parentPath_eq] at hap
    rw [stored_congr (get_update_apart hap hremove), hother hx' hne]
  · rcases get_update hremove with ⟨old, new, hf, _, hnew⟩
    have hget := hnew []
    rw [append_nil] at hget
    have hnone : new = none := by
      split at hf
      · nomatch hf
      · nomatch hf
      · exact (ok.inj hf).symm
    rw [hnone] at hget
    rw [content_hex root hhex, stored_error hget, Option.filter_none]
  · have hap := apart_content_meta root hx hx [parentKey]
    rw [← parentPath_eq] at hap
    rw [parentData_hex root hhex, stored_congr (get_update_apart hap hremove), hgone]

theorem fs_setMetadata {data : Bytes} (hok : (fsView root).ok t)
    (h : fsSetMetadata root id parentKey data t = (r, t')) :
    (fsView root).ok t' ∧ (fsView root).content t' = (fsView root).content t ∧
      ((∃ e, r = .error e) ∧ (fsView root).parentData t' = (fsView root).parentData t ∨
        r = .ok () ∧ ((fsView root).content t id).isSome = true ∧ (fsView root).parentData t' =
          update ((fsView root).parentData t) id (some data)) := by
  rw [fsSetMetadata, bind_apply] at h
  simp only [askFiles] at h
  rcases hget : fsGet root id t with e | c
  · simp only [hget] at h
    cases h
    exact ⟨hok, rfl, .inl ⟨⟨e, rfl⟩, rfl⟩⟩
  simp only [hget] at h
  rcases fromBytes_canonical c with ⟨hx, hid, hhex⟩
  rw [fsGet_ok root hget] at hid
  rw [hid] at h ⊢
  rw [metadataDir_hex root hhex, bind_apply] at h
  simp only [lift] at h
  rw [bind_apply, join_parentKey, ← parentPath_eq] at h
  rcases changeFiles_cases (mkdirAll (metaPath root hx)) t with
    ⟨msg, hchange⟩ | ⟨t1, hmkdir, hchange⟩
  · rw [hchange] at h
    cases h
    exact ⟨hok, rfl, .inl ⟨⟨_, rfl⟩, rfl⟩⟩
  rw [hchange] at h
  simp only at h
  -- Making the directory shows nothing.
  have hok1 : (fsView root).ok t1 := by
    rcases hok with ⟨es, hes⟩
    refine ⟨es, ?_⟩
    have hap := apart_contentRoot_meta root hx []
    rw [append_nil] at hap
    rw [get_mkdirAll_frame hap.1 hmkdir]
    exact hes
  have hcontent1 : ∀ hx', stored t1 (contentPath root hx') =
      stored t (contentPath root hx') := by
    intro hx'
    have hap := apart_content_meta root hx' hx []
    rw [append_nil] at hap
    exact stored_congr (get_mkdirAll_frame hap.1 hmkdir)
  have hparent1 : ∀ hx', stored t1 (parentPath root hx') = stored t (parentPath root hx') := by
    intro hx'
    refine stored_congr (get_mkdirAll_frame (fun hc => ?_) hmkdir)
    have hlen := hc.length_le
    simp only [parentPath, metaPath, length_append, length_cons, length_nil] at hlen
    omega
  rcases changeFiles_cases (writeFile (parentPath root hx) data) t1 with
    ⟨msg, hchange2⟩ | ⟨t2, hwrite, hchange2⟩
  · rw [hchange2] at h
    cases h
    exact ⟨hok1, content_same root fun hx' _ => hcontent1 hx',
      .inl ⟨⟨_, rfl⟩, parentData_same root fun hx' _ => hparent1 hx'⟩⟩
  rw [hchange2] at h
  cases h
  refine ⟨?_, content_same root fun hx' _ => ?_, .inr ⟨rfl, ?_, ?_⟩⟩
  · rcases hok1 with ⟨es, hes⟩
    have hap := apart_contentRoot_meta root hx [parentKey]
    rw [← parentPath_eq] at hap
    exact ⟨es, by rw [get_update_apart (apart_symm hap) hwrite]; exact hes⟩
  · have hap := apart_content_meta root hx' hx [parentKey]
    rw [← parentPath_eq] at hap
    rw [stored_congr (get_update_apart (apart_symm hap) hwrite), hcontent1]
  · rw [hid] at hget
    rw [(content_eq_some root).mpr hget, Option.isSome_some]
  · refine parentData_update root hhex _ (stored_file (get_writeFile hwrite)) (fun hx' _ hne => ?_)
    have hap := apart_parents root hne [parentKey] [parentKey]
    rw [← parentPath_eq, ← parentPath_eq] at hap
    rw [stored_congr (get_update_apart hap hwrite), hparent1]

/-- Removing something called like the key, wherever it is, leaves alone what
    is not below a directory of that name. -/
theorem get_removeAll_parentKey (q : Path) {p : Path} (hp : parentKey ∉ p) (t : Node Bytes) :
    (∃ es es', FileTree.get p t = .ok (.dir es) ∧
      FileTree.get p (removeAll (q ++ [parentKey]) t) = .ok (.dir es')) ∨
      FileTree.get p (removeAll (q ++ [parentKey]) t) = FileTree.get p t := by
  by_cases hqp : q ++ [parentKey] <+: p
  · exact absurd (hqp.subset (mem_append_right q mem_cons_self)) hp
  by_cases hpq : p <+: q ++ [parentKey]
  · rcases hpq with ⟨r, hr⟩
    cases r with
    | nil =>
      rw [append_nil] at hr
      rw [hr] at hp
      exact absurd (mem_append_right q mem_cons_self) hp
    | cons n r =>
      rw [← hr]
      exact get_removeAll_above p n r t
  · exact .inr (get_removeAll_apart ⟨hqp, hpq⟩ t)

theorem stored_removeAll_parentKey (q : Path) {p : Path} (hp : parentKey ∉ p) (t : Node Bytes) :
    stored (removeAll (q ++ [parentKey]) t) p = stored t p := by
  rcases get_removeAll_parentKey q hp t with ⟨es, es', hget, hget'⟩ | hsame
  · rw [stored_dir hget, stored_dir hget']
  · exact stored_congr hsame

theorem fs_deleteMetadata (hroot : parentKey ∉ root) (hok : (fsView root).ok t)
    (h : fsDeleteMetadata root id parentKey t = (r, t')) :
    (fsView root).ok t' ∧ (fsView root).content t' = (fsView root).content t ∧
      (IsCanonical id → r ≠ .error .panic ∧
        ((∃ e, r = .error e) ∧ (fsView root).parentData t' = (fsView root).parentData t ∨
          r = .ok () ∧ (fsView root).parentData t' =
            update ((fsView root).parentData t) id none)) := by
  have hdir : parentKey ∉ contentRoot root := by
    simp only [contentRoot, mem_append, mem_cons, not_mem_nil, or_false, not_or]
    exact ⟨hroot, by decide, by decide⟩
  have hpath : ∀ hx, IsHex hx → parentKey ∉ contentPath root hx := by
    intro hx hhex
    rw [contentPath_eq, mem_append, mem_singleton, not_or]
    refine ⟨hdir, fun hc => ?_⟩
    rw [← hc] at hhex
    exact absurd hhex.1 (by decide)
  rw [fsDeleteMetadata, bind_apply] at h
  -- Whatever the directory is called, only names under the key are removed.
  cases hmeta : metadataDir root id with
  | error e =>
    simp only [hmeta, lift] at h
    cases h
    refine ⟨hok, rfl, fun hcan => ?_⟩
    rcases hcan with ⟨hx, hid, hhex⟩
    simp [hid, metadataDir_hex root hhex] at hmeta
  | ok dir =>
    simp only [hmeta, lift, changeFiles, join_parentKey] at h
    cases h
    refine ⟨?_, content_same root (fun hx hhex =>
      stored_removeAll_parentKey dir (hpath hx hhex) t), fun hcan => ⟨?_, .inr ⟨rfl, ?_⟩⟩⟩
    · rcases hok with ⟨es, hes⟩
      rcases get_removeAll_parentKey dir hdir t with ⟨_, es', _, hget⟩ | hsame
      · exact ⟨es', hget⟩
      · exact ⟨es, hsame.trans hes⟩
    · simp
    · rcases hcan with ⟨hx, hid, hhex⟩
      rw [hid, metadataDir_hex root hhex] at hmeta
      cases hmeta
      rw [hid, ← parentPath_eq]
      have hne : parentPath root hx ≠ [] :=
        append_ne_nil_of_right_ne_nil _ (cons_ne_nil _ _)
      refine parentData_update root hhex _ ?_ fun hx' _ hneq => ?_
      · rcases get_removeAll hne t [] with ⟨e, he⟩
        rw [append_nil] at he
        exact stored_error he
      · have hap := apart_parents root hneq [parentKey] [parentKey]
        rw [← parentPath_eq, ← parentPath_eq] at hap
        exact stored_congr (get_removeAll_apart hap t)

/-- A deletion, failed or not, leaves of an image what was there or nothing. -/
theorem fs_delete_frame (hok : (fsView root).ok t) (hcan : IsCanonical id)
    (h : fsDelete root id t = (r, t')) :
    ((fsView root).content t' id = (fsView root).content t id ∨
        (fsView root).content t' id = none) ∧ (fsView root).parentData t' id = none := by
  have hdelete := fs_delete hok hcan h
  rcases hcan with ⟨hx, hid, hhex⟩
  rw [hid] at h
  rcases fsDelete_cases hhex h with ⟨msg, _, rfl⟩ | ⟨_, hr⟩
  · rw [hid, content_hex root hhex, content_hex root hhex, parentData_hex root hhex,
      stored_content_removeAll, stored_parent_removeAll]
    exact ⟨.inl rfl, rfl⟩
  · have hgone := hdelete.2.2.2 hr
    exact ⟨.inr hgone.1, hgone.2⟩

theorem fs_contract (hroot : parentKey ∉ root) : FsContract (fsBackend root) (fsView root) where
  digest _ _ _ _ hc := fsGet_ok root ((content_eq_some root).mp hc)
  walk _ hok := fs_walk hok
  get_ok _ _ _ _ hc := (content_eq_some root).mp hc
  get_error _ _ _ hc hval := fs_get_error hc hval
  getMetadata t id d _ := fs_getMetadata t id d
  getMetadata_error t _ _ hcan := fs_getMetadata_error t hcan
  set _ _ _ _ hok h := fs_set hok h
  delete _ _ _ _ hok hcan h := fs_delete hok hcan h
  setMetadata _ _ _ _ _ hok h := fs_setMetadata hok h
  deleteMetadata _ _ _ _ hok h := fs_deleteMetadata hroot hok h

theorem fs_frame : FsFrame (fsBackend root) (fsView root) where
  get _ _ _ _ h := (content_eq_some root).mpr h
  delete _ _ _ _ hok hcan h := by
    rcases fs_delete_frame hok hcan h with ⟨hcontent, hparent⟩
    exact ⟨hcontent, .inr hparent⟩

end Laws

/-- What a backend shows whose writes may fail. -/
def FsView.faulty {φ : Type} (v : FsView φ) : FsView (List Bool × φ) where
  ok w := v.ok w.2
  content w := v.content w.2
  parentData w := v.parentData w.2

theorem faulty_cases {ε φ α : Type} (e : ε) (x : Call ε φ α) {w w' : List Bool × φ}
    {r : Except ε α} (h : faulty e x w = (r, w')) :
    (r = .error e ∧ w'.2 = w.2) ∨ x w.2 = (r, w'.2) := by
  unfold faulty at h
  split at h
  · cases h
    exact .inl ⟨rfl, rfl⟩
  · cases h
    exact .inr rfl

theorem faulty_contract {φ : Type} {b : StoreBackend φ} {v : FsView φ} (h : FsContract b v) :
    FsContract b.faulty v.faulty where
  digest w := h.digest w.2
  walk w := h.walk w.2
  get_ok w := h.get_ok w.2
  get_error w := h.get_error w.2
  getMetadata w := h.getMetadata w.2
  getMetadata_error w := h.getMetadata_error w.2
  -- A call that fails by itself changes nothing, and any other is one of the backend.
  set w w' data r hok hset := by
    rcases faulty_cases _ _ hset with ⟨hr, hw⟩ | hcall
    · refine ⟨?_, congrArg v.parentData hw, .inl ⟨⟨_, hr⟩, congrArg v.content hw⟩⟩
      simp only [FsView.faulty, hw]
      exact hok
    · exact h.set _ _ _ _ hok hcall
  delete w w' id r hok hcan hdel := by
    rcases faulty_cases _ _ hdel with ⟨hr, hw⟩ | hcall
    · refine ⟨?_, ?_, fun x _ => ⟨congrFun (congrArg v.content hw) x,
        congrFun (congrArg v.parentData hw) x⟩, fun hc => ?_⟩
      · simp only [FsView.faulty, hw]
        exact hok
      · rw [hr]
        simp only [StoreBackend.faulty.ioError, ne_eq, error.injEq, reduceCtorEq, not_false_eq_true]
      · simp [hr] at hc
    · exact h.delete _ _ _ _ hok hcan hcall
  setMetadata w w' id data r hok hset := by
    rcases faulty_cases _ _ hset with ⟨hr, hw⟩ | hcall
    · refine ⟨?_, congrArg v.content hw, .inl ⟨⟨_, hr⟩, congrArg v.parentData hw⟩⟩
      simp only [FsView.faulty, hw]
      exact hok
    · exact h.setMetadata _ _ _ _ _ hok hcall
  deleteMetadata w w' id r hok hdel := by
    rcases faulty_cases _ _ hdel with ⟨hr, hw⟩ | hcall
    · refine ⟨?_, congrArg v.content hw, fun _ =>
        ⟨?_, .inl ⟨⟨_, hr⟩, congrArg v.parentData hw⟩⟩⟩
      · simp only [FsView.faulty, hw]
        exact hok
      · rw [hr]
        simp only [StoreBackend.faulty.ioError, ne_eq, error.injEq, reduceCtorEq, not_false_eq_true]
    · exact h.deleteMetadata _ _ _ _ hok hcall

end Dao.Image
