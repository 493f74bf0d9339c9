import Dao.Core.TarExport.Origins
import Dao.Theory.Image.Children

/-!
# The Parents of Images

Nothing looks for cycles when an image is given a parent. What keeps the
relation free of them is the history: an image that is built on another has
the history of its parent and one entry more, and `checkValidParent` asks the
same of the links in a manifest. So the length of the history goes down along
every link, and what is stored under an ID does not change.

There is a gap. `checkValidParent` lets two images without history pass, so
two such images in one manifest can name each other.

The length of a history is read off the configurations that were given to
`Create`, which are kept in `created`. It belongs to the ID as long as no two
of them have the same digest.

## Theorems

* `run_acyclic`: No image is its own ancestor.
* `each_other_parent`: Two images that are.
-/

namespace Dao.TarExport

open Lib Layer Image Option Except Function Digest Call List

/-- One of the configurations has the ID, and a history of the length. -/
def Known (unmarshal : Decoder) (K : List Bytes) (id : ID) (n : Nat) : Prop :=
  ∃ c ∈ K, fromBytes c = id ∧ ∃ img, unmarshal c = .ok img ∧ img.history.length = n

theorem canonical_of_known {u : Decoder} {K : List Bytes} {id : ID} {n : Nat}
    (h : Known u K id n) : IsCanonical id := by
  rcases h with ⟨c, _, hid, _⟩
  rw [← hid]
  exact fromBytes_canonical c

/-- No two of the configurations have the same digest. -/
def Distinct (K : List Bytes) : Prop :=
  ∀ c ∈ K, ∀ c' ∈ K, fromBytes c = fromBytes c' → c = c'

instance (K : List Bytes) : Decidable (Distinct K) :=
  inferInstanceAs (Decidable (∀ c ∈ K, ∀ c' ∈ K, fromBytes c = fromBytes c' → c = c'))

theorem known_unique {u : Decoder} {K : List Bytes} (hK : Distinct K) {id : ID} {m n : Nat}
    (hm : Known u K id m) (hn : Known u K id n) : m = n := by
  rcases hm with ⟨c, hc, hid, img, himg, hlen⟩
  rcases hn with ⟨c', hc', hid', img', himg', hlen'⟩
  have hcc := hK c hc c' hc' (by rw [hid, hid'])
  rw [hcc, himg'] at himg
  cases himg
  rw [← hlen, ← hlen']
section Invariant

variable {φ ψ η ρ : Type}

/-- The configurations that were created are among `K`. -/
def Within (K : List Bytes) (w : World φ ψ η ρ) : Prop := w.created ⊆ K

/-- The invariant: what is stored is among `K`, and the history of an image with
    a parent is one longer than that of the parent. -/
structure Ranked (u : Decoder) (v : FsView φ) (K : List Bytes) (w : World φ ψ η ρ) : Prop where
  fsOk : v.ok w.images.fs
  canonical : ∀ id m, w.images.store.images.lookup id = some m →
    Digest.IsCanonical id ∧ ∀ c ∈ m.children, Digest.IsCanonical c
  content : ∀ id c, v.content w.images.fs id = some c → c ∈ K
  links : ∀ id d, v.parentData w.images.fs id = some d →
    ∃ n, Known u K id (n + 1) ∧ Known u K (ofUtf8 d) n

/-- What a call does while the images stay ranked. -/
abbrev KeepsRank (ex : Exporter φ ψ η ρ) (v : FsView φ) (K : List Bytes) (P : Prop) {α : Type}
    (x : Call LoadError (World φ ψ η ρ) α) (Q : α → Prop) : Prop :=
  Call.Does (Within K) (Ranked ex.is.unmarshal v K) P x Q

theorem ranked_congr {u : Decoder} {v : FsView φ} {K : List Bytes} {w w' : World φ ψ η ρ}
    (h : Ranked u v K w) (hfs : w'.images.fs = w.images.fs)
    (hstore : w'.images.store.images = w.images.store.images) : Ranked u v K w' := by
  refine ⟨?_, ?_, ?_, ?_⟩
  · rw [hfs]
    exact h.fsOk
  · rw [hstore]
    exact h.canonical
  · rw [hfs]
    exact h.content
  · rw [hfs]
    exact h.links

theorem does_aside {u : Decoder} {v : FsView φ} {K : List Bytes} {α : Type} {P : Prop}
    {Q : α → Prop}
    {x : Call LoadError (World φ ψ η ρ) α}
    (hsame : ∀ w, (x w).2.created = w.created ∧ (x w).2.images.fs = w.images.fs ∧
      (x w).2.images.store.images = w.images.store.images)
    (hQ : ∀ w a, P → (x w).1 = .ok a → Q a) : Call.Does (Within K) (Ranked u v K) P x Q := by
  refine ⟨fun w h => ?_, fun w hP hI _ => ⟨?_, fun a ha => hQ w a hP ha⟩⟩
  · rw [Within, (hsame w).1] at h
    exact h
  · exact ranked_congr hI (hsame w).2.1 (hsame w).2.2

theorem onLayers_same {α : Type} (x : Call Fault ψ α) (w : World φ ψ η ρ) :
    (onLayers x w).2.created = w.created ∧ (onLayers x w).2.images.fs = w.images.fs ∧
      (onLayers x w).2.images.store.images = w.images.store.images := by
  unfold onLayers
  cases (x w.images.layers).1 with
  | error e | ok a => exact ⟨rfl, rfl, rfl⟩

theorem check_still {ω α : Type} (x : Except Fault α) (w : ω) : (check x w).2 = w := by
  cases x with
  | error e => rfl
  | ok a => rfl

theorem check_ok {ω α : Type} {x : Except Fault α} {w : ω} {a : α} (h : (check x w).1 = .ok a) :
    x = .ok a := by
  cases x with
  | error e => nomatch h
  | ok b => rw [ok.inj h]

end Invariant

section Calls

variable {φ ψ η ρ : Type} {ex : Exporter φ ψ η ρ} {v : FsView φ} {K : List Bytes} {P : Prop}

theorem does_layers {α : Type} {x : Call Fault ψ α} :
    KeepsRank ex v K P (onLayers x) (fun _ => P) :=
  does_aside (onLayers_same x) fun _ _ hP _ => hP

theorem does_check {α : Type} (x : Except Fault α) :
    KeepsRank ex v K P (check x) (fun a => P ∧ x = .ok a) :=
  does_of_still (check_still x) fun _ _ hP _ h => ⟨hP, check_ok h⟩

theorem does_given {α : Type} (x : Except LoadError α) :
    KeepsRank ex v K P (given x) (fun a => P ∧ x = .ok a) :=
  does_of_still (fun _ => rfl) fun _ _ hP _ h => ⟨hP, h⟩

theorem does_addTag (ref : Reference.Named) (id : ID) :
    KeepsRank ex v K P (addTag ex ref id) (fun _ => P) := by
  refine does_aside (fun w => ?_) fun _ _ hP _ => hP
  simp only [addTag]
  cases (Reference.addTag ex.codec ref id true (w.saves.headD true) w.refs).1 with
  | error e | ok a => exact ⟨rfl, rfl, rfl⟩

theorem does_hold (h : η) : KeepsRank ex v K P (hold h) (fun _ => P) :=
  does_aside (fun _ => ⟨rfl, rfl, rfl⟩) fun _ _ hP _ => hP

theorem create_created (config : Bytes) (w : World φ ψ η ρ) :
    (create ex config w).2.created = w.created ++ [config] := by
  simp only [create]
  rcases createSet ex.is config w.images.fs with ⟨r, fs'⟩
  rcases r with e | c
  · rfl
  simp only
  rcases createLocked ex.is c w.images.store w.images.layers with ⟨r, store, layers⟩
  cases r with
  | error e => rfl
  | ok a => rfl

theorem does_loadLayer (ar : Archive) (file : Str) (rootFS : RootFS) (src : Descriptor) :
    KeepsRank ex v K P (loadLayer ex ar file rootFS src) (fun _ => P) := by
  unfold loadLayer
  split
  · exact does_raise _
  · exact does_layers

variable (hfs : FsContract ex.is.fs v)
include hfs

theorem ranked_createSet {config : Bytes} (hK : config ∈ K) {w : World φ ψ η ρ}
    (hI : Ranked ex.is.unmarshal v K w) {r : Except Fault Pending} {fs' : φ}
    (h : createSet ex.is config w.images.fs = (r, fs')) (created : List Bytes) :
    Ranked ex.is.unmarshal v K
        { w with images := { w.images with fs := fs' }, created := created } ∧
      ∀ c, r = .ok c → c.imageID = fromBytes config := by
  cases r with
  | error e =>
    rcases createSet_error hfs hI.fsOk h with ⟨hok, hparents, hcontent⟩
    refine ⟨⟨hok, hI.canonical, ?_, ?_⟩, nofun⟩
    · rw [hcontent]
      exact hI.content
    · rw [hparents]
      exact hI.links
  | ok c =>
    -- The configuration is one of those that are given to `Create`.
    rcases createSet_ok hfs hI.fsOk h with ⟨_, _, _, _, rfl, hok, hparents, hcontent⟩
    refine ⟨⟨hok, hI.canonical, fun id c hc => ?_, ?_⟩, fun c hc => ?_⟩
    · rw [hcontent] at hc
      by_cases hself : id = fromBytes config
      · rw [hself, update_self, some.injEq] at hc
        exact hc ▸ hK
      · rw [update_of_ne hself] at hc
        exact hI.content id c hc
    · rw [hparents]
      exact hI.links
    · rw [← ok.inj hc]

theorem does_create (config : Bytes) :
    KeepsRank ex v K P (create ex config) (fun id => P ∧ config ∈ K ∧ id = fromBytes config) := by
  refine ⟨fun w h => ?_, fun w hP hI h => ?_⟩
  · rw [Within, create_created] at h
    exact fun c hc => h (mem_append_left _ hc)
  rw [Within, create_created] at h
  have hK : config ∈ K := h (mem_append_right _ mem_cons_self)
  simp only [create]
  rcases hset : createSet ex.is config w.images.fs with ⟨r, fs'⟩
  rcases ranked_createSet hfs hK hI hset (w.created ++ [config]) with ⟨hI', hid⟩
  rcases r with e | c
  · exact ⟨hI', nofun⟩
  have hc := hid c rfl
  have hcan : IsCanonical c.imageID := hc ▸ fromBytes_canonical config
  simp only
  rcases hlock : createLocked ex.is c w.images.store w.images.layers with ⟨r, store, layers⟩
  -- The lock is only passed by an image that is new or by one that is there.
  have hstore : ∀ id m, store.images.lookup id = some m →
      IsCanonical id ∧ ∀ x ∈ m.children, IsCanonical x := by
    rcases createLocked_cases ex.is (validate_canonical _ hcan) hlock with
      ⟨_, hs, _⟩ | ⟨_, hs, _⟩ | ⟨_, l, ds, _, _, hs⟩
    · rw [hs]
      exact hI.canonical
    · rw [hs]
      exact hI.canonical
    · rw [hs]
      intro id m hm
      rcases AMap.lookup_insert_cases hm with ⟨_, hold⟩ | ⟨rfl, rfl⟩
      · exact hI.canonical id m hold
      · exact ⟨hcan, nofun⟩
  rcases r with e | a
  · exact ⟨⟨hI'.fsOk, hstore, hI'.content, hI'.links⟩, nofun⟩
  refine ⟨⟨hI'.fsOk, hstore, hI'.content, hI'.links⟩, fun a ha => ⟨hP, hK, ?_⟩⟩
  rw [← ok.inj ha]
  exact hc

/-- `SetParent` of an image with a longer history than the parent. -/
theorem does_setParent (id parent : ID) :
    KeepsRank ex v K (∃ n, Known ex.is.unmarshal K id (n + 1) ∧ Known ex.is.unmarshal K parent n)
      (setParent ex id parent) (fun _ => True) := by
  have hend : ∀ w, (setParent ex id parent w).2 =
      { w with images := (Image.setParent ex.is id parent w.images).2 } := by
    intro w
    simp only [setParent]
    cases (Image.setParent ex.is id parent w.images).1 with
    | error e => rfl
    | ok a => rfl
  refine ⟨fun w h => ?_, fun w hP hI _ => ⟨?_, fun _ _ => trivial⟩⟩
  · rw [hend] at h
    exact h
  rw [hend]
  rcases hP with ⟨n, hid, hparent⟩
  rcases hset : Image.setParent ex.is id parent w.images with ⟨r, s'⟩
  rcases setParent_cases ex.is hset with hs | ⟨m, res, fs', _, hwrite, hs⟩
  · exact ranked_congr hI (congrArg Image.Sys.fs hs) (congrArg (fun s => s.store.images) hs)
  rw [hs]
  rcases hfs.setMetadata _ _ _ _ _ hI.fsOk hwrite with ⟨hok, hcontent, hdata⟩
  refine ⟨hok, fun q m' hm' => ?_, ?_, fun q d hd => ?_⟩
  · -- The keys are those there were, and the new child is the image itself.
    simp only [lookup_addChild, lookup_detach, Option.map_map, map_eq_some_iff] at hm'
    rcases hm' with ⟨m0, hm0, hm'⟩
    refine ⟨(hI.canonical q m0 hm0).1, fun c hc => ?_⟩
    have hold : c ∈ m0.children ∨ c = id := by
      rw [← hm'] at hc
      split at hc
      · rcases mem_insert_iff.mp hc with hc | hc
        · exact .inr hc
        · split at hc
          · exact .inl (mem_of_mem_filter hc)
          · exact .inl hc
      · split at hc
        · exact .inl (mem_of_mem_filter hc)
        · exact .inl hc
    rcases hold with hc | hc
    · exact (hI.canonical q m0 hm0).2 c hc
    · exact hc ▸ canonical_of_known hid
  · rw [hcontent]
    exact hI.content
  · rcases hdata with ⟨_, hdata⟩ | ⟨_, _, hdata⟩
    · rw [hdata] at hd
      exact hI.links q d hd
    rw [hdata] at hd
    by_cases hq : q = id
    · rw [hq, update_self] at hd
      cases hd
      rw [hq, ofUtf8_utf8]
      exact ⟨n, hid, hparent⟩
    · rw [update_of_ne hq] at hd
      exact hI.links q d hd

/-- An image that was created with one entry more than its parent is given the
    parent. -/
theorem does_adopt (config : Bytes) (history : List History) (h : History) {id parentID : ID}
    (hparent : P → parentID = [] ∨ Known ex.is.unmarshal K parentID history.length)
    (hconfig : P → config ∈ K ∧ id = fromBytes config ∧
      ∃ img, ex.is.unmarshal config = .ok img ∧ img.history.length = (history ++ [h]).length) :
    KeepsRank ex v K P (onlyIf (parentID ≠ []) (setParent ex id parentID)) (fun _ => True) := by
  refine does_onlyIf (does_mono (does_setParent hfs id parentID) ?_ fun _ _ _ => trivial)
  rintro ⟨hP, hne⟩
  rcases hparent hP with hnil | hknown
  · exact absurd hnil hne
  · rcases hconfig hP with ⟨hK, hid, img, himg, hlen⟩
    rw [length_append, length_singleton] at hlen
    exact ⟨history.length, ⟨config, hK, hid.symm, img, himg, hlen⟩, hknown⟩

variable (hframe : FsFrame ex.is.fs v)
include hframe

theorem does_getImage (id : ID) : KeepsRank ex v K P (getImage ex id)
      (fun r => P ∧ ∃ c ∈ K, fromBytes c = id ∧ ex.is.unmarshal c = .ok r.1) := by
  refine does_of_still (fun w => ?_) fun w r hP hI h => ⟨hP, ?_⟩
  · unfold getImage
    split
    · rfl
    · rfl
  -- What is stored under an ID is the configuration with that digest.
  unfold getImage Image.get at h
  rcases hget : ex.is.fs.get id w.images.fs with e | c
  · simp [hget] at h
  have hc := hframe.get _ _ _ hI.fsOk hget
  refine ⟨c, hI.content id c hc, hfs.digest _ _ _ hI.fsOk hc, ?_⟩
  rw [hget] at h
  unfold newFromJSON at h
  rcases himg : ex.is.unmarshal c with e | img
  · simp only [himg] at h
    nomatch h
  rcases hr : img.rootFS with _ | rfs
  · simp only [himg, hr] at h
    nomatch h
  simp only [himg, hr] at h
  cases hp : getParent ex.is id w.images.fs with
  | error e | ok =>
    simp only [hp, ok.injEq] at h
    rw [← h]

/-- What an image starts from is known of its parent. -/
theorem does_inherited (parentID : ID) : KeepsRank ex v K P (inherited ex parentID)
      (fun r => P ∧ (parentID = [] ∨ Known ex.is.unmarshal K parentID r.2.length)) := by
  unfold inherited
  split
  · next hnil => exact does_pure fun hP => ⟨hP, .inl hnil⟩
  refine does_bind (does_getImage hfs hframe parentID) fun r => ?_
  rcases r with ⟨img, rfs⟩
  refine does_pure ?_
  rintro ⟨hP, c, hc, hid, himg⟩
  exact ⟨hP, .inr ⟨c, hc, hid, img, himg, rfl⟩⟩

end Calls

section Load

variable {φ ψ η ρ : Type} {ex : Exporter φ ψ η ρ} {ar : Archive} {v : FsView φ} {K : List Bytes}
  {P : Prop}

/-- A configuration that is made from the JSON is read back with the history it
    was made with. -/
def ReadsBack (ex : Exporter φ ψ η ρ) (json : Bytes) : Prop :=
  ∀ r history config, ex.makeConfigFromV1Config json r history = .ok config →
    ∃ img, ex.is.unmarshal config = .ok img ∧ img.history.length = history.length

theorem does_getOrLoadLayer (m : ManifestItem) (file : Str) (rootFS : RootFS) (diffID : DiffID) :
    KeepsRank ex v K P (getOrLoadLayer ex ar m file rootFS diffID) (fun _ => P) := by
  refine does_bind (does_mono (does_observe does_layers) (fun h => h)
    (fun _ hP _ => hP)) fun r => ?_
  cases r with
  | ok l => exact does_pure fun h => h
  | error e => exact does_loadLayer ar file rootFS _

theorem does_loadLayers (m : ManifestItem) (layers : List (DiffID × Str)) :
    ∀ (i : Nat) (rootFS : RootFS), KeepsRank ex v K P (loadLayers ex ar m i layers rootFS)
      (fun _ => P) := by
  induction layers with
  | nil => exact fun _ _ => does_pure fun h => h
  | cons layer rest ih =>
    intro i rootFS
    rcases layer with ⟨diffID, path⟩
    refine does_bind (does_check _) fun file => ?_
    refine does_bind (does_getOrLoadLayer m file rootFS diffID) fun l => ?_
    refine does_bind (does_hold l) fun _ => ?_
    split
    · exact does_raise _
    · exact does_mono (ih (i + 1) _) And.left fun _ _ h => h

theorem does_setLoadedTag (ref : Reference.Named) (id : ID) :
    KeepsRank ex v K P (setLoadedTag ex ref id) (fun _ => P) :=
  does_bind (does_mono (does_observe (does_addTag ref id)) (fun h => h)
    (fun _ hP _ => hP)) fun _ => does_pure (fun h => h)

theorem does_loadTag (imgID : ID) (repoTag : Str) :
    KeepsRank ex v K P (loadTag ex imgID repoTag) (fun _ => True) := by
  unfold loadTag
  split
  · exact does_raise _
  · split
    · exact does_raise _
    · exact does_mono (does_setLoadedTag _ imgID) (fun h => h) fun _ _ _ => trivial

theorem does_legacyTags (ar : Archive) (loadedMap : AMap Str ID) :
    KeepsRank ex v K P (legacyTags ex ar loadedMap) (fun _ => True) := by
  refine does_bind (does_check _) fun file => ?_
  split
  · exact does_raise _
  · exact does_raise _
  · refine does_bind (does_check _) (fun repositories => ?_)
    refine does_forM fun r _ => does_forM (fun e _ => ?_)
    unfold legacyTag
    split
    · exact does_raise _
    split
    · exact does_raise _
    · split
      · exact does_raise _
      · exact does_mono (does_setLoadedTag _ _) (fun h => h) fun _ _ _ => trivial

/-- What is known of a link: its image is one of the archive, with the parent
    that the manifest says. -/
def Listed (ar : Archive) (K : List Bytes) (ms : List ManifestItem) (l : ParentLink) : Prop :=
  ∃ m ∈ ms, ∃ config ∈ K, readSafe ar m.config = .ok config ∧ l.id = fromBytes config ∧
    l.parentID = m.parent

theorem mem_validatedParentLinks {links : List ParentLink} {l : ParentLink}
    (h : l ∈ validatedParentLinks links) : l.parentID = [] ∨ l ∈ links := by
  rcases mem_map.mp h with ⟨p, hp, hl⟩
  split at hl
  · exact .inr (hl ▸ hp)
  · exact .inl (hl ▸ rfl)

/-- With a history, a valid parent has one entry less. -/
theorem length_of_checkValidParent {img parent : Image} (h : checkValidParent img parent = true)
    (hne : img.history ≠ []) : img.history.length = parent.history.length + 1 := by
  unfold checkValidParent at h
  have hlen : img.history.length ≠ 0 := fun h0 => hne (length_eq_zero_iff.mp h0)
  rw [if_neg (by simp [hlen])] at h
  by_cases heq : img.history.length = parent.history.length + 1
  · exact heq
  · simp [if_pos heq] at h

/-- The configuration is among `K` and its history is not empty. -/
def WithHistory (u : Decoder) (K : List Bytes) (id : ID) : Prop :=
  ∃ config ∈ K, fromBytes config = id ∧ ∀ img, u config = .ok img → img.history ≠ []

/-- The condition on a manifest: an image with a parent has a history. -/
def HasHistories (ex : Exporter φ ψ η ρ) (ar : Archive) (file : Str) : Prop :=
  ∀ content ms, ar.readFile file = .ok content → ex.decodeManifest content = .ok ms →
    ∀ m ∈ ms, m.parent ≠ [] → ∀ config img, readSafe ar m.config = .ok config →
      ex.is.unmarshal config = .ok img → img.history ≠ []

variable (hfs : FsContract ex.is.fs v)
include hfs

theorem does_loadItem (m : ManifestItem) :
    KeepsRank ex v K P (loadItem ex ar m) (fun l => P ∧ Listed ar K [m] l) := by
  refine does_bind (does_given _) fun config => ?_
  split
  · exact does_raise _
  split
  · exact does_raise _
  refine does_bind (does_loadLayers m _ 0 _) fun _ => ?_
  refine does_bind (does_create hfs config) fun imgID => ?_
  refine does_bind (does_mono (does_forM fun tag _ => does_loadTag imgID tag)
    (fun h => h) fun _ hP _ => hP) fun _ => does_pure ?_
  rintro ⟨⟨hP, hread⟩, hK, hid⟩
  exact ⟨hP, m, mem_cons_self, config, hK, hread, hid, rfl⟩

theorem does_loadItems (ms : List ManifestItem) :
    KeepsRank ex v K P (loadItems ex ar ms) (fun links => P ∧ ∀ l ∈ links, Listed ar K ms l) := by
  induction ms with
  | nil => exact does_pure fun hP => ⟨hP, nofun⟩
  | cons m ms ih =>
    refine does_bind (does_loadItem hfs m) fun link => ?_
    refine does_bind (does_mono ih And.left fun links hlink hlinks => And.intro hlink hlinks)
      (fun links => does_pure ?_)
    rintro ⟨⟨hP, m', hm', hlink⟩, _, hlinks⟩
    refine ⟨hP, fun l hl => ?_⟩
    rcases mem_cons.mp hl with rfl | hl
    · exact ⟨m', mem_cons.mpr (.inl (mem_singleton.mp hm')), hlink⟩
    · rcases hlinks l hl with ⟨m'', hm'', hl⟩
      exact ⟨m'', mem_cons_of_mem m hm'', hl⟩

variable (hframe : FsFrame ex.is.fs v)
include hframe

theorem does_legacyAddImage (ar : Archive) (oldID : Str) (json : Bytes) (parentID : ID) :
    KeepsRank ex v K (ReadsBack ex json) (legacyAddImage ex ar oldID json parentID)
      (fun _ => True) := by
  refine does_bind (does_inherited hfs hframe parentID) fun r => ?_
  rcases r with ⟨rootFS, history⟩
  refine does_bind (does_check _) fun file => ?_
  refine does_bind (does_loadLayer ar file rootFS .empty) fun newLayer => ?_
  refine does_bind (does_check _) fun h => ?_
  refine does_bind (does_check _) fun config => ?_
  refine does_bind (does_create hfs config) fun imgID => ?_
  refine does_bind does_layers fun _ => ?_
  refine does_bind (does_adopt hfs config history h ?_ ?_) fun _ => does_pure id
  · rintro ⟨⟨⟨⟨⟨_, hparent⟩, _⟩, _⟩, _⟩, _⟩
    exact hparent
  · rintro ⟨⟨⟨⟨⟨hreads, _⟩, _⟩, _⟩, hconfig⟩, hK, hid⟩
    exact ⟨hK, hid, hreads _ _ _ hconfig⟩

theorem does_setParentID (hK : Distinct K) (id parentID : ID) :
    KeepsRank ex v K (WithHistory ex.is.unmarshal K id) (setParentID ex id parentID)
      (fun _ => True) := by
  refine does_bind (does_getImage hfs hframe id) fun r => ?_
  rcases r with ⟨img, rfs⟩
  refine does_bind (does_getImage hfs hframe parentID) fun r => ?_
  rcases r with ⟨parent, rfs'⟩
  dsimp only
  split
  · next hvalid =>
    refine does_mono (does_setParent hfs id parentID) ?_ fun _ _ _ => trivial
    rintro ⟨⟨⟨config, hconfig, hdigest, hhistory⟩, c, hc, hid, himg⟩, c', hc', hid', himg'⟩
    -- What is stored is the configuration that was loaded.
    have hsame : config = c := hK config hconfig c hc (by rw [hdigest, hid])
    rw [hsame] at hhistory
    have hlen := length_of_checkValidParent hvalid (hhistory img himg)
    exact ⟨parent.history.length, ⟨c, hc, hid, img, himg, hlen⟩,
      ⟨c', hc', hid', parent, himg', rfl⟩⟩
  · exact does_raise _

theorem does_loadManifest (hK : Distinct K) {file : Str} (hhist : HasHistories ex ar file)
    {content : Bytes} (hfile : ar.readFile file = .ok content) :
    KeepsRank ex v K P (loadManifest ex ar content) (fun _ => True) := by
  refine does_bind (does_check _) fun ms => ?_
  refine does_bind (does_loadItems hfs ms) fun links => ?_
  refine does_forM fun l hl => ?_
  split
  · exact does_pure fun _ => trivial
  next hne =>
  refine does_mono (does_setParentID hfs hframe hK l.id l.parentID) ?_ fun _ _ _ => trivial
  rintro ⟨⟨_, hms⟩, hlinks⟩
  rcases mem_validatedParentLinks hl with hnil | hl
  · exact absurd hnil hne
  · rcases hlinks l hl with ⟨m, hm, config, hconfig, hread, hid, hparent⟩
    refine ⟨config, hconfig, hid.symm, fun img himg => ?_⟩
    exact hhist content ms hfile hms m hm (hparent ▸ hne) config img hread himg

end Load

section Leads

variable {φ ψ η ρ : Type} {u : Decoder} {v : FsView φ} {K : List Bytes}

/-- The second world comes from the first: it is in bounds only when the first
    is, and then the invariant is kept. -/
structure Leads (u : Decoder) (v : FsView φ) (K : List Bytes) (w w' : World φ ψ η ρ) : Prop where
  bounds : Within K w' → Within K w
  holds : Within K w' → Ranked u v K w → Ranked u v K w'

theorem leads_refl (w : World φ ψ η ρ) : Leads u v K w w := ⟨fun h => h, fun _ h => h⟩

theorem leads_trans {w w' w'' : World φ ψ η ρ} (h : Leads u v K w w') (h' : Leads u v K w' w'') :
    Leads u v K w w'' :=
  ⟨fun hb => h.bounds (h'.bounds hb), fun hb hI => h'.holds hb (h.holds (h'.bounds hb) hI)⟩

theorem leads_of_does {α : Type} {P : Prop} {Q : α → Prop} {x : Call LoadError (World φ ψ η ρ) α}
    (hx : Call.Does (Within K) (Ranked u v K) P x Q) (hP : P) (w : World φ ψ η ρ) :
    Leads u v K w (x w).2 :=
  ⟨hx.bounds w, fun hb hI => (hx.holds w hP hI hb).1⟩

theorem leads_of_same {w w' : World φ ψ η ρ} (hcreated : w'.created = w.created)
    (hfs : w'.images.fs = w.images.fs)
    (hstore : w'.images.store.images = w.images.store.images) : Leads u v K w w' := by
  refine ⟨fun h => ?_, fun _ hI => ranked_congr hI hfs hstore⟩
  rw [Within, hcreated] at h
  exact h

end Leads

section Legacy

variable {φ ψ η ρ : Type} {ex : Exporter φ ψ η ρ} {ar : Archive} {v : FsView φ} {K : List Bytes}

/-- The condition on a legacy archive. -/
def ReadsBackAll (ex : Exporter φ ψ η ρ) (ar : Archive) : Prop :=
  ∀ oldID json parent, readImageJSON ex ar oldID = .ok (json, parent) → ReadsBack ex json

/-- The condition on an archive, without a manifest or with one. -/
def InOrder (ex : Exporter φ ψ η ρ) (ar : Archive) : Prop :=
  ∀ file, ar.safePath manifestFileName = .ok file →
    (ar.readFile file = .error .notExist → ReadsBackAll ex ar) ∧ HasHistories ex ar file

theorem loadParent_leads
    {load : Str → Legacy φ ψ η ρ → Option (Except LoadError Unit × Legacy φ ψ η ρ)}
    {parent : Str} (hload : ∀ l r l', load parent l = some (r, l') →
      Leads ex.is.unmarshal v K l.world l'.world) (fuel : Nat) :
    ∀ (l : Legacy φ ψ η ρ) r l', loadParent load parent fuel l = some (r, l') →
      Leads ex.is.unmarshal v K l.world l'.world := by
  induction fuel with
  | zero => exact nofun
  | succ fuel ih =>
    intro l r l' h
    unfold loadParent at h
    split at h
    · cases h
      exact leads_refl _
    split at h
    · nomatch h
    · next e l1 hone =>
      rw [some.injEq, Prod.mk.injEq] at h
      rw [← h.2]
      exact hload l _ l1 hone
    · next l1 hone => exact leads_trans (hload l _ l1 hone) (ih l1 r l' h)

variable (hfs : FsContract ex.is.fs v) (hframe : FsFrame ex.is.fs v)
include hfs hframe

theorem afterParent_leads (ar : Archive) (oldID : Str) {json : Bytes} (hreads : ReadsBack ex json)
    (parentID : ID) (l : Legacy φ ψ η ρ) :
    Leads ex.is.unmarshal v K l.world (afterParent ex ar oldID json parentID l).2.world := by
  have hdoes := leads_of_does (K := K)
    (does_legacyAddImage hfs hframe ar oldID json parentID) hreads l.world
  unfold afterParent
  rcases hr : legacyAddImage ex ar oldID json parentID l.world with ⟨r, w⟩
  rw [hr] at hdoes
  cases r with
  | error e | ok => exact hdoes

variable (hreads : ReadsBackAll ex ar)
include hreads

theorem legacyLoadImage_leads (fuel : Nat) :
    ∀ (s : Str) (l : Legacy φ ψ η ρ) r l', legacyLoadImage ex ar fuel s l = some (r, l') →
      Leads ex.is.unmarshal v K l.world l'.world := by
  induction fuel with
  | zero => exact nofun
  | succ fuel ih =>
    intro s l r l' h
    cases hloaded : l.loadedMap.lookup s with
    | some id =>
      simp only [legacyLoadImage, hloaded] at h
      cases h
      exact leads_refl _
    | none =>
      cases hread : readImageJSON ex ar s with
      | error e =>
        simp only [legacyLoadImage, hloaded, hread] at h
        cases h
        exact leads_refl _
      | ok read =>
        rcases read with ⟨json, parent⟩
        simp only [legacyLoadImage, hloaded, hread] at h
        -- What the parent leaves behind.
        have hparent : ∀ rp lp, (if parent = [] then some (.ok [], l.enter s)
            else loadParent (legacyLoadImage ex ar fuel) parent fuel (l.enter s)) =
              some (rp, lp) → Leads ex.is.unmarshal v K l.world lp.world := by
          intro rp lp hp
          split at hp
          · cases hp
            exact leads_refl _
          · exact loadParent_leads (ih parent) fuel (l.enter s) rp lp hp
        generalize (if parent = [] then some (.ok [], l.enter s)
          else loadParent (legacyLoadImage ex ar fuel) parent fuel (l.enter s)) = o at h hparent
        split at h
        · nomatch h
        · next e lp =>
          cases h
          exact hparent _ _ rfl
        · next parentID lp =>
          rw [some.injEq] at h
          have hafter := afterParent_leads (K := K) hfs hframe ar s
            (hreads s json parent hread) parentID lp
          rw [h] at hafter
          exact leads_trans (hparent _ _ rfl) hafter

theorem legacyLoadImages_leads (fuel : Nat) (dirs : List Str) :
    ∀ (l : Legacy φ ψ η ρ) r l', legacyLoadImages ex ar fuel dirs l = some (r, l') →
      Leads ex.is.unmarshal v K l.world l'.world := by
  induction dirs with
  | nil =>
    intro l r l' h
    cases h
    exact leads_refl _
  | cons d ds ih =>
    intro l r l' h
    unfold legacyLoadImages at h
    split at h
    · nomatch h
    · next e l1 hone =>
      rw [some.injEq, Prod.mk.injEq] at h
      rw [← h.2]
      exact legacyLoadImage_leads hfs hframe hreads fuel d l _ l1 hone
    · next l1 hone =>
      exact leads_trans (legacyLoadImage_leads hfs hframe hreads fuel d l _ l1 hone) (ih l1 r l' h)

theorem legacyLoad_leads {fuel : Nat} {w : World φ ψ η ρ} {r : Except LoadError Unit}
    {l : Legacy φ ψ η ρ} (h : legacyLoad ex ar fuel w = some (r, l)) :
    Leads ex.is.unmarshal v K w l.world := by
  unfold legacyLoad at h
  split at h
  · cases h
    exact leads_refl _
  next dirs _ =>
  split at h
  · nomatch h
  · next e l1 hone =>
    rw [some.injEq, Prod.mk.injEq] at h
    rw [← h.2]
    exact legacyLoadImages_leads hfs hframe hreads fuel dirs _ _ l1 hone
  · next l1 hone =>
    cases h
    exact leads_trans (legacyLoadImages_leads hfs hframe hreads fuel dirs _ _ l1 hone)
      (leads_of_does (does_legacyTags (P := True) ar l1.loadedMap) trivial l1.world)

omit hreads in
theorem load_leads (horder : InOrder ex ar) (hK : Distinct K) {fuel : Nat}
    {w w' : World φ ψ η ρ} {r : Except LoadError Unit} (h : load ex ar fuel w = some (r, w')) :
    Leads ex.is.unmarshal v K w w' := by
  unfold load at h
  split at h
  · cases h
    exact leads_refl _
  next file hpath =>
  obtain ⟨hreads, hhist⟩ := horder file hpath
  split at h
  · next hfile =>
    rw [map_eq_some_iff] at h
    rcases h with ⟨⟨r', l⟩, hl, heq⟩
    cases heq
    exact legacyLoad_leads hfs hframe (hreads hfile) hl
  · cases h
    exact leads_refl _
  · next content hfile =>
    cases h
    have hload := leads_of_does
      (does_loadManifest (P := True) hfs hframe hK hhist hfile) trivial { w with held := [] }
    have hstart : Leads ex.is.unmarshal v K w { w with held := [] } := leads_of_same rfl rfl rfl
    exact leads_trans (leads_trans hstart hload) (leads_of_same rfl rfl rfl)

end Legacy

section Operations

variable {φ ψ η ρ : Type} {o : Origins φ ψ η ρ} {v : FsView φ} {K : List Bytes} {P : Prop}

/-- The condition on the images of an older daemon. -/
def GraphReadsBack (o : Origins φ ψ η ρ) (g : Graph) : Prop :=
  ∀ id json, g.json id = .ok json → ReadsBack o.toExporter json

/-- The condition on what a call reads. -/
def Readable (o : Origins φ ψ η ρ) : Action → Prop
  | .load ar _ => InOrder o.toExporter ar
  | .migrate g _ _ => GraphReadsBack o g
  | _ => True

/-- The condition on the calls: what they read is in order, and of the
    configurations that were created no two have the same digest. -/
def Grounded (o : Origins φ ψ η ρ) (w : World φ ψ η ρ) (a : Action) : Prop :=
  Readable o a ∧ ∀ r w', step o a w = .ok (r, w') → Distinct w'.created

theorem ranked_mono {u : Decoder} {K K' : List Bytes} (hsub : K ⊆ K') {w : World φ ψ η ρ}
    (h : Ranked u v K w) : Ranked u v K' w := by
  have hknown : ∀ {id n}, Known u K id n → Known u K' id n :=
    fun ⟨c, hc, hid⟩ => ⟨c, hsub hc, hid⟩
  refine ⟨h.fsOk, h.canonical, fun id c hc => hsub (h.content id c hc), fun id d hd => ?_⟩
  rcases h.links id d hd with ⟨n, hid, hparent⟩
  exact ⟨n, hknown hid, hknown hparent⟩

variable (hfs : FsContract o.is.fs v)
include hfs

theorem does_commitLayer (c : CommitRequest) (rootFS : RootFS) (history : List History) (l : η)
    (hparent : P → c.imageID = [] ∨ Known o.is.unmarshal K c.imageID history.length) :
    KeepsRank o.toExporter v K P (commitLayer o c rootFS history l) (fun _ => True) := by
  refine does_bind (does_check _) fun config => ?_
  refine does_bind (does_create hfs config) fun id => ?_
  refine does_bind (does_adopt hfs config history
    ⟨c.record, decide (o.diffID l = digestSHA256EmptyTar)⟩ ?_ ?_) fun _ => ?_
  · exact fun h => hparent h.1.1
  · rintro ⟨⟨_, hconfig⟩, hK, hid⟩
    rcases o.marshalImage_reads _ _ _ _ hconfig with ⟨img, himg, hhist⟩
    exact ⟨hK, hid, img, himg, congrArg List.length hhist⟩
  · split
    · exact does_pure fun h => h
    · refine does_bind (does_given _) (fun newTag => ?_)
      exact does_bind (does_addTag newTag id) fun _ => does_pure (fun _ => trivial)

variable (hframe : FsFrame o.is.fs v)
include hframe

theorem does_commit (c : CommitRequest) :
    KeepsRank o.toExporter v K P (commit o c) (fun _ => True) := by
  refine does_bind (does_inherited hfs hframe c.imageID) fun r => ?_
  rcases r with ⟨rootFS, history⟩
  refine does_bind does_layers fun l => ?_
  refine does_bind (does_observe (does_commitLayer hfs c rootFS history l And.right)) fun r => ?_
  refine does_bind (does_observe does_layers) fun _ => ?_
  exact does_mono (does_given r) (fun h => h) fun _ _ _ => trivial

theorem does_migrateBody (g : Graph) (id : Str) (parentID : ID) :
    KeepsRank o.toExporter v K (∀ json, g.json id = .ok json → ReadsBack o.toExporter json)
      (migrateBody o g id parentID) (fun _ => True) := by
  refine does_bind (does_inherited hfs hframe parentID) fun r => ?_
  rcases r with ⟨rootFS, history⟩
  refine does_bind (does_check _) fun diffID => ?_
  refine does_bind (does_check _) fun size => ?_
  refine does_bind does_layers fun layer => ?_
  refine does_bind (does_check _) fun json => ?_
  refine does_bind (does_check _) fun h => ?_
  refine does_bind (does_check _) fun config => ?_
  refine does_bind (does_create hfs config) fun strongID => ?_
  refine does_bind (does_adopt hfs config history h ?_ ?_) fun _ => ?_
  · rintro ⟨⟨⟨⟨⟨⟨⟨_, hparent⟩, _⟩, _⟩, _⟩, _⟩, _⟩, _⟩
    exact hparent
  · rintro ⟨⟨⟨⟨⟨⟨⟨hreads, _⟩, _⟩, _⟩, hjson⟩, _⟩, hconfig⟩, hK, hid⟩
    exact ⟨hK, hid, hreads json hjson _ _ _ hconfig⟩
  · exact does_bind does_layers fun _ => does_pure (fun h => h)

section Migration

variable {g : Graph} (hreads : GraphReadsBack o g)
include hreads

theorem afterMigration_leads (id : Str) (parentID : ID) (m : Migration φ ψ η ρ) :
    Leads o.is.unmarshal v K m.world (afterMigration o g id parentID m).2.world := by
  have hdoes := leads_of_does (K := K) (does_migrateBody hfs hframe g id parentID) (hreads id)
    m.world
  unfold afterMigration
  rcases hr : migrateBody o g id parentID m.world with ⟨r, w⟩
  rw [hr] at hdoes
  cases r with
  | error e | ok => exact hdoes

theorem migrateImage_leads (fuel : Nat) :
    ∀ (id : Str) (m : Migration φ ψ η ρ) r m', migrateImage o g fuel id m = some (r, m') →
      Leads o.is.unmarshal v K m.world m'.world := by
  induction fuel with
  | zero => exact nofun
  | succ fuel ih =>
    intro id m r m' h
    have hafter := fun parentID m => afterMigration_leads (K := K) hfs hframe hreads id parentID m
    unfold migrateImage at h
    split at h
    · cases h
      exact leads_refl _
    next parent _ =>
    split at h
    · rw [some.injEq] at h
      have := hafter [] m
      rw [h] at this
      exact this
    split at h
    · next parentID _ =>
      rw [some.injEq] at h
      have := hafter parentID m
      rw [h] at this
      exact this
    -- The parent is not migrated yet, and goes first.
    · split at h
      · nomatch h
      · next e m1 hone =>
        rw [some.injEq, Prod.mk.injEq] at h
        rw [← h.2]
        exact ih parent m _ m1 hone
      · next m1 hone =>
        rw [some.injEq] at h
        have hlast := hafter ((m1.mappings.lookup parent).getD []) m1
        rw [h] at hlast
        exact leads_trans (ih parent m _ m1 hone) hlast

theorem migrateImages_leads {fuel : Nat} {m m' : Migration φ ψ η ρ}
    (h : migrateImages o g fuel m = some m') : Leads o.is.unmarshal v K m.world m'.world := by
  unfold migrateImages at h
  split at h
  · cases h
    exact leads_refl _
  next dirs _ =>
  clear * - h hfs hframe hreads
  induction dirs generalizing m with
  | nil =>
    cases h
    exact leads_refl _
  | cons d ds ih =>
    unfold migrateLoop at h
    split at h
    · exact ih h
    split at h
    · nomatch h
    · next r m1 hone =>
      exact leads_trans (migrateImage_leads hfs hframe hreads fuel d m r m1 hone) (ih h)

end Migration

theorem delete_leads (id : ID) (order : Order) (w : World φ ψ η ρ) :
    Leads o.is.unmarshal v K w { w with images := (Image.delete o.is id order w.images).2 } := by
  refine ⟨fun h => h, fun _ hI => ?_⟩
  rcases hdel : Image.delete o.is id order w.images with ⟨r, s'⟩
  rcases delete_cases o.is hdel with ⟨_, hs⟩ | ⟨m, fs1, res, hm, hparents, hend⟩
  · exact ranked_congr hI (congrArg Image.Sys.fs hs) (congrArg (fun s => s.store.images) hs)
  have hchildren : ∀ c ∈ order.list m.children, IsCanonical c :=
    fun c hc => (hI.canonical id m hm).2 c ((order.perm _).mem_iff.mp hc)
  rcases deleteParents_frame hfs _ hI.fsOk hparents with ⟨hok1, hcontent1, hsub1⟩
  have hsub1 := hsub1 hchildren
  have hcontent : ∀ x c, v.content fs1 x = some c → c ∈ K := by
    rw [hcontent1]
    exact hI.content
  rcases hend with ⟨_, hs⟩ | ⟨_, hdeleted⟩
  · rw [hs]
    exact ⟨hok1, hI.canonical, hcontent, fun x d hd => hI.links x d (hsub1 x d hd)⟩
  rcases hdeleted.fs with ⟨res, hfsdel⟩
  have hcan := (hI.canonical id m hm).1
  rcases hfs.delete _ _ _ _ hok1 hcan hfsdel with ⟨hok, _, hothers, _⟩
  rcases hframe.delete _ _ _ _ hok1 hcan hfsdel with ⟨hself, hselfParent⟩
  -- The image itself may stay or go, and the others lose at most their parents.
  refine ⟨hok, fun q m' hm' => ?_, fun x c hc => ?_, fun x d hd => ?_⟩
  · have hq : q ≠ id := by
      intro hq
      rw [hdeleted.images, hq, AList.lookup_erase] at hm'
      nomatch hm'
    rw [hdeleted.images, AList.lookup_erase_ne hq, lookup_detach, map_eq_some_iff] at hm'
    rcases hm' with ⟨m0, hm0, hm'⟩
    refine ⟨(hI.canonical q m0 hm0).1, fun c hc => (hI.canonical q m0 hm0).2 c ?_⟩
    rw [← hm'] at hc
    split at hc
    · exact mem_of_mem_filter hc
    · exact hc
  · by_cases hx : x = id
    · rw [hx] at hc
      rcases hself with hself | hself
      · rw [hself] at hc
        exact hcontent id c hc
      · rw [hself] at hc
        nomatch hc
    · rw [(hothers x hx).1] at hc
      exact hcontent x c hc
  · by_cases hx : x = id
    · rw [hx] at hd ⊢
      rcases hselfParent with hself | hself
      · rw [hself] at hd
        exact hI.links id d (hsub1 id d hd)
      · rw [hself] at hd
        nomatch hd
    · rw [(hothers x hx).2] at hd
      exact hI.links x d (hsub1 x d hd)

theorem step_leads (hK : Distinct K) {a : Action} (ha : Readable o a) {w w' : World φ ψ η ρ}
    {r : Unit} (h : step o a w = .ok (r, w')) : Leads o.is.unmarshal v K w w' := by
  cases a with
  | load =>
    simp only [step] at h
    split at h
    · nomatch h
    · next r' w1 hload =>
      cases h
      exact load_leads hfs hframe ha hK hload
  | commit c =>
    cases h
    exact leads_of_does (does_commit (P := True) hfs hframe c) trivial w
  | migrate =>
    simp only [step] at h
    split at h
    · nomatch h
    · next m hm =>
      cases h
      exact migrateImages_leads hfs hframe ha hm
  | create config =>
    cases h
    exact leads_of_does (does_create (P := True) hfs config) trivial w
  | delete id order =>
    cases h
    exact delete_leads hfs hframe id order w

theorem step_ranked (a : Action) (w : World φ ψ η ρ) (r : Unit) (w' : World φ ψ η ρ)
    (hI : Ranked o.is.unmarshal v w.created w ∧ Distinct w.created) (hC : Grounded o w a)
    (h : step o a w = .ok (r, w')) :
    Ranked o.is.unmarshal v w'.created w' ∧ Distinct w'.created := by
  have hK := hC.2 r w' h
  have hleads := step_leads (K := w'.created) hfs hframe hK hC.1 h
  have hself : Within w'.created w' := fun c hc => hc
  exact ⟨hleads.holds hself (ranked_mono (hleads.bounds hself) hI.1), hK⟩

end Operations

section Acyclic

variable {φ ψ η ρ : Type} {o : Origins φ ψ η ρ} {v : FsView φ}

/-- `b` is the parent of `a`. -/
def ParentIs (o : Origins φ ψ η ρ) (w : World φ ψ η ρ) (a b : ID) : Prop :=
  getParent o.is a w.images.fs = .ok b

/-- The image that is reached by going to the parent `n` times. -/
def follow (o : Origins φ ψ η ρ) (w : World φ ψ η ρ) : Nat → ID → Option ID
  | 0, id => some id
  | n + 1, id =>
    match getParent o.is id w.images.fs with
    | .error _ => none
    | .ok parent => follow o w n parent

section Known

variable {K : List Bytes} {w : World φ ψ η ρ} (hfs : FsContract o.is.fs v)
  (hI : Ranked o.is.unmarshal v K w)
include hfs hI

theorem known_of_parentIs {a b : ID} (h : ParentIs o w a b) :
    ∃ n, Known o.is.unmarshal K a (n + 1) ∧ Known o.is.unmarshal K b n := by
  rcases (getParent_ok hfs hI.fsOk a b).mp h with ⟨_, d, hd, hb⟩
  rw [← hb]
  exact hI.links a d hd

/-- The history gets shorter on the way to an ancestor. -/
theorem ancestor_shorter (hK : Distinct K) {a b : ID} (h : Relation.TransGen (ParentIs o w) a b) :
    ∃ m n, Known o.is.unmarshal K a m ∧ Known o.is.unmarshal K b n ∧ n < m := by
  induction h with
  | single h =>
    rcases known_of_parentIs hfs hI h with ⟨n, ha, hb⟩
    exact ⟨n + 1, n, ha, hb, Nat.lt_succ_self n⟩
  | tail _ h ih =>
    rcases ih with ⟨m, n, ha, hb, hlt⟩
    rcases known_of_parentIs hfs hI h with ⟨k, hb', hc⟩
    have hn := known_unique hK hb hb'
    exact ⟨m, k, ha, hc, by omega⟩

theorem follow_ends (hK : Distinct K) (n : Nat) : ∀ id, Known o.is.unmarshal K id n →
      ∃ k a, follow o w k id = some a ∧ ∀ q, ¬ ParentIs o w a q := by
  induction n with
  | zero =>
    intro id hid
    refine ⟨0, id, rfl, fun q hq => ?_⟩
    rcases known_of_parentIs hfs hI hq with ⟨m, hid', _⟩
    exact absurd (known_unique hK hid hid') (Nat.succ_ne_zero m).symm
  | succ n ih =>
    intro id hid
    cases hp : getParent o.is id w.images.fs with
    | error e =>
      refine ⟨0, id, rfl, fun q hq => ?_⟩
      simp [ParentIs, hp] at hq
    | ok parent =>
      rcases known_of_parentIs hfs hI hp with ⟨m, hid', hparent⟩
      have hm : n = m := Nat.succ.inj (known_unique hK hid hid')
      rcases ih parent (hm ▸ hparent) with ⟨k, a, hk, ha⟩
      exact ⟨k + 1, a, by simp [follow, hp, hk], ha⟩

end Known

/-- Nothing is stored. -/
structure Fresh (v : FsView φ) (w : World φ ψ η ρ) : Prop where
  fsOk : v.ok w.images.fs
  store : w.images.store = .empty
  content : ∀ id, v.content w.images.fs id = none
  parentData : ∀ id, v.parentData w.images.fs id = none
  created : w.created = []

/-- From an empty store, and in every run of loads, commits, migrations,
    deletions and other creations whose calls are grounded, no image is its own
    ancestor, and going from parent to parent ends. -/
theorem run_acyclic (o : Origins φ ψ η ρ) (hframe : FsFrame o.is.fs v) (hfs : FsContract o.is.fs v)
    (w t : World φ ψ η ρ) (hfresh : Fresh v w) (as : List Action) (rs : List Unit)
    (hmeets : Meets (step o) (Grounded o) as w) (hrun : run (step o) as w = .ok (rs, t)) :
    (∀ id, ¬ Relation.TransGen (ParentIs o t) id id) ∧
      ∀ id, ∃ k a, follow o t k id = some a ∧ ∀ q, ¬ ParentIs o t a q := by
  have hstart : Ranked o.is.unmarshal v w.created w ∧ Distinct w.created := by
    refine ⟨⟨hfresh.fsOk, fun id m hm => ?_, fun id c hc => ?_, fun id d hd => ?_⟩, ?_⟩
    · rw [hfresh.store] at hm
      nomatch hm
    · simp [hfresh.content] at hc
    · simp [hfresh.parentData] at hd
    · rw [hfresh.created]
      exact nofun
  rcases run_invariant_of_meets (Grounded o)
    (fun w => Ranked o.is.unmarshal v w.created w ∧ Distinct w.created)
    (step_ranked hfs hframe) as w t rs hstart hmeets hrun with ⟨hI, hK⟩
  -- On a cycle the history would be shorter than itself.
  constructor
  · intro id hcycle
    rcases ancestor_shorter hfs hI hK hcycle with ⟨m, n, hm, hn, hlt⟩
    exact absurd (known_unique hK hm hn) (Nat.ne_of_gt hlt)
  intro id
  cases hp : getParent o.is id t.images.fs with
  | error e =>
    refine ⟨0, id, rfl, fun q hq => ?_⟩
    simp [ParentIs, hp] at hq
  | ok =>
    rcases known_of_parentIs hfs hI hp with ⟨n, hid, _⟩
    exact follow_ends hfs hI hK (n + 1) id hid

end Acyclic

/-- A manifest item without layers and tags. -/
def bareItem (config : Str) (parent : ID) : ManifestItem := ⟨config, [], [], parent, []⟩

/-- An archive with two images, whose configurations are the two byte strings. -/
def bareArchive (a b : Bytes) : Archive :=
  plainArchive [] [(manifestFileName, []), (['a'], a), (['b'], b)]

/-- Operations on archives where `b` is built on `a`. -/
def chainOrigins := plainOrigins [bareItem ['a'] [], bareItem ['b'] (fromBytes [1])]

theorem emptyFiles_content (c : ID) : (fsView []).content emptyFiles c = none := by
  by_cases hcan : IsCanonical c
  · rcases hcan with ⟨hx, hc, hhex⟩
    rw [hc, content_hex [] hhex]
    rfl
  · exact content_noncanonical [] hcan emptyFiles

theorem plain_readsBack (manifest : List ManifestItem) (json : Bytes) :
    ReadsBack (plainExporter manifest) json := by
  intro r history config h
  rw [← ok.inj h]
  exact ⟨_, rfl, by rw [length_map, length_map]⟩

theorem chain_hasHistories (file : Str) :
    HasHistories chainOrigins.toExporter (bareArchive [1] [1, 7]) file := by
  intro content ms _ hms m hm hne config img hread himg
  rw [← ok.inj hms] at hm
  rcases mem_cons.mp hm with rfl | hm
  · exact absurd rfl hne
  rw [mem_singleton.mp hm] at hread
  rw [← ok.inj hread] at himg
  rw [← ok.inj himg]
  exact cons_ne_nil _ _

/-- Loading it, and deleting the image the other one is built on. -/
def loadAndDelete : List Action :=
  [.load (bareArchive [1] [1, 7]) 0, .delete (fromBytes [1]) idOrder]

theorem loadAndDelete_grounded : Meets (step chainOrigins) (Grounded chainOrigins) loadAndDelete
    plainWorld := by
  have hcreated : ∀ r w', step chainOrigins (.load (bareArchive [1] [1, 7]) 0) plainWorld =
      .ok (r, w') → w'.created = [[1], [1, 7]] := by
    have hsome : (step chainOrigins (.load (bareArchive [1] [1, 7]) 0) plainWorld).toOption.map
        (fun out => out.2.created) = some [[1], [1, 7]] := by decide +kernel
    intro r w' h
    rw [h] at hsome
    exact some.inj hsome
  have hdistinct : Distinct [[1], [1, 7]] := by decide +kernel
  refine ⟨⟨fun file _ => ⟨fun _ _ json _ _ => plain_readsBack _ json, chain_hasHistories file⟩,
    fun r w' h => ?_⟩,
    fun r w' h => ⟨⟨trivial, fun r' w'' h' => ?_⟩, fun _ _ _ => trivial⟩⟩
  · rw [hcreated r w' h]
    exact hdistinct
  simp only [step] at h'
  cases h'
  rw [hcreated r w' h]
  exact hdistinct

theorem run_acyclic_two : ∃ rs t, run (step chainOrigins) loadAndDelete plainWorld = .ok (rs, t) ∧
    (∀ id, ¬ Relation.TransGen (ParentIs chainOrigins t) id id) ∧
      ∀ id, ∃ k a, follow chainOrigins t k id = some a ∧ ∀ q, ¬ ParentIs chainOrigins t a q := by
  have hok : (run (step chainOrigins) loadAndDelete plainWorld).isOk = true := by decide +kernel
  rcases exists_run hok with ⟨rs, t, hrun⟩
  have hfresh : Fresh (fsView []) plainWorld :=
    ⟨emptyFiles_ok, rfl, emptyFiles_content, emptyFiles_parentData, rfl⟩
  exact ⟨rs, t, hrun, run_acyclic chainOrigins fs_frame (fs_contract not_mem_nil) plainWorld t
    hfresh loadAndDelete rs loadAndDelete_grounded hrun⟩

/-- Operations on archives whose two images name each other. -/
def crossOrigins :=
  plainOrigins [bareItem ['a'] (fromBytes [2]), bareItem ['b'] (fromBytes [1])]

/-- Two images without history are loaded as each other's parents. -/
theorem each_other_parent : ∃ rs t,
    run (step crossOrigins) [.load (bareArchive [1] [2]) 0] plainWorld = .ok (rs, t) ∧
      Relation.TransGen (ParentIs crossOrigins t) (Digest.fromBytes [1])
      (Digest.fromBytes [1]) := by
  have hok : (run (step crossOrigins) [.load (bareArchive [1] [2]) 0] plainWorld).isOk = true := by
    decide +kernel
  rcases exists_run hok with ⟨rs, t, hrun⟩
  have hparents : (run (step crossOrigins) [.load (bareArchive [1] [2]) 0] plainWorld).toOption.map
      (fun out => ((getParent crossOrigins.is (fromBytes [1]) out.2.images.fs).toOption,
        (getParent crossOrigins.is (fromBytes [2]) out.2.images.fs).toOption)) =
      some (some (fromBytes [2]), some (fromBytes [1])) := by
    decide +kernel
  rw [hrun] at hparents
  have hboth := Prod.mk.inj (Option.some.inj hparents)
  have hof : ∀ {x : Except Fault ID} {id : ID}, x.toOption = some id → x = .ok id := by
    intro x id hx
    cases x with
    | error e => nomatch hx
    | ok a => rw [Option.some.inj hx]
  exact ⟨rs, t, hrun, .tail (.single (hof hboth.1)) (hof hboth.2)⟩

end Dao.TarExport
