import Dao.Theory.Image.Cases
import Dao.Theory.Image.Files
import Dao.Theory.Layer.Safety

/-!
# Coherence of the Image Store

Every image of the store has its configuration in the backend, is in the
digest set, and holds one layer reference of its own, in every interleaving
in which no `Delete` of an image runs while a `Create` of the same image waits
for the lock.

The invariant speaks of the calls that wait as well: a `Create` between its
write and its lock relies on the configuration it wrote, which is why the
condition is about exactly these calls. A second condition is a fact about the
hash: a configuration whose digest is already stored is the stored one.

References are accounted for both ways. Each image with a layer has a handle
that no other image and nobody else has, and every handle that was not held
when the store was made belongs to an image, so that none leaks.

## Theorems

* `step_coherent`: A step keeps the invariant.
* `run_coherent`: It holds in every run.
* `deleted_under_create`: A `Delete` in between breaks it.
-/

namespace Dao.Image

open Lib Layer Digest Function List Option Except

section Invariant

variable {φ ψ η : Type} (p : Ports φ ψ η) (v : FsView φ) (lv : LayerView ψ η)

/-- The image has a configuration, and its root filesystem is this one. -/
def HasConfig (fs : φ) (id : ID) (rfs : RootFS) : Prop :=
  ∃ config img, v.content fs id = some config ∧ p.unmarshal config = .ok img ∧ img.rootFS = some rfs

/-- The layer field is empty for an empty chain, and a handle on any other. -/
def Retains (lw : ψ) (l : Option η) (c : ChainID) : Prop :=
  (c = [] ∧ l = none) ∨ (c ≠ [] ∧ ∃ h, l = some h ∧ lv.held lw h c)

/-- The invariant, `foreign` being the handles held by others. -/
structure Coherent (foreign : η → ChainID → Prop) (s : Sys φ ψ η) : Prop where
  fsOk : v.ok s.fs
  layersOk : lv.ok s.layers
  image : ∀ id l, layerOf s.store.images id = some l →
    ∃ rfs, HasConfig p v s.fs id rfs ∧ Retains lv s.layers l rfs.chainID
  listed : ∀ id l, layerOf s.store.images id = some l → s.store.digestSet.mem id
  pending : ∀ x ∈ s.pending, ∃ rfs, HasConfig p v s.fs x.imageID rfs ∧ x.layerID = rfs.chainID
  distinct : ∀ id id' h, layerOf s.store.images id = some (some h) →
    layerOf s.store.images id' = some (some h) → id = id'
  others : ∀ h c, foreign h c → lv.held s.layers h c
  own : ∀ id h, layerOf s.store.images id = some (some h) → ∀ c, ¬ foreign h c
  owned : ∀ h c, lv.held s.layers h c →
    foreign h c ∨ ∃ id, layerOf s.store.images id = some (some h)

/-- The condition on the steps: no `Delete` of an image while a `Create` of it
    waits for the lock, and no `Create` of a configuration that collides with
    a stored one. -/
def Unraced (s : Sys φ ψ η) : Action → Prop
  | .create config =>
    ∀ c, p.fs.get (fromBytes config) s.fs = .ok c → c = config
  | .delete id _ => ∀ x ∈ s.pending, x.imageID ≠ id
  | _ => True

instance decidableUnraced (s : Sys φ ψ η) : (a : Action) → Decidable (Unraced p s a)
  | .create config =>
    match h : p.fs.get (fromBytes config) s.fs with
    | .error _ => isTrue fun c hc => by simp [h] at hc
    | .ok c => decidable_of_iff (c = config)
        ⟨fun heq c' hc => by rw [h, Except.ok.injEq] at hc; exact hc.symm.trans heq,
          fun hC => hC c h⟩
  | .createLocked _ => isTrue trivial
  | .delete id _ => inferInstanceAs (Decidable (∀ x ∈ s.pending, x.imageID ≠ id))
  | .setParent _ _ => isTrue trivial

end Invariant

section Steps

variable {φ ψ η : Type} {p : Ports φ ψ η} {v : FsView φ} {lv : LayerView ψ η}
  {foreign : η → ChainID → Prop} {s s' : Sys φ ψ η}

theorem hasConfig_congr {fs fs' : φ} {id : ID} {rfs : RootFS}
    (h : v.content fs' id = v.content fs id) (hc : HasConfig p v fs id rfs) :
    HasConfig p v fs' id rfs := by
  rcases hc with ⟨config, img, hcontent, hrest⟩
  exact ⟨config, img, h.trans hcontent, hrest⟩

theorem coherent_congr (h : Coherent p v lv foreign s) (hok : v.ok s'.fs)
    (hcontent : v.content s'.fs = v.content s.fs)
    (himages : ∀ id, layerOf s'.store.images id = layerOf s.store.images id)
    (hdigest : s'.store.digestSet = s.store.digestSet) (hlayers : s'.layers = s.layers)
    (hpending : s'.pending = s.pending) : Coherent p v lv foreign s' := by
  have hconf : ∀ id rfs, HasConfig p v s'.fs id rfs = HasConfig p v s.fs id rfs := by
    intro id rfs
    unfold HasConfig
    rw [hcontent]
  rcases h with ⟨_, hlayersOk, himage, hlisted, hpend, hdistinct, hothers, hown, howned⟩
  simp only [← hconf, ← hlayers, ← himages, ← hdigest, ← hpending] at *
  exact ⟨hok, hlayersOk, himage, hlisted, hpend, hdistinct, hothers, hown, howned⟩

theorem coherent_layers (h : Coherent p v lv foreign s) {lw : ψ} (hok : lv.ok lw)
    (hheld : ∀ k d, lv.held lw k d ↔ lv.held s.layers k d) :
    Coherent p v lv foreign { s with layers := lw } := by
  refine { h with
    layersOk := hok, image := fun id l hl => ?_
    others := fun k c hk => (hheld k c).mpr (h.others k c hk)
    owned := fun k c hk => h.owned k c ((hheld k c).mp hk) }
  rcases h.image id l hl with ⟨rfs, hc, hret⟩
  refine ⟨rfs, hc, ?_⟩
  rcases hret with hnone | ⟨hne, k, hl, hk⟩
  · exact .inl hnone
  · exact .inr ⟨hne, k, hl, (hheld k _).mpr hk⟩

theorem coherent_insert (hls : LayerContract p.ls lv) (h : Coherent p v lv foreign s) {id : ID}
    {rfs : RootFS} {l : Option η} {lw : ψ} {digestSet : DigestSet}
    (hnone : s.store.images.lookup id = none) (hconf : HasConfig p v s.fs id rfs)
    (htake : takeLayer p rfs.chainID s.layers = (.ok l, lw))
    (hadd : s.store.digestSet.add id = .ok digestSet) :
    Coherent p v lv foreign { s with
      store := ⟨s.store.images.insert id ⟨l, []⟩, digestSet⟩, layers := lw } := by
  have hfresh : layerOf s.store.images id = none := by rw [layerOf, hnone, map_none]
  -- What taking the layer has done.
  have hlw : lv.ok lw ∧ Retains lv lw l rfs.chainID ∧
      (∀ k d, lv.held lw k d ↔ lv.held s.layers k d ∨ l = some k ∧ d = rfs.chainID) ∧
      ∀ k, l = some k → ∀ d, ¬ lv.held s.layers k d := by
    rcases takeLayer_cases p htake with ⟨hc, hl, hlw⟩ | ⟨hc, ⟨e, he, _⟩ | ⟨k, hk, hget⟩⟩
    · cases hl
      rw [hlw]
      refine ⟨h.layersOk, .inl ⟨hc, rfl⟩, fun k d => ?_, fun k hk => ?_⟩
      · simp
      · cases hk
    · cases he
    · cases hk
      rcases hls.get_ok _ _ _ _ h.layersOk hget with ⟨hok, _, _, hnew, hheld⟩
      refine ⟨hok, .inr ⟨hc, k, rfl, (hheld k _).mpr (.inr ⟨rfl, rfl⟩)⟩, fun k' d => ?_,
        fun k' hk' => ?_⟩
      · rw [hheld, some.injEq, eq_comm (a := k)]
      · cases hk'
        exact hnew
  rcases hlw with ⟨hok, hret, hheld, hnew⟩
  have hlayer : ∀ q x, layerOf (s.store.images.insert id ⟨l, []⟩) q = some x →
      (q = id ∧ x = l) ∨ (q ≠ id ∧ layerOf s.store.images q = some x) := by
    intro q x hx
    rw [layerOf_insert] at hx
    by_cases hq : q = id
    · rw [hq, update_self] at hx
      cases hx
      exact .inl ⟨hq, rfl⟩
    · rw [update_of_ne hq] at hx
      exact .inr ⟨hq, hx⟩
  -- A handle of an older image is held already, so it is not the new one.
  have hold : ∀ q k, layerOf s.store.images q = some (some k) → l ≠ some k := by
    intro q k hq hlk
    rcases h.image q _ hq with ⟨r, _, ⟨_, hn⟩ | ⟨_, k', hk', hheld'⟩⟩
    · cases hn
    · rw [some.injEq] at hk'
      rw [← hk'] at hheld'
      exact hnew k hlk _ hheld'
  refine ⟨h.fsOk, hok, fun q x hx => ?_, fun q x hx => ?_, h.pending, fun q q' k hq hq' => ?_,
    fun k c hk => (hheld k c).mpr (.inl (h.others k c hk)), fun q k hq c hc => ?_,
    fun k c hk => ?_⟩
  · rcases hlayer q x hx with ⟨hq, hxl⟩ | ⟨_, hx⟩
    · rw [hq, hxl]
      exact ⟨rfs, hconf, hret⟩
    rcases h.image q x hx with ⟨r, hr, hret'⟩
    refine ⟨r, hr, ?_⟩
    rcases hret' with hn | ⟨hne, k, hk, hheld'⟩
    · exact .inl hn
    · exact .inr ⟨hne, k, hk, (hheld k _).mpr (.inl hheld')⟩
  · rw [DigestSet.mem_add_iff hadd]
    rcases hlayer q x hx with ⟨hq, _⟩ | ⟨_, hx⟩
    · exact .inl hq
    · exact .inr (h.listed q x hx)
  · rcases hlayer q _ hq with ⟨hqid, hl⟩ | ⟨_, hq⟩
    · rcases hlayer q' _ hq' with ⟨hqid', _⟩ | ⟨_, hq'⟩
      · rw [hqid, hqid']
      · exact absurd hl.symm (hold q' k hq')
    · rcases hlayer q' _ hq' with ⟨_, hl⟩ | ⟨_, hq'⟩
      · exact absurd hl.symm (hold q k hq)
      · exact h.distinct q q' k hq hq'
  · rcases hlayer q _ hq with ⟨_, hl⟩ | ⟨_, hq⟩
    · exact hnew k hl.symm c (h.others k c hc)
    · exact h.own q k hq c hc
  · rcases (hheld k c).mp hk with hk | ⟨hk, _⟩
    · rcases h.owned k c hk with hf | ⟨q, hq⟩
      · exact .inl hf
      refine .inr ⟨q, ?_⟩
      have hne : q ≠ id := by
        intro hc
        simp [hc, hfresh] at hq
      rw [layerOf_insert, update_of_ne hne]
      exact hq
    · refine .inr ⟨id, ?_⟩
      rw [layerOf_insert, update_self, hk]

variable (hfs : FsContract p.fs v)
include hfs

theorem canonical_of_hasConfig {fs : φ} (hok : v.ok fs) {id : ID} {rfs : RootFS}
    (h : HasConfig p v fs id rfs) : IsCanonical id := by
  rcases h with ⟨config, img, hcontent, _⟩
  rw [← hfs.digest _ _ _ hok hcontent]
  exact fromBytes_canonical config

theorem createSet_error {config : Bytes} {fs fs' : φ} {e : Fault} (hok : v.ok fs)
    (h : createSet p config fs = (.error e, fs')) :
    v.ok fs' ∧ v.parentData fs' = v.parentData fs ∧ v.content fs' = v.content fs := by
  rcases createSet_cases p h with ⟨_, hfs'⟩ | ⟨img, rfs, _, _, ⟨_, _, hwrite⟩ | ⟨_, hid, _⟩⟩
  · rw [hfs']
    exact ⟨hok, rfl, rfl⟩
  · rcases hfs.set _ _ _ _ hok hwrite with ⟨hok', hdata, ⟨_, hcontent⟩ | ⟨hid, _⟩⟩
    · exact ⟨hok', hdata, hcontent⟩
    · nomatch hid
  · nomatch hid

theorem createSet_ok {config : Bytes} {fs fs' : φ} {c : Pending} (hok : v.ok fs)
    (h : createSet p config fs = (.ok c, fs')) :
    ∃ img rfs, p.unmarshal config = .ok img ∧ img.rootFS = some rfs ∧
      c = ⟨fromBytes config, rfs.chainID⟩ ∧ v.ok fs' ∧ v.parentData fs' = v.parentData fs ∧
      v.content fs' = update (v.content fs) (fromBytes config) (some config) := by
  rcases createSet_cases p h with
    ⟨⟨_, he⟩, _⟩ | ⟨img, rfs, himg, hrfs, ⟨_, he, _⟩ | ⟨id, hc, hwrite⟩⟩
  · nomatch he
  · nomatch he
  · rcases hfs.set _ _ _ _ hok hwrite with ⟨hok', hdata, ⟨⟨_, he⟩, _⟩ | ⟨hid, hcontent⟩⟩
    · nomatch he
    · rw [ok.injEq] at hc hid
      rw [hid] at hc
      exact ⟨img, rfs, himg, hrfs, hc, hok', hdata, hcontent⟩

/-- The loop of `Delete` over the children takes parents away and nothing else. -/
theorem deleteParents_frame (ids : List ID) :
    ∀ {fs fs' : φ} {r : Except Fault Unit}, v.ok fs → deleteParents p ids fs = (r, fs') →
      v.ok fs' ∧ v.content fs' = v.content fs ∧ ((∀ id ∈ ids, IsCanonical id) →
        ∀ id d, v.parentData fs' id = some d → v.parentData fs id = some d) := by
  induction ids with
  | nil =>
    intro fs fs' r hok h
    cases h
    exact ⟨hok, rfl, fun _ _ _ hd => hd⟩
  | cons id ids ih =>
    intro fs fs' r hok h
    simp only [deleteParents] at h
    rcases hdel : p.fs.deleteMetadata id parentKey fs with ⟨res, fs1⟩
    rcases hfs.deleteMetadata _ _ _ _ hok hdel with ⟨hok1, hcontent, hdata⟩
    -- A removal takes away the parent of its own image or none.
    have hsub : (∀ x ∈ id :: ids, IsCanonical x) →
        ∀ x d, v.parentData fs1 x = some d → v.parentData fs x = some d := by
      intro hcan x d hd
      rcases (hdata (hcan id mem_cons_self)).2 with ⟨_, hdata⟩ | ⟨_, hdata⟩
      · rw [hdata] at hd
        exact hd
      rw [hdata] at hd
      by_cases hx : x = id
      · simp [hx, update_self] at hd
      · rw [update_of_ne hx] at hd
        exact hd
    rw [hdel] at h
    split at h
    · next heq =>
      rw [Prod.mk.injEq] at h heq
      rw [← h.2, ← heq.2]
      exact ⟨hok1, hcontent, hsub⟩
    · next heq =>
      rw [Prod.mk.injEq] at heq
      rw [← heq.2] at h
      rcases ih hok1 h with ⟨hok', hcontent', hsub'⟩
      refine ⟨hok', hcontent'.trans hcontent, fun hcan x d hd => hsub hcan x d ?_⟩
      exact hsub' (forall_mem_cons.mp hcan).2 x d hd

theorem coherent_written (h : Coherent p v lv foreign s) {config : Bytes} {c : Pending} {fs' : φ}
    (hC : Unraced p s (.create config)) (hset : createSet p config s.fs = (.ok c, fs')) :
    Coherent p v lv foreign { s with fs := fs', pending := s.pending ++ [c] } := by
  rcases createSet_ok hfs h.fsOk hset with ⟨img, rfs, himg, hrfs, rfl, hok, _, hcontent⟩
  -- The write overwrites a configuration by itself, if at all.
  have hconf : ∀ q r, HasConfig p v s.fs q r → HasConfig p v fs' q r := by
    intro q r hq
    by_cases hqid : q = fromBytes config
    · rcases hq with ⟨c, img', hc, hrest⟩
      rw [hqid] at hc ⊢
      have hsame : c = config := hC c (hfs.get_ok _ _ _ h.fsOk hc)
      rw [hsame] at hrest
      exact ⟨config, img', by rw [hcontent, update_self], hrest⟩
    · refine hasConfig_congr ?_ hq
      rw [hcontent, update_of_ne hqid]
  refine { h with fsOk := hok, image := fun q l hl => ?_, pending := fun x hx => ?_ }
  · rcases h.image q l hl with ⟨r, hr, hret⟩
    exact ⟨r, hconf q r hr, hret⟩
  rcases mem_append.mp hx with hx | hx
  · rcases h.pending x hx with ⟨r, hr, hret⟩
    exact ⟨r, hconf _ r hr, hret⟩
  · rw [mem_singleton.mp hx]
    exact ⟨rfs, ⟨config, img, by rw [hcontent, update_self], himg, hrfs⟩, rfl⟩

variable (hls : LayerContract p.ls lv)
include hls

theorem coherent_deleted (h : Coherent p v lv foreign s) {id : ID} {m : ImageMeta η} {fs1 : φ}
    (hm : s.store.images.lookup id = some m) (hok1 : v.ok fs1)
    (hcontent1 : v.content fs1 = v.content s.fs) (hrace : ∀ x ∈ s.pending, x.imageID ≠ id)
    (hdel : Deleted p id m fs1 s s') : Coherent p v lv foreign s' := by
  have hl : layerOf s.store.images id = some m.layer := layerOf_eq_some.mpr ⟨m, hm, rfl⟩
  rcases h.image id _ hl with ⟨rfs, hconf, hret⟩
  have hcan := canonical_of_hasConfig hfs h.fsOk hconf
  rcases hdel.fs with ⟨res, hres⟩
  rcases hfs.delete _ _ _ _ hok1 hcan hres with ⟨hok', hnopanic, hframe, _⟩
  have hcontent : ∀ x, x ≠ id → v.content s'.fs x = v.content s.fs x :=
    fun x hx => (hframe x hx).1.trans (congrFun hcontent1 x)
  have himages : ∀ q x, layerOf s'.store.images q = some x →
      q ≠ id ∧ layerOf s.store.images q = some x := by
    intro q x hx
    rw [hdel.images, layerOf_erase] at hx
    by_cases hq : q = id
    · simp [hq, update_self] at hx
    · rw [update_of_ne hq, layerOf_detach] at hx
      exact ⟨hq, hx⟩
  -- The release takes the handle of the image away, and no other.
  have hlayers : lv.ok s'.layers ∧
      ∀ k d, lv.held s'.layers k d ↔ lv.held s.layers k d ∧ m.layer ≠ some k := by
    have hrel : s'.layers = (releaseImage p m.layer s.layers).2 := by
      rcases hdel.layers with ⟨⟨fs2, hpanic⟩, _⟩ | hrel
      · rw [hres, Prod.mk.injEq] at hpanic
        exact absurd hpanic.1 hnopanic
      · exact hrel
    rw [hrel]
    rcases hret with ⟨_, hnone⟩ | ⟨_, k, hk, hheld⟩
    · rw [hnone]
      refine ⟨h.layersOk, fun k d => ?_⟩
      simp [releaseImage]
    rw [hk]
    rcases hr : p.ls.release k s.layers with ⟨r, lw⟩
    rcases hls.release _ _ _ _ _ h.layersOk hheld hr with ⟨hok, _, hiff⟩
    have hlw : (releaseImage p (some k) s.layers).2 = lw := by
      rw [releaseImage, hr]
      cases r with
      | error e => rfl
      | ok => rfl
    rw [hlw]
    refine ⟨hok, fun k' d => ?_⟩
    rw [hiff, ne_eq, ne_eq, some.injEq, eq_comm (a := k)]
  refine ⟨hok', hlayers.1, fun q x hx => ?_, fun q x hx => ?_, fun x hx => ?_,
    fun q q' k hq hq' => ?_, fun k c hk => ?_, fun q k hq => ?_, fun k c hk => ?_⟩
  · rcases himages q x hx with ⟨hq, hx⟩
    rcases h.image q x hx with ⟨r, hr, hret'⟩
    refine ⟨r, hasConfig_congr (hcontent q hq) hr, ?_⟩
    rcases hret' with hn | ⟨hne, k, hk, hheld⟩
    · exact .inl hn
    refine .inr ⟨hne, k, hk, (hlayers.2 k _).mpr ⟨hheld, fun hc => hq ?_⟩⟩
    rw [hk] at hx
    rw [hc] at hl
    exact h.distinct q id k hx hl
  · rcases himages q x hx with ⟨hq, hx⟩
    rw [hdel.digestSet, forget]
    cases hrem : s.store.digestSet.remove id with
    | error e => exact h.listed q x hx
    | ok => exact DigestSet.mem_remove hrem (h.listed q x hx) hq
  · rw [hdel.pending] at hx
    rcases h.pending x hx with ⟨r, hr, hc⟩
    exact ⟨r, hasConfig_congr (hcontent _ (hrace x hx)) hr, hc⟩
  · exact h.distinct q q' k (himages q _ hq).2 (himages q' _ hq').2
  · refine (hlayers.2 k c).mpr ⟨h.others k c hk, fun hc => ?_⟩
    rw [hc] at hl
    exact h.own id k hl c hk
  · exact h.own q k (himages q _ hq).2
  · rcases (hlayers.2 k c).mp hk with ⟨hk, hne⟩
    rcases h.owned k c hk with hf | ⟨q, hq⟩
    · exact .inl hf
    have hqid : q ≠ id := by
      intro hc
      rw [hc, hl, some.injEq] at hq
      exact hne hq
    refine .inr ⟨q, ?_⟩
    rw [hdel.images, layerOf_erase, update_of_ne hqid, layerOf_detach]
    exact hq

theorem step_coherent (a : Action) (s : Sys φ ψ η) (r : Option Answer) (s' : Sys φ ψ η)
    (h : Coherent p v lv foreign s) (hC : Unraced p s a) (hstep : step p a s = .ok (r, s')) :
    Coherent p v lv foreign s' := by
  cases step_cases p hstep with
  | rejected config e fs' hset hs =>
    rw [hs]
    rcases createSet_error hfs h.fsOk hset with ⟨hok, _, hcontent⟩
    exact coherent_congr h hok hcontent (fun _ => rfl) rfl rfl rfl
  | written config c fs' hset hs =>
    rw [hs]
    exact coherent_written hfs h hC hset
  | nothing i _ hs =>
    rw [hs]
    exact h
  | locked i c res store layers hc hlock hs =>
    rw [hs]
    have hmem : c ∈ s.pending := mem_of_getElem? hc
    rcases h.pending c hmem with ⟨rfs, hconf, hchain⟩
    have hval := validate_canonical _ (canonical_of_hasConfig hfs h.fsOk hconf)
    -- Fewer calls wait for the lock afterwards.
    have hrest : ∀ {t : Sys φ ψ η}, Coherent p v lv foreign t → t.pending = s.pending →
        Coherent p v lv foreign { t with pending := s.pending.eraseIdx i } := by
      intro t ht hpend
      refine { ht with pending := fun x hx => ht.pending x ?_ }
      rw [hpend]
      exact mem_of_mem_eraseIdx hx
    rcases createLocked_cases p hval hlock with
      ⟨_, hstore, hlw⟩ | ⟨_, hstore, e, htake⟩ | ⟨hnone, l, digestSet, htake, hadd, hstore⟩
    · rw [hstore, hlw]
      exact hrest h rfl
    · rw [hstore]
      rcases takeLayer_cases p htake with ⟨_, he, _⟩ | ⟨_, ⟨_, _, hget⟩ | ⟨_, he, _⟩⟩
      · nomatch he
      · rcases hls.get_error _ _ _ _ h.layersOk hget with ⟨hok, _, _, hheld⟩
        exact hrest (coherent_layers h hok hheld) rfl
      · nomatch he
    · rw [hstore]
      rw [hchain] at htake
      exact hrest (coherent_insert hls h hnone hconf htake hadd) rfl
  | delete id order res hdel =>
    rcases delete_cases p hdel with ⟨_, hs⟩ | ⟨m, fs1, res1, hm, hparents, hend⟩
    · rw [hs]
      exact h
    rcases deleteParents_frame hfs _ h.fsOk hparents with ⟨hok1, hcontent1, _⟩
    rcases hend with ⟨_, hs⟩ | ⟨_, hdeleted⟩
    · rw [hs]
      exact coherent_congr h hok1 hcontent1 (fun _ => rfl) rfl rfl rfl
    · exact coherent_deleted hfs hls h hm hok1 hcontent1 hC hdeleted
  | setParent id parent res hset =>
    rcases setParent_cases p hset with hs | ⟨m, res1, fs', _, hwrite, hs⟩
    · rw [hs]
      exact h
    rw [hs]
    rcases hfs.setMetadata _ _ _ _ _ h.fsOk hwrite with ⟨hok, hcontent, _⟩
    refine coherent_congr h hok hcontent (fun q => ?_) rfl rfl rfl
    rw [layerOf_addChild, layerOf_detach]

end Steps

section Restore

variable {φ ψ η : Type} {p : Ports φ ψ η} {v : FsView φ} {lv : LayerView ψ η}

theorem layerOf_fillChildren (fs : φ) (ids : List ID) (q : ID) : ∀ images : AMap ID (ImageMeta η),
      layerOf (fillChildren p fs ids images) q = layerOf images q := by
  induction ids with
  | nil => exact fun _ => rfl
  | cons id ids ih =>
    intro images
    rw [fillChildren, foldl_cons, ← fillChildren, ih]
    cases getParent p id fs with
    | error e => rfl
    | ok parent => exact layerOf_addChild images id q parent

variable (hfs : FsContract p.fs v)
include hfs

theorem get_cases {fs : φ} (hok : v.ok fs) {id : ID} (hval : validate id = .ok ()) :
    ((∀ rfs, ¬ HasConfig p v fs id rfs) ∧ ∃ msg, get p id fs = .error (.error msg)) ∨
      ∃ img rfs parent, HasConfig p v fs id rfs ∧ get p id fs = .ok (img, rfs, parent) := by
  unfold get
  rcases hcontent : v.content fs id with _ | config
  · rcases hfs.get_error _ _ hok hcontent hval with ⟨msg, hget⟩
    refine .inl ⟨?_, msg, by rw [hget]⟩
    rintro rfs ⟨config, img, hc, _⟩
    simp [hcontent] at hc
  rw [hfs.get_ok _ _ _ hok hcontent]
  simp only
  unfold newFromJSON
  have hno : ∀ rfs, HasConfig p v fs id rfs →
      ∃ img, p.unmarshal config = .ok img ∧ img.rootFS = some rfs := by
    rintro rfs ⟨c, img, hc, himg, hrfs⟩
    rw [hcontent] at hc
    cases hc
    exact ⟨img, himg, hrfs⟩
  rcases himg : p.unmarshal config with e | img
  · refine .inl ⟨fun rfs hrfs => ?_, e, rfl⟩
    rcases hno rfs hrfs with ⟨img, hc, _⟩
    simp [himg] at hc
  simp only
  cases hrfs : img.rootFS with
  | none =>
    refine .inl ⟨fun rfs hc => ?_, _, rfl⟩
    rcases hno rfs hc with ⟨img', himg', hrfs'⟩
    rw [himg, ok.injEq] at himg'
    simp [himg', hrfs'] at hrfs
  | some rfs =>
    have hconf : HasConfig p v fs id rfs := ⟨config, img, hcontent, himg, hrfs⟩
    -- A parent that cannot be read is taken for none.
    cases getParent p id fs with
    | error e => exact .inr ⟨img, rfs, [], hconf, rfl⟩
    | ok parent => exact .inr ⟨img, rfs, parent, hconf, rfl⟩

/-- The function `restore` walks with leaves out an image it cannot read,
    fails on a layer, or enters the image. -/
theorem restoreImage_cases {fs : φ} (hok : v.ok fs) {id : ID} (hval : validate id = .ok ())
    {is : Store η} {lw lw' : ψ} {r : Except Fault (Store η)}
    (h : restoreImage p id is fs lw = (r, lw')) :
    ((∀ rfs, ¬ HasConfig p v fs id rfs) ∧ r = .ok is ∧ lw' = lw) ∨ ∃ rfs, HasConfig p v fs id rfs ∧
        ((∃ e, r = .error e ∧ takeLayer p rfs.chainID lw = (.error e, lw')) ∨
          ∃ l digestSet, takeLayer p rfs.chainID lw = (.ok l, lw') ∧
            is.digestSet.add id = .ok digestSet ∧
            r = .ok ⟨is.images.insert id ⟨l, []⟩, digestSet⟩) := by
  unfold restoreImage at h
  rcases get_cases hfs hok hval with ⟨hno, msg, hget⟩ | ⟨img, rfs, parent, hconf, hget⟩
  · rw [hget] at h
    cases h
    exact .inl ⟨hno, rfl, rfl⟩
  rw [hget] at h
  simp only at h
  refine .inr ⟨rfs, hconf, ?_⟩
  rcases htake : takeLayer p rfs.chainID lw with ⟨res, lw1⟩
  rw [htake] at h
  cases res with
  | error e =>
    cases h
    exact .inl ⟨e, rfl, rfl⟩
  | ok l =>
    -- The ID is one of the walk, so the digest set takes it.
    rcases DigestSet.add_of_validate is.digestSet hval with ⟨ds, hds⟩
    simp only [hds] at h
    cases h
    exact .inr ⟨l, ds, rfl, hds, rfl⟩

variable (hls : LayerContract p.ls lv)
include hls

/-- The walk of `restore` enters images that are coherent. The walk meets each
    ID once, so no image is entered over another. -/
theorem restoreImages_coherent {foreign : η → ChainID → Prop} {fs : φ} :
    ∀ (ids : List ID) (is is' : Store η) (lw lw' : ψ),
    ids.Nodup → (∀ id ∈ ids, validate id = .ok ()) →
    (∀ id ∈ ids, is.images.lookup id = none) → Coherent p v lv foreign ⟨is, fs, lw, []⟩ →
    restoreImages p fs ids is lw = (.ok is', lw') →
    Coherent p v lv foreign ⟨is', fs, lw', []⟩ := by
  intro ids
  induction ids with
  | nil =>
    intro is is' lw lw' _ _ _ h hres
    cases hres
    exact h
  | cons id ids ih =>
    intro is is' lw lw' hnodup hval hnone h hres
    rcases nodup_cons.mp hnodup with ⟨hnot, hnodup⟩
    simp only [restoreImages] at hres
    rcases hone : restoreImage p id is fs lw with ⟨r, lw1⟩
    rw [hone] at hres
    rcases restoreImage_cases hfs h.fsOk (hval id mem_cons_self) hone with
      ⟨_, hr, hlw⟩ | ⟨rfs, hconf, ⟨e, hr, _⟩ | ⟨l, ds, htake, hadd, hr⟩⟩
    · rw [hr] at hres
      rw [hlw] at hres
      exact ih is is' lw lw' hnodup (forall_mem_cons.mp hval).2 (forall_mem_cons.mp hnone).2 h hres
    · simp [hr] at hres
    -- The IDs that are left are different from this one and still not entered.
    · rw [hr] at hres
      refine ih _ is' lw1 lw' hnodup (forall_mem_cons.mp hval).2 (fun x hx => ?_)
        (coherent_insert hls h (hnone id mem_cons_self) hconf htake hadd) hres
      have hne : x ≠ id := fun hc => hnot (hc ▸ hx)
      rw [AList.lookup_insert_ne hne]
      exact hnone x (mem_cons_of_mem _ hx)

theorem newImageStore_coherent {order : Order} {fs : φ} {lw lw' : ψ} {is : Store η} (hok : v.ok fs)
    (hlok : lv.ok lw) (h : newImageStore p order fs lw = (.ok is, lw')) :
    Coherent p v lv (lv.held lw) ⟨is, fs, lw', []⟩ := by
  rcases hfs.walk fs hok with ⟨ids, hwalk, hnodup, hval, _⟩
  have hempty : ∀ id, layerOf (Store.empty : Store η).images id = none := fun _ => rfl
  -- The walk starts from no images, and everything that is held is foreign.
  have hstart : Coherent p v lv (lv.held lw) ⟨.empty, fs, lw, []⟩ := by
    refine ⟨hok, hlok, fun id l hl => ?_, fun id l hl => ?_, fun x hx => ?_,
      fun id _ k hk => ?_, fun _ _ hk => hk, fun id k hk => ?_, fun _ _ hk => .inl hk⟩
    · simp [hempty] at hl
    · simp [hempty] at hl
    · nomatch hx
    · simp [hempty] at hk
    · simp [hempty] at hk
  unfold newImageStore at h
  rw [hwalk] at h
  simp only at h
  rcases hres : restoreImages p fs ids .empty lw with ⟨r, lw1⟩
  rw [hres] at h
  rcases r with e | is1
  · nomatch h
  simp only [Prod.mk.injEq, ok.injEq] at h
  rw [← h.1, ← h.2]
  have hcoh := restoreImages_coherent hfs hls ids .empty is1 lw lw1 hnodup hval
    (fun _ _ => rfl) hstart hres
  exact coherent_congr hcoh hok rfl (fun q => layerOf_fillChildren fs _ q is1.images) rfl rfl rfl

end Restore

section Runs

variable {φ ψ η : Type} {p : Ports φ ψ η} {v : FsView φ} {lv : LayerView ψ η}

/-- The image has no layer for an empty chain, and for any other a handle that
    is held on the chain and is nobody else's. -/
def OneReference (lv : LayerView ψ η) (foreign : η → ChainID → Prop) (s : Sys φ ψ η) (id : ID)
    (m : ImageMeta η) (c : ChainID) : Prop :=
  (c = [] → m.layer = none) ∧ (c ≠ [] → ∃ h, m.layer = some h ∧ lv.held s.layers h c ∧
    (∀ d, ¬ foreign h d) ∧
    ∀ id' m', s.store.images.lookup id' = some m' → m'.layer = some h → id' = id)

theorem oneReference_of_coherent {foreign : η → ChainID → Prop} {s : Sys φ ψ η}
    (h : Coherent p v lv foreign s) {id : ID} {m : ImageMeta η}
    (hm : s.store.images.lookup id = some m) {c : ChainID} (hret : Retains lv s.layers m.layer c) :
    OneReference lv foreign s id m c := by
  have hl : layerOf s.store.images id = some m.layer := layerOf_eq_some.mpr ⟨m, hm, rfl⟩
  rcases hret with ⟨hc, hnone⟩ | ⟨hc, k, hk, hheld⟩
  · exact ⟨fun _ => hnone, fun hne => absurd hc hne⟩
  rw [hk] at hl
  refine ⟨fun hc' => absurd hc' hc, fun _ => ⟨k, hk, hheld, h.own id k hl, ?_⟩⟩
  intro id' m' hm' hk'
  exact h.distinct id' id k (layerOf_eq_some.mpr ⟨m', hm', hk'⟩) hl

/-- In every interleaving in which no `Delete` of an image runs while a
    `Create` of it waits for the lock, every image of every state reached has
    its configuration, is in the digest set and holds one layer reference, and
    no reference leaks. -/
theorem run_coherent (hfs : FsContract p.fs v) (hls : LayerContract p.ls lv) (order : Order)
    (fs : φ) (lw lw' : ψ) (is : Store η) (hok : v.ok fs) (hlok : lv.ok lw)
    (hnew : newImageStore p order fs lw = (.ok is, lw')) (as : List Action)
    (hmeets : Meets (step p) (Unraced p) as ⟨is, fs, lw', []⟩) (rs : List (Option Answer))
    (s : Sys φ ψ η) (hrun : run (step p) as ⟨is, fs, lw', []⟩ = .ok (rs, s)) :
    (∀ id m, s.store.images.lookup id = some m → ∃ config img rfs,
      p.fs.get id s.fs = .ok config ∧ newFromJSON p.unmarshal config = .ok (img, rfs) ∧
      s.store.digestSet.mem id ∧ OneReference lv (lv.held lw) s id m rfs.chainID) ∧
    ∀ h c, lv.held s.layers h c →
      lv.held lw h c ∨ ∃ id m, s.store.images.lookup id = some m ∧ m.layer = some h := by
  have h : Coherent p v lv (lv.held lw) s :=
    run_invariant_of_meets (Unraced p) (Coherent p v lv (lv.held lw)) (step_coherent hfs hls)
      as _ s rs (newImageStore_coherent hfs hls hok hlok hnew) hmeets hrun
  refine ⟨fun id m hm => ?_, fun k c hk => ?_⟩
  · have hl : layerOf s.store.images id = some m.layer := layerOf_eq_some.mpr ⟨m, hm, rfl⟩
    rcases h.image id _ hl with ⟨rfs, ⟨config, img, hcontent, himg, hrfs⟩, hret⟩
    refine ⟨config, img, rfs, hfs.get_ok _ _ _ h.fsOk hcontent, ?_, h.listed id _ hl,
      oneReference_of_coherent h hm hret⟩
    simp [newFromJSON, himg, hrfs]
  · rcases h.owned k c hk with hf | ⟨id, hid⟩
    · exact .inl hf
    · exact .inr ⟨id, layerOf_eq_some.mp hid⟩

end Runs

theorem accounted_aLayerStore : Accounted aLayerStore (fun _ => 0) :=
  accounted_register rfl rfl accounted_empty (fun _ hp => by
    simp only [aLayer, RoLayer.parent, reduceCtorEq] at hp)

theorem newImageStore_idSys :
    newImageStore idPorts idOrder idSys.fs idSys.layers = (.ok idSys.store, idSys.layers) := rfl

theorem emptyFiles_ok : (fsView []).ok emptyFiles := ⟨_, rfl⟩

/-- Two images over one layer, the first of which is deleted again while
    another `Create` waits. -/
def createTwo : List Action :=
  [.create [1], .createLocked 0, .create [2], .delete (fromBytes [1]) idOrder, .createLocked 0]

theorem run_coherent_two : ∃ rs s, run (step idPorts) createTwo idSys = .ok (rs, s) ∧
    (∀ id m, s.store.images.lookup id = some m → ∃ config img rfs,
      idPorts.fs.get id s.fs = .ok config ∧
      newFromJSON idPorts.unmarshal config = .ok (img, rfs) ∧ s.store.digestSet.mem id ∧
      OneReference (layerStoreView _) ((layerStoreView _).held idSys.layers) s id m rfs.chainID) ∧
    ∀ h c, (layerStoreView _).held s.layers h c → (layerStoreView _).held idSys.layers h c ∨
      ∃ id m, s.store.images.lookup id = some m ∧ m.layer = some h := by
  have hok : (run (step idPorts) createTwo idSys).isOk = true := by decide +kernel
  have hmeets : Meets (step idPorts) (Unraced idPorts) createTwo idSys := by decide +kernel
  have hlayers : (layerStoreView _).ok idSys.layers := ⟨_, accounted_aLayerStore⟩
  rcases exists_run hok with ⟨rs, s, hrun⟩
  exact ⟨rs, s, hrun, run_coherent (fs_contract List.not_mem_nil) (layerStore_contract idBackend)
    idOrder idSys.fs idSys.layers idSys.layers idSys.store emptyFiles_ok hlayers
    newImageStore_idSys createTwo hmeets rs s hrun⟩

/-- A `Delete` between the write of a `Create` and its lock: the image is in
    the store and its configuration is not in the backend. -/
theorem deleted_under_create : (run (step idPorts) [.create [1], .createLocked 0, .create [1],
      .delete (fromBytes [1]) idOrder, .createLocked 0] idSys).toOption.map (fun out =>
        ((out.2.store.images.lookup (fromBytes [1])).isSome,
          (idPorts.fs.get (fromBytes [1]) out.2.fs).isOk)) = some (true, false) := by
  decide +kernel

end Dao.Image
