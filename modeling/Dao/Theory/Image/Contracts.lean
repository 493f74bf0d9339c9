import Dao.Core.Image.Store
import Dao.Theory.Layer.Interleaving

/-!
# What the Image Store Relies On

The contracts of the two interfaces of the image store, each in terms of a
few observations of the world behind it, and the proof that the layer store
keeps its own.

Of the layers the image store needs to know which chains there are, and which
handles are held on which chain. A handle that `Get` returns is new and is
held until it is released, whether the release reports an error or not, and
releasing one handle takes no other away.

Of the file backend it needs the configuration of every image and what is
stored as its parent. The second is observed without the first: metadata
without a configuration cannot be read, but it is there when the
configuration comes back. A write that fails leaves all observations as they
were, except that a failed `Delete` may have removed the metadata already.

## Theorems

* `layerStore_contract`: The layer store keeps its contract.
-/

namespace Dao.Image

open Lib Layer Finset

/-- What can be observed of the layers: that the world is sound, the chains
    there are, and the handles held on them. -/
structure LayerView (ψ η : Type) where
  ok : ψ → Prop
  has : ψ → ChainID → Prop
  held : ψ → η → ChainID → Prop

/-- The contract of a `LayerGetReleaser`. -/
structure LayerContract {ψ η : Type} (ls : LayerGetReleaser ψ η) (v : LayerView ψ η) : Prop where
  held_has : ∀ w h c, v.ok w → v.held w h c → v.has w c
  get_ok : ∀ w w' c h, v.ok w → ls.get c w = (.ok h, w') →
    v.ok w' ∧ v.has w c ∧ (∀ d, v.has w' d ↔ v.has w d) ∧ (∀ d, ¬ v.held w h d) ∧
      ∀ k d, v.held w' k d ↔ v.held w k d ∨ k = h ∧ d = c
  get_error : ∀ w w' c e, v.ok w → ls.get c w = (.error e, w') →
    v.ok w' ∧ ¬ v.has w c ∧ (∀ d, v.has w' d ↔ v.has w d) ∧ ∀ k d, v.held w' k d ↔ v.held w k d
  release : ∀ w w' h c r, v.ok w → v.held w h c → ls.release h w = (r, w') →
    v.ok w' ∧ (∀ d, v.has w' d → v.has w d) ∧ ∀ k d, v.held w' k d ↔ v.held w k d ∧ k ≠ h

/-- What can be observed of the files: that the world is sound, the
    configuration of an image, and what is stored as its parent. -/
structure FsView (φ : Type) where
  ok : φ → Prop
  content : φ → ID → Option Bytes
  parentData : φ → ID → Option Bytes

/-- The contract of a `StoreBackend`, whose reads do not fail for reasons of
    their own. -/
structure FsContract {φ : Type} (b : StoreBackend φ) (v : FsView φ) : Prop where
  digest : ∀ w id c, v.ok w → v.content w id = some c → Digest.fromBytes c = id
  walk : ∀ w, v.ok w → ∃ ids, b.walk w = .ok ids ∧ ids.Nodup ∧
    (∀ id ∈ ids, Digest.validate id = .ok ()) ∧ ∀ id c, v.content w id = some c → id ∈ ids
  get_ok : ∀ w id c, v.ok w → v.content w id = some c → b.get id w = .ok c
  get_error : ∀ w id, v.ok w → v.content w id = none → Digest.validate id = .ok () →
    ∃ msg, b.get id w = .error (.error msg)
  getMetadata : ∀ w id d, v.ok w → (b.getMetadata id parentKey w = .ok d ↔
    (v.content w id).isSome = true ∧ v.parentData w id = some d)
  getMetadata_error : ∀ w id, v.ok w → Digest.IsCanonical id →
    b.getMetadata id parentKey w ≠ .error .panic
  set : ∀ w w' data r, v.ok w → b.set data w = (r, w') →
    v.ok w' ∧ v.parentData w' = v.parentData w ∧ ((∃ e, r = .error e) ∧ v.content w' = v.content w ∨
        r = .ok (Digest.fromBytes data) ∧
          v.content w' = Function.update (v.content w) (Digest.fromBytes data) (some data))
  delete : ∀ w w' id r, v.ok w → Digest.IsCanonical id → b.delete id w = (r, w') →
    v.ok w' ∧ r ≠ .error .panic ∧
      (∀ x, x ≠ id → v.content w' x = v.content w x ∧ v.parentData w' x = v.parentData w x) ∧
      (r = .ok () → v.content w' id = none ∧ v.parentData w' id = none)
  setMetadata : ∀ w w' id data r, v.ok w → b.setMetadata id parentKey data w = (r, w') →
    v.ok w' ∧ v.content w' = v.content w ∧ ((∃ e, r = .error e) ∧ v.parentData w' = v.parentData w ∨
        r = .ok () ∧ (v.content w id).isSome = true ∧
          v.parentData w' = Function.update (v.parentData w) id (some data))
  deleteMetadata : ∀ w w' id r, v.ok w → b.deleteMetadata id parentKey w = (r, w') →
    v.ok w' ∧ v.content w' = v.content w ∧ (Digest.IsCanonical id → r ≠ .error .panic ∧
      ((∃ e, r = .error e) ∧ v.parentData w' = v.parentData w ∨
        r = .ok () ∧ v.parentData w' = Function.update (v.parentData w) id none))

/-- What a backend does not do: a configuration that is read is there, and a
    deletion that fails leaves of the image what was there or nothing. -/
structure FsFrame {φ : Type} (b : StoreBackend φ) (v : FsView φ) : Prop where
  get : ∀ w id c, v.ok w → b.get id w = .ok c → v.content w id = some c
  delete : ∀ w w' id r, v.ok w → Digest.IsCanonical id → b.delete id w = (r, w') →
    (v.content w' id = v.content w id ∨ v.content w' id = none) ∧
      (v.parentData w' id = v.parentData w id ∨ v.parentData w' id = none)

section LayerStore

variable {ω τ : Type} (b : Backend ω τ)

/-- Every set of references is the same, and a layer that has one is still in
    the map. -/
structure KeepsHandles (ls ls' : LayerStore) : Prop where
  references : ∀ q, (ls'.cells q).references = (ls.cells q).references
  layers : ∀ c k, ls.layerMap.lookup c = some k → (ls.cells k.ptr).references ≠ ∅ →
    ls'.layerMap.lookup c = some k

theorem keepsHandles_trans {a b c : LayerStore} (h1 : KeepsHandles a b) (h2 : KeepsHandles b c) :
    KeepsHandles a c := by
  refine ⟨fun q => (h2.references q).trans (h1.references q), fun d k hk href => ?_⟩
  refine h2.layers d k (h1.layers d k hk href) ?_
  rw [h1.references]
  exact href

theorem keepsHandles_lower (ls : LayerStore) (q n : Nat) :
    KeepsHandles ls (ls.setCell q { ls.cells q with referenceCount := n }) := by
  refine ⟨fun r => ?_, fun c k hk _ => hk⟩
  by_cases hr : r = q
  · rw [hr, update_self_cell]
  · rw [update_other_cell _ _ _ _ hr]

variable {l : RoLayer}

theorem keepsHandles_erase {ls : LayerStore} (hl : InMap ls l)
    (hempty : ¬ (ls.cells l.ptr).references.Nonempty) :
    KeepsHandles ls { ls with layerMap := ls.layerMap.erase l.chainID } := by
  refine ⟨fun _ => rfl, fun c k hk href => ?_⟩
  have hc : c ≠ l.chainID := by
    intro hc
    rw [InMap, ← hc, hk, Option.some.injEq] at hl
    rw [hl] at href
    exact hempty (nonempty_iff_ne_empty.mpr href)
  rw [AList.lookup_erase_ne hc]
  exact hk

/-- A round of the release loop keeps the handles: it deletes only a layer
    without any. -/
theorem releaseOne_keeps {depth : Nat} {removed : List Metadata}
    {ls : LayerStore} {w : ω} {r : Round ω} (hl : InMap ls l)
    (h : releaseOne b depth removed l ls w = .ok r) :
    (∀ res ls' w', r = .done res ls' w' → KeepsHandles ls ls') ∧
      ∀ removed' ls' w', r = .next removed' ls' w' → KeepsHandles ls ls' := by
  have hdown := keepsHandles_lower ls l.ptr ((ls.cells l.ptr).referenceCount - 1)
  unfold releaseOne at h
  by_cases hzero : (ls.cells l.ptr).referenceCount = 0
  · simp [if_pos hzero] at h
  rw [if_neg hzero] at h
  by_cases hmore : (ls.cells l.ptr).referenceCount - 1 ≠ 0
  · rw [if_pos hmore] at h
    cases h
    simp only [Round.done.injEq, reduceCtorEq, IsEmpty.forall_iff, implies_true, and_true]
    rintro _ ls' _ ⟨_, hls, _⟩
    rw [← hls]
    exact hdown
  · rw [if_neg hmore] at h
    split at h
    · nomatch h
    -- The panic in the source is the other branch: a layer with handles is not deleted.
    by_cases hrefs : (ls.cells l.ptr).references.Nonempty
    · simp [if_pos hrefs] at h
    rw [if_neg hrefs] at h
    rcases hdel : deleteLayer b l w with ⟨res, w'⟩
    rw [hdel] at h
    cases res with
    | error e =>
      rw [← Except.ok.inj h]
      simp only [Round.done.injEq, reduceCtorEq, IsEmpty.forall_iff, implies_true, and_true]
      rintro _ ls' _ ⟨_, hls, _⟩
      rw [← hls]
      exact hdown
    | ok =>
      rw [← Except.ok.inj h]
      simp only [Round.next.injEq, reduceCtorEq, IsEmpty.forall_iff, implies_true, true_and]
      rintro _ ls' _ ⟨_, hls, _⟩
      rw [← hls]
      refine keepsHandles_trans hdown (keepsHandles_erase (l := l) hl ?_)
      rw [hdown.references]
      exact hrefs

theorem releaseLayer_keeps {ls ls' : LayerStore} {held : Nat → Nat} {w w' : ω}
    {res : Except Err (List Metadata)} (hacc : Accounted ls (hold l held)) (hl : InMap ls l)
    (h : releaseLayer b 0 [] l ls w = .ok (res, ls', w')) : KeepsHandles ls ls' := by
  -- Each round starts from a layer of the map that is held by the loop.
  refine releaseLayer_rule b (fun depth removed l ls1 _ => KeepsHandles ls ls1 ∧
      Accounted ls1 (hold l held) ∧ InMap ls1 l ∧ (depth = 0 ∨ removed ≠ []))
    (fun ls1 _ => KeepsHandles ls ls1) ?_ ?_ ?_ l
    ⟨⟨fun _ => rfl, fun _ _ hk _ => hk⟩, hacc, hl, .inl rfl⟩ h
  · rintro depth removed l ls1 w1 res ls2 w2 ⟨hkeeps, _, hin, _⟩ hone
    exact keepsHandles_trans hkeeps ((releaseOne_keeps b hin hone).1 _ _ _ rfl)
  · rintro depth removed i ls1 w1 removed' ls2 w2 ⟨hkeeps, _, hin, _⟩ hone
    exact keepsHandles_trans hkeeps ((releaseOne_keeps b hin hone).2 _ _ _ rfl)
  · rintro depth removed i p ls1 w1 removed' ls2 w2 ⟨hkeeps, hacc1, hin, hd⟩ hone
    rcases releaseOne_accounted b hacc1 hin depth removed hd w1 with
      ⟨_, _, _, hone', _⟩ | ⟨removed3, ls3, w3, hone', hr, hacc3, hmap, hsame⟩
    · simp [hone, Except.ok.injEq] at hone'
    rw [hone, Except.ok.injEq, Round.next.injEq] at hone'
    rw [hone'.1, hone'.2.1]
    refine ⟨keepsHandles_trans hkeeps ?_, hacc3, ?_, .inr hr⟩
    · rw [← hone'.2.1]
      exact (releaseOne_keeps b hin hone).2 _ _ _ rfl
    have hpos : 0 < hold p held p.ptr := by
      rw [hold_self]
      omega
    refine evolves_lookup hacc1 hacc3 ⟨by rw [hsame.nextPtr], fun c k hk => .inl ?_⟩
      (hacc1.parentIn _ _ p hin rfl) hpos
    rw [hmap] at hk
    exact submap_erase _ _ c k hk

/-- What the layer store shows: the chains of its map, and the references of
    their layers. -/
def layerStoreView (ω : Type) : LayerView (LayerStore × ω) (ChainID × Nat) where
  ok w := ∃ held, Accounted w.1 held
  has w c := ∃ l, w.1.layerMap.lookup c = some l
  held w h c := h.1 = c ∧ ∃ l, w.1.layerMap.lookup c = some l ∧ h.2 ∈ (w.1.cells l.ptr).references

theorem references_handOut (ls : LayerStore) (l : RoLayer) (q : Nat) :
    (((ls.retain l).getReference l).2.cells q).references =
      if q = l.ptr then insert ls.nextRef (ls.cells q).references
      else (ls.cells q).references := by
  by_cases hq : q = l.ptr
  · rw [if_pos hq, hq]
    simp [LayerStore.getReference, LayerStore.retain, LayerStore.setCell]
  · rw [if_neg hq]
    simp [LayerStore.getReference, LayerStore.retain, LayerStore.setCell, Function.update_of_ne hq]

theorem layerStoreReleaser_get (c : ChainID) (w : LayerStore × ω) :
    (w.1.layerMap.lookup c = none ∧ ∃ e, (layerStoreReleaser b).get c w = (.error e, w)) ∨
      ∃ l, w.1.layerMap.lookup c = some l ∧ (layerStoreReleaser b).get c w =
        (.ok (c, w.1.nextRef), (((w.1.retain l).getReference l).2, w.2)) := by
  simp only [layerStoreReleaser, Layer.get]
  rcases getWithoutLock_cases w.1 c with ⟨hnone, hget⟩ | ⟨l, hl, hget⟩
  · rw [hget]
    exact .inl ⟨hnone, _, rfl⟩
  · rw [hget]
    exact .inr ⟨l, hl, rfl⟩

theorem layerStoreReleaser_release {w w' : LayerStore × ω} {c : ChainID} {ref : Nat}
    {held : Nat → Nat} {r : Except Fault (List Metadata)}
    (hacc : Accounted w.1 held) (hl : w.1.layerMap.lookup c = some l)
    (href : ref ∈ (w.1.cells l.ptr).references)
    (h : (layerStoreReleaser b).release (c, ref) w = (r, w')) :
    Accounted w'.1 held ∧ Submap w'.1.layerMap w.1.layerMap ∧
      KeepsHandles (w.1.deleteReference l ref) w'.1 := by
  have hin := inMap_of_lookup hacc hl
  have hdel := accounted_deleteReference hacc l ref hin href
  rcases releaseLayer_accounted b l 0 [] w.2 hdel hin (.inl rfl) with
    ⟨res, ls', ω', hrel, hacc', hsub, _⟩
  have hkeeps := releaseLayer_keeps b hdel hin hrel
  have hrelease : Layer.release b c ref w.1 w.2 = .ok (releaseResult res, ls', ω') := by
    rw [Layer.release, hl]
    simp [if_pos href, hrel]
  have hw' : w'.1 = ls' := by
    simp only [layerStoreReleaser, hrelease] at h
    cases res with
    | error e | ok =>
      simp only [releaseResult, Prod.mk.injEq] at h
      rw [← h.2]
  rw [hw']
  exact ⟨hacc', hsub, hkeeps⟩

theorem layerStore_contract : LayerContract (layerStoreReleaser b) (layerStoreView ω) := by
  refine ⟨fun w h c _ hheld => hheld.2.elim (fun l hl => ⟨l, hl.1⟩), ?_, ?_, ?_⟩
  · rintro w w' c h ⟨held, hacc⟩ hget
    rcases layerStoreReleaser_get b c w with ⟨_, e, heq⟩ | ⟨l, hl, heq⟩
    · simp [heq, Prod.mk.injEq] at hget
    rw [heq] at hget
    cases hget
    refine ⟨⟨held, accounted_handOut hacc (inMap_of_lookup hacc hl)⟩, ⟨l, hl⟩,
      fun d => Iff.rfl, ?_, ?_⟩
    · rintro d ⟨_, k, _, hk⟩
      have := hacc.handle _ _ hk
      omega
    rintro ⟨kc, kr⟩ d
    simp only [layerStoreView, references_handOut, Prod.mk.injEq]
    constructor
    · rintro ⟨hkc, k, hk, hkr⟩
      by_cases hptr : k.ptr = l.ptr
      · -- The layer the handle is on is the only one at its address.
        have hkl : k = l := hacc.distinct d c k l hk hl hptr
        have hdc : d = c := by
          rw [← hacc.key d k hk, ← hacc.key c l hl, hkl]
        rw [if_pos hptr, mem_insert] at hkr
        rcases hkr with hkr | hkr
        · exact .inr ⟨⟨hkc.trans hdc, hkr⟩, hdc⟩
        · exact .inl ⟨hkc, k, hk, hkr⟩
      · rw [if_neg hptr] at hkr
        exact .inl ⟨hkc, k, hk, hkr⟩
    · rintro (⟨hkc, k, hk, hkr⟩ | ⟨⟨hkc, hkr⟩, hdc⟩)
      · refine ⟨hkc, k, hk, ?_⟩
        by_cases hptr : k.ptr = l.ptr
        · rw [if_pos hptr]
          exact mem_insert_of_mem hkr
        · rw [if_neg hptr]
          exact hkr
      · refine ⟨hkc.trans hdc.symm, l, ?_, ?_⟩
        · rw [hdc]
          exact hl
        · rw [if_pos rfl, hkr]
          exact mem_insert_self _ _
  · rintro w w' c e ⟨held, hacc⟩ hget
    rcases layerStoreReleaser_get b c w with ⟨hnone, e', heq⟩ | ⟨l, hl, heq⟩
    · rw [heq] at hget
      cases hget
      refine ⟨⟨held, hacc⟩, ?_, fun d => Iff.rfl, fun k d => Iff.rfl⟩
      rintro ⟨l, hl⟩
      simp [hnone] at hl
    · simp [heq, Prod.mk.injEq] at hget
  · rintro w w' ⟨hc, ref⟩ c r ⟨held, hacc⟩ ⟨hcc, l, hl, href⟩ hrel
    simp only at hcc href
    rw [hcc] at hrel ⊢
    rcases layerStoreReleaser_release b hacc hl href hrel with ⟨hacc', hsub, hkeeps⟩
    -- The references after the release are those without the handle.
    have hrefs : ∀ q, (w'.1.cells q).references =
        if q = l.ptr then (w.1.cells q).references.erase ref else (w.1.cells q).references := by
      intro q
      rw [hkeeps.references, LayerStore.deleteReference]
      by_cases hq : q = l.ptr
      · rw [if_pos hq, hq, update_self_cell]
      · rw [if_neg hq, update_other_cell _ _ _ _ hq]
    refine ⟨⟨held, hacc'⟩, fun d ⟨k, hk⟩ => ⟨k, hsub d k hk⟩, ?_⟩
    rintro ⟨kc, kr⟩ d
    simp only [layerStoreView, ne_eq, Prod.mk.injEq]
    constructor
    · rintro ⟨hkc, k, hk, hkr⟩
      have hk0 := hsub d k hk
      rw [hrefs] at hkr
      by_cases hptr : k.ptr = l.ptr
      · rw [if_pos hptr, mem_erase] at hkr
        exact ⟨⟨hkc, k, hk0, hkr.2⟩, fun hc => hkr.1 hc.2⟩
      rw [if_neg hptr] at hkr
      refine ⟨⟨hkc, k, hk0, hkr⟩, fun hc => hptr ?_⟩
      rw [hkc.symm.trans hc.1, hl, Option.some.injEq] at hk0
      rw [hk0]
    · rintro ⟨⟨hkc, k, hk, hkr⟩, hne⟩
      have hkr' : kr ∈ ((w.1.deleteReference l ref).cells k.ptr).references := by
        rw [← hkeeps.references, hrefs]
        by_cases hptr : k.ptr = l.ptr
        · rw [if_pos hptr]
          refine mem_erase.mpr ⟨fun hc => hne ⟨?_, hc⟩, hkr⟩
          rw [hkc, ← hacc.key d k hk, ← hacc.key c l hl, hacc.distinct d c k l hk hl hptr]
        · rw [if_neg hptr]
          exact hkr
      refine ⟨hkc, k, hkeeps.layers d k hk (ne_empty_of_mem hkr'), ?_⟩
      rw [hkeeps.references]
      exact hkr'

end LayerStore

end Dao.Image
