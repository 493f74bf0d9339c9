import Dao.Theory.Image.Children

/-!
# Restarting the Image Store

`NewImageStore` over what an image store has written gives the same images
with the same children, for every run in which no `Create` fails once it has
written its configuration.

The configurations in the backend are those of the images and of the calls
that still wait for the lock. So when nothing waits, the walk of `restore`
reads exactly the images; each of them holds a reference on its chain, so the
layers it asks for are there; and the children that `restore` fills in are
the ones the store has, because both are what the stored parents say.

A `Create` that is refused under the lock has written its configuration
already and leaves it behind. That is the condition, beside those of the
other two invariants.

## Theorems

* `step_persisted`: What is in the backend.
* `run_restarts`: The store after a restart.
* `rejected_create_persists`: A `Create` that is refused.
-/

namespace Dao.Image

open Lib Layer Option AList List Digest

section Invariant

variable {φ ψ η : Type} (p : Ports φ ψ η) (v : FsView φ)

/-- Whether a `Create` that gets the lock finds its image, or its layer: its chain is
    empty, or the layer store has it. -/
def accepted (s : Sys φ ψ η) : Action → Bool
  | .createLocked i => (s.pending[i]?).all fun c => (s.store.images.lookup c.imageID).isSome ||
      c.layerID = [] || (p.ls.get c.layerID s.layers).1.isOk
  | _ => true

/-- The condition on the steps: no `Create` fails under the lock, and those of
    the other two invariants. -/
def Kept (s : Sys φ ψ η) (a : Action) : Prop :=
  accepted p s a = true ∧ Unraced p s a ∧ Attached p s a

instance decidableKept (s : Sys φ ψ η) (a : Action) : Decidable (Kept p s a) :=
  inferInstanceAs (Decidable (_ ∧ _ ∧ _))

/-- Every configuration in the backend is that of an image, or of a call that
    waits for the lock. -/
def Persisted (s : Sys φ ψ η) : Prop :=
  ∀ id rfs, HasConfig p v s.fs id rfs →
    (s.store.images.lookup id).isSome = true ∨ ∃ x ∈ s.pending, x.imageID = id

end Invariant

section Steps

variable {φ ψ η : Type} {p : Ports φ ψ η} {v : FsView φ} {lv : LayerView ψ η}

theorem mem_eraseIdx_or {α : Type} {l : List α} {x : α} (h : x ∈ l) (i : Nat) :
    x ∈ l.eraseIdx i ∨ l[i]? = some x := by
  rcases getElem?_of_mem h with ⟨j, hj⟩
  by_cases hij : j = i
  · rw [hij] at hj
    exact .inr hj
  · exact .inl (mem_eraseIdx_iff_getElem?.mpr ⟨j, hij, hj⟩)

theorem step_persisted (hfs : FsContract p.fs v) {a : Action} {s s' : Sys φ ψ η}
    {r : Option Answer} (h : Persisted p v s) (hl : Linked v s) (hC : Kept p s a)
    (hstep : step p a s = .ok (r, s')) : Persisted p v s' := by
  cases step_cases p hstep with
  | rejected config e fs' hset hs =>
    rw [hs]
    rcases createSet_error hfs hl.fsOk hset with ⟨_, _, hcontent⟩
    exact fun id rfs hc => h id rfs (hasConfig_congr (congrFun hcontent.symm id) hc)
  | written config c fs' hset hs =>
    rw [hs]
    rcases createSet_ok hfs hl.fsOk hset with ⟨_, _, _, _, rfl, _, _, hcontent⟩
    intro q rfs' hq
    by_cases hqid : q = fromBytes config
    · refine .inr ⟨_, mem_append_right _ mem_cons_self, ?_⟩
      rw [hqid]
    have hsame : v.content s.fs q = v.content fs' q := by
      rw [hcontent, Function.update_of_ne hqid]
    rcases h q rfs' (hasConfig_congr hsame hq) with hin | ⟨x, hx, hxq⟩
    · exact .inl hin
    · exact .inr ⟨x, mem_append_left _ hx, hxq⟩
  | nothing i _ hs =>
    rw [hs]
    exact h
  | locked i c res store layers hc hlock hs =>
    rw [hs]
    have hcan := hl.waiting c (mem_of_getElem? hc)
    have hacc := hC.1
    simp only [accepted, hc, all_some, Bool.or_eq_true, decide_eq_true_eq] at hacc
    -- The image is in the store once the call has the lock, and the others
    -- are as they were.
    have himages : (store.images.lookup c.imageID).isSome = true ∧
        ∀ q, (s.store.images.lookup q).isSome = true → (store.images.lookup q).isSome = true := by
      rcases createLocked_cases p (validate_canonical _ hcan) hlock with
        ⟨hm, hstore, _⟩ | ⟨hnone, hstore, e, htake⟩ | ⟨hnone, l, ds, _, _, hstore⟩
      · rw [hstore]
        exact ⟨isSome_iff.mpr hm, fun _ hq => hq⟩
      · exfalso
        rcases takeLayer_cases p htake with ⟨_, he, _⟩ | ⟨hchain, ⟨_, _, hget⟩ | ⟨_, he, _⟩⟩
        · cases he
        · simp [hnone, hchain, hget, Except.isOk, Except.toBool] at hacc
        · cases he
      · rw [hstore]
        refine ⟨?_, fun q hq => ?_⟩
        · change ((s.store.images.insert c.imageID ⟨l, []⟩).lookup c.imageID).isSome = true
          rw [lookup_insert, isSome_some]
        change ((s.store.images.insert c.imageID ⟨l, []⟩).lookup q).isSome = true
        by_cases hqc : q = c.imageID
        · rw [hqc, lookup_insert, isSome_some]
        · rw [lookup_insert_ne hqc]
          exact hq
    intro q rfs hq
    rcases h q rfs hq with hin | ⟨x, hx, hxq⟩
    · exact .inl (himages.2 q hin)
    rcases mem_eraseIdx_or hx i with hx | hx
    · exact .inr ⟨x, hx, hxq⟩
    · rw [hc, some.injEq] at hx
      rw [← hxq, ← hx]
      exact .inl himages.1
  | delete id order res hdel =>
    rcases delete_cases p hdel with ⟨_, hs⟩ | ⟨m, fs1, res1, hm, hparents, hend⟩
    · rw [hs]
      exact h
    have hatt := hC.2.2
    simp only [Attached, attached, hm, hparents, Bool.and_eq_true] at hatt
    rcases deleteParents_frame hfs _ hl.fsOk hparents with ⟨hok1, hcontent1, _⟩
    rcases hend with ⟨_, hs⟩ | ⟨_, hdeleted⟩
    · rw [hs]
      exact fun q rfs hq => h q rfs (hasConfig_congr (congrFun hcontent1.symm q) hq)
    rcases hdeleted.fs with ⟨res2, hres2⟩
    rcases hfs.delete _ _ _ _ hok1 (hl.canonical id m hm) hres2 with ⟨_, _, hframe, hgone⟩
    rw [hres2] at hatt
    have hres : res2 = .ok () := by
      cases res2 with
      | error e => cases hatt.2
      | ok u => rfl
    intro q rfs hq
    have hqid : q ≠ id := by
      rintro rfl
      rcases hq with ⟨config, _, hconf, _⟩
      simp [(hgone hres).1] at hconf
    have hsame : v.content s.fs q = v.content s'.fs q := by
      rw [(hframe q hqid).1, hcontent1]
    rw [hdeleted.pending, hdeleted.images, lookup_erase_ne hqid, lookup_detach, isSome_map]
    exact h q rfs (hasConfig_congr hsame hq)
  | setParent id parent res hset =>
    rcases setParent_cases p hset with hs | ⟨m, res1, fs', hm, hwrite, hs⟩
    · rw [hs]
      exact h
    rw [hs]
    rcases hfs.setMetadata _ _ _ _ _ hl.fsOk hwrite with ⟨_, hcontent, _⟩
    intro q rfs hq
    simp only [lookup_addChild, lookup_detach, isSome_map]
    exact h q rfs (hasConfig_congr (congrFun hcontent.symm q) hq)

theorem restoreImages_ok (hfs : FsContract p.fs v) (hls : LayerContract p.ls lv) {fs : φ}
    (hok : v.ok fs) : ∀ (ids : List ID) (is : Store η) (lw : ψ), lv.ok lw →
      (∀ id ∈ ids, validate id = .ok ()) →
      (∀ id rfs, HasConfig p v fs id rfs → rfs.chainID = [] ∨ lv.has lw rfs.chainID) →
      ∃ is' lw', restoreImages p fs ids is lw = (.ok is', lw') := by
  intro ids
  induction ids with
  | nil => exact fun is lw _ _ _ => ⟨is, lw, rfl⟩
  | cons id ids ih =>
    intro is lw hlok hval hhas
    have hval' : ∀ x ∈ ids, validate x = .ok () :=
      fun x hx => hval x (mem_cons_of_mem _ hx)
    rcases hone : restoreImage p id is fs lw with ⟨r, lw1⟩
    simp only [restoreImages, hone]
    rcases restoreImage_cases hfs hok (hval id mem_cons_self) hone with
      ⟨_, hr, hlw⟩ | ⟨rfs, hconf, hrest⟩
    · rw [hr, hlw]
      exact ih is lw hlok hval' hhas
    rcases hrest with ⟨e, _, htake⟩ | ⟨l, ds, htake, _, hr⟩
    · exfalso
      rcases takeLayer_cases p htake with ⟨_, he, _⟩ | ⟨hc, ⟨_, _, hget⟩ | ⟨_, he, _⟩⟩
      · cases he
      · rcases hhas id rfs hconf with hnil | hin
        · exact hc hnil
        · exact (hls.get_error _ _ _ _ hlok hget).2.1 hin
      · cases he
    · rw [hr]
      -- The same chains are there after the layer is taken.
      have hlw1 : lv.ok lw1 ∧ ∀ d, lv.has lw1 d ↔ lv.has lw d := by
        rcases takeLayer_cases p htake with ⟨_, _, hlw⟩ | ⟨_, ⟨_, he, _⟩ | ⟨k, _, hget⟩⟩
        · rw [hlw]
          exact ⟨hlok, fun _ => Iff.rfl⟩
        · cases he
        · rcases hls.get_ok _ _ _ _ hlok hget with ⟨hok1, _, hsame, _⟩
          exact ⟨hok1, hsame⟩
      refine ih _ lw1 hlw1.1 hval' fun q rfs' hq => ?_
      rw [hlw1.2]
      exact hhas q rfs' hq

end Steps

section Runs

variable {φ ψ η : Type} {p : Ports φ ψ η} {v : FsView φ} {lv : LayerView ψ η}

/-- After every run in which no `Create` fails under the lock, and in which
    nothing is in flight any more, `NewImageStore` over the files the store
    has written and the same layers gives the same images with the same
    children. -/
theorem run_restarts (hfs : FsContract p.fs v) (hls : LayerContract p.ls lv) (order : Order)
    (fs : φ) (lw lw' : ψ) (is : Store η) (hok : v.ok fs) (hlok : lv.ok lw)
    (hnew : newImageStore p order fs lw = (.ok is, lw')) (htidy : Tidy v fs is)
    (as : List Action) (hmeets : Meets (step p) (Kept p) as ⟨is, fs, lw', []⟩)
    (rs : List (Option Answer)) (s : Sys φ ψ η)
    (hrun : run (step p) as ⟨is, fs, lw', []⟩ = .ok (rs, s)) (hdone : s.pending = [])
    (order' : Order) (lw₂ : ψ) (hlok₂ : lv.ok lw₂)
    (hsame : ∀ c, lv.has s.layers c → lv.has lw₂ c) :
    ∃ is' lw₃, newImageStore p order' s.fs lw₂ = (.ok is', lw₃) ∧
      (∀ id, (is'.images.lookup id).isSome = (s.store.images.lookup id).isSome) ∧
      ∀ id m m', s.store.images.lookup id = some m → is'.images.lookup id = some m' →
        ∀ c, c ∈ m'.children ↔ c ∈ m.children := by
  -- The three invariants together, of which each needs its own condition.
  have hinv : Coherent p v lv (lv.held lw) s ∧ Linked v s ∧ Persisted p v s := by
    refine run_invariant_of_meets (Kept p)
      (fun s => Coherent p v lv (lv.held lw) s ∧ Linked v s ∧ Persisted p v s)
      (fun a s r s' h hC hs => ⟨step_coherent hfs hls a s r s' h.1 hC.2.1 hs,
        step_linked hfs a s r s' h.2.1 hC.2.2 hs, step_persisted hfs h.2.2 h.2.1 hC hs⟩)
      as _ s rs ⟨newImageStore_coherent hfs hls hok hlok hnew,
        newImageStore_linked hfs hok hnew htidy, fun id rfs hc => .inl ?_⟩ hmeets hrun
    exact ((newImageStore_entries hfs hok hnew).1 id).mpr ⟨rfs, hc⟩
  rcases hinv with ⟨hcoh, hlink, hpers⟩
  have hconfig : ∀ id, (s.store.images.lookup id).isSome = true ↔
      ∃ rfs, HasConfig p v s.fs id rfs := by
    intro id
    constructor
    · intro hid
      rcases isSome_iff.mp hid with ⟨m, hm⟩
      rcases hcoh.image id _ (layerOf_eq_some.mpr ⟨m, hm, rfl⟩) with ⟨rfs, hc, _⟩
      exact ⟨rfs, hc⟩
    · rintro ⟨rfs, hc⟩
      rcases hpers id rfs hc with hin | ⟨x, hx, _⟩
      · exact hin
      · simp [hdone] at hx
  have hhas : ∀ id rfs, HasConfig p v s.fs id rfs → rfs.chainID = [] ∨ lv.has lw₂ rfs.chainID := by
    intro id rfs hc
    rcases isSome_iff.mp ((hconfig id).mpr ⟨rfs, hc⟩) with ⟨m, hm⟩
    rcases hcoh.image id _ (layerOf_eq_some.mpr ⟨m, hm, rfl⟩) with ⟨rfs', hc', hret⟩
    have hrfs : rfs = rfs' := by
      rcases hc with ⟨config, img, hconf, himg, hr⟩
      rcases hc' with ⟨config', img', hconf', himg', hr'⟩
      rw [hconf, Option.some.injEq] at hconf'
      rw [← hconf', himg, Except.ok.injEq] at himg'
      rw [← himg', hr, Option.some.injEq] at hr'
      exact hr'
    rw [hrfs]
    rcases hret with ⟨hnil, _⟩ | ⟨_, k, _, hheld⟩
    · exact .inl hnil
    · exact .inr (hsame _ (hls.held_has _ _ _ hcoh.layersOk hheld))
  rcases hfs.walk s.fs hcoh.fsOk with ⟨ids, hwalk, _, hval, _⟩
  rcases restoreImages_ok hfs hls hcoh.fsOk ids .empty lw₂ hlok₂ hval hhas with
    ⟨is₁, lw₃, hrestore⟩
  have hnew₂ : newImageStore p order' s.fs lw₂ = (.ok { is₁ with
      images := fillChildren p s.fs (order'.list is₁.images.keys) is₁.images }, lw₃) := by
    rw [newImageStore, hwalk]
    simp [hrestore]
  rcases newImageStore_entries hfs hcoh.fsOk hnew₂ with ⟨himages, hchildren⟩
  refine ⟨_, lw₃, hnew₂, fun id => ?_, fun id m m' hm hm' c => ?_⟩
  · rw [Bool.eq_iff_iff, himages id, hconfig id]
  rw [hchildren id m' c hm', himages c, ← hconfig c]
  have hchild := child_iff hfs hlink id c
  constructor
  · intro hc
    rcases hchild.mpr ⟨isSome_iff.mpr ⟨m, hm⟩, hc⟩ with ⟨m₁, hm₁, hc₁⟩
    rw [hm] at hm₁
    cases hm₁
    exact hc₁
  · exact fun hc => (hchild.mp ⟨m, hm, hc⟩).2

end Runs

/-- Two images, one of which is the parent of the other. -/
def keepTwo : List Action :=
  [.create [0], .createLocked 0, .create [1], .createLocked 0,
    .setParent (Digest.fromBytes [1]) (Digest.fromBytes [0])]

/-- The daemon after a run. -/
def sysAfter (as : List Action) :
    Sys (Node Bytes) (LayerStore × FileWorld (List Str)) (ChainID × Nat) :=
  match run (step idPorts) as idSys with
  | .error _ => idSys
  | .ok (_, s) => s

theorem run_restarts_two : ∃ is' lw₃,
    newImageStore idPorts idOrder (sysAfter keepTwo).fs idSys.layers = (.ok is', lw₃) ∧
      (∀ id, (is'.images.lookup id).isSome = ((sysAfter keepTwo).store.images.lookup id).isSome) ∧
      ∀ id m m', (sysAfter keepTwo).store.images.lookup id = some m →
        is'.images.lookup id = some m' → ∀ c, c ∈ m'.children ↔ c ∈ m.children := by
  have hok : (run (step idPorts) keepTwo idSys).isOk = true := by decide +kernel
  have hmeets : Meets (step idPorts) (Kept idPorts) keepTwo idSys := by decide +kernel
  have hlayers : (layerStoreView _).ok idSys.layers := ⟨_, accounted_aLayerStore⟩
  have htidy : Tidy (fsView []) idSys.fs idSys.store := by
    intro c d hd
    simp [idSys, emptyFiles_parentData] at hd
  have hkeys : (sysAfter keepTwo).layers.1.layerMap.keys = idSys.layers.1.layerMap.keys := by
    decide +kernel
  rcases exists_run hok with ⟨rs, s, hrun⟩
  have hs : sysAfter keepTwo = s := by rw [sysAfter, hrun]
  rw [hs] at hkeys ⊢
  have hdone : s.pending = [] := by
    rw [← hs]
    decide +kernel
  refine run_restarts (fs_contract List.not_mem_nil) (layerStore_contract idBackend) idOrder
    idSys.fs idSys.layers idSys.layers idSys.store emptyFiles_ok hlayers newImageStore_idSys
    htidy keepTwo hmeets rs s hrun hdone idOrder idSys.layers hlayers fun c hc => ?_
  rcases hc with ⟨l, hl⟩
  have hmem : c ∈ s.layers.1.layerMap.keys :=
    AList.mem_keys.mp (AList.lookup_isSome.mp (isSome_iff.mpr ⟨l, hl⟩))
  rw [hkeys] at hmem
  exact isSome_iff.mp (AList.lookup_isSome.mpr (AList.mem_keys.mpr hmem))

/-- A `Create` that names a chain the layer store does not have is refused,
    and the store cannot be made again over what it has written. -/
theorem rejected_create_persists : (run (step idPorts) [.create [1], .createLocked 0]
      { idSys with layers := (LayerStore.empty, emptyWorld) }).toOption.map (fun out =>
        (out.1.map fun r => r.map Except.isOk,
          (newImageStore idPorts idOrder out.2.fs out.2.layers).1.isOk)) =
      some ([none, some false], false) := by
  decide +kernel

end Dao.Image
