import Dao.Theory.Image.Coherence

/-!
# Parents and Children

The children of an image are the images whose stored parent it is, in every
run in which `SetParent` is called on images of the store and the writes of
`SetParent` and `Delete` succeed.

The invariant is about what is stored, not only about what can be read. A
stored parent belongs to an image that is in the store and names one that is,
so that an image which enters the store has neither children nor a parent
waiting for it. `Delete` keeps this because the children of an image are
exactly the images that name it, and those are the ones whose metadata it
removes.

## Theorems

* `step_linked`: A step keeps the invariant.
* `run_linked`: The children in every run.
* `stranger_adopted`: The parent of what is no image.
-/

namespace Dao.Image

open Lib Layer Digest Option Function AList List

section Invariant

variable {φ ψ η : Type} (p : Ports φ ψ η) (v : FsView φ)

/-- The loop of `Delete` over the children meets no failure. -/
def deletesOk : List ID → φ → Bool
  | [], _ => true
  | id :: ids, fs =>
    (p.fs.deleteMetadata id parentKey fs).1.isOk &&
      deletesOk ids (p.fs.deleteMetadata id parentKey fs).2

/-- Whether `SetParent` is called on an image of the store, and neither its
    write nor those of `Delete` fail. -/
def attached (s : Sys φ ψ η) : Action → Bool
  | .setParent id parent =>
    match s.store.images.lookup parent with
    | none => true
    | some _ => (s.store.images.lookup id).isSome &&
      (p.fs.setMetadata id parentKey (utf8 parent) s.fs).1.isOk
  | .delete id order =>
    match s.store.images.lookup id with
    | none => true
    | some m => deletesOk p (order.list m.children) s.fs &&
      (p.fs.delete id (deleteParents p (order.list m.children) s.fs).2).1.isOk
  | _ => true

/-- The condition on the steps. -/
def Attached (s : Sys φ ψ η) (a : Action) : Prop := attached p s a = true

instance decidableAttached (s : Sys φ ψ η) (a : Action) : Decidable (Attached p s a) :=
  inferInstanceAs (Decidable (_ = true))

/-- The invariant. -/
structure Linked (s : Sys φ ψ η) : Prop where
  fsOk : v.ok s.fs
  canonical : ∀ id m, s.store.images.lookup id = some m → Digest.IsCanonical id
  waiting : ∀ x ∈ s.pending, Digest.IsCanonical x.imageID
  stored : ∀ c d, v.parentData s.fs c = some d →
    (s.store.images.lookup c).isSome = true ∧ (s.store.images.lookup (ofUtf8 d)).isSome = true ∧
      (v.content s.fs c).isSome = true
  children : ∀ q m c, s.store.images.lookup q = some m →
    (c ∈ m.children ↔ ∃ d, v.parentData s.fs c = some d ∧ ofUtf8 d = q)

end Invariant

section Steps

variable {φ ψ η : Type} {p : Ports φ ψ η} {v : FsView φ} {s s' : Sys φ ψ η}

theorem isSome_iff {α : Type} {o : Option α} : o.isSome = true ↔ ∃ x, o = some x :=
  isSome_iff_exists

/-- A change of the files that shows in the configurations only, and loses
    none. -/
theorem linked_fs (h : Linked v s) {fs' : φ} {layers : ψ} {pending : List Pending} (hok : v.ok fs')
    (hdata : v.parentData fs' = v.parentData s.fs)
    (hcontent : ∀ c, (v.content s.fs c).isSome = true → (v.content fs' c).isSome = true)
    (hpending : ∀ x ∈ pending, IsCanonical x.imageID) :
    Linked v { s with fs := fs', layers := layers, pending := pending } := by
  refine ⟨hok, h.canonical, hpending, fun c d hd => ?_, fun q m c hm => ?_⟩
  · simp only [hdata] at hd
    rcases h.stored c d hd with ⟨h1, h2, h3⟩
    exact ⟨h1, h2, hcontent c h3⟩
  · simp only [hdata]
    exact h.children q m c hm

/-- A new image has no children: nothing that is stored names it. -/
theorem linked_insert (h : Linked v s) {id : ID} {l : Option η} {layers : ψ}
    {digestSet : DigestSet} (hcan : IsCanonical id)
    (hnone : s.store.images.lookup id = none) :
    Linked v { s with
      store := ⟨s.store.images.insert id ⟨l, []⟩, digestSet⟩, layers := layers } := by
  have hgrow : ∀ q, (s.store.images.lookup q).isSome = true →
      ((s.store.images.insert id ⟨l, []⟩).lookup q).isSome = true := by
    intro q hq
    by_cases hqid : q = id
    · rw [hqid, lookup_insert, isSome_some]
    · rw [lookup_insert_ne hqid]
      exact hq
  refine ⟨h.fsOk, fun q m hm => ?_, h.waiting, fun c d hd => ?_, fun q m c hm => ?_⟩
  · by_cases hq : q = id
    · rw [hq]
      exact hcan
    · simp only [lookup_insert_ne hq] at hm
      exact h.canonical q m hm
  · rcases h.stored c d hd with ⟨h1, h2, h3⟩
    exact ⟨hgrow c h1, hgrow _ h2, h3⟩
  -- A stored parent is an image of the store, so none is the new one.
  · by_cases hq : q = id
    · change (s.store.images.insert id ⟨l, []⟩).lookup q = some m at hm
      rw [hq, lookup_insert] at hm
      cases hm
      rw [hq]
      simp only [not_mem_nil, false_iff, not_exists, not_and]
      intro d hd hdid
      have hsome := (h.stored c d hd).2.1
      rw [hdid, hnone] at hsome
      nomatch hsome
    · simp only [lookup_insert_ne hq] at hm
      exact h.children q m c hm

variable (hfs : FsContract p.fs v)
include hfs

theorem getParent_ok {fs : φ} (hok : v.ok fs) (id q : ID) : getParent p id fs = .ok q ↔
      (v.content fs id).isSome = true ∧ ∃ d, v.parentData fs id = some d ∧ ofUtf8 d = q := by
  unfold getParent
  have hmeta := fun d => hfs.getMetadata fs id d hok
  cases hget : p.fs.getMetadata id parentKey fs with
  | error e =>
    simp only [reduceCtorEq, false_iff, not_and, not_exists]
    intro hcontent d hd
    have hc := (hmeta d).mpr ⟨hcontent, hd⟩
    simp [hget] at hc
  | ok d =>
    have hd := (hmeta d).mp hget
    simp only [Except.ok.injEq]
    constructor
    · exact fun hq => ⟨hd.1, d, hd.2, hq⟩
    rintro ⟨_, d', hd', hq⟩
    rw [hd.2] at hd'
    cases hd'
    rw [hq]

theorem getParent_no_panic {fs : φ} (hok : v.ok fs) {id : ID} (hcan : IsCanonical id) :
    getParent p id fs ≠ .error .panic := by
  unfold getParent
  have hno := hfs.getMetadata_error fs id hok hcan
  cases hget : p.fs.getMetadata id parentKey fs with
  | error e =>
    rw [hget] at hno
    simp only [ne_eq, Except.error.injEq] at hno ⊢
    exact hno
  | ok d => simp

/-- The loop of `Delete`, when no removal fails: the metadata of the images it
    walks over is gone, and nothing else. -/
theorem deleteParents_ok (ids : List ID) :
    ∀ {fs fs' : φ} {r : Except Fault Unit}, v.ok fs → (∀ id ∈ ids, IsCanonical id) →
      deletesOk p ids fs = true → deleteParents p ids fs = (r, fs') →
      r = .ok () ∧ v.ok fs' ∧ v.content fs' = v.content fs ∧
        ∀ c, v.parentData fs' c = if c ∈ ids then none else v.parentData fs c := by
  induction ids with
  | nil =>
    intro fs fs' r hok _ _ h
    cases h
    refine ⟨rfl, hok, rfl, fun c => ?_⟩
    rw [if_neg not_mem_nil]
  | cons id ids ih =>
    intro fs fs' r hok hcan hdel h
    simp only [deletesOk, Bool.and_eq_true] at hdel
    rcases hone : p.fs.deleteMetadata id parentKey fs with ⟨res, fs1⟩
    rcases hfs.deleteMetadata _ _ _ _ hok hone with ⟨hok1, hcontent, hdata⟩
    rw [hone] at hdel
    -- A removal that fails is excluded, so the loop goes on to its end.
    rcases hdata (hcan id mem_cons_self) with ⟨_, ⟨⟨e, he⟩, _⟩ | ⟨hres, hdata⟩⟩
    · rw [he] at hdel
      nomatch hdel.1
    simp only [deleteParents, hone, hres] at h
    rcases ih hok1 (forall_mem_cons.mp hcan).2 hdel.2 h with
      ⟨hr, hok', hcontent', hdata'⟩
    refine ⟨hr, hok', hcontent'.trans hcontent, fun c => ?_⟩
    rw [hdata' c, hdata]
    by_cases hc : c = id
    · rw [hc, update_self, if_pos (mem_cons_self (a := id)), ite_self]
    · rw [update_of_ne hc]
      simp [hc]

/-- `SetParent` moves an image of the store from its old parent to the new
    one. -/
theorem linked_setParent (h : Linked v s) {id parent : ID} {fs' : φ}
    (hid : (s.store.images.lookup id).isSome = true)
    (hparent : (s.store.images.lookup parent).isSome = true)
    (hset : p.fs.setMetadata id parentKey (utf8 parent) s.fs = (.ok (), fs')) :
    Linked v { s with
      store := { s.store with
        images := addChild parent id (detach id (getParent p id s.fs) s.store.images) },
      fs := fs' } := by
  rcases hfs.setMetadata _ _ _ _ _ h.fsOk hset with
    ⟨hok, hcontent, ⟨⟨e, he⟩, _⟩ | ⟨_, hsome, hdata⟩⟩
  · nomatch he
  have hlookup : ∀ q, ((addChild parent id (detach id (getParent p id s.fs)
      s.store.images)).lookup q).isSome = (s.store.images.lookup q).isSome := by
    intro q
    rw [lookup_addChild, lookup_detach, isSome_map, isSome_map]
  refine ⟨hok, fun q m hm => ?_, h.waiting, fun c d hd => ?_, fun q m' c hm' => ?_⟩
  · have hq : (s.store.images.lookup q).isSome = true := by
      rw [← hlookup, hm, isSome_some]
    rcases isSome_iff.mp hq with ⟨m0, hm0⟩
    exact h.canonical q m0 hm0
  · simp only [hlookup]
    simp only [hdata] at hd
    by_cases hc : c = id
    · rw [hc, update_self] at hd
      cases hd
      rw [hc, ofUtf8_utf8, hcontent]
      exact ⟨hid, hparent, hsome⟩
    · rw [update_of_ne hc] at hd
      rw [hcontent]
      exact h.stored c d hd
  · -- The entry of `q` before the two edits.
    rw [lookup_addChild, lookup_detach, Option.map_map, Option.map_eq_some_iff] at hm'
    rcases hm' with ⟨m, hm, hm'⟩
    have hmem : c ∈ m'.children ↔
        (c ∈ m.children ∧ (getParent p id s.fs = .ok q → c ≠ id)) ∨ (q = parent ∧ c = id) := by
      rw [← hm']
      simp only [comp_apply]
      by_cases hq : q = parent
      · by_cases hold : getParent p id s.fs = .ok q
        · rw [if_pos hq, if_pos hold, mem_insert_iff, mem_filter, decide_eq_true_eq, or_comm]
          simp [hold, hq]
        · rw [if_pos hq, if_neg hold, mem_insert_iff, or_comm]
          simp only [hold, false_implies, and_true]
          simp [hq]
      · by_cases hold : getParent p id s.fs = .ok q
        · rw [if_neg hq, if_pos hold, mem_filter, decide_eq_true_eq]
          simp [hold, hq]
        · rw [if_neg hq, if_neg hold]
          simp [hold, hq]
    rw [hmem, h.children q m c hm]
    simp only [hdata]
    by_cases hc : c = id
    · rw [hc, update_self]
      simp only [some.injEq, exists_eq_left', ofUtf8_utf8, ne_eq, not_true_eq_false,
        and_true, imp_false]
      constructor
      · rintro (⟨⟨d, hd, hdq⟩, hno⟩ | hq)
        · exact absurd ((getParent_ok hfs h.fsOk id q).mpr ⟨hsome, d, hd, hdq⟩) hno
        · exact hq.symm
      · exact fun hq => .inr hq.symm
    · rw [update_of_ne hc]
      simp [hc]

theorem linked_deleted (h : Linked v s) {id : ID} {m : ImageMeta η} {order : Order} {fs1 : φ}
    {r : Except Fault Unit} (hm : s.store.images.lookup id = some m)
    (hparents : deleteParents p (order.list m.children) s.fs = (r, fs1))
    (hdels : deletesOk p (order.list m.children) s.fs = true)
    (hlast : (p.fs.delete id fs1).1.isOk = true) (hdel : Deleted p id m fs1 s s') :
    Linked v s' := by
  have hkids : ∀ c, c ∈ order.list m.children ↔ ∃ d, v.parentData s.fs c = some d ∧
      ofUtf8 d = id := fun c => ((order.perm m.children).mem_iff).trans (h.children id m c hm)
  have hcankids : ∀ c ∈ order.list m.children, IsCanonical c := by
    intro c hc
    rcases (hkids c).mp hc with ⟨d, hd, _⟩
    rcases isSome_iff.mp (h.stored c d hd).1 with ⟨mc, hmc⟩
    exact h.canonical c mc hmc
  rcases deleteParents_ok hfs _ h.fsOk hcankids hdels hparents with ⟨_, hok1, hcontent1, hdata1⟩
  rcases hdel.fs with ⟨res, hres⟩
  have hcan := h.canonical id m hm
  rcases hfs.delete _ _ _ _ hok1 hcan hres with ⟨hok', _, hframe, hgone⟩
  have hresok : res = .ok () := by
    rw [hres] at hlast
    cases res with
    | error e => nomatch hlast
    | ok u => rfl
  -- What is stored afterwards was stored before, by an image that is neither
  -- the deleted one nor a child of it.
  have hdata : ∀ c d, v.parentData s'.fs c = some d ↔
      c ≠ id ∧ v.parentData s.fs c = some d ∧ ofUtf8 d ≠ id := by
    intro c d
    by_cases hc : c = id
    · rw [hc, (hgone hresok).2]
      simp
    rw [(hframe c hc).2, hdata1]
    by_cases hkid : c ∈ order.list m.children
    · rw [if_pos hkid]
      rcases (hkids c).mp hkid with ⟨d', hd', hd'id⟩
      simp only [reduceCtorEq, ne_eq, hc, not_false_eq_true, true_and, false_iff, not_and, not_not]
      intro hd
      rw [hd'] at hd
      cases hd
      rw [hd'id]
    · rw [if_neg hkid]
      simp only [ne_eq, hc, not_false_eq_true, true_and, iff_self_and]
      exact fun hd hdid => hkid ((hkids c).mpr ⟨d, hd, hdid⟩)
  have hlookup : ∀ q, q ≠ id → s'.store.images.lookup q =
      (detach id (getParent p id fs1) s.store.images).lookup q := by
    intro q hq
    rw [hdel.images, lookup_erase_ne hq]
  have hgoneid : s'.store.images.lookup id = none := by rw [hdel.images, lookup_erase]
  have hkept : ∀ q, q ≠ id → (s'.store.images.lookup q).isSome =
      (s.store.images.lookup q).isSome := by
    intro q hq
    rw [hlookup q hq, lookup_detach, isSome_map]
  refine ⟨hok', fun q mq hq => ?_, fun x hx => ?_, fun c d hd => ?_, fun q m' c hm' => ?_⟩
  · have hne : q ≠ id := by
      intro hc
      rw [hc, hgoneid] at hq
      nomatch hq
    have hsome : (s.store.images.lookup q).isSome = true := by
      rw [← hkept q hne, hq, isSome_some]
    rcases isSome_iff.mp hsome with ⟨m0, hm0⟩
    exact h.canonical q m0 hm0
  · rw [hdel.pending] at hx
    exact h.waiting x hx
  · rcases (hdata c d).mp hd with ⟨hc, hd0, hdid⟩
    rcases h.stored c d hd0 with ⟨h1, h2, h3⟩
    rw [hkept c hc, hkept _ hdid, (hframe c hc).1, hcontent1]
    exact ⟨h1, h2, h3⟩
  · have hq : q ≠ id := by
      intro hc
      rw [hc, hgoneid] at hm'
      nomatch hm'
    rw [hlookup q hq, lookup_detach, map_eq_some_iff] at hm'
    rcases hm' with ⟨mq, hmq, hm'⟩
    have hmem : c ∈ m'.children ↔ c ∈ mq.children ∧ (getParent p id fs1 = .ok q → c ≠ id) := by
      rw [← hm']
      by_cases hold : getParent p id fs1 = .ok q
      · rw [if_pos hold, mem_filter, decide_eq_true_eq]
        simp [hold]
      · rw [if_neg hold]
        simp [hold]
    rw [hmem, h.children q mq c hmq]
    constructor
    · rintro ⟨⟨d, hd, hdq⟩, hno⟩
      have hdid : ofUtf8 d ≠ id := by
        rw [hdq]
        exact hq
      refine ⟨d, (hdata c d).mpr ⟨fun hc => ?_, hd, hdid⟩, hdq⟩
      -- The image itself is a child of `q`, so its parent was read as `q`.
      refine hno ((getParent_ok hfs hok1 id q).mpr ⟨?_, d, ?_, hdq⟩) hc
      · rw [hcontent1, ← hc]
        exact (h.stored c d hd).2.2
      rw [hdata1, if_neg, ← hc]
      · exact hd
      intro hkid
      rcases (hkids id).mp hkid with ⟨d', hd', hd'id⟩
      rw [← hc, hd, some.injEq] at hd'
      rw [← hd'] at hd'id
      exact hdid hd'id
    · rintro ⟨d, hd, hdq⟩
      rcases (hdata c d).mp hd with ⟨hc, hd0, _⟩
      exact ⟨⟨d, hd0, hdq⟩, fun _ => hc⟩

theorem step_linked (a : Action) (s : Sys φ ψ η) (r : Option Answer) (s' : Sys φ ψ η)
    (h : Linked v s) (hC : Attached p s a) (hstep : step p a s = .ok (r, s')) : Linked v s' := by
  cases step_cases p hstep with
  | rejected config e fs' hset hs =>
    rw [hs]
    rcases createSet_error hfs h.fsOk hset with ⟨hok, hdata, hcontent⟩
    refine linked_fs h hok hdata (fun c hc => ?_) h.waiting
    rw [hcontent]
    exact hc
  | written config c fs' hset hs =>
    rw [hs]
    rcases createSet_ok hfs h.fsOk hset with ⟨_, _, _, _, rfl, hok, hdata, hcontent⟩
    refine linked_fs h hok hdata (fun q hq => ?_) fun x hx => ?_
    · rw [hcontent]
      by_cases hqid : q = fromBytes config
      · rw [hqid, update_self, isSome_some]
      · rw [update_of_ne hqid]
        exact hq
    · rcases mem_append.mp hx with hx | hx
      · exact h.waiting x hx
      · rw [mem_singleton.mp hx]
        exact fromBytes_canonical config
  | nothing i _ hs =>
    rw [hs]
    exact h
  | locked i c res store layers hc hlock hs =>
    rw [hs]
    have hcan := h.waiting c (mem_of_getElem? hc)
    have hrest : ∀ x ∈ s.pending.eraseIdx i, IsCanonical x.imageID :=
      fun x hx => h.waiting x (mem_of_mem_eraseIdx hx)
    -- Only the last of the three enters an image, and it has no children yet.
    rcases createLocked_cases p (validate_canonical _ hcan) hlock with
      ⟨_, hstore, _⟩ | ⟨_, hstore, _⟩ | ⟨hnone, l, ds, _, _, hstore⟩
    · rw [hstore]
      exact linked_fs h h.fsOk rfl (fun _ hc => hc) hrest
    · rw [hstore]
      exact linked_fs h h.fsOk rfl (fun _ hc => hc) hrest
    · rw [hstore]
      have hins : Linked v { s with
          store := ⟨s.store.images.insert c.imageID ⟨l, []⟩, ds⟩, layers := layers } :=
        linked_insert h hcan hnone
      exact linked_fs hins hins.fsOk rfl (fun _ hc => hc) hrest
  | delete id order res hdel =>
    rcases delete_cases p hdel with ⟨_, hs⟩ | ⟨m, fs1, res1, hm, hparents, hend⟩
    · rw [hs]
      exact h
    simp only [Attached, attached, hm, hparents, Bool.and_eq_true] at hC
    rcases hend with ⟨hbad, _⟩ | ⟨_, hdeleted⟩
    -- The loop over the children does not fail, and the parent can be read after it.
    · have hkids : ∀ c ∈ order.list m.children, IsCanonical c := by
        intro c hc
        rcases (h.children id m c hm).mp ((order.perm m.children).mem_iff.mp hc) with
          ⟨d, hd, _⟩
        rcases isSome_iff.mp (h.stored c d hd).1 with ⟨mc, hmc⟩
        exact h.canonical c mc hmc
      rcases deleteParents_ok hfs _ h.fsOk hkids hC.1 hparents with ⟨hres, hok1, _⟩
      rcases hbad with ⟨e, he⟩ | hpanic
      · simp [hres] at he
      · exact absurd hpanic (getParent_no_panic hfs hok1 (h.canonical id m hm))
    · exact linked_deleted hfs h hm hparents hC.1 hC.2 hdeleted
  | setParent id parent res hset =>
    rcases setParent_cases p hset with hs | ⟨m, res1, fs', hm, hwrite, hs⟩
    · rw [hs]
      exact h
    rw [hs]
    simp only [Attached, attached, hm, hwrite, Bool.and_eq_true] at hC
    cases res1 with
    | error e => nomatch hC.2
    | ok u => exact linked_setParent hfs h hC.1 (isSome_iff.mpr ⟨m, hm⟩) hwrite

end Steps

section Restore

variable {φ ψ η : Type} {p : Ports φ ψ η} {v : FsView φ}

theorem lookup_fillChildren (fs : φ) (ids : List ID) :
    ∀ (images : AMap ID (ImageMeta η)) (q : ID) (m' : ImageMeta η),
      (fillChildren p fs ids images).lookup q = some m' →
      ∃ m, images.lookup q = some m ∧
        ∀ c, c ∈ m'.children ↔ c ∈ m.children ∨ (c ∈ ids ∧ getParent p c fs = .ok q) := by
  induction ids with
  | nil =>
    intro images q m' h
    refine ⟨m', h, fun c => ?_⟩
    simp
  | cons x ids ih =>
    intro images q m' h
    rcases ih _ q m' h with ⟨m1, hm1, hmem⟩
    -- An image without a stored parent is entered with no other.
    cases hx : getParent p x fs with
    | error e =>
      simp only [hx] at hm1
      refine ⟨m1, hm1, fun c => ?_⟩
      rw [hmem c, mem_cons]
      by_cases hc : c = x
      · simp [hc, hx]
      · simp [hc]
    | ok parent =>
      simp only [hx] at hm1
      rw [lookup_addChild, map_eq_some_iff] at hm1
      rcases hm1 with ⟨m, hm, hm1⟩
      refine ⟨m, hm, fun c => ?_⟩
      rw [hmem c, ← hm1, mem_cons]
      by_cases hq : q = parent
      · rw [if_pos hq, mem_insert_iff]
        by_cases hc : c = x
        · simp [hc, hx, hq]
        · simp [hc]
      · rw [if_neg hq]
        by_cases hc : c = x
        · have hne : ¬ (Except.ok parent : Except Fault ID) = .ok q := by
            rw [Except.ok.injEq]
            exact fun heq => hq heq.symm
          simp [hc, hx, hne]
        · simp [hc]

/-- What is stored as a parent belongs to an image of the store and names
    one. -/
def Tidy (v : FsView φ) (fs : φ) (is : Store η) : Prop :=
  ∀ c d, v.parentData fs c = some d → (is.images.lookup c).isSome = true ∧
    (is.images.lookup (ofUtf8 d)).isSome = true

variable (hfs : FsContract p.fs v)
include hfs

theorem restoreImages_entries {fs : φ} (hok : v.ok fs) :
    ∀ (ids : List ID) (is is' : Store η) (lw lw' : ψ), (∀ id ∈ ids, validate id = .ok ()) →
      restoreImages p fs ids is lw = (.ok is', lw') →
      (∀ id m, is'.images.lookup id = some m → is.images.lookup id = some m ∨
        m.children = [] ∧ ∃ rfs, HasConfig p v fs id rfs) ∧
      ∀ id, (is.images.lookup id).isSome = true ∨ (id ∈ ids ∧ ∃ rfs, HasConfig p v fs id rfs) →
        (is'.images.lookup id).isSome = true := by
  intro ids
  induction ids with
  | nil =>
    intro is is' lw lw' _ h
    cases h
    refine ⟨fun id m hm => .inl hm, fun id hid => ?_⟩
    rcases hid with hid | ⟨hid, _⟩
    · exact hid
    · nomatch hid
  | cons x ids ih =>
    intro is is' lw lw' hval h
    simp only [restoreImages] at h
    rcases hone : restoreImage p x is fs lw with ⟨r, lw1⟩
    rw [hone] at h
    have hval' : ∀ id ∈ ids, validate id = .ok () :=
      fun id hid => hval id (mem_cons_of_mem _ hid)
    -- What cannot be read is passed over, a layer that is missing ends the walk.
    rcases restoreImage_cases hfs hok (hval x mem_cons_self) hone with
      ⟨hno, hr, _⟩ | ⟨rfs, hconf, ⟨e, hr, _⟩ | ⟨l, ds, _, _, hr⟩⟩
    · rw [hr] at h
      rcases ih is is' lw1 lw' hval' h with ⟨h1, h2⟩
      refine ⟨h1, fun id hid => h2 id ?_⟩
      rcases hid with hid | ⟨hid, rfs, hrfs⟩
      · exact .inl hid
      rcases mem_cons.mp hid with hx | hid
      · rw [hx] at hrfs
        exact absurd hrfs (hno rfs)
      · exact .inr ⟨hid, rfs, hrfs⟩
    · simp [hr] at h
    · rw [hr] at h
      rcases ih _ is' lw1 lw' hval' h with ⟨h1, h2⟩
      refine ⟨fun id m hm => ?_, fun id hid => h2 id ?_⟩
      · rcases h1 id m hm with hm | hm
        · rcases AMap.lookup_insert_cases hm with ⟨_, hold⟩ | ⟨rfl, rfl⟩
          · exact .inl hold
          · exact .inr ⟨rfl, rfs, hconf⟩
        · exact .inr hm
      · by_cases hx : id = x
        · left
          rw [hx, lookup_insert, isSome_some]
        rcases hid with hid | ⟨hid, hrest⟩
        · left
          rw [lookup_insert_ne hx]
          exact hid
        · exact .inr ⟨(mem_cons.mp hid).resolve_left hx, hrest⟩

/-- `NewImageStore` restores the images that can be read, with the children
    their stored parents give. -/
theorem newImageStore_entries {order : Order} {fs : φ} {lw lw' : ψ} {is : Store η} (hok : v.ok fs)
    (h : newImageStore p order fs lw = (.ok is, lw')) :
    (∀ id, (is.images.lookup id).isSome = true ↔ ∃ rfs, HasConfig p v fs id rfs) ∧
      ∀ q m c, is.images.lookup q = some m →
        (c ∈ m.children ↔ (is.images.lookup c).isSome = true ∧ getParent p c fs = .ok q) := by
  rcases hfs.walk fs hok with ⟨ids, hwalk, _, hval, hall⟩
  unfold newImageStore at h
  rw [hwalk] at h
  simp only at h
  rcases hres : restoreImages p fs ids .empty lw with ⟨r, lw1⟩
  rw [hres] at h
  rcases r with e | is1
  · nomatch h
  simp only [Prod.mk.injEq, Except.ok.injEq] at h
  rcases restoreImages_entries hfs hok ids .empty is1 lw lw1 hval hres with ⟨h1, h2⟩
  have hentry : ∀ id m, is1.images.lookup id = some m →
      m.children = [] ∧ ∃ rfs, HasConfig p v fs id rfs := by
    intro id m hm
    rcases h1 id m hm with hm | hm
    · simp [Store.empty] at hm
    · exact hm
  -- Filling in the children neither enters nor removes an image.
  have hsame : ∀ q, (is.images.lookup q).isSome = (is1.images.lookup q).isSome := by
    intro q
    have hl := layerOf_fillChildren fs (order.list is1.images.keys) q is1.images (p := p)
    rw [layerOf, layerOf] at hl
    rw [← h.1, ← isSome_map (f := ImageMeta.layer), hl, isSome_map]
  refine ⟨fun id => ?_, fun q m c hm => ?_⟩
  · rw [hsame]
    constructor
    · intro hid
      rcases isSome_iff.mp hid with ⟨m, hm⟩
      exact (hentry id m hm).2
    · rintro ⟨rfs, hrfs⟩
      have hrfs' := hrfs
      rcases hrfs with ⟨config, _, hcontent, _⟩
      exact h2 id (.inr ⟨hall id config hcontent, rfs, hrfs'⟩)
  · rw [← h.1] at hm
    rcases lookup_fillChildren fs _ _ q m hm with ⟨m0, hm0, hmem⟩
    have hkeys : c ∈ is1.images.keys ↔ (is1.images.lookup c).isSome = true :=
      mem_keys.symm.trans lookup_isSome.symm
    rw [hmem, (hentry q m0 hm0).1, (order.perm _).mem_iff, hkeys, hsame]
    simp

theorem newImageStore_linked {order : Order} {fs : φ} {lw lw' : ψ} {is : Store η} (hok : v.ok fs)
    (h : newImageStore p order fs lw = (.ok is, lw')) (htidy : Tidy v fs is) :
    Linked v ⟨is, fs, lw', []⟩ := by
  rcases newImageStore_entries hfs hok h with ⟨himages, hchildren⟩
  have hcontent : ∀ c, (is.images.lookup c).isSome = true → (v.content fs c).isSome = true := by
    intro c hc
    rcases (himages c).mp hc with ⟨rfs, config, _, hconf, _⟩
    rw [hconf, isSome_some]
  refine ⟨hok, fun id m hm => ?_, nofun, fun c d hd => ?_,
    fun q m c hm => ?_⟩
  · rcases (himages id).mp (isSome_iff.mpr ⟨m, hm⟩) with ⟨rfs, hrfs⟩
    exact canonical_of_hasConfig hfs hok hrfs
  · rcases htidy c d hd with ⟨h1, h2⟩
    exact ⟨h1, h2, hcontent c h1⟩
  · rw [hchildren q m c hm, getParent_ok hfs hok]
    constructor
    · exact fun hc => hc.2.2
    · rintro ⟨d, hd, hdq⟩
      have hc := (htidy c d hd).1
      exact ⟨hc, hcontent c hc, d, hd, hdq⟩

end Restore

section Runs

variable {φ ψ η : Type} {p : Ports φ ψ η} {v : FsView φ}

/-- An image is a child of another when both are in the store and the second
    is the stored parent of the first. -/
theorem child_iff (hfs : FsContract p.fs v) {s : Sys φ ψ η} (h : Linked v s) (parent c : ID) :
    (∃ m, s.store.images.lookup parent = some m ∧ c ∈ m.children) ↔
      (s.store.images.lookup parent).isSome = true ∧ (s.store.images.lookup c).isSome = true ∧
        getParent p c s.fs = .ok parent := by
  rw [getParent_ok hfs h.fsOk]
  constructor
  · rintro ⟨m, hm, hc⟩
    rcases (h.children parent m c hm).mp hc with ⟨d, hd, hdp⟩
    rcases h.stored c d hd with ⟨h1, _, h3⟩
    exact ⟨isSome_iff.mpr ⟨m, hm⟩, h1, h3, d, hd, hdp⟩
  · rintro ⟨hp, _, _, hd⟩
    rcases isSome_iff.mp hp with ⟨m, hm⟩
    exact ⟨m, hm, (h.children parent m c hm).mpr hd⟩

/-- In every run in which `SetParent` is called on images of the store and the
    writes of `SetParent` and `Delete` succeed, the children of an image are
    the images whose stored parent it is. -/
theorem run_linked (hfs : FsContract p.fs v) (order : Order) (fs : φ) (lw lw' : ψ)
    (is : Store η) (hok : v.ok fs) (hnew : newImageStore p order fs lw = (.ok is, lw'))
    (htidy : Tidy v fs is) (as : List Action)
    (hmeets : Meets (step p) (Attached p) as ⟨is, fs, lw', []⟩) (rs : List (Option Answer))
    (s : Sys φ ψ η) (hrun : run (step p) as ⟨is, fs, lw', []⟩ = .ok (rs, s)) (parent c : ID) :
    (∃ m, s.store.images.lookup parent = some m ∧ c ∈ m.children) ↔
      (s.store.images.lookup parent).isSome = true ∧ (s.store.images.lookup c).isSome = true ∧
        getParent p c s.fs = .ok parent :=
  child_iff hfs (run_invariant_of_meets (Attached p) (Linked v) (step_linked hfs) as _ s rs
    (newImageStore_linked hfs hok hnew htidy) hmeets hrun) parent c

end Runs

theorem emptyFiles_parentData (c : ID) : (fsView []).parentData emptyFiles c = none := by
  by_cases hcan : IsCanonical c
  · rcases hcan with ⟨hx, hc, hhex⟩
    rw [hc, parentData_hex [] hhex]
    rfl
  · exact parentData_noncanonical [] hcan emptyFiles

/-- The image store of a daemon whose writes fail as a script says. -/
def faultyPorts :
    Ports (List Bool × Node Bytes) (LayerStore × FileWorld (List Str)) (ChainID × Nat) :=
  { fs := idPorts.fs.faulty, ls := idPorts.ls, unmarshal := idPorts.unmarshal }

/-- Where it starts: the first write fails. -/
def faultySys : Sys (List Bool × Node Bytes) (LayerStore × FileWorld (List Str)) (ChainID × Nat) :=
  ⟨.empty, ([true], emptyFiles), (aLayerStore, emptyWorld), []⟩

/-- A `Create` that fails, two that do not, and a parent that is set, changed
    and deleted. -/
def adoptTwo : List Action :=
  [.create [0], .create [0], .createLocked 0, .create [1], .createLocked 0,
    .setParent (fromBytes [1]) (fromBytes [0]),
    .setParent (fromBytes [1]) (fromBytes [1]),
    .setParent (fromBytes [1]) (fromBytes [0]),
    .delete (fromBytes [0]) idOrder]

theorem run_linked_two : ∃ rs s, run (step faultyPorts) adoptTwo faultySys = .ok (rs, s) ∧
    ∀ parent c, (∃ m, s.store.images.lookup parent = some m ∧ c ∈ m.children) ↔
      (s.store.images.lookup parent).isSome = true ∧ (s.store.images.lookup c).isSome = true ∧
        getParent faultyPorts c s.fs = .ok parent := by
  have hok : (run (step faultyPorts) adoptTwo faultySys).isOk = true := by decide +kernel
  have hmeets : Meets (step faultyPorts) (Attached faultyPorts) adoptTwo faultySys := by
    decide +kernel
  have hnew : newImageStore faultyPorts idOrder faultySys.fs faultySys.layers =
      (.ok faultySys.store, faultySys.layers) := rfl
  have htidy : Tidy (fsView []).faulty faultySys.fs faultySys.store := by
    intro c d hd
    simp [FsView.faulty, faultySys, emptyFiles_parentData] at hd
  rcases exists_run hok with ⟨rs, s, hrun⟩
  exact ⟨rs, s, hrun, run_linked (faulty_contract (fs_contract not_mem_nil)) idOrder
    faultySys.fs faultySys.layers faultySys.layers faultySys.store emptyFiles_ok hnew htidy
    adoptTwo hmeets rs s hrun⟩

/-- `SetParent` of an ID the store does not have: it returns an error, and the
    ID is a child of the parent all the same. -/
theorem stranger_adopted : (run (step idPorts) [.create [0], .createLocked 0,
      .setParent (fromBytes [1]) (fromBytes [0])] idSys).toOption.map (fun out =>
        (((out.2.store.images.lookup (fromBytes [0])).map ImageMeta.children).getD [] =
            [fromBytes [1]] : Bool)) = some true ∧
    (run (step idPorts) [.create [0], .createLocked 0,
      .setParent (fromBytes [1]) (fromBytes [0])] idSys).toOption.map (fun out =>
        ((out.2.store.images.lookup (fromBytes [1])).isSome,
          (getParent idPorts (fromBytes [1]) out.2.fs).isOk)) = some (false, false) := by
  decide +kernel

end Dao.Image
