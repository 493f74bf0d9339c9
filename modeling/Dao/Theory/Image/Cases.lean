import Dao.Core.Image.Store

/-!
# What a Step of the Image Store Can Do

Each operation of the image store taken apart once: the branches it can take,
with what it asked of the backends and the state it leaves. The invariants of
the store are proved from these and do not look into the operations again.

Children are edited in place, so an edit is described by what it makes of the
entry of every image. It never touches the layer of one, which `layerOf`
says.

## Theorems

* `step_cases`: The cases of a step.
-/

namespace Dao.Image

open Lib Layer Except Function Option AList

variable {φ ψ η : Type}

/-- The layer field of an image, if there is such an image. -/
def layerOf (images : AMap ID (ImageMeta η)) (id : ID) : Option (Option η) :=
  (images.lookup id).map ImageMeta.layer

variable (images : AMap ID (ImageMeta η)) (id q : ID)

theorem lookup_edit (f : ImageMeta η → ImageMeta η) :
    (match images.lookup id with
      | none => images
      | some m => images.insert id (f m)).lookup q =
      (images.lookup q).map (fun m => if q = id then f m else m) := by
  by_cases hq : q = id
  · rw [hq]
    cases hm : images.lookup id with
    | none => simp [hm]
    | some m => simp
  · simp only [if_neg hq, map_id']
    cases images.lookup id with
    | none => rfl
    | some m => exact lookup_insert_ne hq

theorem lookup_addChild (parent : ID) :
    (addChild parent id images).lookup q = (images.lookup q).map (fun m =>
      if q = parent then { m with children := m.children.insert id } else m) :=
  lookup_edit images parent q _

theorem lookup_detach (parent : Except Fault ID) :
    (detach id parent images).lookup q = (images.lookup q).map (fun m =>
      if parent = .ok q then { m with children := m.children.filter (fun c => decide (c ≠ id)) }
      else m) := by
  rcases parent with e | p
  · simp [detach]
  refine (lookup_edit images p q _).trans ?_
  by_cases hq : q = p
  · simp only [hq, if_true]
  have hne : ¬ (ok p : Except Fault ID) = .ok q := by
    rw [ok.injEq]
    exact fun hc => hq hc.symm
  simp only [if_neg hq, if_neg hne]

theorem layerOf_addChild (parent : ID) :
    layerOf (addChild parent id images) q = layerOf images q := by
  rw [layerOf, layerOf, lookup_addChild, map_map]
  congr 1
  ext1 m
  by_cases hq : q = parent
  · simp [if_pos hq]
  · simp [if_neg hq]

theorem layerOf_detach (parent : Except Fault ID) :
    layerOf (detach id parent images) q = layerOf images q := by
  rw [layerOf, layerOf, lookup_detach, map_map]
  congr 1
  ext1 m
  by_cases hq : parent = .ok q
  · simp [if_pos hq]
  · simp [if_neg hq]

theorem layerOf_insert (m : ImageMeta η) :
    layerOf (images.insert id m) = update (layerOf images) id (some m.layer) := by
  ext1 q
  by_cases hq : q = id
  · rw [hq, update_self, layerOf, lookup_insert, map_some]
  · rw [update_of_ne hq, layerOf, lookup_insert_ne hq, layerOf]

theorem layerOf_erase : layerOf (images.erase id) = update (layerOf images) id none := by
  ext1 q
  by_cases hq : q = id
  · rw [hq, update_self, layerOf, lookup_erase, map_none]
  · rw [update_of_ne hq, layerOf, lookup_erase_ne hq, layerOf]

variable {images id}

theorem layerOf_eq_some {l : Option η} :
    layerOf images id = some l ↔ ∃ m, images.lookup id = some m ∧ m.layer = l := by
  rw [layerOf, map_eq_some_iff]

variable (p : Ports φ ψ η)

theorem takeLayer_cases {c : ChainID} {lw lw' : ψ} {r : Except Fault (Option η)}
    (h : takeLayer p c lw = (r, lw')) :
    (c = [] ∧ r = .ok none ∧ lw' = lw) ∨
      (c ≠ [] ∧ ((∃ e, r = .error e ∧ p.ls.get c lw = (.error e, lw')) ∨
        ∃ l, r = .ok (some l) ∧ p.ls.get c lw = (.ok l, lw'))) := by
  unfold takeLayer at h
  by_cases hc : c = []
  · rw [if_pos hc, Call.pure_apply] at h
    cases h
    exact .inl ⟨hc, rfl, rfl⟩
  rw [if_neg hc, Call.bind_apply] at h
  refine .inr ⟨hc, ?_⟩
  rcases hget : p.ls.get c lw with ⟨res, lw1⟩
  rw [hget] at h
  cases res with
  | error e =>
    cases h
    exact .inl ⟨e, rfl, rfl⟩
  | ok l =>
    cases h
    exact .inr ⟨l, rfl, rfl⟩

/-- `Create` up to the lock is refused before it writes, or writes. -/
theorem createSet_cases {config : Bytes} {fs fs' : φ} {r : Except Fault Pending}
    (h : createSet p config fs = (r, fs')) :
    ((∃ e, r = .error e) ∧ fs' = fs) ∨ ∃ img rfs, p.unmarshal config = .ok img ∧
      img.rootFS = some rfs ∧
      ((∃ e, r = .error e ∧ p.fs.set config fs = (.error e, fs')) ∨
        ∃ id, r = .ok ⟨id, rfs.chainID⟩ ∧ p.fs.set config fs = (.ok id, fs')) := by
  unfold createSet at h
  -- The three refusals come before the write.
  rcases himg : p.unmarshal config with e | img
  · rw [himg] at h
    cases h
    exact .inl ⟨⟨_, rfl⟩, rfl⟩
  rw [himg] at h
  simp only at h
  rcases hrfs : img.rootFS with _ | rfs
  · rw [hrfs] at h
    cases h
    exact .inl ⟨⟨_, rfl⟩, rfl⟩
  rw [hrfs] at h
  simp only at h
  by_cases hmany : nonEmptyLayers img > rfs.diffIDs.length
  · rw [if_pos hmany] at h
    cases h
    exact .inl ⟨⟨_, rfl⟩, rfl⟩
  rw [if_neg hmany] at h
  refine .inr ⟨img, rfs, rfl, hrfs, ?_⟩
  rcases hset : p.fs.set config fs with ⟨res, fs1⟩
  rw [hset] at h
  cases res with
  | error e =>
    cases h
    exact .inl ⟨e, rfl, rfl⟩
  | ok id =>
    cases h
    exact .inr ⟨id, rfl, rfl⟩

/-- `Create` from the lock on, with an ID that is a digest. -/
theorem createLocked_cases {c : Pending} {is is' : Store η} {lw lw' : ψ} {r : Answer}
    (hval : Digest.validate c.imageID = .ok ()) (h : createLocked p c is lw = (r, is', lw')) :
    ((∃ m, is.images.lookup c.imageID = some m) ∧ is' = is ∧ lw' = lw) ∨
    (is.images.lookup c.imageID = none ∧ is' = is ∧
      ∃ e, takeLayer p c.layerID lw = (.error e, lw')) ∨
    (is.images.lookup c.imageID = none ∧ ∃ l digestSet,
      takeLayer p c.layerID lw = (.ok l, lw') ∧ is.digestSet.add c.imageID = .ok digestSet ∧
      is' = ⟨is.images.insert c.imageID ⟨l, []⟩, digestSet⟩) := by
  unfold createLocked at h
  cases hm : is.images.lookup c.imageID with
  | some m =>
    rw [hm] at h
    cases h
    exact .inl ⟨⟨m, rfl⟩, rfl, rfl⟩
  | none =>
    rw [hm] at h
    rcases htake : takeLayer p c.layerID lw with ⟨res, lw1⟩
    rw [htake] at h
    cases res with
    | error e =>
      cases h
      exact .inr (.inl ⟨rfl, rfl, e, rfl⟩)
    | ok l =>
      -- The ID is a digest, so the digest set does not refuse it.
      rcases Digest.DigestSet.add_of_validate is.digestSet hval with ⟨ds, hds⟩
      simp only [hds] at h
      cases h
      exact .inr (.inr ⟨rfl, l, ds, rfl, hds, rfl⟩)

/-- The state `Delete` leaves when it has run to its end, `fs₁` being the
    files after the metadata of the children is gone. -/
structure Deleted (id : ID) (m : ImageMeta η) (fs₁ : φ) (s s' : Sys φ ψ η) : Prop where
  images : s'.store.images = (detach id (getParent p id fs₁) s.store.images).erase id
  digestSet : s'.store.digestSet = forget s.store.digestSet id
  fs : ∃ res, p.fs.delete id fs₁ = (res, s'.fs)
  layers : (∃ fs₂, p.fs.delete id fs₁ = (.error .panic, fs₂)) ∧ s'.layers = s.layers ∨
    s'.layers = (releaseImage p m.layer s.layers).2
  pending : s'.pending = s.pending

variable {s s' : Sys φ ψ η}

/-- `Delete` finds no image, or panics at the metadata, or runs to its end. -/
theorem delete_cases {id : ID} {order : Order} {r : Answer} (h : delete p id order s = (r, s')) :
    (s.store.images.lookup id = none ∧ s' = s) ∨ ∃ m fs1 res, s.store.images.lookup id = some m ∧
      deleteParents p (order.list m.children) s.fs = (res, fs1) ∧
      (((∃ e, res = .error e) ∨ getParent p id fs1 = .error .panic) ∧ s' = { s with fs := fs1 } ∨
        res = .ok () ∧ Deleted p id m fs1 s s') := by
  unfold delete at h
  rcases hm : s.store.images.lookup id with _ | m
  · rw [hm] at h
    cases h
    exact .inl ⟨rfl, rfl⟩
  rw [hm] at h
  simp only at h
  right
  rcases hdel : deleteParents p (order.list m.children) s.fs with ⟨res, fs1⟩
  rw [hdel] at h
  refine ⟨m, fs1, res, rfl, hdel, ?_⟩
  rcases res with e | u
  · cases h
    exact .inl ⟨.inl ⟨e, rfl⟩, rfl⟩
  -- The parent is read after the loop, and a panic there leaves the image.
  simp only at h
  split at h
  · next hpanic =>
    cases h
    exact .inl ⟨.inr hpanic, rfl⟩
  right
  refine ⟨rfl, ?_⟩
  split at h
  · next hpanic =>
    cases h
    exact ⟨rfl, rfl, ⟨_, hpanic⟩, .inl ⟨⟨_, hpanic⟩, rfl⟩, rfl⟩
  · next _ hend =>
    cases h
    exact ⟨rfl, rfl, ⟨_, hend⟩, .inr rfl, rfl⟩

/-- `SetParent` finds no parent, or panics, or edits the children and writes
    the metadata. -/
theorem setParent_cases {id parent : ID} {r : Answer} (h : setParent p id parent s = (r, s')) :
    s' = s ∨ ∃ m res fs', s.store.images.lookup parent = some m ∧
      p.fs.setMetadata id parentKey (utf8 parent) s.fs = (res, fs') ∧
      s' = { s with
        store := { s.store with
          images := addChild parent id (detach id (getParent p id s.fs) s.store.images) },
        fs := fs' } := by
  unfold setParent at h
  rcases hm : s.store.images.lookup parent with _ | m
  · rw [hm] at h
    cases h
    exact .inl rfl
  rw [hm] at h
  simp only at h
  split at h
  · cases h
    exact .inl rfl
  right
  rcases hset : p.fs.setMetadata id parentKey (utf8 parent) s.fs with ⟨res, fs'⟩
  rw [hset] at h
  refine ⟨m, res, fs', rfl, rfl, ?_⟩
  cases res with
  | error e | ok u =>
    cases h
    exact rfl

/-- What an action does to the system. -/
inductive Action.Does (s s' : Sys φ ψ η) : Action → Prop
  | rejected (config : Bytes) (e : Fault) (fs' : φ)
      (h : createSet p config s.fs = (.error e, fs')) (hs : s' = { s with fs := fs' }) :
      Does s s' (.create config)
  | written (config : Bytes) (c : Pending) (fs' : φ)
      (h : createSet p config s.fs = (.ok c, fs'))
      (hs : s' = { s with fs := fs', pending := s.pending ++ [c] }) :
      Does s s' (.create config)
  | nothing (i : Nat) (h : s.pending[i]? = none) (hs : s' = s) : Does s s' (.createLocked i)
  | locked (i : Nat) (c : Pending) (r : Answer) (store : Store η) (layers : ψ)
      (hc : s.pending[i]? = some c)
      (h : Image.createLocked p c s.store s.layers = (r, store, layers))
      (hs : s' = { s with store := store, layers := layers, pending := s.pending.eraseIdx i }) :
      Does s s' (.createLocked i)
  | delete (id : ID) (order : Order) (r : Answer) (h : Image.delete p id order s = (r, s')) :
      Does s s' (.delete id order)
  | setParent (id parent : ID) (r : Answer) (h : Image.setParent p id parent s = (r, s')) :
      Does s s' (.setParent id parent)

theorem step_cases {a : Action} {r : Option Answer}
    (h : step p a s = .ok (r, s')) : a.Does p s s' := by
  cases a with
  | create config =>
    simp only [step] at h
    rcases hset : createSet p config s.fs with ⟨res, fs'⟩
    rw [hset] at h
    cases res with
    | error e =>
      cases h
      exact .rejected config e fs' hset rfl
    | ok c =>
      cases h
      exact .written config c fs' hset rfl
  | createLocked i =>
    simp only [step] at h
    cases hc : s.pending[i]? with
    | none =>
      rw [hc] at h
      cases h
      exact .nothing i hc rfl
    | some c =>
      rw [hc] at h
      cases h
      exact .locked i c _ _ _ hc rfl rfl
  | delete id order =>
    cases h
    exact .delete id order (Image.delete p id order s).1 (rfl)
  | setParent id parent =>
    cases h
    exact .setParent id parent (Image.setParent p id parent s).1 (rfl)

end Dao.Image
