import Dao.Theory.Layer.Interleaving

/-!
# Loading a Store

What `NewStoreFromGraphDriver` builds, when the metadata it reads is
consistent and answers the same question the same way throughout the load.

The load is recursive through parents while the counts are taken only in the
outer loop. A layer can therefore enter the map in two ways, at its own turn
or through a child, and is counted against its parent in one. `Loading` is
the invariant that holds in the middle: a layer's count is the number of its
children among the ids whose turn has passed. What makes it an invariant is
`settled`, that an id which failed at its turn will not enter later. That is
where stable reads are used, and without them it is false.

A chain that can be read is described by `Readable`, independently of the
store, so that "the map holds exactly the readable layers" does not depend on
the order in which ids are listed.

## Theorems

* `newStore_loading`: What a load leaves.
* `newStore_mono`: More fuel does not change it.
-/

namespace Dao.Layer

open Lib LayerStore Except AList List

variable {ω τ : Type}

/-- Every read has one answer for as long as the world stays in `W`, which it
    does under reads. -/
structure StableReads (b : Backend ω τ) (W : ω → Prop)
    (layers : ChainID → Except Str (LayerInfo × ChainID))
    (mounts : Str → Except Str (Str × Str × ChainID)) : Prop where
  readLayer : ∀ w c, W w → ∃ w', readLayer b c w = (layers c, w') ∧ W w'
  readMount : ∀ w n, W w → ∃ w', readMount b n w = (mounts n, w') ∧ W w'

/-- A listing is consistent with what is read: no id is listed twice, the
    parents of layers and of mounts are listed, and a parent has a smaller
    rank than its child. -/
structure Consistent (layers : ChainID → Except Str (LayerInfo × ChainID))
    (mounts : Str → Except Str (Str × Str × ChainID)) (ids : List ChainID) (names : List Str)
    (rank : ChainID → Nat) : Prop where
  nodup : ids.Nodup
  parent : ∀ c ∈ ids, ∀ i p, layers c = .ok (i, p) → p ≠ [] → p ∈ ids ∧ rank p < rank c
  mountParent : ∀ n ∈ names, ∀ mountID initID p, mounts n = .ok (mountID, initID, p) →
    p ≠ [] → p ∈ ids

/-- The layer's fields are the ones read for its chain ID, but for its
    identity, which is not persisted. -/
def ReadsAs (layers : ChainID → Except Str (LayerInfo × ChainID)) (i : LayerInfo)
    (parent : ChainID) : Prop :=
  ∃ j, layers i.chainID = .ok (j, parent) ∧ i = { j with ptr := i.ptr }

/-- A layer agrees with what is read, all the way down. -/
def Readable (layers : ChainID → Except Str (LayerInfo × ChainID)) : RoLayer → Prop
  | .base i => ReadsAs layers i []
  | .child i p => ReadsAs layers i p.chainID ∧ p.chainID ≠ [] ∧ Readable layers p

variable {c : ChainID} {i : LayerInfo} {l : RoLayer}

theorem readLayer_chainID {b : Backend ω τ} {w w' : ω} {p : ChainID}
    (h : readLayer b c w = (.ok (i, p), w')) : i.chainID = c ∧ i.ptr = 0 := by
  rcases Call.bind_eq_ok.mp h with ⟨diff, w1, _, h⟩
  rcases Call.bind_eq_ok.mp h with ⟨size, w2, _, h⟩
  rcases Call.bind_eq_ok.mp h with ⟨cacheID, w3, _, h⟩
  rcases Call.bind_eq_ok.mp h with ⟨parent, w4, _, h⟩
  rcases Call.bind_eq_ok.mp h with ⟨descriptor, w5, _, h⟩
  cases h
  exact ⟨rfl, rfl⟩

/-- A mount agrees with what is read, and its parent is readable. -/
def MountReadable (layers : ChainID → Except Str (LayerInfo × ChainID))
    (mounts : Str → Except Str (Str × Str × ChainID)) (m : MountedLayer) : Prop :=
  m.references = ∅ ∧
    match m.parent with
    | none => mounts m.name = .ok (m.mountID, m.initID, [])
    | some p => mounts m.name = .ok (m.mountID, m.initID, p.chainID) ∧ p.chainID ≠ [] ∧
        Readable layers p

/-- The children of `q` among the ids whose turn has passed. -/
def counted (ls : LayerStore) (done : List ChainID) (q : Nat) : Nat :=
  done.countP fun c => (ls.layerMap.lookup c).any (fun l => decide (l.parentPtr = some q))

/-- The invariant of the loops of `NewStoreFromGraphDriver`, when the turns of
    the ids `done` and of the names `seen` have passed. -/
structure Loading (layers : ChainID → Except Str (LayerInfo × ChainID))
    (mounts : Str → Except Str (Str × Str × ChainID)) (ids done : List ChainID)
    (seen : List Str) (ls : LayerStore) : Prop where
  key : ∀ c l, ls.layerMap.lookup c = some l → l.chainID = c
  fresh : ∀ c l, ls.layerMap.lookup c = some l → l.ptr < ls.nextPtr
  distinct : ∀ c d l k, ls.layerMap.lookup c = some l → ls.layerMap.lookup d = some k →
    l.ptr = k.ptr → l = k
  parentIn : ∀ c l p, ls.layerMap.lookup c = some l → l.parent = some p → InMap ls p
  mountParentIn : ∀ n m p, ls.mounts.lookup n = some m → m.parent = some p → InMap ls p
  mountKey : ∀ n m, ls.mounts.lookup n = some m → m.name = n
  listed : ∀ c l, ls.layerMap.lookup c = some l → c ∈ ids
  mountListed : ∀ n m, ls.mounts.lookup n = some m → n ∈ seen
  readable : ∀ c l, ls.layerMap.lookup c = some l → Readable layers l
  mountReadable : ∀ n m, ls.mounts.lookup n = some m → MountReadable layers mounts m
  settled : ∀ c ∈ done, ls.layerMap.lookup c = none → ∀ l, Readable layers l → l.chainID ≠ c
  mountSettled : ∀ n ∈ seen, ls.mounts.lookup n = none →
    ∀ m, MountReadable layers mounts m → m.name ≠ n
  handles : ∀ q, (ls.cells q).references = ∅
  count : ∀ c l, ls.layerMap.lookup c = some l →
    (ls.cells l.ptr).referenceCount = counted ls done l.ptr + mountsOn ls l.ptr

theorem loading_empty (layers : ChainID → Except Str (LayerInfo × ChainID))
    (mounts : Str → Except Str (Str × Str × ChainID)) (ids : List ChainID) :
    Loading layers mounts ids [] [] empty := by
  have hnone : ∀ c, empty.layerMap.lookup c = none := fun c => lookup_empty c
  have hmount : ∀ n, empty.mounts.lookup n = none := fun n => lookup_empty n
  refine ⟨?_, ?_, ?_, ?_, ?_, ?_, ?_, ?_, ?_, ?_, ?_, ?_, fun q => rfl, ?_⟩
  all_goals intro c
  all_goals simp only [hnone, hmount, reduceCtorEq, false_implies, implies_true, not_mem_nil]

theorem lookup_enter (ls : LayerStore) (l : RoLayer) (c : ChainID) :
    (ls.enter l).layerMap.lookup c =
      if c = l.chainID then some l else ls.layerMap.lookup c := by
  by_cases h : c = l.chainID
  · rw [if_pos h, h]
    exact lookup_insert _
  · rw [if_neg h]
    exact lookup_insert_ne h

variable {layers : ChainID → Except Str (LayerInfo × ChainID)}
  {mounts : Str → Except Str (Str × Str × ChainID)} {ids done : List ChainID} {seen : List Str}
  {ls : LayerStore}

theorem readable_chainID_eq (h : Readable layers l) : ∃ i p, layers l.chainID = .ok (i, p) := by
  cases l with
  | base i =>
    rcases h with ⟨j, hj, _⟩
    exact ⟨j, [], hj⟩
  | child i p =>
    rcases h.1 with ⟨j, hj, _⟩
    exact ⟨j, p.chainID, hj⟩

theorem loading_unused (h : Loading layers mounts ids done seen ls) (q : Nat)
    (hq : ls.nextPtr ≤ q) : counted ls done q + mountsOn ls q = 0 := by
  have hcounted : counted ls done q = 0 := by
    refine countP_eq_zero.mpr fun c _ hc => ?_
    rcases hl : ls.layerMap.lookup c with _ | l
    · simp [hl] at hc
    simp only [hl, Option.any_some, decide_eq_true_eq] at hc
    rcases Option.map_eq_some_iff.mp hc with ⟨p, hp, hpq⟩
    have := h.fresh _ _ (h.parentIn c l p hl hp)
    omega
  have hmounts : mountsOn ls q = 0 := by
    refine (AMap.count_eq_zero _ _).mpr fun n m hm => decide_eq_false (fun hc => ?_)
    rcases Option.map_eq_some_iff.mp hc with ⟨p, hp, hpq⟩
    have := h.fresh _ _ (h.mountParentIn n m p hm hp)
    omega
  omega

/-- Entering a readable layer on top of layers that are already there. Its
    own turn has not passed, since it would have been found settled. -/
theorem loading_enter (h : Loading layers mounts ids done seen ls) (hptr : l.ptr = ls.nextPtr)
    (hnone : ls.layerMap.lookup l.chainID = none) (hlisted : l.chainID ∈ ids)
    (hread : Readable layers l) (hp : ∀ p, l.parent = some p → InMap ls p) :
    Loading layers mounts ids done seen (ls.enter l) := by
  have hcases : ∀ c k, (ls.enter l).layerMap.lookup c = some k →
      (c = l.chainID ∧ k = l) ∨ ls.layerMap.lookup c = some k :=
    fun _ _ hk => AMap.lookup_insert_or hk
  have hkeep : ∀ k, InMap ls k → InMap (ls.enter l) k := by
    intro k hk
    rw [InMap, lookup_enter]
    by_cases hc : k.chainID = l.chainID
    · rw [InMap, hc, hnone] at hk
      cases hk
    · rw [if_neg hc]
      exact hk
  have hnotdone : l.chainID ∉ done := fun hc => h.settled _ hc hnone l hread rfl
  have hcounted : ∀ q, counted (ls.enter l) done q = counted ls done q := by
    intro q
    refine countP_congr fun c hc => ?_
    have hne : c ≠ l.chainID := fun heq => hnotdone (heq ▸ hc)
    rw [lookup_enter, if_neg hne]
  refine ⟨?_, ?_, ?_, ?_, fun n m p hm hmp => hkeep p (h.mountParentIn n m p hm hmp), h.mountKey,
    ?_, h.mountListed, ?_, h.mountReadable, ?_, h.mountSettled, ?_, ?_⟩
  · intro c k hk
    rcases hcases c k hk with ⟨rfl, rfl⟩ | hold
    · rfl
    · exact h.key c k hold
  · intro c k hk
    change k.ptr < ls.nextPtr + 1
    rcases hcases c k hk with ⟨_, rfl⟩ | hold
    · omega
    · exact Nat.lt_succ_of_lt (h.fresh c k hold)
  · intro c d k j hk hj hkj
    rcases hcases c k hk with ⟨_, rfl⟩ | hk' <;> rcases hcases d j hj with ⟨_, rfl⟩ | hj'
    · rfl
    · have := h.fresh d j hj'
      omega
    · have := h.fresh c k hk'
      omega
    · exact h.distinct c d k j hk' hj' hkj
  · intro c k p hk hkp
    rcases hcases c k hk with ⟨_, rfl⟩ | hold
    · exact hkeep p (hp p hkp)
    · exact hkeep p (h.parentIn c k p hold hkp)
  · intro c k hk
    rcases hcases c k hk with ⟨rfl, _⟩ | hold
    · exact hlisted
    · exact h.listed c k hold
  · intro c k hk
    rcases hcases c k hk with ⟨_, rfl⟩ | hold
    · exact hread
    · exact h.readable c k hold
  · intro c hc hcnone
    rw [lookup_enter] at hcnone
    by_cases heq : c = l.chainID
    · simp [if_pos heq] at hcnone
    · rw [if_neg heq] at hcnone
      exact h.settled c hc hcnone
  · intro q
    by_cases hq : q = l.ptr
    · simp [enter, setCell, hq]
    · simp only [enter, setCell, Function.update_of_ne hq]
      exact h.handles q
  · intro c k hk
    change _ = counted (ls.enter l) done k.ptr + mountsOn ls k.ptr
    rw [hcounted]
    rcases hcases c k hk with ⟨_, hkl⟩ | hold
    · -- Nothing can be on top of an object that is only now made.
      rw [hkl, loading_unused h l.ptr (by omega)]
      simp [enter, setCell]
    · have hne : k.ptr ≠ l.ptr := by
        have := h.fresh c k hold
        omega
      simp only [enter, setCell, Function.update_of_ne hne]
      exact h.count c k hold

/-- A readable layer is read with its parent's chain ID, and its parent is
    readable. -/
theorem readable_parent (h : Readable layers l) {parent : ChainID}
    (hread : layers l.chainID = .ok (i, parent)) (hne : parent ≠ []) :
    ∃ p, l.parent = some p ∧ p.chainID = parent ∧ Readable layers p := by
  cases l with
  | base j =>
    rcases h with ⟨k, hk, _⟩
    have heq : ok (i, parent) = ok (k, []) := hread.symm.trans hk
    cases heq
    exact absurd rfl hne
  | child j p =>
    rcases h with ⟨⟨k, hk, _⟩, _, hp⟩
    have heq : ok (i, parent) = ok (k, p.chainID) := hread.symm.trans hk
    cases heq
    exact ⟨p, rfl, rfl, hp⟩

/-- No readable layer has the chain ID. -/
def Unreadable (layers : ChainID → Except Str (LayerInfo × ChainID)) (c : ChainID) : Prop :=
  ∀ l, Readable layers l → l.chainID ≠ c

theorem unreadable_of_error {e : Str} (h : layers c = .error e) : Unreadable layers c := by
  intro l hl hc
  rcases readable_chainID_eq hl with ⟨i, p, hread⟩
  simp [hc, h] at hread

theorem unreadable_of_parent {c parent : ChainID} (h : layers c = .ok (i, parent))
    (hne : parent ≠ []) (hp : Unreadable layers parent) : Unreadable layers c := by
  intro l hl hc
  rw [← hc] at h
  rcases readable_parent hl h hne with ⟨p, _, hpc, hpr⟩
  exact hp p hpr hpc

section Load

variable {b : Backend ω τ} {W : ω → Prop} {names : List Str} {rank : ChainID → Nat}

/-- The layers whose rank is above that of `c` are the same in both stores,
    and so are the mounts. -/
def SameAbove (rank : ChainID → Nat) (c : ChainID) (ls ls' : LayerStore) : Prop :=
  (∀ d, rank c < rank d → ls'.layerMap.lookup d = ls.layerMap.lookup d) ∧ ls'.mounts = ls.mounts

theorem enter_loaded (rank : ChainID → Nat) (h : Loading layers mounts ids done seen ls)
    {c : ChainID} (hmem : c ∈ ids) (hnone : ls.layerMap.lookup c = none) (l : RoLayer)
    (hcid : l.chainID = c) (hptr : l.ptr = ls.nextPtr) (hread : Readable layers l)
    (hp : ∀ p, l.parent = some p → InMap ls p) :
    Loading layers mounts ids done seen (ls.enter l) ∧ (ls.enter l).layerMap.lookup c = some l ∧
      SameAbove rank c ls (ls.enter l) := by
  rw [← hcid] at hmem hnone ⊢
  refine ⟨loading_enter h hptr hnone hmem hread hp, ?_, fun d hd => ?_, rfl⟩
  · rw [lookup_enter, if_pos rfl]
  rw [lookup_enter, if_neg]
  intro heq
  rw [heq] at hd
  omega

theorem counted_append (ls : LayerStore) (done : List ChainID) (c : ChainID) (q : Nat) :
    counted ls (done ++ [c]) q = counted ls done q +
      if (ls.layerMap.lookup c).any (fun l => decide (l.parentPtr = some q)) then 1 else 0 := by
  rw [counted, countP_append, countP_singleton, counted]

/-- Counting a layer or a mount against its parent. -/
def retainOpt (ls : LayerStore) : Option RoLayer → LayerStore
  | none => ls
  | some p => ls.retain p

theorem retainOpt_cell (ls : LayerStore) (p : Option RoLayer) (q : Nat) :
    ((retainOpt ls p).cells q).references = (ls.cells q).references ∧
      ((retainOpt ls p).cells q).referenceCount = (ls.cells q).referenceCount +
        if p.map RoLayer.ptr = some q then 1 else 0 := by
  rcases p with _ | p
  · exact ⟨rfl, by simp [retainOpt]⟩
  by_cases hq : q = p.ptr
  · simp [retainOpt, retain, hq, update_self_cell]
  · have hne : ¬ p.ptr = q := fun heq => hq heq.symm
    simp [retainOpt, retain, update_other_cell _ _ _ _ hq, hne]

theorem retainOpt_eq (ls : LayerStore) (p : Option RoLayer) :
    retainOpt ls p = { ls with cells := (retainOpt ls p).cells } := by
  cases p <;> rfl

/-- The turn of an id passes: the count of the layer's parent, if there is a
    layer and it has one, goes up by one. -/
theorem loading_turn (h : Loading layers mounts ids done seen ls) (c : ChainID)
    (hsettled : ls.layerMap.lookup c = none → Unreadable layers c) (p : Option RoLayer)
    (hp : ∀ q, (ls.layerMap.lookup c).any (fun l => decide (l.parentPtr = some q)) =
      decide (p.map RoLayer.ptr = some q)) :
    Loading layers mounts ids (done ++ [c]) seen (retainOpt ls p) := by
  rw [retainOpt_eq]
  refine { h with
    settled := ?_, handles := fun q => (retainOpt_cell ls p q).1.trans (h.handles q), count := ?_ }
  · intro d hd hnone
    rcases mem_append.mp hd with hold | hnew
    · exact h.settled d hold hnone
    · rw [mem_singleton] at hnew
      rw [hnew] at hnone ⊢
      exact hsettled hnone
  · intro d l hl
    have hcounted := counted_append ls done c l.ptr
    simp only [hp, decide_eq_true_eq] at hcounted
    refine (retainOpt_cell ls p l.ptr).2.trans ?_
    rw [h.count d l hl]
    change _ = counted ls (done ++ [c]) l.ptr + mountsOn ls l.ptr
    omega

theorem accounted_of_loading (hnd : ids.Nodup) (h : Loading layers mounts ids ids seen ls) :
    Accounted ls (fun _ => 0) := by
  refine { h with heldIn := ?_, handle := ?_, count := ?_ }
  · intro q hq
    omega
  · intro q r hr
    rw [h.handles q] at hr
    simp at hr
  · intro c l hl
    have hchildren : counted ls ids l.ptr = children ls l.ptr :=
      AMap.countP_lookup _ _ ids hnd h.listed
    rw [h.count c l hl, hchildren, h.handles, Finset.card_empty]
    omega

theorem loading_mount (h : Loading layers mounts ids done seen ls) (m : MountedLayer)
    (hnone : ls.mounts.lookup m.name = none) (hread : MountReadable layers mounts m)
    (hp : ∀ p, m.parent = some p → InMap ls p) :
    Loading layers mounts ids done (seen ++ [m.name]) { retainOpt ls m.parent with
      mounts := (retainOpt ls m.parent).mounts.insert m.name m } := by
  have hcases : ∀ n k, (ls.mounts.insert m.name m).lookup n = some k →
      (n = m.name ∧ k = m) ∨ ls.mounts.lookup n = some k := fun _ _ hk => AMap.lookup_insert_or hk
  rw [retainOpt_eq]
  refine { h with
    mountParentIn := ?_, mountKey := ?_, mountListed := ?_, mountReadable := ?_, mountSettled := ?_
    handles := fun q => (retainOpt_cell ls m.parent q).1.trans (h.handles q), count := ?_ }
  · intro n k p hk hkp
    rcases hcases n k hk with ⟨_, rfl⟩ | hold
    · exact hp p hkp
    · exact h.mountParentIn n k p hold hkp
  · intro n k hk
    rcases hcases n k hk with ⟨rfl, rfl⟩ | hold
    · rfl
    · exact h.mountKey n k hold
  · intro n k hk
    rcases hcases n k hk with ⟨rfl, _⟩ | hold
    · exact mem_append_right _ (mem_singleton_self _)
    · exact mem_append_left _ (h.mountListed n k hold)
  · intro n k hk
    rcases hcases n k hk with ⟨_, rfl⟩ | hold
    · exact hread
    · exact h.mountReadable n k hold
  · intro n hn hnn
    by_cases heq : n = m.name
    · simp [heq] at hnn
    rw [lookup_insert_ne heq] at hnn
    rcases mem_append.mp hn with hold | hnew
    · exact h.mountSettled n hold hnn
    · exact absurd (mem_singleton.mp hnew) heq
  -- The mount is new, so its parent is counted once more on both sides.
  · intro c l hl
    have hins := AMap.count_insert_fresh (fun k => decide (k.parentPtr = some l.ptr)) ls.mounts
      m.name m hnone
    simp only [decide_eq_true_eq] at hins
    refine (retainOpt_cell ls m.parent l.ptr).2.trans ?_
    rw [h.count c l hl]
    change _ = counted ls done l.ptr +
      AMap.count (fun k => decide (k.parentPtr = some l.ptr)) (ls.mounts.insert m.name m)
    rw [hins, mountsOn, MountedLayer.parentPtr]
    omega

/-- A name whose mount cannot be read, or is there already, has its turn
    passed. -/
theorem loading_seen (h : Loading layers mounts ids done seen ls) (n : Str)
    (hn : ls.mounts.lookup n = none → ∀ m, MountReadable layers mounts m → m.name ≠ n) :
    Loading layers mounts ids done (seen ++ [n]) ls := by
  refine { h with
    mountListed := fun k m hm => mem_append_left _ (h.mountListed k m hm)
    mountSettled := fun k hk hnone => ?_ }
  rcases mem_append.mp hk with hold | hnew
  · exact h.mountSettled k hold hnone
  · rw [mem_singleton] at hnew
    rw [hnew] at hnone ⊢
    exact hn hnone

theorem mountReadable_read {m : MountedLayer} (h : MountReadable layers mounts m) :
    ∃ parent, mounts m.name = .ok (m.mountID, m.initID, parent) ∧
      (parent ≠ [] → ∃ p, m.parent = some p ∧ p.chainID = parent ∧ Readable layers p) := by
  rcases h with ⟨_, hread⟩
  cases hp : m.parent with
  | none =>
    rw [hp] at hread
    exact ⟨[], hread, fun hc => absurd rfl hc⟩
  | some p =>
    rw [hp] at hread
    exact ⟨p.chainID, hread.1, fun _ => ⟨p, rfl, rfl, hread.2.2⟩⟩

variable (hs : StableReads b W layers mounts) (hc : Consistent layers mounts ids names rank)
include hs hc

theorem loadLayer_loading : ∀ (fuel : Nat) (c : ChainID) (ls : LayerStore) (w : ω),
      Loading layers mounts ids done seen ls → c ∈ ids → rank c < fuel → W w →
      (∃ l ls' w', loadLayer b fuel c ls w = some (.ok l, ls', w') ∧ W w' ∧
        Loading layers mounts ids done seen ls' ∧ ls'.layerMap.lookup c = some l ∧
          SameAbove rank c ls ls') ∨
      (∃ e w', loadLayer b fuel c ls w = some (.error e, ls, w') ∧ W w' ∧
        ls.layerMap.lookup c = none ∧ Unreadable layers c) := by
  intro fuel
  -- The induction is on the fuel, which stays above the rank of the id.
  induction fuel with
  | zero => intro c ls w _ _ hr _; omega
  | succ fuel ih =>
    intro c ls w hl hmem hr hw
    unfold loadLayer
    rcases hs.readLayer w c hw with ⟨w1, hread, hw1⟩
    cases hlook : ls.layerMap.lookup c with
    | some l => exact .inl ⟨l, ls, w, rfl, hw, hl, hlook, fun d _ => rfl, rfl⟩
    | none =>
      rcases hlayer : layers c with e | r
      · rw [hlayer] at hread
        refine .inr ⟨e, w1, ?_, hw1, rfl, unreadable_of_error hlayer⟩
        simp [hread]
      rcases r with ⟨i, parent⟩
      rw [hlayer] at hread
      rcases readLayer_chainID hread with ⟨hic, _⟩
      simp only [hread]
      by_cases hparent : parent = []
      · rw [if_pos hparent]
        refine .inl ⟨_, _, w1, rfl, hw1, ?_⟩
        refine enter_loaded rank hl hmem hlook _ hic rfl ⟨i, ?_, rfl⟩ fun p hp => ?_
        · rw [← hparent, ← hlayer, ← hic]
        · simp [RoLayer.parent] at hp
      rw [if_neg hparent]
      rcases hc.parent c hmem i parent hlayer hparent with ⟨hpm, hrank⟩
      rcases ih parent ls w1 hl hpm (by omega) hw1 with
        ⟨p, ls', w', hload, hw', hl', hp, hsame⟩ | ⟨e, w', hload, hw', _, hun⟩
      · have hpc : p.chainID = parent := hl'.key parent p hp
        -- Loading the parent cannot have brought in the layer itself.
        have hnone : ls'.layerMap.lookup c = none := by
          rw [hsame.1 c hrank]
          exact hlook
        have hread' : Readable layers (.child { i with ptr := ls'.nextPtr } p) := by
          refine ⟨⟨i, ?_, rfl⟩, ?_, hl'.readable parent p hp⟩
          · rw [hpc, ← hlayer, ← hic]
          · rw [hpc]
            exact hparent
        have hin : ∀ q, some p = some q → InMap ls' q := by
          intro q hq
          cases hq
          rw [InMap, hpc]
          exact hp
        rcases enter_loaded rank hl' hmem hnone (.child { i with ptr := ls'.nextPtr } p)
          hic rfl hread' hin with ⟨hloading, hfound, habove⟩
        rw [hload]
        refine .inl ⟨_, _, w', rfl, hw', hloading, hfound, fun d hd => ?_, hsame.2⟩
        rw [habove.1 d hd, hsame.1 d (by omega)]
      · rw [hload]
        exact .inr ⟨e, w', rfl, hw', trivial, unreadable_of_parent hlayer hparent hun⟩

variable (fuel : Nat) (hfuel : ∀ c ∈ ids, rank c < fuel)
include hfuel

theorem loadLayers_loading :
    ∀ (rest done : List ChainID) (ls : LayerStore) (w : ω), (∀ c ∈ rest, c ∈ ids) →
      Loading layers mounts ids done seen ls → W w →
      ∃ ls' w', loadLayers b fuel rest ls w = some (ls', w') ∧ W w' ∧
        Loading layers mounts ids (done ++ rest) seen ls' := by
  intro rest
  induction rest with
  | nil =>
    intro done ls w _ h hw
    refine ⟨ls, w, rfl, hw, ?_⟩
    rw [append_nil]
    exact h
  | cons c rest ih =>
    intro done ls w hsub h hw
    have hcm := hsub c (mem_cons_self)
    have hrest : ∀ d ∈ rest, d ∈ ids := fun d hd => hsub d (mem_cons_of_mem c hd)
    have happ : done ++ c :: rest = (done ++ [c]) ++ rest := by
      rw [append_assoc, singleton_append]
    rw [happ]
    simp only [loadLayers]
    rcases loadLayer_loading hs hc fuel c ls w h hcm (hfuel c hcm) hw with
      ⟨l, ls', w', hload, hw', h', hl, _⟩ | ⟨e, w', hload, hw', hnone, hun⟩
    -- The layer was found or entered now, and its turn counts its parent either way.
    · have hsettled : ls'.layerMap.lookup c = none → Unreadable layers c := by
        intro hnone
        simp [hl] at hnone
      have hturn := loading_turn h' c hsettled l.parent fun q => by rw [hl]; rfl
      simp only [hload]
      cases hp : l.parent with
      | none =>
        rw [hp] at hturn
        exact ih (done ++ [c]) ls' w' hrest hturn hw'
      | some p =>
        rw [hp] at hturn
        exact ih (done ++ [c]) (ls'.retain p) w' hrest hturn hw'
    · simp only [hload]
      refine ih (done ++ [c]) ls w' hrest (loading_turn h c (fun _ => hun) none fun q => ?_) hw'
      rw [hnone]
      rfl

theorem loadMount_loading (name : Str) (hname : name ∈ names) (ls : LayerStore) (w : ω)
    (h : Loading layers mounts ids ids seen ls) (hw : W w) :
    ∃ ls' w', loadMount b fuel name ls w = some (ls', w') ∧ W w' ∧
      Loading layers mounts ids ids (seen ++ [name]) ls' := by
  unfold loadMount
  cases hm : ls.mounts.lookup name with
  | some m =>
    refine ⟨ls, w, rfl, hw, loading_seen h name fun hnone => ?_⟩
    simp [hm] at hnone
  | none =>
    rcases hs.readMount w name hw with ⟨w1, hread, hw1⟩
    simp only [hread]
    cases hmount : mounts name with
    | error e =>
      refine ⟨ls, w1, rfl, hw1, loading_seen h name fun _ k hk hkn => ?_⟩
      rcases mountReadable_read hk with ⟨parent, hkr, _⟩
      simp [hkn, hmount] at hkr
    | ok r =>
      rcases r with ⟨mountID, initID, parent⟩
      simp only
      by_cases hparent : parent = []
      · rw [if_pos hparent]
        rw [hparent] at hmount
        refine ⟨_, w1, rfl, hw1, loading_mount h ⟨name, mountID, initID, none, ∅⟩ hm
          ⟨rfl, hmount⟩ fun p hp => ?_⟩
        nomatch hp
      · rw [if_neg hparent]
        have hpm := hc.mountParent name hname mountID initID parent hmount hparent
        -- Loading the parent may enter layers, but no mount.
        rcases loadLayer_loading hs hc fuel parent ls w1 h hpm (hfuel parent hpm) hw1 with
          ⟨p, ls', w', hload, hw', h', hp, hsame⟩ | ⟨e, w', hload, hw', _, hun⟩
        · have hpc : p.chainID = parent := h'.key parent p hp
          have hm' : ls'.mounts.lookup name = none := by
            rw [hsame.2]
            exact hm
          have hread' : MountReadable layers mounts ⟨name, mountID, initID, some p, ∅⟩ := by
            refine ⟨rfl, ?_, ?_, h'.readable parent p hp⟩
            · rw [hpc]
              exact hmount
            · rw [hpc]
              exact hparent
          rw [hload]
          refine ⟨_, w', rfl, hw', loading_mount h' _ hm' hread' fun q hq => ?_⟩
          cases hq
          rw [InMap, hpc]
          exact hp
        · rw [hload]
          refine ⟨ls, w', rfl, hw', loading_seen h name fun _ k hk hkn => ?_⟩
          rcases mountReadable_read hk with ⟨parent', hkr, hkp⟩
          rw [hkn, hmount] at hkr
          simp only [ok.injEq, Prod.mk.injEq] at hkr
          rw [← hkr.2.2] at hkp
          rcases hkp hparent with ⟨p, _, hpc, hpr⟩
          exact hun p hpr hpc

theorem loadMounts_loading :
    ∀ (rest seen : List Str) (ls : LayerStore) (w : ω), (∀ n ∈ rest, n ∈ names) →
      Loading layers mounts ids ids seen ls → W w →
      ∃ ls' w', loadMounts b fuel rest ls w = some (ls', w') ∧ W w' ∧
        Loading layers mounts ids ids (seen ++ rest) ls' := by
  intro rest
  induction rest with
  | nil =>
    intro seen ls w _ h hw
    refine ⟨ls, w, rfl, hw, ?_⟩
    rw [append_nil]
    exact h
  | cons n rest ih =>
    intro seen ls w hsub h hw
    have hrest : ∀ k ∈ rest, k ∈ names := fun k hk => hsub k (mem_cons_of_mem n hk)
    have happ : seen ++ n :: rest = (seen ++ [n]) ++ rest := by
      rw [append_assoc, singleton_append]
    rcases loadMount_loading hs hc fuel hfuel n (hsub n mem_cons_self) ls w h hw with
      ⟨ls', w', hload, hw', h'⟩
    simp only [loadMounts, hload]
    rw [happ]
    exact ih (seen ++ [n]) ls' w' hrest h' hw'

theorem newStore_loading (w w1 : ω) (hlist : b.store.list w = (.ok (ids, names), w1)) (hw : W w1) :
    ∃ ls w', newStoreFromGraphDriver b fuel w = some (.ok ls, w') ∧ W w' ∧
      Loading layers mounts ids ids names ls := by
  rcases loadLayers_loading hs hc fuel hfuel ids [] empty w1 (fun c hc => hc)
    (loading_empty layers mounts ids) hw with ⟨ls1, w2, hlayers, hw2, h1⟩
  rcases loadMounts_loading hs hc fuel hfuel names [] ls1 w2 (fun n hn => hn) h1 hw2 with
    ⟨ls2, w3, hmounts, hw3, h2⟩
  refine ⟨ls2, w3, ?_, hw3, h2⟩
  simp [newStoreFromGraphDriver, hlist, hlayers, hmounts]

end Load

section Fuel

variable {b : Backend ω τ}

variable {fuel fuel' : Nat} {w : ω}

variable (hle : fuel ≤ fuel')
include hle

theorem loadLayer_mono {c : ChainID} {ls : LayerStore} {r : Except Str RoLayer × LayerStore × ω}
    (h : loadLayer b fuel c ls w = some r) : loadLayer b fuel' c ls w = some r := by
  induction fuel generalizing fuel' c ls w r with
  | zero => simp [loadLayer] at h
  | succ fuel ih =>
    rcases fuel' with _ | fuel'
    · omega
    have hle' : fuel ≤ fuel' := by omega
    rw [loadLayer] at h ⊢
    cases hl : ls.layerMap.lookup c with
    | some l =>
      rw [hl] at h
      exact h
    | none =>
      rw [hl] at h
      rcases hread : readLayer b c w with ⟨res, w1⟩
      rw [hread] at h
      cases res with
      | error e => exact h
      | ok out =>
        rcases out with ⟨i, parent⟩
        simp only at h ⊢
        -- Only the load of a parent uses the fuel.
        by_cases hp : parent = []
        · rw [if_pos hp] at h ⊢
          exact h
        · rw [if_neg hp] at h ⊢
          cases hload : loadLayer b fuel parent ls w1 with
          | none =>
            simp [hload] at h
          | some r1 =>
            rw [hload] at h
            rw [ih hle' hload]
            exact h

theorem loadLayers_mono (ids : List ChainID) :
    ∀ {ls : LayerStore} {w : ω} {r : LayerStore × ω}, loadLayers b fuel ids ls w = some r →
      loadLayers b fuel' ids ls w = some r := by
  induction ids with
  | nil => exact fun h => h
  | cons c ids ih =>
    intro ls w r h
    rw [loadLayers] at h ⊢
    rcases hload : loadLayer b fuel c ls w with _ | out
    · simp [hload] at h
    rcases out with ⟨res, ls1, w1⟩
    rw [hload] at h
    rw [loadLayer_mono hle hload]
    rcases res with e | l
    · exact ih h
    simp only at h ⊢
    cases hp : l.parent with
    | none | some p =>
      rw [hp] at h
      exact ih h

theorem loadMount_mono {name : Str} {ls : LayerStore} {r : LayerStore × ω}
    (h : loadMount b fuel name ls w = some r) : loadMount b fuel' name ls w = some r := by
  rw [loadMount] at h ⊢
  cases hm : ls.mounts.lookup name with
  | some m =>
    rw [hm] at h
    exact h
  | none =>
    rw [hm] at h
    rcases hread : readMount b name w with ⟨res, w1⟩
    rw [hread] at h
    cases res with
    | error e => exact h
    | ok out =>
      rcases out with ⟨mountID, initID, parent⟩
      simp only at h ⊢
      by_cases hp : parent = []
      · rw [if_pos hp] at h ⊢
        exact h
      · rw [if_neg hp] at h ⊢
        cases hload : loadLayer b fuel parent ls w1 with
        | none =>
          simp [hload] at h
        | some r1 =>
          rw [hload] at h
          rw [loadLayer_mono hle hload]
          exact h

theorem loadMounts_mono (names : List Str) :
    ∀ {ls : LayerStore} {w : ω} {r : LayerStore × ω}, loadMounts b fuel names ls w = some r →
      loadMounts b fuel' names ls w = some r := by
  induction names with
  | nil => exact fun h => h
  | cons n names ih =>
    intro ls w r h
    rw [loadMounts] at h ⊢
    rcases hload : loadMount b fuel n ls w with _ | out
    · simp [hload] at h
    rw [hload] at h
    rw [loadMount_mono hle hload]
    exact ih h

/-- The fuel decides whether a store is loaded, and not which one. -/
theorem newStore_mono {r : Except Str LayerStore × ω}
    (h : newStoreFromGraphDriver b fuel w = some r) :
    newStoreFromGraphDriver b fuel' w = some r := by
  rw [newStoreFromGraphDriver] at h ⊢
  rcases hlist : b.store.list w with ⟨res, w1⟩
  rw [hlist] at h
  rcases res with e | out
  · exact h
  rcases out with ⟨ids, names⟩
  simp only at h ⊢
  rcases hlayers : loadLayers b fuel ids empty w1 with _ | out1
  · simp [hlayers] at h
  rw [hlayers] at h
  rw [loadLayers_mono hle ids hlayers]
  simp only at h ⊢
  rcases hmounts : loadMounts b fuel names out1.1 out1.2 with _ | _
  · simp [hmounts] at h
  rw [hmounts] at h
  rw [loadMounts_mono hle names hmounts]
  exact h

end Fuel

end Dao.Layer
