import Dao.Core.Layer.Steps

/-!
# Reference Accounting

Who is counted in a layer's `referenceCount`, and how every operation on the
store moves the count.

A count is the sum of four numbers: the handles in the layer's `references`,
the layers of the map on top of it, the mounts on top of it, and the
references held by code that is running. The last of these is a parameter of
the invariant, a function from layer identities to numbers, because it is the
one that every operation changes. Taking a parent adds a hold, handing out a
handle turns a hold into a reference, publishing a layer turns the hold on
its parent into a child, saving a mount turns it into a mount, and
`releaseLayer` drops a hold. Each primitive of the store has one lemma that
says so, and an operation is accounted for by chaining them.

`releaseLayer_accounted` is the induction. When the count of a layer reaches
zero the invariant says that it has no handles, no children, no mounts and no
other holds, so none of the panics is taken; and removing it from the map
turns it from a child of its parent into a hold on the parent, which is what
the next round of the loop starts from.

## Theorems

* `accounted_publish`: Publishing a layer.
* `releaseLayer_accounted`: Releasing one.
-/

namespace Dao.Layer

open Lib Option Function Finset AList AMap

/-- The layers of the map whose parent is the object `q`. -/
def children (ls : LayerStore) (q : Nat) : Nat :=
  count (fun l => decide (l.parentPtr = some q)) ls.layerMap

/-- The mounts whose parent is the object `q`. -/
def mountsOn (ls : LayerStore) (q : Nat) : Nat :=
  count (fun m => decide (m.parentPtr = some q)) ls.mounts

/-- One more hold on the layer. -/
def hold (l : RoLayer) (held : Nat → Nat) : Nat → Nat :=
  fun q => held q + if q = l.ptr then 1 else 0

/-- One more hold on the layer, if there is one. -/
def holdOpt (p : Option RoLayer) (held : Nat → Nat) : Nat → Nat :=
  match p with
  | none => held
  | some l => hold l held

/-- The layer is the one its own chain ID leads to. -/
def InMap (ls : LayerStore) (l : RoLayer) : Prop := ls.layerMap.lookup l.chainID = some l

/-- The accounting invariant, with `held` counting the references held by
    running code. -/
structure Accounted (ls : LayerStore) (held : Nat → Nat) : Prop where
  key : ∀ c l, ls.layerMap.lookup c = some l → l.chainID = c
  fresh : ∀ c l, ls.layerMap.lookup c = some l → l.ptr < ls.nextPtr
  distinct : ∀ c d l k, ls.layerMap.lookup c = some l → ls.layerMap.lookup d = some k →
    l.ptr = k.ptr → l = k
  parentIn : ∀ c l p, ls.layerMap.lookup c = some l → l.parent = some p → InMap ls p
  mountParentIn : ∀ n m p, ls.mounts.lookup n = some m → m.parent = some p → InMap ls p
  mountKey : ∀ n m, ls.mounts.lookup n = some m → m.name = n
  heldIn : ∀ q, 0 < held q → ∃ c l, ls.layerMap.lookup c = some l ∧ l.ptr = q
  handle : ∀ q r, r ∈ (ls.cells q).references → r < ls.nextRef
  count : ∀ c l, ls.layerMap.lookup c = some l → (ls.cells l.ptr).referenceCount =
      (ls.cells l.ptr).references.card + children ls l.ptr + mountsOn ls l.ptr + held l.ptr

/-- From one store to a later one the map only loses layers or gains objects
    that did not exist before. -/
def Evolves (ls ls' : LayerStore) : Prop :=
  ls.nextPtr ≤ ls'.nextPtr ∧ ∀ c l, ls'.layerMap.lookup c = some l →
      ls.layerMap.lookup c = some l ∨ ls.nextPtr ≤ l.ptr

theorem evolves_of_layerMap_eq {ls ls' : LayerStore} (hm : ls'.layerMap = ls.layerMap)
    (hn : ls'.nextPtr = ls.nextPtr) : Evolves ls ls' := by
  refine ⟨by omega, fun c l h => .inl ?_⟩
  rw [← hm]
  exact h

theorem evolves_trans {a b c : LayerStore} (h1 : Evolves a b) (h2 : Evolves b c) : Evolves a c := by
  refine ⟨le_trans h1.1 h2.1, fun k l hl => ?_⟩
  rcases h2.2 k l hl with hb | hn
  · exact h1.2 k l hb
  · have := h1.1
    exact .inr (by omega)

theorem hold_self (l : RoLayer) (held : Nat → Nat) : hold l held l.ptr = held l.ptr + 1 := by
  simp [hold]

theorem hold_other (l : RoLayer) (held : Nat → Nat) (q : Nat) (h : q ≠ l.ptr) :
    hold l held q = held q := by
  simp [hold, if_neg h]

variable {held held' : Nat → Nat} {ls : LayerStore} {l : RoLayer}

theorem evolves_lookup {ls ls' : LayerStore} {p : RoLayer} (h : Accounted ls held)
    (h' : Accounted ls' held') (he : Evolves ls ls') (hp : InMap ls p) (hpos : 0 < held' p.ptr) :
    InMap ls' p := by
  rcases h'.heldIn p.ptr hpos with ⟨c, l, hl, hptr⟩
  have hlt := h.fresh _ _ hp
  rcases he.2 c l hl with hold | hnew
  · -- The object found under `c` existed before, so it is `p` itself.
    have hlp : l = p := h.distinct _ _ _ _ hold hp hptr
    have hc : p.chainID = c := by
      rw [← hlp]
      exact h.key c l hold
    rw [InMap, hc, hl, hlp]
  · omega

theorem update_self_cell (ls : LayerStore) (q : Nat) (c : Cell) : (ls.setCell q c).cells q = c := by
  simp [LayerStore.setCell]

theorem update_other_cell (ls : LayerStore) (q r : Nat) (c : Cell) (h : r ≠ q) :
    (ls.setCell q c).cells r = ls.cells r := by
  simp [LayerStore.setCell, update_of_ne h]

theorem mk_info (i : LayerInfo) (p : Option RoLayer) : (RoLayer.mk i p).info = i := by
  cases p <;> rfl

theorem mk_ptr (i : LayerInfo) (p : Option RoLayer) : (RoLayer.mk i p).ptr = i.ptr := by
  cases p <;> rfl

theorem mk_chainID (i : LayerInfo) (p : Option RoLayer) : (RoLayer.mk i p).chainID = i.chainID := by
  cases p <;> rfl

theorem mk_parent (i : LayerInfo) (p : Option RoLayer) : (RoLayer.mk i p).parent = p := by
  cases p <;> rfl

theorem holdOpt_apply (p : Option RoLayer) (held : Nat → Nat) (q : Nat) :
    holdOpt p held q = held q + if p.map RoLayer.ptr = some q then 1 else 0 := by
  cases p with
  | none => simp only [holdOpt, map_none, reduceCtorEq, if_false, Nat.add_zero]
  | some l =>
    simp only [holdOpt, hold, map_some, some.injEq, eq_comm]

section Keep

variable (h : Accounted ls held)
include h

/-- Changing the cell of one layer keeps the invariant when the change of its
    count matches the change of its handles and holds. -/
theorem accounted_setCell (l : RoLayer) (cell : Cell) (hl : InMap ls l)
    (hother : ∀ q, q ≠ l.ptr → held' q = held q)
    (hcell : cell.referenceCount + (ls.cells l.ptr).references.card + held l.ptr =
      (ls.cells l.ptr).referenceCount + cell.references.card + held' l.ptr)
    (hhandle : ∀ r ∈ cell.references, r < ls.nextRef) :
    Accounted (ls.setCell l.ptr cell) held' := by
  refine { h with heldIn := ?_, handle := ?_, count := ?_ }
  · intro q hq
    by_cases hql : q = l.ptr
    · exact ⟨l.chainID, l, hl, hql.symm⟩
    · rw [hother q hql] at hq
      exact h.heldIn q hq
  · intro q r hr
    by_cases hql : q = l.ptr
    · rw [hql, update_self_cell] at hr
      exact hhandle r hr
    · rw [update_other_cell _ _ _ _ hql] at hr
      exact h.handle q r hr
  · intro c k hk
    have hcount := h.count c k hk
    -- Objects have their own cells, and the change of one is balanced by `hcell`.
    by_cases hkl : k.ptr = l.ptr
    · rw [hkl] at hcount ⊢
      rw [update_self_cell]
      change cell.referenceCount =
        cell.references.card + children ls l.ptr + mountsOn ls l.ptr + held' l.ptr
      omega
    · rw [update_other_cell _ _ _ _ hkl, hother k.ptr hkl]
      exact hcount

theorem accounted_retain (l : RoLayer) (hl : InMap ls l) :
    Accounted (ls.retain l) (hold l held) := by
  refine accounted_setCell h l _ hl (hold_other l held) ?_ ?_
  · rw [hold_self]
    simp only
    omega
  · exact fun r hr => h.handle l.ptr r hr

theorem accounted_nextRef (n : Nat) (hn : ls.nextRef ≤ n) :
    Accounted { ls with nextRef := n } held :=
  { h with handle := fun q r hr => Nat.lt_of_lt_of_le (h.handle q r hr) hn }

theorem accounted_deleteReference (l : RoLayer) (ref : Nat) (hl : InMap ls l)
    (hr : ref ∈ (ls.cells l.ptr).references) :
    Accounted (ls.deleteReference l ref) (hold l held) := by
  have hcard := card_erase_of_mem hr
  have hpos : 0 < (ls.cells l.ptr).references.card := card_pos.mpr ⟨ref, hr⟩
  refine accounted_setCell h l _ hl (hold_other l held) ?_ ?_
  · rw [hold_self]
    simp only [hcard]
    omega
  · exact fun r hr => h.handle l.ptr r (mem_of_mem_erase hr)

theorem accounted_unused (q : Nat) (hq : ls.nextPtr ≤ q) :
    children ls q = 0 ∧ mountsOn ls q = 0 ∧ held q = 0 := by
  refine ⟨?_, ?_, ?_⟩
  · refine (count_eq_zero _ _).mpr (fun c l hl => ?_)
    refine decide_eq_false fun hc => ?_
    rcases map_eq_some_iff.mp hc with ⟨p, hp, hpq⟩
    have := h.fresh _ _ (h.parentIn c l p hl hp)
    omega
  · refine (count_eq_zero _ _).mpr (fun n m hm => ?_)
    refine decide_eq_false fun hc => ?_
    rcases map_eq_some_iff.mp hc with ⟨p, hp, hpq⟩
    have := h.fresh _ _ (h.mountParentIn n m p hm hp)
    omega
  · by_contra hc
    rcases h.heldIn q (Nat.pos_of_ne_zero hc) with ⟨c, l, hl, hlq⟩
    have := h.fresh c l hl
    omega

theorem parent_ne_of_childless (hl : InMap ls l) (hzero : children ls l.ptr = 0) {c : ChainID}
    {k p : RoLayer} (hk : ls.layerMap.lookup c = some k) (hkp : k.parent = some p) :
    p.chainID ≠ l.chainID := by
  intro hc
  have hp := h.parentIn c k p hk hkp
  have hpl : p = l := by
    rw [InMap, hc] at hp
    exact some.inj (hp.symm.trans hl)
  have hnot := (count_eq_zero _ _).mp hzero c k hk
  simp [RoLayer.parentPtr, hkp, hpl] at hnot

/-- Taking a layer out of the map that nothing is on top of: it stops being a
    child, and leaves a hold on its parent. -/
theorem accounted_erase (hl : InMap ls l) (hchildren : children ls l.ptr = 0)
    (hmounts : mountsOn ls l.ptr = 0) (hheld : held l.ptr = 0) :
    Accounted { ls with layerMap := ls.layerMap.erase l.chainID } (holdOpt l.parent held) := by
  have hkept : ∀ c k, (ls.layerMap.erase l.chainID).lookup c = some k →
      c ≠ l.chainID ∧ ls.layerMap.lookup c = some k := fun c k hk => lookup_erase_cases hk
  have hstays : ∀ k, InMap ls k → k.chainID ≠ l.chainID →
      (ls.layerMap.erase l.chainID).lookup k.chainID = some k := by
    intro k hk hne
    rw [lookup_erase_ne hne]
    exact hk
  have hchild : ∀ q, children ls q =
      count (fun k => decide (k.parentPtr = some q)) (ls.layerMap.erase l.chainID) +
        if l.parentPtr = some q then 1 else 0 := by
    intro q
    rw [children, count_erase _ _ _ _ hl]
    simp
  refine ⟨fun c k hk => h.key c k (hkept c k hk).2, fun c k hk => h.fresh c k (hkept c k hk).2,
    fun c d k j hk hj => h.distinct c d k j (hkept c k hk).2 (hkept d j hj).2,
    ?_, ?_, h.mountKey, ?_, h.handle, ?_⟩
  · intro c k p hk hkp
    have hk' := (hkept c k hk).2
    exact hstays p (h.parentIn c k p hk' hkp) (parent_ne_of_childless h hl hchildren hk' hkp)
  · intro n m p hm hmp
    have hp := h.mountParentIn n m p hm hmp
    refine hstays p hp fun hc => ?_
    -- The mount would be one on top of `l`.
    have hpl : p = l := by
      rw [InMap, hc] at hp
      exact some.inj (hp.symm.trans hl)
    have hnot := (count_eq_zero _ _).mp hmounts n m hm
    simp [MountedLayer.parentPtr, hmp, hpl] at hnot
  · intro q hq
    rw [holdOpt_apply] at hq
    by_cases hq0 : held q = 0
    · -- The hold is the one on the parent.
      have hpq : l.parent.map RoLayer.ptr = some q := by
        by_contra hc
        rw [if_neg hc] at hq
        omega
      rcases map_eq_some_iff.mp hpq with ⟨p, hlp, hptr⟩
      exact ⟨p.chainID, p, hstays p (h.parentIn _ l p hl hlp)
        (parent_ne_of_childless h hl hchildren hl hlp), hptr⟩
    · rcases h.heldIn q (Nat.pos_of_ne_zero hq0) with ⟨c, k, hk, hkq⟩
      have hck := h.key c k hk
      refine ⟨k.chainID, k, hstays k (by rw [InMap, hck]; exact hk) fun hc => ?_, hkq⟩
      rw [← hck, hc] at hk
      have hkl : l = k := some.inj (hl.symm.trans hk)
      rw [hkl, hkq] at hheld
      exact hq0 hheld
  · intro c k hk
    have hcount := h.count c k (hkept c k hk).2
    rw [hchild k.ptr] at hcount
    rw [holdOpt_apply]
    change (ls.cells k.ptr).referenceCount = (ls.cells k.ptr).references.card +
      count (fun j => decide (j.parentPtr = some k.ptr)) (ls.layerMap.erase l.chainID) +
        mountsOn ls k.ptr + (held k.ptr + if l.parentPtr = some k.ptr then 1 else 0)
    omega

/-- Setting the entry of a mount: what the change adds to the mounts on a
    layer is taken from its holds. -/
theorem accounted_setMount (m : MountedLayer) (hp : ∀ p, m.parent = some p → InMap ls p)
    (hmove : ∀ q, held q + valueAt (fun m => decide (m.parentPtr = some q)) m.name ls.mounts =
      held' q + if m.parentPtr = some q then 1 else 0)
    (hle : ∀ q, held' q ≤ held q) :
    Accounted { ls with mounts := ls.mounts.insert m.name m } held' := by
  have hcases : ∀ n k, (ls.mounts.insert m.name m).lookup n = some k →
      (n = m.name ∧ k = m) ∨ ls.mounts.lookup n = some k := fun _ _ hk => lookup_insert_or hk
  refine { h with
    mountParentIn := ?_, mountKey := ?_, count := ?_
    heldIn := fun q hq => h.heldIn q (Nat.lt_of_lt_of_le hq (hle q)) }
  · intro n k p hk hkp
    rcases hcases n k hk with ⟨_, hkm⟩ | hold
    · rw [hkm] at hkp
      exact hp p hkp
    · exact h.mountParentIn n k p hold hkp
  · intro n k hk
    rcases hcases n k hk with ⟨hn, hkm⟩ | hold
    · rw [hkm, hn]
    · exact h.mountKey n k hold
  · intro c k hk
    have hcount := h.count c k hk
    -- The entry that was there is replaced, so its parent gets a hold back.
    have hins := count_insert (fun m => decide (m.parentPtr = some k.ptr)) ls.mounts m.name m
    have hq := hmove k.ptr
    simp only [decide_eq_true_eq] at hins
    change (ls.cells k.ptr).referenceCount = (ls.cells k.ptr).references.card +
      children ls k.ptr + count (fun m => decide (m.parentPtr = some k.ptr))
        (ls.mounts.insert m.name m) + held' k.ptr
    unfold mountsOn at hcount
    omega

theorem accounted_mountReferences {name : Str} {m : MountedLayer}
    (hm : ls.mounts.lookup name = some m) (references : Finset Nat) :
    Accounted { ls with
      mounts := ls.mounts.insert name { m with references := references } } held := by
  have hname := h.mountKey name m hm
  have hvalue : ∀ q, valueAt (fun m => decide (m.parentPtr = some q)) m.name ls.mounts =
      if m.parentPtr = some q then 1 else 0 := by
    intro q
    rw [valueAt, hname, hm]
    simp
  have hset := accounted_setMount h { m with references := references }
    (fun p hp => h.mountParentIn name m p hm hp) (fun q => congrArg (held q + ·) (hvalue q))
    (fun q => Nat.le_refl _)
  simpa only [hname] using hset

theorem accounted_eraseMount {name : Str} {m : MountedLayer} (hm : ls.mounts.lookup name = some m) :
    Accounted { ls with mounts := ls.mounts.erase name } (holdOpt m.parent held) := by
  have hkept : ∀ n k, (ls.mounts.erase name).lookup n = some k → ls.mounts.lookup n = some k :=
    fun n k hk => (lookup_erase_cases hk).2
  refine { h with
    mountParentIn := fun n k p hk => h.mountParentIn n k p (hkept n k hk)
    mountKey := fun n k hk => h.mountKey n k (hkept n k hk), heldIn := ?_, count := ?_ }
  · intro q hq
    rw [holdOpt_apply] at hq
    by_cases hpq : m.parent.map RoLayer.ptr = some q
    · rcases map_eq_some_iff.mp hpq with ⟨p, hmp, hptr⟩
      exact ⟨p.chainID, p, h.mountParentIn name m p hm hmp, hptr⟩
    · rw [if_neg hpq] at hq
      exact h.heldIn q hq
  · intro c k hk
    have hcount := h.count c k hk
    have herase := count_erase (fun m => decide (m.parentPtr = some k.ptr)) ls.mounts name m hm
    simp only [decide_eq_true_eq] at herase
    rw [holdOpt_apply]
    change (ls.cells k.ptr).referenceCount = (ls.cells k.ptr).references.card +
      children ls k.ptr + count (fun m => decide (m.parentPtr = some k.ptr))
        (ls.mounts.erase name) + (held k.ptr + if m.parentPtr = some k.ptr then 1 else 0)
    unfold mountsOn at hcount
    omega

end Keep

theorem accounted_getReference (l : RoLayer) (h : Accounted ls (hold l held)) (hl : InMap ls l) :
    Accounted (ls.getReference l).2 held := by
  -- Raise the counter first, so that the new handle is below it.
  have hnext := accounted_nextRef h (ls.nextRef + 1) (by omega)
  have hnew : ls.nextRef ∉ (ls.cells l.ptr).references := by
    intro hc
    have := h.handle l.ptr _ hc
    omega
  refine accounted_setCell hnext l _ hl (fun q hq => (hold_other l held q hq).symm) ?_ ?_
  · rw [hold_self]
    simp only [card_insert_of_notMem hnew]
    omega
  intro r hr
  rcases mem_insert.mp hr with hr | hr
  · change r < ls.nextRef + 1
    omega
  · have := h.handle l.ptr r hr
    change r < ls.nextRef + 1
    omega

/-- Entering a new object into the map with `n` references on it: the hold on
    its parent becomes a child, and the object starts with `n` holds. -/
theorem accounted_enter (n : Nat) (hptr : l.ptr = ls.nextPtr)
    (hnone : ls.layerMap.lookup l.chainID = none) (h : Accounted ls (holdOpt l.parent held))
    (hp : ∀ p, l.parent = some p → InMap ls p) (hheld : ∀ q, q ≠ l.ptr → held' q = held q)
    (hn : held' l.ptr = n) :
    Accounted { ls.setCell l.ptr ⟨n, ∅⟩ with
      layerMap := ls.layerMap.insert l.chainID l, nextPtr := ls.nextPtr + 1 } held' := by
  have hself : (ls.layerMap.insert l.chainID l).lookup l.chainID = some l :=
    lookup_insert _
  have hother : ∀ c, c ≠ l.chainID →
      (ls.layerMap.insert l.chainID l).lookup c = ls.layerMap.lookup c :=
    fun c hc => lookup_insert_ne hc
  -- A layer that was in the map is still there, its chain ID not being the new one.
  have hkeep : ∀ k, InMap ls k → (ls.layerMap.insert l.chainID l).lookup k.chainID = some k := by
    intro k hk
    have hne : k.chainID ≠ l.chainID := by
      intro hc
      rw [InMap, hc, hnone] at hk
      nomatch hk
    rw [hother _ hne]
    exact hk
  have hcases : ∀ c k, (ls.layerMap.insert l.chainID l).lookup c = some k →
      (c = l.chainID ∧ k = l) ∨ ls.layerMap.lookup c = some k := fun _ _ hk => lookup_insert_or hk
  have hunused := accounted_unused h l.ptr (by omega)
  have hchild : ∀ q, count (fun k => decide (k.parentPtr = some q))
      (ls.layerMap.insert l.chainID l) = children ls q + if l.parentPtr = some q then 1 else 0 := by
    intro q
    rw [count_insert_fresh _ _ _ _ hnone, children]
    simp
  refine ⟨?_, ?_, ?_, ?_, ?_, h.mountKey, ?_, ?_, ?_⟩
  · intro c k hk
    rcases hcases c k hk with ⟨hc, hkl⟩ | hold
    · rw [hkl, hc]
    · exact h.key c k hold
  · intro c k hk
    change k.ptr < ls.nextPtr + 1
    rcases hcases c k hk with ⟨_, hkl⟩ | hold
    · rw [hkl]
      omega
    · have := h.fresh c k hold
      omega
  · intro c d k j hk hj hkj
    rcases hcases c k hk with ⟨_, hkl⟩ | hk' <;> rcases hcases d j hj with ⟨_, hjl⟩ | hj'
    · rw [hkl, hjl]
    · have := h.fresh d j hj'
      rw [hkl] at hkj
      omega
    · have := h.fresh c k hk'
      rw [hjl] at hkj
      omega
    · exact h.distinct c d k j hk' hj' hkj
  · intro c k p hk hkp
    rcases hcases c k hk with ⟨_, hkl⟩ | hold
    · rw [hkl] at hkp
      exact hkeep p (hp p hkp)
    · exact hkeep p (h.parentIn c k p hold hkp)
  · intro n' m p hm hmp
    exact hkeep p (h.mountParentIn n' m p hm hmp)
  · intro q hq
    by_cases hql : q = l.ptr
    · exact ⟨l.chainID, l, hself, hql.symm⟩
    rw [hheld q hql] at hq
    have hq' : 0 < holdOpt l.parent held q := by
      rw [holdOpt_apply]
      omega
    rcases h.heldIn q hq' with ⟨c, k, hk, hkq⟩
    refine ⟨c, k, ?_, hkq⟩
    rw [← h.key c k hk]
    exact hkeep k (by rw [InMap, h.key c k hk]; exact hk)
  · intro q r hr
    by_cases hql : q = l.ptr
    · rw [hql] at hr
      simp [LayerStore.setCell] at hr
    · simp only [LayerStore.setCell, update_of_ne hql] at hr
      exact h.handle q r hr
  · intro c k hk
    change (update ls.cells l.ptr _ k.ptr).referenceCount =
      (update ls.cells l.ptr _ k.ptr).references.card +
        count (fun j => decide (j.parentPtr = some k.ptr)) (ls.layerMap.insert l.chainID l) +
          mountsOn ls k.ptr + held' k.ptr
    rw [hchild k.ptr]
    by_cases hkl : k.ptr = l.ptr
    · -- The new object: nothing is on top of it but its own holds.
      have hne : ¬ l.parentPtr = some l.ptr := by
        intro hc
        rcases map_eq_some_iff.mp hc with ⟨p, hpl, hpp⟩
        have := h.fresh _ _ (hp p hpl)
        omega
      rw [hkl, update_self, if_neg hne, hn]
      simp only [card_empty]
      omega
    · have hold : ls.layerMap.lookup c = some k := by
        rcases hcases c k hk with ⟨_, hc⟩ | hold
        · rw [hc] at hkl
          exact absurd rfl hkl
        · exact hold
      have hcount := h.count c k hold
      rw [holdOpt_apply] at hcount
      rw [update_of_ne hkl, hheld k.ptr hkl]
      have hpp : l.parentPtr = l.parent.map RoLayer.ptr := rfl
      rw [hpp]
      omega

theorem accounted_publish (hptr : l.ptr = ls.nextPtr) (hnone : ls.layerMap.lookup l.chainID = none)
    (h : Accounted ls (holdOpt l.parent held)) (hp : ∀ p, l.parent = some p → InMap ls p) :
    Accounted (ls.publish l) (hold l held) := by
  have hunused := accounted_unused h l.ptr (by omega)
  have hheld : held l.ptr = 0 := by
    have := hunused.2.2
    rw [holdOpt_apply] at this
    omega
  refine accounted_enter 1 hptr hnone h hp (hold_other l held) ?_
  rw [hold_self, hheld]

theorem inMap_publish (ls : LayerStore) (l : RoLayer) : InMap (ls.publish l) l :=
  lookup_insert _

theorem evolves_publish (hptr : l.ptr = ls.nextPtr) : Evolves ls (ls.publish l) := by
  refine ⟨Nat.le_succ _, fun c k hk => ?_⟩
  by_cases hc : c = l.chainID
  · rw [hc] at hk
    have hkl : l = k := some.inj ((lookup_insert _).symm.trans hk)
    rw [← hkl]
    omega
  · left
    rw [← hk]
    exact (lookup_insert_ne hc).symm

theorem accounted_saveMount (m : MountedLayer) (h : Accounted ls (holdOpt m.parent held))
    (hnone : ls.mounts.lookup m.name = none) (hp : ∀ p, m.parent = some p → InMap ls p) :
    Accounted { ls with mounts := ls.mounts.insert m.name m } held := by
  refine accounted_setMount h m hp (fun q => ?_) fun q => ?_
  · rw [holdOpt_apply, valueAt, hnone, MountedLayer.parentPtr]
    rfl
  · rw [holdOpt_apply]
    omega

/-- What a release leaves alone: the mounts and the counters. -/
structure SameMounts (ls ls' : LayerStore) : Prop where
  mounts : ls'.mounts = ls.mounts
  nextPtr : ls'.nextPtr = ls.nextPtr
  nextRef : ls'.nextRef = ls.nextRef

section Release

variable {ω τ : Type} (b : Backend ω τ)

/-- One round of the loop does not panic. It ends with the hold dropped, or
    goes on with a hold on the parent in its place. -/
theorem releaseOne_accounted {ls : LayerStore} {held : Nat → Nat} {l : RoLayer}
    (h : Accounted ls (hold l held)) (hl : InMap ls l) (depth : Nat) (removed : List Metadata)
    (hdepth : depth = 0 ∨ removed ≠ []) (w : ω) :
    (∃ res ls' w', releaseOne b depth removed l ls w = .ok (.done res ls' w') ∧
      Accounted ls' held ∧ ls'.layerMap = ls.layerMap ∧ SameMounts ls ls') ∨
    (∃ removed' ls' w', releaseOne b depth removed l ls w = .ok (.next removed' ls' w') ∧
      removed' ≠ [] ∧ Accounted ls' (holdOpt l.parent held) ∧
      ls'.layerMap = ls.layerMap.erase l.chainID ∧ SameMounts ls ls') := by
  have hcount := h.count _ _ hl
  rw [hold_self] at hcount
  -- The store with the count taken down by one.
  have hdown : Accounted (ls.setCell l.ptr
      { ls.cells l.ptr with referenceCount := (ls.cells l.ptr).referenceCount - 1 }) held := by
    refine accounted_setCell h l _ hl (fun q hq => (hold_other l held q hq).symm) ?_ ?_
    · rw [hold_self]
      simp only
      omega
    · exact fun r hr => h.handle l.ptr r hr
  have hne : ¬ (ls.cells l.ptr).referenceCount = 0 := by omega
  simp only [releaseOne, if_neg hne]
  by_cases hone : (ls.cells l.ptr).referenceCount - 1 = 0
  · have hchildren : children ls l.ptr = 0 := by omega
    have hmounts : mountsOn ls l.ptr = 0 := by omega
    have hheld : held l.ptr = 0 := by omega
    have hrefs : ¬ (ls.cells l.ptr).references.Nonempty := by
      rw [← card_pos]
      omega
    have hchild : ¬ (removed = [] ∧ depth > 0) := by
      rcases hdepth with hd | hr
      · omega
      · exact fun hc => hr hc.1
    rw [if_neg (not_not.mpr hone), if_neg hchild, if_neg hrefs]
    rcases hdel : deleteLayer b l w with ⟨r, w'⟩
    rcases r with e | _
    · exact .inl ⟨_, _, _, rfl, hdown, rfl, rfl, rfl, rfl⟩
    refine .inr ⟨_, _, _, rfl, ?_, ?_, rfl, rfl, rfl, rfl⟩
    · simp
    · exact accounted_erase hdown hl hchildren hmounts hheld
  · rw [if_pos hone]
    exact .inl ⟨_, _, _, rfl, hdown, rfl, rfl, rfl, rfl⟩

/-- The layers of one map are layers of the other. -/
def Submap (m m' : AMap ChainID RoLayer) : Prop :=
  ∀ c l, m.lookup c = some l → m'.lookup c = some l

theorem submap_refl (m : AMap ChainID RoLayer) : Submap m m := fun _ _ h => h

theorem submap_erase (m : AMap ChainID RoLayer) (d : ChainID) : Submap (m.erase d) m :=
  fun _ _ h => (lookup_erase_cases h).2

theorem releaseLayer_accounted (l : RoLayer) : ∀ {ls : LayerStore} {held : Nat → Nat}
    (depth : Nat) (removed : List Metadata) (w : ω), Accounted ls (hold l held) → InMap ls l →
    depth = 0 ∨ removed ≠ [] →
    ∃ res ls' w', releaseLayer b depth removed l ls w = .ok (res, ls', w') ∧
      Accounted ls' held ∧ Submap ls'.layerMap ls.layerMap ∧ SameMounts ls ls' := by
  -- The induction follows the loop from a layer to its parent.
  induction l with
  | base i =>
    intro ls held depth removed w h hl hd
    rcases releaseOne_accounted b h hl depth removed hd w with
      ⟨res, ls', w', hone, hacc, hmap, hsame⟩ | ⟨removed', ls', w', hone, _, hacc, hmap, hsame⟩
    · refine ⟨res, ls', w', by simp [releaseLayer, hone], hacc, ?_, hsame⟩
      rw [hmap]
      exact submap_refl _
    · refine ⟨.ok removed', ls', w', by simp [releaseLayer, hone], hacc, ?_, hsame⟩
      rw [hmap]
      exact submap_erase _ _
  | child i p ih =>
    intro ls held depth removed w h hl hd
    rcases releaseOne_accounted b h hl depth removed hd w with
      ⟨res, ls', w', hone, hacc, hmap, hsame⟩ | ⟨removed', ls', w', hone, hr, hacc, hmap, hsame⟩
    · refine ⟨res, ls', w', by simp [releaseLayer, hone], hacc, ?_, hsame⟩
      rw [hmap]
      exact submap_refl _
    have hp : InMap ls' p := by
      have hpos : 0 < hold p held p.ptr := by
        rw [hold_self]
        omega
      refine evolves_lookup h hacc ⟨by rw [hsame.nextPtr], fun c k hk => .inl ?_⟩
        (h.parentIn _ _ p hl rfl) hpos
      rw [hmap] at hk
      exact submap_erase _ _ c k hk
    rcases ih (depth + 1) removed' w' hacc hp (.inr hr) with
      ⟨res, ls'', w'', hrest, hacc'', hsub, hsame''⟩
    refine ⟨res, ls'', w'', by simp [releaseLayer, hone, hrest], hacc'', ?_, ?_⟩
    · intro c k hk
      have hk' := hsub c k hk
      rw [hmap] at hk'
      exact submap_erase _ _ c k hk'
    · exact ⟨hsame''.mounts.trans hsame.mounts, hsame''.nextPtr.trans hsame.nextPtr,
        hsame''.nextRef.trans hsame.nextRef⟩

theorem evolves_of_submap {ls ls' : LayerStore} (hs : Submap ls'.layerMap ls.layerMap)
    (hm : SameMounts ls ls') : Evolves ls ls' :=
  ⟨Nat.le_of_eq hm.nextPtr.symm, fun c l h => .inl (hs c l h)⟩

end Release

end Dao.Layer
