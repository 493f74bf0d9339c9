import Dao.Core.Layer.Steps

/-!
# What a Step Can Do

The cases of the operations, each told apart once. Later modules take an
operation apart by the lemma about it and never unfold it again.

A step of the system starts a call, resumes an operation in flight, or waits
for `mountL`. What a call or an operation does when it is its turn is a
relation between the system and the store, the world and the rest of the
operation it leaves.

## Theorems

* `releaseLayer_rule`: The loop of a release.
* `step_cases`: The cases of a step.
-/

namespace Dao.Layer

open Lib Except

variable {ω τ : Type} (b : Backend ω τ)

/-- What `getWithoutLock` finds, and the store it leaves. -/
theorem getWithoutLock_cases (ls : LayerStore) (c : ChainID) :
    (ls.layerMap.lookup c = none ∧ ls.getWithoutLock c = (none, ls)) ∨
    (∃ l, ls.layerMap.lookup c = some l ∧ ls.getWithoutLock c = (some l, ls.retain l)) := by
  unfold LayerStore.getWithoutLock
  cases h : ls.layerMap.lookup c with
  | none => exact .inl ⟨rfl, rfl⟩
  | some l => exact .inr ⟨l, rfl, rfl⟩

variable {ls ls' : LayerStore} {parent : ChainID} {depth : Nat} {removed : List Metadata}
  {l : RoLayer} {w w' : ω} {next : Next ω τ}

theorem takeParent_cases {p : Option RoLayer} (h : takeParent ls parent = some (p, ls')) :
    (parent = [] ∧ p = none ∧ ls' = ls) ∨
      (parent ≠ [] ∧ ∃ l, ls.layerMap.lookup parent = some l ∧ p = some l ∧ ls' = ls.retain l) := by
  unfold takeParent at h
  by_cases hp : parent = []
  · rw [if_pos hp] at h
    cases h
    exact .inl ⟨hp, rfl, rfl⟩
  rw [if_neg hp] at h
  rcases getWithoutLock_cases ls parent with ⟨_, hget⟩ | ⟨l, hl, hget⟩
  · simp [hget] at h
  · rw [hget] at h
    cases h
    exact .inr ⟨hp, l, hl, rfl, rfl⟩

theorem takeParent_same {p : Option RoLayer} (h : takeParent ls parent = some (p, ls')) :
    ls'.layerMap = ls.layerMap ∧ ls'.mounts = ls.mounts := by
  rcases takeParent_cases h with ⟨_, _, rfl⟩ | ⟨_, l, _, _, rfl⟩
  · exact ⟨rfl, rfl⟩
  · exact ⟨rfl, rfl⟩

/-- A round of the release loop ends the loop with layers still to spare, or
    with a deletion that failed, or deletes the layer and goes on. Only the
    deletion touches the maps and the world. -/
theorem releaseOne_cases {r : Round ω} (h : releaseOne b depth removed l ls w = .ok r) :
    (∃ ls', r = .done (.ok removed) ls' w ∧ ls'.layerMap = ls.layerMap ∧ ls'.mounts = ls.mounts) ∨
    ((ls.cells l.ptr).referenceCount = 1 ∧ ∃ e ls' w', deleteLayer b l w = (.error e, w') ∧
      r = .done (.error (.backend e)) ls' w' ∧ ls'.layerMap = ls.layerMap ∧
      ls'.mounts = ls.mounts) ∨
    ((ls.cells l.ptr).referenceCount = 1 ∧ ∃ metadata ls' w',
      deleteLayer b l w = (.ok metadata, w') ∧ r = .next (removed ++ [metadata]) ls' w' ∧
      ls'.layerMap = ls.layerMap.erase l.chainID ∧ ls'.mounts = ls.mounts) := by
  unfold releaseOne at h
  by_cases hzero : (ls.cells l.ptr).referenceCount = 0
  · simp [if_pos hzero] at h
  rw [if_neg hzero] at h
  by_cases hmore : (ls.cells l.ptr).referenceCount - 1 ≠ 0
  · rw [if_pos hmore, ok.injEq] at h
    exact .inl ⟨_, h.symm, rfl, rfl⟩
  -- From here on the count was one, and both panics have been passed.
  have hone : (ls.cells l.ptr).referenceCount = 1 := by omega
  rw [if_neg hmore] at h
  split at h
  · nomatch h
  split at h
  · nomatch h
  rcases hdel : deleteLayer b l w with ⟨res, w'⟩
  cases res with
  | error e =>
    rw [hdel] at h
    exact .inr (.inl ⟨hone, e, _, w', rfl, (ok.inj h).symm, rfl, rfl⟩)
  | ok metadata =>
    rw [hdel] at h
    exact .inr (.inr ⟨hone, metadata, _, w', rfl, (ok.inj h).symm, rfl, rfl⟩)

theorem releaseOne_done {res : Except Err (List Metadata)}
    (h : releaseOne b depth removed l ls w = .ok (.done res ls' w')) :
    ls'.layerMap = ls.layerMap ∧ ls'.mounts = ls.mounts ∧
      (w' = w ∨ (ls.cells l.ptr).referenceCount = 1 ∧ ∃ e, deleteLayer b l w = (.error e, w')) := by
  rcases releaseOne_cases b h with ⟨ls1, heq, hmap, hmounts⟩ |
    ⟨hone, e, ls1, w1, hdel, heq, hmap, hmounts⟩ | ⟨_, _, ls1, w1, _, heq, _⟩
  · simp only [Round.done.injEq] at heq
    rw [heq.2.1]
    exact ⟨hmap, hmounts, .inl heq.2.2⟩
  · simp only [Round.done.injEq] at heq
    rw [heq.2.1, heq.2.2]
    exact ⟨hmap, hmounts, .inr ⟨hone, e, hdel⟩⟩
  · nomatch heq

theorem releaseOne_next {removed removed' : List Metadata}
    (h : releaseOne b depth removed l ls w = .ok (.next removed' ls' w')) :
    ls'.layerMap = ls.layerMap.erase l.chainID ∧ ls'.mounts = ls.mounts ∧
      ∃ metadata, deleteLayer b l w = (.ok metadata, w') := by
  rcases releaseOne_cases b h with ⟨ls1, heq, _⟩ | ⟨_, e, ls1, w1, _, heq, _⟩ |
    ⟨_, metadata, ls1, w1, hdel, heq, hmap, hmounts⟩
  · nomatch heq
  · nomatch heq
  · simp only [Round.next.injEq] at heq
    rw [heq.2.1, heq.2.2]
    exact ⟨hmap, hmounts, metadata, hdel⟩

theorem releaseLayer_rule (P : Nat → List Metadata → RoLayer → LayerStore → ω → Prop)
    (Q : LayerStore → ω → Prop)
    (hdone : ∀ depth removed l ls w res ls' w', P depth removed l ls w →
      releaseOne b depth removed l ls w = .ok (.done res ls' w') → Q ls' w')
    (hlast : ∀ depth removed i ls w removed' ls' w', P depth removed (.base i) ls w →
      releaseOne b depth removed (.base i) ls w = .ok (.next removed' ls' w') → Q ls' w')
    (hnext : ∀ depth removed i p ls w removed' ls' w', P depth removed (.child i p) ls w →
      releaseOne b depth removed (.child i p) ls w = .ok (.next removed' ls' w') →
      P (depth + 1) removed' p ls' w')
    (l : RoLayer) : ∀ {depth : Nat} {removed : List Metadata} {ls ls' : LayerStore} {w w' : ω}
    {res : Except Err (List Metadata)}, P depth removed l ls w →
      releaseLayer b depth removed l ls w = .ok (res, ls', w') → Q ls' w' := by
  induction l with
  | base i =>
    intro depth removed ls ls' w w' res hP h
    simp only [releaseLayer] at h
    rcases hone : releaseOne b depth removed (.base i) ls w with e | r
    · simp [hone] at h
    rw [hone] at h
    cases r with
    | done =>
      cases h
      exact hdone _ _ _ _ _ _ _ _ hP hone
    | next =>
      cases h
      exact hlast _ _ _ _ _ _ _ _ hP hone
  | child i p ih =>
    intro depth removed ls ls' w w' res hP h
    simp only [releaseLayer] at h
    rcases hone : releaseOne b depth removed (.child i p) ls w with e | r
    · simp [hone] at h
    rw [hone] at h
    cases r with
    | done =>
      cases h
      exact hdone _ _ _ _ _ _ _ _ hP hone
    -- The loop goes on with the parent, which the induction is on.
    | next => exact ih (hnext _ _ _ _ _ _ _ _ _ hP hone) h

/-- `Release` finds nothing to do, or runs the loop for the layer that has the
    handle. -/
theorem release_cases {c : ChainID} {ref : Nat} {res : Result}
    (h : release b c ref ls w = .ok (res, ls', w')) :
    (ls' = ls ∧ w' = w) ∨ ∃ l, ls.layerMap.lookup c = some l ∧
      ref ∈ (ls.cells l.ptr).references ∧ ∃ res',
        releaseLayer b 0 [] l (ls.deleteReference l ref) w = .ok (res', ls', w') := by
  unfold release at h
  rcases hl : ls.layerMap.lookup c with _ | l
  · rw [hl] at h
    cases h
    exact .inl ⟨rfl, rfl⟩
  rw [hl] at h
  simp only at h
  by_cases href : ref ∈ (ls.cells l.ptr).references
  · rw [if_pos href] at h
    rcases hloop : releaseLayer b 0 [] l (ls.deleteReference l ref) w with e | out
    · simp [hloop] at h
    rcases out with ⟨res', ls1, w1⟩
    rw [hloop] at h
    cases h
    exact .inr ⟨l, rfl, href, res', hloop⟩
  · rw [if_neg href] at h
    cases h
    exact .inl ⟨rfl, rfl⟩

/-- `registerWithDescriptor` starts with the parent it has taken, or fails. -/
theorem startRegister_cases {ts : Bytes} {descriptor : Descriptor} {cacheID : Str}
    (h : startRegister ts parent descriptor cacheID ls = (next, ls')) :
    (∃ e, next = .finish (.error e) ∧ ls' = ls) ∨ ∃ p, takeParent ls parent = some (p, ls') ∧
      ((∃ e, next = abandon false (.error e) p) ∨
        next = .wait (.registerApply p ts descriptor cacheID) ∧
          ∀ q, p = some q → q.depth < maxLayerDepth) := by
  unfold startRegister at h
  rcases ht : takeParent ls parent with _ | r
  · rw [ht] at h
    cases h
    exact .inl ⟨_, rfl, rfl⟩
  rcases r with ⟨p, ls1⟩
  rw [ht] at h
  rcases p with _ | q
  · cases h
    exact .inr ⟨none, rfl, .inr ⟨rfl, nofun⟩⟩
  simp only at h
  split at h
  · cases h
    exact .inr ⟨some q, rfl, .inl ⟨_, rfl⟩⟩
  -- A parent that is too deep is given back.
  next hdepth =>
  cases h
  refine .inr ⟨some q, rfl, .inr ⟨rfl, fun q' hq => ?_⟩⟩
  rw [← Option.some.inj hq]
  exact Nat.not_le.mp hdepth

theorem startCreateRWLayer_cases {name : Str} {mountLabel : Str}
    {initFunc : Option (Str → Call Str ω Unit)} {storageOpt : List (Str × Str)} {mountID : Str}
    (h : startCreateRWLayer name parent mountLabel initFunc storageOpt mountID ls = (next, ls')) :
    (∃ e, next = .finish (.error e) ∧ ls' = ls) ∨ ls.mounts.lookup name = none ∧
      ∃ p, takeParent ls parent = some (p, ls') ∧
        next = .wait (.createRWLayer p name mountLabel initFunc storageOpt mountID) := by
  unfold startCreateRWLayer at h
  cases hm : ls.mounts.lookup name with
  | some m =>
    rw [hm] at h
    cases h
    exact .inl ⟨_, rfl, rfl⟩
  | none =>
    rw [hm] at h
    cases ht : takeParent ls parent with
    | none =>
      rw [ht] at h
      cases h
      exact .inl ⟨_, rfl, rfl⟩
    | some r =>
      rcases r with ⟨p, ls1⟩
      rw [ht] at h
      cases h
      exact .inr ⟨rfl, p, rfl, rfl⟩

/-- `CreateRWLayerByGraphID` answers from what it finds, or goes on with a
    name that is free. -/
theorem startCreateRWLayerByGraphID_cases {name graphID : Str}
    (h : startCreateRWLayerByGraphID b name graphID parent ls w = .ok (next, ls')) :
    (∃ res, next = .finish res ∧ ls' = ls) ∨ ls.mounts.lookup name = none ∧
      ∃ p, takeParent ls parent = some (p, ls') ∧
        next = .wait (.createRWLayerByGraphID p name graphID) := by
  have hfinish : ∀ res : Result,
      (ok (.finish res, ls) : Except Panic (Next ω τ × LayerStore)) = .ok (next, ls') →
        ∃ res, next = .finish res ∧ ls' = ls := by
    intro res heq
    cases heq
    exact ⟨res, rfl, rfl⟩
  unfold startCreateRWLayerByGraphID at h
  split at h
  · left
    split at h
    · nomatch h
    split at h
    · exact hfinish _ h
    · split at h
      · exact hfinish _ h
      · exact hfinish _ h
  · next hm =>
    split at h
    · split at h
      · exact .inl (hfinish _ h)
      · next p ls1 ht =>
        cases h
        exact .inr ⟨hm, p, ht, rfl⟩
    · exact .inl (hfinish _ h)

/-- What starting a call does: what is left of the call, the store and the
    world. -/
def Action.Does (s : Sys ω τ) (next : Next ω τ) (ls : LayerStore) (w : ω) : Action ω → Prop
  | register ts parent descriptor cacheID =>
    startRegister ts parent descriptor cacheID s.ls = (next, ls) ∧ w = s.world
  | registerByGraphID graphID parent diffID tarDataFile size =>
    (∃ e, next = .finish (.error e) ∧ ls = s.ls ∧ w = s.world) ∨
      ∃ p, takeParent s.ls parent = some (p, ls) ∧ w = s.world ∧
        next = .wait (.registerByGraphID p graphID parent diffID tarDataFile size)
  | get c => ∃ res, Layer.get c s.ls = (res, ls) ∧ next = .finish res ∧ w = s.world
  | release c ref => ∃ res, Layer.release b c ref s.ls s.world = .ok (res, ls, w) ∧
    next = .finish res
  | createRWLayer name parent mountLabel initFunc storageOpt mountID =>
    startCreateRWLayer name parent mountLabel initFunc storageOpt mountID s.ls = (next, ls) ∧
      w = s.world
  | createRWLayerByGraphID name graphID parent =>
    startCreateRWLayerByGraphID b name graphID parent s.ls s.world = .ok (next, ls) ∧ w = s.world
  | getRWLayer name =>
    ∃ res, Layer.getRWLayer name s.ls = (res, ls) ∧ next = .finish res ∧ w = s.world
  | releaseRWLayer name ref => startReleaseRWLayer b name ref s.ls s.world = (next, ls, w)
  | resume _ => False

/-- What resuming an operation does. -/
def Op.Does (s : Sys ω τ) (next : Next ω τ) (ls : LayerStore) (w : ω) : Op ω τ → Prop
  | registerApply p ts descriptor cacheID =>
    Layer.registerApply b p ts descriptor cacheID s.world = (next, w) ∧ ls = s.ls
  | registerCommit p descriptor cacheID tx size diffID =>
    Layer.registerCommit b p descriptor cacheID tx size diffID s.ls s.world = (next, ls, w)
  | registerCleanup p cacheID tx res =>
    Layer.registerCleanup b p cacheID tx res s.world = (next, w) ∧ ls = s.ls
  | registerByGraphID p graphID parentID diffID tarDataFile size =>
    Layer.registerByGraphID b p graphID parentID diffID tarDataFile size s.ls s.world =
      (next, ls, w)
  | createRWLayer p name mountLabel initFunc storageOpt mountID =>
    Layer.createRWLayer b p name mountLabel initFunc storageOpt mountID s.ls s.world = (next, ls, w)
  | createRWLayerByGraphID p name graphID =>
    Layer.createRWLayerByGraphID b p name graphID s.ls s.world = (next, ls, w)
  | releaseRWLayer p => ∃ res, releaseLayer b 0 [] p s.ls s.world = .ok (res, ls, w) ∧
    next = .finish (releaseResult res)
  | releaseParent p _ res => ∃ res', releaseLayer b 0 [] p s.ls s.world = .ok (res', ls, w) ∧
    next = .finish res

theorem advance_of_release {s s' : Sys ω τ} {i : Nat} {r : Option Result} {p : RoLayer}
    {mount : Bool} (result : Except Err (List Metadata) → Result)
    (h : (match releaseLayer b 0 [] p s.ls s.world with
      | .error e => .error e
      | .ok (res, ls, w) => .ok (s.advance i mount ls w (.finish (result res)))) = ok (r, s')) :
    ∃ res ls w, releaseLayer b 0 [] p s.ls s.world = .ok (res, ls, w) ∧
      s.advance i mount ls w (.finish (result res)) = (r, s') := by
  rcases hrel : releaseLayer b 0 [] p s.ls s.world with e | out
  · simp [hrel] at h
  rcases out with ⟨res, ls, w⟩
  rw [hrel] at h
  exact ⟨res, ls, w, rfl, ok.inj h⟩

theorem resume_cases {s s' : Sys ω τ} {i : Nat} {op : Op ω τ} {r : Option Result}
    (h : resume b i s op = .ok (r, s')) :
    ∃ mount next ls w, op.Does b s next ls w ∧ s.advance i mount ls w next = (r, s') := by
  -- The two releases are the only ones that can panic.
  cases op with
  | registerApply =>
    exact ⟨_, _, _, _, ⟨rfl, rfl⟩, ok.inj h⟩
  | registerCommit =>
    exact ⟨_, _, _, _, rfl, ok.inj h⟩
  | registerCleanup =>
    exact ⟨_, _, _, _, ⟨rfl, rfl⟩, ok.inj h⟩
  | registerByGraphID | createRWLayer | createRWLayerByGraphID =>
    exact ⟨_, _, _, _, rfl, ok.inj h⟩
  | releaseRWLayer p =>
    rcases advance_of_release b _ h with ⟨res, ls, w, hrel, hs'⟩
    exact ⟨_, _, _, _, ⟨res, hrel, rfl⟩, hs'⟩
  | releaseParent p mount res =>
    rcases advance_of_release b (fun _ => res) h with ⟨res', ls, w, hrel, hs'⟩
    exact ⟨_, _, _, _, ⟨res', hrel, rfl⟩, hs'⟩

theorem step_cases {s s' : Sys ω τ} {a : Action ω} {r : Option Result}
    (h : step b a s = .ok (r, s')) :
    (∃ mount next ls w, a.Does b s next ls w ∧ s.put mount ls w next = (r, s')) ∨
    (∃ i op mount next ls w, a = .resume i ∧ s.ops[i]? = some op ∧ op.Does b s next ls w ∧
      s.advance i mount ls w next = (r, s')) ∨
    (r = none ∧ s' = s) := by
  -- A call that needs `mountL` waits while it is taken.
  have hwait : (ok (none, s) : Except Panic (Option Result × Sys ω τ)) = .ok (r, s') →
      r = none ∧ s' = s := fun heq => by
    cases heq
    exact ⟨rfl, rfl⟩
  cases a with
  | register =>
    exact .inl ⟨_, _, _, _, ⟨rfl, rfl⟩, ok.inj h⟩
  | registerByGraphID graphID parent =>
    simp only [step] at h
    cases ht : takeParent s.ls parent with
    | none =>
      rw [ht] at h
      exact .inl ⟨_, _, _, _, .inl ⟨_, rfl, rfl, rfl⟩, ok.inj h⟩
    | some q =>
      rcases q with ⟨p, ls⟩
      rw [ht] at h
      exact .inl ⟨_, _, _, _, .inr ⟨p, ht, rfl, rfl⟩, ok.inj h⟩
  | get c => exact .inl ⟨_, _, _, _, ⟨_, rfl, rfl, rfl⟩, ok.inj h⟩
  | release c ref =>
    simp only [step] at h
    rcases hrel : release b c ref s.ls s.world with e | out
    · simp [hrel] at h
    rcases out with ⟨res, ls, w⟩
    rw [hrel] at h
    exact .inl ⟨_, _, _, _, ⟨res, hrel, rfl⟩, ok.inj h⟩
  | createRWLayer =>
    simp only [step] at h
    split at h
    · exact .inr (.inr (hwait h))
    · exact .inl ⟨_, _, _, _, ⟨rfl, rfl⟩, ok.inj h⟩
  | createRWLayerByGraphID =>
    simp only [step] at h
    split at h
    · exact .inr (.inr (hwait h))
    · split at h
      · nomatch h
      · next next ls hstart => exact .inl ⟨_, _, _, _, ⟨hstart, rfl⟩, ok.inj h⟩
  | getRWLayer name =>
    simp only [step] at h
    split at h
    · exact .inr (.inr (hwait h))
    · exact .inl ⟨_, _, _, _, ⟨_, rfl, rfl, rfl⟩, ok.inj h⟩
  | releaseRWLayer =>
    simp only [step] at h
    split at h
    · exact .inr (.inr (hwait h))
    · exact .inl ⟨_, _, _, _, rfl, ok.inj h⟩
  | resume i =>
    simp only [step] at h
    cases hop : s.ops[i]? with
    | none =>
      rw [hop] at h
      exact .inr (.inr (hwait h))
    | some op =>
      rw [hop] at h
      rcases resume_cases b h with ⟨mount, next, ls, w, hdoes, hs'⟩
      exact .inr (.inl ⟨i, op, mount, next, ls, w, rfl, hop, hdoes, hs'⟩)

end Dao.Layer
