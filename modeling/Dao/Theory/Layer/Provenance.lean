import Dao.Theory.Layer.Interleaving

/-!
# Where Layers Come From

One inversion of the step function, from which every invariant about the
layers of the map is derived without taking the operations apart again.

A layer that is in the map after a step was there before, or the step resumed
an operation that makes it. Only two operations make layers, the commit of
`registerWithDescriptor` and `RegisterByGraphID`. An operation that is going
to make one is in flight after a step if it was in flight before, or if the
step was the call that starts it, or if it went on from the lock-free part of
`registerWithDescriptor`.

`run_provenance` packages the induction. A property of layers holds of every
layer in every run as soon as it passes from what an operation holds to what
it makes, and a property of the operations that make them is established when
they start.

## Theorems

* `step_provenance`: A step.
* `run_provenance`: The rule for runs.
-/

namespace Dao.Layer

open Lib Call

variable {ω τ : Type}

/-- The operation is going to make a layer. -/
def Op.registering : Op ω τ → Bool
  | registerApply .. => true
  | registerCommit .. => true
  | registerByGraphID .. => true
  | _ => false

/-- The chain ID of an optional parent, empty without one. -/
def parentID : Option RoLayer → ChainID
  | none => []
  | some p => p.chainID

/-- The layer an operation makes, in a store that gives it an identity. -/
def Op.Makes (op : Op ω τ) (l : RoLayer) : Prop :=
  match op with
  | registerCommit p descriptor cacheID _ size diffID =>
    ∃ ptr, l = .mk ⟨ptr, registerChainID p diffID, diffID, cacheID, size, descriptor⟩ p
  | registerByGraphID p graphID parentID diffID _ size =>
    ∃ ptr, l = .mk ⟨ptr, createChainIDFromParent parentID [diffID], diffID, graphID, size,
      Descriptor.empty⟩ p
  | _ => False

/-- The parent that is taken for a chain ID. -/
def TakenAs (ls : LayerStore) (parent : ChainID) (p : Option RoLayer) : Prop :=
  (parent = [] ∧ p = none) ∨ (parent ≠ [] ∧ ∃ q, p = some q ∧ ls.layerMap.lookup parent = some q)

/-- The operation a call starts, if it is one that makes a layer. -/
def Action.Starts (ls : LayerStore) (a : Action ω) (op : Op ω τ) : Prop :=
  match a with
  | register ts parent descriptor cacheID =>
    ∃ p, op = .registerApply p ts descriptor cacheID ∧ TakenAs ls parent p ∧
      ∀ q, p = some q → q.depth < maxLayerDepth
  | registerByGraphID graphID parent diffID tarDataFile size =>
    ∃ p, op = .registerByGraphID p graphID parent diffID tarDataFile size ∧ TakenAs ls parent p
  | _ => False

/-- How an operation that makes a layer goes on. -/
def Op.Continues (op op' : Op ω τ) : Prop :=
  match op with
  | registerApply p ts descriptor cacheID =>
    ∃ tx size, op' = .registerCommit p descriptor cacheID tx size (Digest.fromBytes ts)
  | _ => False

/-- What a step can have done to the layers and to the operations that make
    them. -/
structure Provenance (a : Action ω) (s s' : Sys ω τ) : Prop where
  layers : ∀ c l, s'.ls.layerMap.lookup c = some l →
    s.ls.layerMap.lookup c = some l ∨ ∃ op ∈ s.ops, op.Makes l ∧ c = l.chainID
  ops : ∀ op ∈ s'.ops, op.registering = true →
    op ∈ s.ops ∨ a.Starts s.ls op ∨ ∃ op₀ ∈ s.ops, op₀.Continues op

variable {op : Op ω τ} {ls : LayerStore}

theorem starts_cases {a : Action ω} (h : a.Starts ls op) :
    (∃ ts parent descriptor cacheID p, a = .register ts parent descriptor cacheID ∧
      op = .registerApply p ts descriptor cacheID ∧ TakenAs ls parent p ∧
      ∀ q, p = some q → q.depth < maxLayerDepth) ∨
    (∃ graphID parent diffID tarDataFile size p,
      a = .registerByGraphID graphID parent diffID tarDataFile size ∧
      op = .registerByGraphID p graphID parent diffID tarDataFile size ∧
      TakenAs ls parent p) := by
  cases a with
  | register ts parent descriptor cacheID =>
    rcases h with ⟨p, hop, htaken, hdepth⟩
    exact .inl ⟨ts, parent, descriptor, cacheID, p, rfl, hop, htaken, hdepth⟩
  | registerByGraphID graphID parent diffID tarDataFile size =>
    rcases h with ⟨p, hop, htaken⟩
    exact .inr ⟨graphID, parent, diffID, tarDataFile, size, p, rfl, hop, htaken⟩
  | _ => exact absurd h not_false

variable {l : RoLayer}

theorem makes_cases (h : op.Makes l) :
    (∃ p descriptor cacheID tx size diffID ptr,
      op = .registerCommit p descriptor cacheID tx size diffID ∧
      l = .mk ⟨ptr, registerChainID p diffID, diffID, cacheID, size, descriptor⟩ p) ∨
    (∃ p graphID parentID diffID tarDataFile size ptr,
      op = .registerByGraphID p graphID parentID diffID tarDataFile size ∧
      l = .mk ⟨ptr, createChainIDFromParent parentID [diffID], diffID, graphID, size,
        Descriptor.empty⟩ p) := by
  cases op with
  | registerCommit p descriptor cacheID tx size diffID =>
    rcases h with ⟨ptr, hl⟩
    exact .inl ⟨p, descriptor, cacheID, tx, size, diffID, ptr, rfl, hl⟩
  | registerByGraphID p graphID parentID diffID tarDataFile size =>
    rcases h with ⟨ptr, hl⟩
    exact .inr ⟨p, graphID, parentID, diffID, tarDataFile, size, ptr, rfl, hl⟩
  | _ => exact absurd h not_false

theorem makes_parent (h : op.Makes l) : l.parent = op.parent := by
  rcases makes_cases h with ⟨p, _, _, _, _, _, _, hop, hl⟩ | ⟨p, _, _, _, _, _, _, hop, hl⟩
  · rw [hop, hl, mk_parent, Op.parent]
  · rw [hop, hl, mk_parent, Op.parent]

/-- Only the lock-free part of `registerWithDescriptor` goes on to make a
    layer, with the parent it has. -/
theorem continues_cases {op op' : Op ω τ} (h : op.Continues op') :
    ∃ p ts descriptor cacheID tx size, op = .registerApply p ts descriptor cacheID ∧
      op' = .registerCommit p descriptor cacheID tx size (Digest.fromBytes ts) := by
  cases op with
  | registerApply p ts descriptor cacheID =>
    rcases h with ⟨tx, size, hop'⟩
    exact ⟨p, ts, descriptor, cacheID, tx, size, rfl, hop'⟩
  | _ => exact absurd h not_false

theorem takeParent_takenAs {ls ls' : LayerStore} {parent : ChainID} {p : Option RoLayer}
    (h : takeParent ls parent = some (p, ls')) :
    TakenAs ls parent p ∧ ls'.layerMap = ls.layerMap := by
  refine ⟨?_, (takeParent_same h).1⟩
  rcases takeParent_cases h with ⟨hp, hnone, _⟩ | ⟨hp, l, hl, hsome, _⟩
  · exact .inl ⟨hp, hnone⟩
  · exact .inr ⟨hp, l, hsome, hl⟩

section Release

variable (b : Backend ω τ)

/-- A release takes layers out of the map and does nothing else to it,
    whatever the state it is called in. -/
theorem releaseLayer_submap (l : RoLayer) {depth : Nat} {removed : List Metadata}
    {ls ls' : LayerStore} {w w' : ω} {res : Except Err (List Metadata)}
    (h : releaseLayer b depth removed l ls w = .ok (res, ls', w')) :
    Submap ls'.layerMap ls.layerMap := by
  -- A round that goes on has erased one layer.
  have herase : ∀ depth removed l ls1 w1 removed' ls2 w2, Submap ls1.layerMap ls.layerMap →
      releaseOne b depth removed l ls1 w1 = .ok (.next removed' ls2 w2) →
      Submap ls2.layerMap ls.layerMap := by
    intro depth removed l ls1 w1 removed' ls2 w2 hsub hone
    rw [(releaseOne_next b hone).1]
    exact fun c k hk => hsub c k (submap_erase _ _ c k hk)
  refine releaseLayer_rule b (fun _ _ _ ls1 _ => Submap ls1.layerMap ls.layerMap)
    (fun ls1 _ => Submap ls1.layerMap ls.layerMap) ?_ ?_ ?_ l (submap_refl _) h
  · intro depth removed l ls1 w1 res ls2 w2 hsub hone
    rw [(releaseOne_done b hone).1]
    exact hsub
  · exact fun depth removed i ls1 w1 removed' ls2 w2 hsub hone =>
      herase _ _ _ _ _ _ _ _ hsub hone
  · exact fun depth removed i p ls1 w1 removed' ls2 w2 hsub hone =>
      herase _ _ _ _ _ _ _ _ hsub hone

end Release

/-- The map after a segment that makes at most the layers satisfying `made`. -/
def Grows (ls ls' : LayerStore) (made : RoLayer → Prop) : Prop :=
  ∀ c l, ls'.layerMap.lookup c = some l → ls.layerMap.lookup c = some l ∨ (made l ∧ c = l.chainID)

theorem grows_same {ls ls' : LayerStore} (made : RoLayer → Prop)
    (h : ls'.layerMap = ls.layerMap) : Grows ls ls' made := by
  intro c l hl
  rw [h] at hl
  exact .inl hl

theorem grows_publish (ls : LayerStore) {made : RoLayer → Prop} (h : made l) :
    Grows ls ((ls.publish l).getReference l).2 made := by
  intro c k hk
  rcases AMap.lookup_insert_cases (m := ls.layerMap) hk with ⟨_, hold⟩ | ⟨hc, rfl⟩
  · exact .inl hold
  · exact .inr ⟨h, hc⟩

/-- An operation that has returned, or waits for something else than making a
    layer. -/
def Next.Idle (next : Next ω τ) : Prop := ∀ op, next = .wait op → op.registering = false

theorem idle_finish (res : Result) : (Next.finish res : Next ω τ).Idle := by
  intro op h
  nomatch h

theorem idle_wait (h : op.registering = false) : (Next.wait op).Idle := by
  intro op' heq
  cases heq
  exact h

theorem idle_abandon (mount : Bool) (res : Result) (p : Option RoLayer) :
    (abandon mount res p : Next ω τ).Idle := by
  cases p with
  | none => exact idle_finish res
  | some q => exact idle_wait rfl

section Segments

variable (b : Backend ω τ)

theorem applyTar_diffID {tx : τ} {ts : Bytes} {parent cacheID : Str} {w w' : ω} {size : Int64}
    {diffID : DiffID} (h : applyTar b tx ts parent cacheID w = (.ok (size, diffID), w')) :
    diffID = Digest.fromBytes ts := by
  rcases bind_eq_ok.mp h with ⟨_, w1, _, h⟩
  rcases bind_eq_ok.mp h with ⟨_, w2, _, h⟩
  rcases bind_eq_ok.mp h with ⟨n, w3, _, h⟩
  cases h
  exact rfl

theorem registerApply_next (p : Option RoLayer) (ts : Bytes) (descriptor : Descriptor)
    (cacheID : Str) (w : ω) (op : Op ω τ)
    (h : (registerApply b p ts descriptor cacheID w).1 = .wait op) :
    op.registering = false ∨ (Op.registerApply p ts descriptor cacheID : Op ω τ).Continues op := by
  unfold registerApply at h
  split at h
  · exact .inl (idle_abandon _ _ _ op h)
  split at h
  · exact .inl (idle_abandon _ _ _ op h)
  split at h
  · exact .inl (idle_wait rfl op h)
  next tx _ _ _ size diffID w3 heq =>
  right
  rcases bind_eq_ok.mp heq with ⟨r, w1, happly, hrest⟩
  rcases r with ⟨n, d⟩
  rcases bind_eq_ok.mp hrest with ⟨_, w2, _, hpure⟩
  cases hpure
  have hd := applyTar_diffID b happly
  rw [Next.wait.injEq] at h
  refine ⟨tx, size, ?_⟩
  rw [← h, ← hd]

theorem registerCommit_grows (p : Option RoLayer) (descriptor : Descriptor) (cacheID : Str)
    (tx : τ) (size : Int64) (diffID : DiffID) (ls : LayerStore) (w : ω) :
    (registerCommit b p descriptor cacheID tx size diffID ls w).1.Idle ∧
      Grows ls (registerCommit b p descriptor cacheID tx size diffID ls w).2.1
        (Op.registerCommit p descriptor cacheID tx size diffID : Op ω τ).Makes := by
  unfold registerCommit
  rcases getWithoutLock_cases ls (registerChainID p diffID) with ⟨_, hget⟩ | ⟨l, _, hget⟩
  · simp only [hget]
    split
    · exact ⟨idle_wait rfl, grows_same _ rfl⟩
    · exact ⟨idle_finish _, grows_publish ls ⟨_, rfl⟩⟩
  · simp only [hget]
    exact ⟨idle_wait rfl, grows_same _ rfl⟩

theorem registerByGraphID_grows (p : Option RoLayer) (graphID : Str) (parentID : ChainID)
    (diffID : DiffID) (tarDataFile : Str) (size : Int64) (ls : LayerStore) (w : ω) :
    (registerByGraphID b p graphID parentID diffID tarDataFile size ls w).1.Idle ∧
      Grows ls (registerByGraphID b p graphID parentID diffID tarDataFile size ls w).2.1
        (Op.registerByGraphID p graphID parentID diffID tarDataFile size : Op ω τ).Makes := by
  unfold registerByGraphID
  rcases getWithoutLock_cases ls (createChainIDFromParent parentID [diffID]) with
    ⟨_, hget⟩ | ⟨l, _, hget⟩
  · simp only [hget]
    split
    · exact ⟨idle_abandon _ _ _, grows_same _ rfl⟩
    · exact ⟨idle_finish _, grows_publish ls ⟨_, rfl⟩⟩
  · simp only [hget]
    exact ⟨idle_abandon _ _ _, grows_same _ rfl⟩

theorem get_layerMap (c : ChainID) (ls : LayerStore) : (get c ls).2.layerMap = ls.layerMap := by
  unfold get
  rcases getWithoutLock_cases ls c with ⟨_, hget⟩ | ⟨l, _, hget⟩
  · simp [hget]
  · simp only [hget]
    rfl

theorem getRWLayer_layerMap (name : Str) (ls : LayerStore) :
    (getRWLayer name ls).2.layerMap = ls.layerMap := by
  unfold getRWLayer
  cases ls.mounts.lookup name with
  | none => rfl
  | some m => rfl

theorem startReleaseRWLayer_same (name : Str) (ref : Nat) (ls : LayerStore) (w : ω) :
    (startReleaseRWLayer b name ref ls w : Next ω τ × LayerStore × ω).1.Idle ∧
    (startReleaseRWLayer b name ref ls w : Next ω τ × LayerStore × ω).2.1.layerMap =
      ls.layerMap := by
  unfold startReleaseRWLayer
  rcases ls.mounts.lookup name with _ | m
  · exact ⟨idle_finish _, rfl⟩
  simp only
  split
  · split
    · exact ⟨idle_finish _, rfl⟩
    rcases releaseRWLayerCalls b m w with ⟨r, w'⟩
    rcases r with e | u
    · exact ⟨idle_finish _, rfl⟩
    cases m.parent with
    | none => exact ⟨idle_finish _, rfl⟩
    | some q => exact ⟨idle_wait rfl, rfl⟩
  · exact ⟨idle_finish _, rfl⟩

theorem createRWLayer_same (p : Option RoLayer) (name mountLabel : Str)
    (initFunc : Option (Str → Call Str ω Unit)) (storageOpt : List (Str × Str)) (mountID : Str)
    (ls : LayerStore) (w : ω) :
    (createRWLayer b p name mountLabel initFunc storageOpt mountID ls w).1.Idle ∧
    (createRWLayer b p name mountLabel initFunc storageOpt mountID ls w).2.1.layerMap =
      ls.layerMap := by
  unfold createRWLayer
  split
  · exact ⟨idle_abandon _ _ _, rfl⟩
  · exact ⟨idle_finish _, rfl⟩

theorem createRWLayerByGraphID_same (p : Option RoLayer) (name graphID : Str) (ls : LayerStore)
    (w : ω) :
    (createRWLayerByGraphID b p name graphID ls w).1.Idle ∧
    (createRWLayerByGraphID b p name graphID ls w).2.1.layerMap = ls.layerMap := by
  unfold createRWLayerByGraphID
  simp only
  split
  · exact ⟨idle_abandon _ _ _, rfl⟩
  · exact ⟨idle_finish _, rfl⟩

end Segments

variable {a : Action ω} {s s' : Sys ω τ} {next : Next ω τ} {w : ω} {r : Option Result} {op : Op ω τ}

theorem provenance_put {ls' : LayerStore} {mount : Bool} (h : s.put mount ls' w next = (r, s'))
    (hl : Submap ls'.layerMap s.ls.layerMap)
    (hn : ∀ op, next = .wait op → op.registering = true → a.Starts s.ls op) :
    Provenance a s s' := by
  have hs' : s' = (s.put mount ls' w next).2 := by rw [h]
  rw [hs']
  cases next with
  | finish res => exact ⟨fun c l h => .inl (hl c l h), fun op hop _ => .inl hop⟩
  | wait op =>
    refine ⟨fun c l h => .inl (hl c l h), fun op' hop' hreg => ?_⟩
    rcases List.mem_append.mp hop' with hold | hnew
    · exact .inl hold
    · rw [List.mem_singleton] at hnew
      rw [hnew] at hreg ⊢
      exact .inr (.inl (hn op rfl hreg))

theorem provenance_advance {i : Nat} (hop : s.ops[i]? = some op) {ls' : LayerStore} {mount : Bool}
    (h : s.advance i mount ls' w next = (r, s')) (hl : Grows s.ls ls' op.Makes)
    (hn : ∀ op', next = .wait op' → op'.registering = true → op.Continues op') :
    Provenance a s s' := by
  have hs' : s' = (s.advance i mount ls' w next).2 := by rw [h]
  rw [hs']
  have hmem : op ∈ s.ops := List.mem_of_getElem? hop
  have hlayers : ∀ c l, ls'.layerMap.lookup c = some l →
      s.ls.layerMap.lookup c = some l ∨ ∃ op ∈ s.ops, op.Makes l ∧ c = l.chainID := by
    intro c l h
    rcases hl c l h with hold | hmade
    · exact .inl hold
    · exact .inr ⟨op, hmem, hmade⟩
  rcases next with res | op1
  · exact ⟨hlayers, fun op' hop' _ => .inl (List.mem_of_mem_eraseIdx hop')⟩
  refine ⟨hlayers, fun op' hop' hreg => ?_⟩
  rcases List.mem_or_eq_of_mem_set hop' with hold | hnew
  · exact .inl hold
  · rw [hnew] at hreg ⊢
    exact .inr (.inr ⟨op, hmem, hn op1 rfl hreg⟩)

theorem idle_absurd (h : next.Idle) {P : Op ω τ → Prop} :
    ∀ op, next = .wait op → op.registering = true → P op := by
  intro op hop hreg
  rw [h op hop] at hreg
  simp at hreg

/-- Resuming an operation makes at most its layer, and goes on as it should. -/
theorem opDoes_provenance (b : Backend ω τ) (h : op.Does b s next ls w) :
    Grows s.ls ls op.Makes ∧
      ∀ op', next = .wait op' → op'.registering = true → op.Continues op' := by
  cases op with
  -- Only the lock-free part goes on to another operation that makes a layer.
  | registerApply p ts descriptor cacheID =>
    rcases h with ⟨hdoes, rfl⟩
    refine ⟨grows_same _ rfl, fun op' hwait hreg => ?_⟩
    have hnext := registerApply_next b p ts descriptor cacheID s.world op'
    rw [hdoes] at hnext
    rcases hnext hwait with hidle | hcont
    · rw [hidle] at hreg
      simp at hreg
    · exact hcont
  | registerCommit p descriptor cacheID tx size diffID =>
    have hgrows := registerCommit_grows b p descriptor cacheID tx size diffID s.ls s.world
    rw [show Layer.registerCommit b p descriptor cacheID tx size diffID s.ls s.world = _ from h]
      at hgrows
    exact ⟨hgrows.2, idle_absurd hgrows.1⟩
  | registerCleanup =>
    rcases h with ⟨hdoes, rfl⟩
    cases hdoes
    exact ⟨grows_same _ rfl, idle_absurd (idle_abandon _ _ _)⟩
  | registerByGraphID p graphID parentID diffID tarDataFile size =>
    have hgrows := registerByGraphID_grows b p graphID parentID diffID tarDataFile size s.ls s.world
    rw [show Layer.registerByGraphID b p graphID parentID diffID tarDataFile size s.ls s.world = _
      from h] at hgrows
    exact ⟨hgrows.2, idle_absurd hgrows.1⟩
  | createRWLayer p name mountLabel initFunc storageOpt mountID =>
    have hsame := createRWLayer_same b p name mountLabel initFunc storageOpt mountID s.ls s.world
    rw [show Layer.createRWLayer b p name mountLabel initFunc storageOpt mountID s.ls s.world = _
      from h] at hsame
    exact ⟨grows_same _ hsame.2, idle_absurd hsame.1⟩
  | createRWLayerByGraphID p name graphID =>
    have hsame := createRWLayerByGraphID_same b p name graphID s.ls s.world
    rw [show Layer.createRWLayerByGraphID b p name graphID s.ls s.world = _ from h] at hsame
    exact ⟨grows_same _ hsame.2, idle_absurd hsame.1⟩
  | releaseRWLayer p =>
    rcases h with ⟨res, hrel, rfl⟩
    exact ⟨fun c l hl => .inl (releaseLayer_submap b p hrel c l hl), idle_absurd (idle_finish _)⟩
  | releaseParent p =>
    rcases h with ⟨res', hrel, rfl⟩
    exact ⟨fun c l hl => .inl (releaseLayer_submap b p hrel c l hl), idle_absurd (idle_finish _)⟩

/-- Starting a call makes no layer, and starts what it should. -/
theorem actionDoes_provenance (b : Backend ω τ) (h : a.Does b s next ls w) :
    Submap ls.layerMap s.ls.layerMap ∧
      ∀ op, next = .wait op → op.registering = true → a.Starts s.ls op := by
  -- All calls but the releases leave the map as it is.
  have hsub : ls.layerMap = s.ls.layerMap → Submap ls.layerMap s.ls.layerMap := fun heq => by
    rw [heq]
    exact submap_refl _
  cases a with
  | register ts parent =>
    rcases startRegister_cases h.1 with ⟨e, rfl, rfl⟩ | ⟨p, ht, hnext⟩
    · exact ⟨submap_refl _, idle_absurd (idle_finish _)⟩
    rcases takeParent_takenAs ht with ⟨htaken, hmap⟩
    rcases hnext with ⟨e, rfl⟩ | ⟨rfl, hdepth⟩
    · exact ⟨hsub hmap, idle_absurd (idle_abandon _ _ _)⟩
    · exact ⟨hsub hmap, fun op hop _ => ⟨p, (Next.wait.inj hop).symm, htaken, hdepth⟩⟩
  | registerByGraphID =>
    rcases h with ⟨e, rfl, rfl, _⟩ | ⟨p, ht, _, rfl⟩
    · exact ⟨submap_refl _, idle_absurd (idle_finish _)⟩
    · rcases takeParent_takenAs ht with ⟨htaken, hmap⟩
      exact ⟨hsub hmap, fun op hop _ => ⟨p, (Next.wait.inj hop).symm, htaken⟩⟩
  | get c =>
    rcases h with ⟨res, hget, rfl, _⟩
    have hmap := get_layerMap c s.ls
    rw [hget] at hmap
    exact ⟨hsub hmap, idle_absurd (idle_finish _)⟩
  | release =>
    rcases h with ⟨res, hrel, rfl⟩
    refine ⟨?_, idle_absurd (idle_finish _)⟩
    rcases release_cases b hrel with ⟨rfl, _⟩ | ⟨l, _, _, res', hloop⟩
    · exact submap_refl _
    · have hloop' := releaseLayer_submap b l hloop
      exact hloop'
  | createRWLayer =>
    rcases startCreateRWLayer_cases h.1 with ⟨e, rfl, rfl⟩ | ⟨_, p, ht, rfl⟩
    · exact ⟨submap_refl _, idle_absurd (idle_finish _)⟩
    · exact ⟨hsub (takeParent_same ht).1, idle_absurd (idle_wait rfl)⟩
  | createRWLayerByGraphID =>
    rcases startCreateRWLayerByGraphID_cases b h.1 with ⟨res, rfl, rfl⟩ | ⟨_, p, ht, rfl⟩
    · exact ⟨submap_refl _, idle_absurd (idle_finish _)⟩
    · exact ⟨hsub (takeParent_same ht).1, idle_absurd (idle_wait rfl)⟩
  | getRWLayer name =>
    rcases h with ⟨res, hget, rfl, _⟩
    have hmap := getRWLayer_layerMap name s.ls
    rw [hget] at hmap
    exact ⟨hsub hmap, idle_absurd (idle_finish _)⟩
  | releaseRWLayer name ref =>
    have hsame := startReleaseRWLayer_same b name ref s.ls s.world
    rw [show startReleaseRWLayer b name ref s.ls s.world = _ from h] at hsame
    exact ⟨hsub hsame.2, idle_absurd hsame.1⟩
  | resume i => exact absurd h not_false

theorem step_provenance (b : Backend ω τ) (h : step b a s = .ok (r, s')) : Provenance a s s' := by
  rcases step_cases b h with ⟨mount, next, ls, w, hdoes, hs'⟩ |
    ⟨i, op, mount, next, ls, w, _, hop, hdoes, hs'⟩ | ⟨_, rfl⟩
  · rcases actionDoes_provenance b hdoes with ⟨hsub, hstarts⟩
    exact provenance_put hs' hsub hstarts
  · rcases opDoes_provenance b hdoes with ⟨hgrows, hcont⟩
    exact provenance_advance hop hs' hgrows hcont
  · exact ⟨fun c l hl => .inl hl, fun op hop _ => .inl hop⟩

theorem registering_of_makes (h : op.Makes l) : op.registering = true := by
  cases op <;> first | rfl | exact absurd h not_false

theorem registering_of_continues {op op' : Op ω τ} (h : op.Continues op') :
    op.registering = true := by
  cases op <;> first | rfl | exact absurd h not_false

/-- Layers satisfy `Q`, operations that are going to make one satisfy `R`. -/
structure Traced (Q : RoLayer → Prop) (R : Op ω τ → Prop) (s : Sys ω τ) : Prop where
  layers : ∀ c l, s.ls.layerMap.lookup c = some l → Q l
  ops : ∀ op ∈ s.ops, op.registering = true → R op

theorem run_provenance (b : Backend ω τ) (C : Sys ω τ → Action ω → Prop) (Q : RoLayer → Prop)
    (R : Op ω τ → Prop)
    (hmake : ∀ op l, R op → (∀ p, op.parent = some p → Q p) → op.Makes l → Q l)
    (hstart : ∀ s a op, SysOK s → Traced Q R s → C s a → a.Starts s.ls op → R op)
    (hcont : ∀ op op', R op → op.Continues op' → R op')
    (as : List (Action ω)) (s t : Sys ω τ) (rs : List (Option Result)) (hok : SysOK s)
    (hs : Traced Q R s) (hmeets : Meets (step b) C as s)
    (hrun : run (step b) as s = .ok (rs, t)) : SysOK t ∧ Traced Q R t := by
  refine run_invariant_of_meets C (fun s => SysOK s ∧ Traced Q R s) ?_ as s t rs ⟨hok, hs⟩
    hmeets hrun
  intro a s r s' hI hC hstep
  rcases hI with ⟨hok, hs⟩
  have hprov := step_provenance b hstep
  refine ⟨sysOK_of_step b hok hstep, fun c l hl => ?_, fun op hop hreg => ?_⟩
  · rcases hprov.layers c l hl with hold | ⟨op, hop, hmakes, _⟩
    · exact hs.layers c l hold
    · -- What the operation holds is in the map, so it is known to satisfy `Q`.
      refine hmake op l (hs.ops op hop (registering_of_makes hmakes)) (fun p hp => ?_) hmakes
      exact hs.layers _ p (hok.parents op hop p hp)
  · rcases hprov.ops op hop hreg with hold | hnew | ⟨op0, hop0, hcontinues⟩
    · exact hs.ops op hold hreg
    · exact hstart s a op hok hs hC hnew
    · exact hcont op0 op (hs.ops op0 hop0 (registering_of_continues hcontinues)) hcontinues

end Dao.Layer
