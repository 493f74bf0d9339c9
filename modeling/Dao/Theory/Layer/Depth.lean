import Dao.Theory.Layer.Provenance
import Dao.Theory.Layer.Safety

/-!
# The Depth of Chains

`maxLayerDepth` bounds the chains the graph drivers are given. It is checked
by `registerWithDescriptor`, which refuses a parent that is already that
deep, and by nothing else.

`run_depth` is the bound over every run in which `RegisterByGraphID` is only
called with parents below it. Without that condition there is no bound:
`registerOn_depth` says that calling it with the layer it made last builds a
chain as deep as one likes, as long as the chain IDs differ, and
`depth_unbounded` is the case of one layer more than the maximum.

## Theorems

* `run_depth`: No layer is deeper than the maximum in a run that meets the
  condition.
* `depth_unbounded`: It builds one that is too deep.
-/

namespace Dao.Layer

open Lib List

section Bound

variable {ω τ : Type}

/-- A call to `RegisterByGraphID` names a parent that `registerWithDescriptor`
    would not refuse. -/
def ShallowParent (s : Sys ω τ) (a : Action ω) : Prop :=
  match a with
  | .registerByGraphID _ parent _ _ _ =>
    ∀ q ∈ s.ls.layerMap.lookup parent, q.depth < maxLayerDepth
  | _ => True

instance (s : Sys ω τ) : (a : Action ω) → Decidable (ShallowParent s a)
  | .registerByGraphID _ parent _ _ _ =>
    inferInstanceAs (Decidable (∀ q ∈ s.ls.layerMap.lookup parent, q.depth < maxLayerDepth))
  | .register .. | .get _ | .release .. | .createRWLayer .. | .createRWLayerByGraphID ..
  | .getRWLayer _ | .releaseRWLayer .. | .resume _ => inferInstanceAs (Decidable True)

theorem traced_empty (Q : RoLayer → Prop) (R : Op ω τ → Prop) (w : ω) :
    Traced Q R (Sys.init τ LayerStore.empty w) := by
  refine ⟨fun c l hl => ?_, nofun⟩
  nomatch hl

theorem depth_eq (l : RoLayer) : l.depth = match l.parent with
      | none => 1
      | some p => p.depth + 1 := by
  cases l <;> rfl

/-- In a run from an empty store in which `RegisterByGraphID` is never called
    with a parent of maximal depth, no layer is deeper than the maximum. -/
theorem run_depth (b : Backend ω τ) (as : List (Action ω)) (w : ω) (s : Sys ω τ)
    (rs : List (Option Result))
    (hmeets : Meets (step b) ShallowParent as (Sys.init τ LayerStore.empty w))
    (hrun : run (step b) as (Sys.init τ LayerStore.empty w) = .ok (rs, s)) :
    ∀ c l, s.ls.layerMap.lookup c = some l → l.depth ≤ maxLayerDepth := by
  -- What is going to make a layer holds a parent below the maximum.
  have htraced := run_provenance b ShallowParent (fun l => l.depth ≤ maxLayerDepth)
    (fun op => ∀ p, op.parent = some p → p.depth < maxLayerDepth) ?_ ?_ ?_ as _ s rs
    (sysOK_init w accounted_empty) (traced_empty _ _ w) hmeets hrun
  · exact htraced.2.layers
  · intro op l hR _ hmakes
    have hd := depth_eq l
    rw [makes_parent hmakes] at hd
    cases hp : op.parent with
    | none =>
      rw [hp] at hd
      simp only at hd
      rw [hd, maxLayerDepth]
      omega
    | some p =>
      have hlt := hR p hp
      rw [hp] at hd
      simp only at hd
      omega
  · intro s a op _ _ hC hstarts p hp
    rcases starts_cases hstarts with ⟨_, _, _, _, _, _, hop, _, hdepth⟩ |
      ⟨_, parent, _, _, _, q, ha, hop, htaken⟩
    · rw [hop] at hp
      exact hdepth p hp
    rw [hop, Op.parent] at hp
    rw [ha] at hC
    rcases htaken with ⟨_, hnone⟩ | ⟨_, q', hq, hlook⟩
    · rw [hnone] at hp
      cases hp
    · rw [hq, Option.some.injEq] at hp
      rw [← hp]
      exact hC q' hlook
  · intro op op' hR hcont p hp
    rcases continues_cases hcont with ⟨q, ts, descriptor, cacheID, tx, size, hop, hop'⟩
    rw [hop'] at hp
    rw [hop] at hR
    exact hR p hp

end Bound

theorem run_depth_three :
    ∃ rs s, run (step idBackend) registerThree (Sys.init Path LayerStore.empty emptyWorld) =
        .ok (rs, s) ∧
      ∀ c l, s.ls.layerMap.lookup c = some l → l.depth ≤ maxLayerDepth := by
  have hok : (run (step idBackend) registerThree
      (Sys.init Path LayerStore.empty emptyWorld)).isOk = true := by decide +kernel
  rcases exists_run hok with ⟨rs, s, hrun⟩
  exact ⟨rs, s, hrun, run_depth idBackend registerThree emptyWorld s rs (by decide +kernel) hrun⟩

section Chains

variable {ω τ : Type}

/-- The chain IDs of layers with the given diff IDs, each on top of the one
    before, the first on top of a chain. -/
def chainIDsOn : ChainID → List DiffID → List ChainID
  | _, [] => []
  | c, d :: ds => createChainIDFromParent c [d] :: chainIDsOn (createChainIDFromParent c [d]) ds

/-- Register them one after the other, each call run to its end. -/
def registerOn (graphID : DiffID → Str) : ChainID → List DiffID → List (Action ω)
  | _, [] => []
  | c, d :: ds =>
    [.registerByGraphID (graphID d) c d [] 0, .resume 0] ++
      registerOn graphID (createChainIDFromParent c [d]) ds

/-- A chain can be taken as a parent, and has the given number of layers. -/
def TakenAtDepth (ls : LayerStore) (c : ChainID) (n : Nat) : Prop :=
  ∃ p ls', takeParent ls c = some (p, ls') ∧ p.elim 0 RoLayer.depth = n

theorem depth_mk (i : LayerInfo) (p : Option RoLayer) :
    (RoLayer.mk i p).depth = p.elim 0 RoLayer.depth + 1 := by
  cases p <;> rfl

theorem takenAtDepth_of_lookup {ls : LayerStore} {c : ChainID} {l : RoLayer} (hc : c ≠ [])
    (h : ls.layerMap.lookup c = some l) : TakenAtDepth ls c l.depth := by
  refine ⟨some l, ls.retain l, ?_, rfl⟩
  simp [takeParent, if_neg hc, LayerStore.getWithoutLock, h]

/-- One registration on top of a chain, when the backend lets it through and
    the chain ID is new. -/
theorem registerByGraphID_on {b : Backend ω τ} {s : Sys ω τ} {c : ChainID} {n : Nat}
    {graphID : Str} {d : DiffID}
    (hok : ∀ p chainID w, ∃ w', registerTransaction b p graphID d [] 0 chainID w = (.ok (), w'))
    (hops : s.ops = []) (hc : TakenAtDepth s.ls c n)
    (hnew : s.ls.layerMap.lookup (createChainIDFromParent c [d]) = none) :
    ∃ rs s', run (step b) [.registerByGraphID graphID c d [] 0, .resume 0] s = .ok (rs, s') ∧
      s'.ops = [] ∧ ∃ l, l.depth = n + 1 ∧
        s'.ls.layerMap = s.ls.layerMap.insert (createChainIDFromParent c [d]) l := by
  rcases hc with ⟨p, ls', htake, hdepth⟩
  have hmap := (takeParent_takenAs htake).2
  rw [← hmap] at hnew
  rcases hok p (createChainIDFromParent c [d]) s.world with ⟨w', htx⟩
  -- The call takes the parent and waits; the layer is not there when it is
  -- resumed, so that step makes it.
  let l : RoLayer :=
    .mk ⟨ls'.nextPtr, createChainIDFromParent c [d], d, graphID, 0, Descriptor.empty⟩ p
  let r := (ls'.publish l).getReference l
  refine ⟨[none, some (.ok (.layer (createChainIDFromParent c [d]) r.1))],
    ⟨r.2, w', [], (false || s.mountL) && !false⟩, ?_, rfl, l, ?_, ?_⟩
  · simp only [run, step, htake, Sys.put, hops, nil_append, getElem?_cons_zero,
      resume, registerByGraphID, LayerStore.getWithoutLock, hnew, htx, Sys.advance,
      eraseIdx_cons_zero]
    rfl
  · rw [depth_mk, hdepth]
  · rw [← hmap]
    exact congrArg (fun k => ls'.layerMap.insert k l) (mk_chainID _ p)

/-- On a backend that lets everything through, registering one layer after
    the other makes a chain of any depth, as long as their chain IDs differ
    from one another and from what is there. -/
theorem registerOn_depth {b : Backend ω τ} (graphID : DiffID → Str) (hok : ∀ p d chainID w,
      ∃ w', registerTransaction b p (graphID d) d [] 0 chainID w = (.ok (), w')) :
    ∀ (ds : List DiffID) (c : ChainID) (n : Nat) (s : Sys ω τ), s.ops = [] →
      TakenAtDepth s.ls c n → ([] :: chainIDsOn c ds).Nodup →
      (∀ x ∈ chainIDsOn c ds, s.ls.layerMap.lookup x = none) →
      ∃ rs s', run (step b) (registerOn graphID c ds) s = .ok (rs, s') ∧
        TakenAtDepth s'.ls (createChainIDFromParent c ds) (n + ds.length) := by
  intro ds
  induction ds with
  | nil => exact fun c n s _ hc _ _ => ⟨[], s, rfl, hc⟩
  | cons d ds ih =>
    intro c n s hops hc hnodup hnew
    rcases registerByGraphID_on (fun p => hok p d) hops hc
      (hnew _ mem_cons_self) with ⟨rs, s1, hrun, hops1, l, hdepth, hmap⟩
    have hne : createChainIDFromParent c [d] ≠ [] := fun h =>
      (nodup_cons.1 hnodup).1 (h ▸ mem_cons_self)
    have htail := (nodup_cons.1 hnodup).2
    -- The new layer is the parent of the next one.
    have hc1 : TakenAtDepth s1.ls (createChainIDFromParent c [d]) (n + 1) := by
      rw [← hdepth]
      refine takenAtDepth_of_lookup hne ?_
      rw [hmap, AList.lookup_insert]
    have hnodup1 : ([] :: chainIDsOn (createChainIDFromParent c [d]) ds).Nodup :=
      nodup_cons.2 ⟨fun h => (nodup_cons.1 hnodup).1 (mem_cons_of_mem _ h), (nodup_cons.1 htail).2⟩
    have hnew1 : ∀ x ∈ chainIDsOn (createChainIDFromParent c [d]) ds,
        s1.ls.layerMap.lookup x = none := by
      intro x hx
      have hxc : x ≠ createChainIDFromParent c [d] := fun h =>
        (nodup_cons.1 htail).1 (h ▸ hx)
      rw [hmap, AList.lookup_insert_ne hxc]
      exact hnew x (mem_cons_of_mem _ hx)
    rcases ih (createChainIDFromParent c [d]) (n + 1) s1 hops1 hc1 hnodup1 hnew1 with
      ⟨rs', s', hrun', hdepth'⟩
    refine ⟨rs ++ rs', s', ?_, ?_⟩
    · rw [registerOn, run_append _ _ _ _ _ hrun, hrun']
    · rw [createChainIDFromParent_cons, length_cons, Nat.add_comm ds.length, ← Nat.add_assoc]
      exact hdepth'

end Chains

/-- A backend on which every call succeeds and nothing is kept. -/
def silentBackend : Backend Unit Unit where
  driver :=
    { create := fun _ _ _ _ => pure ()
      createReadWrite := fun _ _ _ _ => pure ()
      remove := fun _ => pure ()
      get := fun _ _ => pure []
      put := fun _ => pure ()
      existsID := fun _ _ => true
      applyDiff := fun _ _ _ => pure 0 }
  store :=
    { startTransaction := pure ()
      setSize := fun _ _ => pure ()
      setParent := fun _ _ => pure ()
      setDiffID := fun _ _ => pure ()
      setCacheID := fun _ _ => pure ()
      setDescriptor := fun _ _ => pure ()
      tarSplitWriter := fun _ _ => pure ()
      commit := fun _ _ => pure ()
      cancel := fun _ => pure ()
      getSize := fun _ => pure 0
      getParent := fun _ => pure []
      getDiffID := fun _ => pure []
      getCacheID := fun _ => pure []
      getDescriptor := fun _ => pure Descriptor.empty
      setMountID := fun _ _ => pure ()
      setInitID := fun _ _ => pure ()
      setMountParent := fun _ _ => pure ()
      getMountID := fun _ => pure []
      getInitID := fun _ => pure []
      getMountParent := fun _ => pure []
      list := pure ([], [])
      remove := fun _ => pure ()
      removeMount := fun _ => pure () }
  tar :=
    { newInputTarStream := fun _ _ => pure ()
      openTarData := fun _ => pure ()
      copyTarData := fun _ _ => pure () }

theorem silentBackend_registers (p : Option RoLayer) (graphID : Str) (d : DiffID)
    (chainID : ChainID) (w : Unit) :
    ∃ w', registerTransaction silentBackend p graphID d [] 0 chainID w = (.ok (), w') := by
  cases p <;> exact ⟨w, rfl⟩

/-- One more registration than the maximum, all with one diff ID, which makes
    as many chain IDs. -/
theorem depth_unbounded :
    ∃ as rs s c l, run (step silentBackend) as (Sys.init Unit LayerStore.empty ()) = .ok (rs, s) ∧
      s.ls.layerMap.lookup c = some l ∧ l.depth = maxLayerDepth + 1 := by
  -- A few digits tell the chain IDs apart, and are faster to compare than the whole.
  have hnodup : ([] :: chainIDsOn [] (List.replicate 126 ['a'])).Nodup := by
    refine List.Nodup.of_map (fun id => ((id.drop 7).take 5).foldl
      (fun n c => 256 * n + c.toNat) id.length) ?_
    decide +kernel
  rcases registerOn_depth (fun _ => flatID 'a') (fun p => silentBackend_registers p _)
    (List.replicate 126 ['a']) [] 0 (Sys.init Unit LayerStore.empty ()) rfl
    ⟨none, _, rfl, rfl⟩ hnodup (fun x _ => AList.lookup_empty x) with
    ⟨rs, s, hrun, p, ls', htake, hdepth⟩
  rw [List.length_replicate, Nat.zero_add] at hdepth
  rcases (takeParent_takenAs htake).1 with ⟨_, hp⟩ | ⟨_, l, hp, hl⟩
  · rw [hp, Option.elim_none] at hdepth
    omega
  · rw [hp, Option.elim_some] at hdepth
    exact ⟨_, rs, s, _, l, hrun, hl, hdepth⟩

end Dao.Layer
