import Dao.Theory.Layer.Files
import Dao.Theory.Layer.Safety

/-!
# Deleting Layers

Whether a layer that is still in the map after a release can still be used.

`run_usable` is the answer for runs of careful steps on any backend that
keeps the contract: every layer of the map has its data and its entry, and
`Get` hands it out. Failures of the driver are allowed everywhere, a failure
to remove data included. `faulty_contract` shows that this is not an empty
promise, since a backend that keeps the contract also keeps it when its calls
fail at will.

`release_keeps_half` is the failure that is not allowed. The data of a layer
is removed, the removal of its entry fails, and the layer stays in the map
without its data. `Get` hands it out all the same.

## Theorems

* `run_usable`: The layers of a run can be used.
* `run_usable_faulty`: The same where a removal of data fails.
* `release_keeps_half`: A layer that cannot.
-/

namespace Dao.Layer

open Lib

section Faulty

variable {ω τ : Type} {b : Backend ω τ} {E : ω → ChainID → Prop} {Tx : τ → Prop}

/-- A call with failures does nothing, or what the call does. -/
theorem faulty_cases {α : Type} (e : Str) (x : Call Str ω α) (w : List Bool × ω) :
    (∃ script, Call.faulty e x w = (.error e, (script, w.2))) ∨
      ∃ script, Call.faulty e x w = ((x w.2).1, (script, (x w.2).2)) := by
  rcases w with ⟨script, w⟩
  rcases script with _ | ⟨f, script⟩
  · exact .inr ⟨[], rfl⟩
  cases f with
  | true => exact .inl ⟨script, rfl⟩
  | false => exact .inr ⟨script, rfl⟩

theorem keeps_faulty {α : Type} (e : Str) {ids : List Str} {chains : List ChainID}
    {x : Call Str ω α} (h : Call.Keeps (Spares b E ids chains) x) :
    Call.Keeps (Spares b.faulty (fun w => E w.2) ids chains) (Call.faulty e x) := by
  intro w
  rcases faulty_cases e x w with ⟨script, heq⟩ | ⟨script, heq⟩
  · rw [heq]
    exact ⟨fun _ _ hid => hid, fun _ _ _ hc => hc⟩
  · rw [heq]
    exact h w.2

theorem faulty_ok {α : Type} {e : Str} {x : Call Str ω α} {w w' : List Bool × ω} {a : α}
    (h : Call.faulty e x w = (.ok a, w')) : x w.2 = (.ok a, w'.2) := by
  rcases faulty_cases e x w with ⟨script, heq⟩ | ⟨script, heq⟩
  · simp [heq] at h
  · rw [heq, Prod.mk.injEq] at h
    rw [← h.2]
    exact Prod.ext h.1 rfl

theorem faulty_contract (hb : Contract b E Tx) : Contract b.faulty (fun w => E w.2) Tx where
  create := fun id parent mountLabel storageOpt =>
    keeps_faulty _ (hb.create id parent mountLabel storageOpt)
  created := fun id parent mountLabel storageOpt w w' h =>
    hb.created id parent mountLabel storageOpt w.2 w'.2 (faulty_ok h)
  createReadWrite := fun id parent mountLabel storageOpt =>
    keeps_faulty _ (hb.createReadWrite id parent mountLabel storageOpt)
  remove := fun id => keeps_faulty _ (hb.remove id)
  removeFailed := by
    intro id w e w' h
    -- A removal that did not reach the driver has removed nothing.
    rcases faulty_cases Backend.faulty.ioError (b.driver.remove id) w with
      ⟨script, heq⟩ | ⟨script, heq⟩
    · have hw : w' = (script, w.2) := (congrArg Prod.snd (h.symm.trans heq))
      rw [hw]
      exact ⟨fun _ _ hid => hid, fun _ _ _ hc => hc⟩
    · have hpair := h.symm.trans heq
      simp only [Prod.mk.injEq] at hpair
      have hfail := hb.removeFailed id w.2 e (b.driver.remove id w.2).2 (Prod.ext hpair.1.symm rfl)
      rw [hpair.2]
      exact hfail
  get := fun id mountLabel => keeps_faulty _ (hb.get id mountLabel)
  put := fun id => keeps_faulty _ (hb.put id)
  applyDiff := fun id parent diff => keeps_faulty _ (hb.applyDiff id parent diff)
  startTransaction := keeps_faulty _ hb.startTransaction
  started := fun w tx w' h => hb.started w.2 tx w'.2 (faulty_ok h)
  setSize := fun tx size htx => keeps_faulty _ (hb.setSize tx size htx)
  setParent := fun tx parent htx => keeps_faulty _ (hb.setParent tx parent htx)
  setDiffID := fun tx diff htx => keeps_faulty _ (hb.setDiffID tx diff htx)
  setCacheID := fun tx cacheID htx => keeps_faulty _ (hb.setCacheID tx cacheID htx)
  setDescriptor := fun tx ref htx => keeps_faulty _ (hb.setDescriptor tx ref htx)
  tarSplitWriter := fun tx compress htx => keeps_faulty _ (hb.tarSplitWriter tx compress htx)
  commit := fun tx c htx hc => keeps_faulty _ (hb.commit tx c htx hc)
  committed := fun tx c w w' htx hc h => hb.committed tx c w.2 w'.2 htx hc (faulty_ok h)
  cancel := fun tx htx => keeps_faulty _ (hb.cancel tx htx)
  setMountID := fun n id hn => keeps_faulty _ (hb.setMountID n id hn)
  setInitID := fun n id hn => keeps_faulty _ (hb.setInitID n id hn)
  setMountParent := fun n c hn => keeps_faulty _ (hb.setMountParent n c hn)
  removeEntry := fun c hc => keeps_faulty _ (hb.removeEntry c hc)
  removeMount := fun n hn => keeps_faulty _ (hb.removeMount n hn)
  newInputTarStream := fun tx ts htx => keeps_faulty _ (hb.newInputTarStream tx ts htx)
  openTarData := fun file => keeps_faulty _ (hb.openTarData file)
  copyTarData := fun tx file htx => keeps_faulty _ (hb.copyTarData tx file htx)

end Faulty

theorem idDriver_contract : DriverContract idDriver idTar := by
  have hadd : ∀ id ids, Holds idDriver [id] ids (id :: ids) := by
    intro id ids id' _ hid
    simp only [idDriver, decide_eq_true_eq] at hid ⊢
    exact List.mem_cons_of_mem _ hid
  have hsame : ∀ ids, Holds idDriver [] ids ids := fun _ _ _ hid => hid
  refine ⟨fun id _ _ _ ids => hadd id ids, ?_, fun id _ _ _ ids => hadd id ids, ?_, ?_,
    fun _ _ ids => hsame ids, fun _ ids => hsame ids, fun _ _ _ ids => hsame ids,
    fun _ _ ids => hsame ids, fun _ ids => hsame ids, fun _ _ ids => hsame ids⟩
  · intro id parent mountLabel storageOpt ids ids' h
    cases h
    simp only [idDriver, decide_eq_true_eq]
    exact List.mem_cons_self
  · intro id ids id' hne hid
    simp only [idDriver, decide_eq_true_eq, List.mem_filter] at hid ⊢
    exact ⟨hid, by simpa using hne⟩
  · intro id ids e ids' h
    simp [idDriver] at h

section Check

variable {ω τ : Type} (b : Backend ω τ)

instance (ls : LayerStore) (ops : List (Op ω τ)) (id : Str) : Decidable (Unused ls ops id) :=
  decidable_of_iff
    ((∀ e ∈ ls.layerMap.entries, e.2.cacheID ≠ id) ∧ (∀ e ∈ ls.mounts.entries, id ∉ e.2.ids) ∧
      ∀ op ∈ ops, id ∉ op.claims)
    ⟨fun h => ⟨fun _ _ hl => h.1 _ ((AMap.mem_entries_iff ..).mpr hl),
        fun _ _ hm => h.2.1 _ ((AMap.mem_entries_iff ..).mpr hm), h.2.2⟩,
      fun h => ⟨fun e he => h.1 e.1 e.2 ((AMap.mem_entries_iff ..).mp he),
        fun e he => h.2.1 e.1 e.2 ((AMap.mem_entries_iff ..).mp he), h.2.2⟩⟩

instance (l : RoLayer) (ls : LayerStore) (w : ω) : Decidable (Removes b l ls w) := by
  unfold Removes
  split <;> infer_instance

instance decidableRemovesMetadata : ∀ (depth : Nat) (removed : List Metadata) (l : RoLayer)
    (ls : LayerStore) (w : ω), Decidable (RemovesMetadata b depth removed l ls w)
  | _, _, .base i, ls, w => inferInstanceAs (Decidable (Removes b (.base i) ls w))
  | depth, removed, .child i p, ls, w => by
      unfold RemovesMetadata
      have := decidableRemovesMetadata (l := p)
      split <;> infer_instance

end Check

section Usable

variable {ω τ : Type} {b : Backend ω τ} {E : ω → ChainID → Prop} {Tx : τ → Prop}

theorem stored_empty (w : ω) : Stored b E Tx LayerStore.empty [] w := by
  have hmap : ∀ c, LayerStore.empty.layerMap.lookup c = none := fun c => AList.lookup_empty c
  have hmounts : ∀ n, LayerStore.empty.mounts.lookup n = none := fun n => AList.lookup_empty n
  refine ⟨?_, ?_, ?_, ?_, ?_, ?_, List.Pairwise.nil, ?_⟩
  all_goals intro c
  all_goals simp only [hmap, hmounts, reduceCtorEq, false_implies, implies_true, List.not_mem_nil]

theorem get_of_lookup {ls : LayerStore} {c : ChainID} {l : RoLayer}
    (h : ls.layerMap.lookup c = some l) : (get c ls).1 = .ok (.layer c ls.nextRef) := by
  simp only [get, LayerStore.getWithoutLock, h]
  rfl

/-- In a run of careful steps, on a backend that keeps the contract and
    otherwise fails as it likes, every layer that is still in the map has its
    data and its entry, and `Get` hands it out. -/
theorem run_usable (hb : Contract b E Tx) (ls : LayerStore) (w : ω)
    (hacc : Accounted ls (fun _ => 0)) (hstored : Stored b E Tx ls [] w)
    (as : List (Action ω)) (rs : List (Option Result)) (s : Sys ω τ)
    (hmeets : Meets (step b) (Careful b E) as (Sys.init τ ls w))
    (hrun : run (step b) as (Sys.init τ ls w) = .ok (rs, s)) :
    ∀ c l, s.ls.layerMap.lookup c = some l →
      b.driver.existsID l.cacheID s.world = true ∧ E s.world c ∧
        (get c s.ls).1 = .ok (.layer c s.ls.nextRef) := by
  have hend := (run_stored hb as _ s rs (sysOK_init w hacc) hstored hmeets hrun).2
  intro c l hl
  rcases hend.layers c l hl with ⟨_, hdata, hentry⟩
  exact ⟨hdata, hentry, get_of_lookup hl⟩

end Usable

/-- A layer of an empty tar stream. -/
def emptyDiff : DiffID := Digest.fromBytes []

/-- Register a layer and release its handle. -/
def registerRelease {ω : Type} : List (Action ω) :=
  [.register [] [] Descriptor.empty (flatID 'a'), .resume 0, .resume 0, .release emptyDiff 0]

/-- A script in which the calls of the registration succeed. -/
def afterRegister (script : List Bool) : List Bool := List.replicate 9 false ++ script

/-- Whether a layer is in the map after a run, and if so whether it has its
    data and whether `Get` hands it out. -/
def usableAfter (as : List (Action (List Bool × FileWorld (List Str)))) (script : List Bool)
    (c : ChainID) : Option (Bool × Bool) :=
  match run (step idBackend.faulty) as (Sys.init Path LayerStore.empty (script, emptyWorld)) with
  | .error _ => none
  | .ok (_, s) => (s.ls.layerMap.lookup c).map (fun l =>
    (idBackend.faulty.driver.existsID l.cacheID s.world, (get c s.ls).1.isOk))

/-- What can be tested of a careful step. -/
def CheckedCareful {ω τ : Type} (b : Backend ω τ) (s : Sys ω τ) : Action ω → Prop
  | .register _ _ _ cacheID => Unused s.ls s.ops cacheID
  | .release c ref => ∀ l ∈ s.ls.layerMap.lookup c, ref ∈ (s.ls.cells l.ptr).references →
    RemovesMetadata b 0 [] l (s.ls.deleteReference l ref) s.world
  | .resume i => ∀ op ∈ s.ops[i]?, op.registering = true
  | _ => False

instance {ω τ : Type} (b : Backend ω τ) (s : Sys ω τ) (a : Action ω) :
    Decidable (CheckedCareful b s a) := by
  unfold CheckedCareful
  split <;> infer_instance

theorem careful_of_checked {ω τ : Type} {b : Backend ω τ} (E : ω → ChainID → Prop) {s : Sys ω τ}
    {a : Action ω} (h : CheckedCareful b s a) : Careful b E s a := by
  cases a with
  | register => exact h
  | release => exact h
  | resume i =>
    intro op hop
    have hreg := h op hop
    cases op <;> trivial
  | _ => exact absurd h not_false

/-- The removal of the data fails, and the layer is as it was. -/
theorem run_usable_faulty : ∃ rs s, run (step idBackend.faulty) registerRelease
        (Sys.init Path LayerStore.empty (afterRegister [true], emptyWorld)) = .ok (rs, s) ∧
      (s.ls.layerMap.lookup emptyDiff).isSome = true ∧
      ∀ c l, s.ls.layerMap.lookup c = some l →
        idBackend.faulty.driver.existsID l.cacheID s.world = true ∧
          HasEntry rootConfig s.world.2 c ∧ (get c s.ls).1 = .ok (.layer c s.ls.nextRef) := by
  have hok : (run (step idBackend.faulty) registerRelease
      (Sys.init Path LayerStore.empty (afterRegister [true], emptyWorld))).isOk = true := by
    decide
  have hchecked : Meets (step idBackend.faulty) (CheckedCareful idBackend.faulty) registerRelease
      (Sys.init Path LayerStore.empty (afterRegister [true], emptyWorld)) := by
    decide
  have hleft : (usableAfter registerRelease (afterRegister [true]) emptyDiff).isSome = true := by
    decide
  have hcontract := faulty_contract (fileBackend_contract idDriver_contract rootConfig_suffix)
  rcases exists_run hok with ⟨rs, s, hrun⟩
  refine ⟨rs, s, hrun, ?_, ?_⟩
  · rw [usableAfter, hrun, Option.isSome_map] at hleft
    exact hleft
  · exact run_usable hcontract LayerStore.empty _ accounted_empty (stored_empty _)
      registerRelease rs s (meets_mono (fun _ _ => careful_of_checked _) _ _ hchecked) hrun

/-- The removal of the data succeeds and the removal of the entry fails: the
    layer is in the map and handed out, and its data is gone. -/
theorem release_keeps_half :
    usableAfter registerRelease (afterRegister [false, true]) emptyDiff = some (false, true) := by
  decide

end Dao.Layer
