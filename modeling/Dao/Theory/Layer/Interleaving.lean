import Dao.Theory.Layer.Accounting
import Dao.Theory.Layer.Cases

/-!
# Accounting across Interleavings

The invariant of the whole system, kept by every step.

The holds of `Accounted` are now the parents of the operations in flight, so
the invariant says exactly who is counted. Two more facts are needed for the
operations on mounts. They hold `mountL` from their first step to their last,
so at most one of them is in flight; and the name one of them is about to use
stays free, since no other operation can enter it meanwhile.

An operation is a chain of segments. `Segment` says what a segment owes the
rest of the system: the holds it was given are still accounted for, by the
operation that waits or by nobody; the map has evolved; the mounts have
changed only under `mountL`. A segment that is proved to pay this debt can be
put into any state, whatever else is in flight, which is `segment_put` and
`segment_advance`. The rest of the module pays it, once for each segment.

## Theorems

* `step_sysOK`: A step keeps the invariant.
* `run_sysOK`: It holds in every run.
-/

namespace Dao.Layer

open Lib List

variable {ω τ : Type}

/-- The operations in flight that hold the object `q` as their parent. -/
def inFlight (ops : List (Op ω τ)) (q : Nat) : Nat :=
  ops.countP fun op => decide (op.parentPtr = some q)

/-- Whether the operation holds `mountL`. -/
def Op.usesMountL : Op ω τ → Bool
  | createRWLayer .. => true
  | createRWLayerByGraphID .. => true
  | releaseRWLayer _ => true
  | releaseParent _ mount _ => mount
  | _ => false

/-- The mount name the operation has found to be free. -/
def Op.newMount : Op ω τ → Option Str
  | createRWLayer _ name _ _ _ _ => some name
  | createRWLayerByGraphID _ name _ => some name
  | _ => none

/-- The invariant of the system. -/
structure SysOK (s : Sys ω τ) : Prop where
  acc : Accounted s.ls (inFlight s.ops)
  parents : ∀ op ∈ s.ops, ∀ p, op.parent = some p → InMap s.ls p
  lock : s.ops.countP Op.usesMountL = if s.mountL then 1 else 0
  newMount : ∀ op ∈ s.ops, ∀ n, op.newMount = some n → s.ls.mounts.lookup n = none

/-- The holds once the operation has gone on to what it does next. -/
def Next.held (held : Nat → Nat) : Next ω τ → Nat → Nat
  | finish _ => held
  | wait op => holdOpt op.parent held

/-- What a segment owes the system, with `held` the holds of everyone else and
    `mount` saying whether the segment has `mountL`. -/
structure Segment (ls : LayerStore) (held : Nat → Nat) (mount : Bool) (next : Next ω τ)
    (ls' : LayerStore) : Prop where
  acc : Accounted ls' (next.held held)
  evolves : Evolves ls ls'
  parent : ∀ op, next = .wait op → ∀ p, op.parent = some p → InMap ls p
  lock : ∀ op, next = .wait op → op.usesMountL = mount
  mounts : mount = false → ls'.mounts = ls.mounts
  newMount : ∀ op, next = .wait op → ∀ n, op.newMount = some n → ls'.mounts.lookup n = none

variable {op : Op ω τ} {ops : List (Op ω τ)} {i : Nat} {s : Sys ω τ} {ls' ls : LayerStore}
  {mount : Bool} {held : Nat → Nat} {l : RoLayer}

theorem usesMountL_of_newMount {n : Str} (h : op.newMount = some n) : op.usesMountL = true := by
  cases op <;> first | rfl | simp only [Op.newMount, reduceCtorEq] at h

theorem inFlight_append (ops : List (Op ω τ)) (op : Op ω τ) :
    inFlight (ops ++ [op]) = holdOpt op.parent (inFlight ops) := by
  funext q
  rw [holdOpt_apply, inFlight, countP_append, countP_singleton]
  simp only [decide_eq_true_eq]
  rfl

theorem perm_of_getElem? (h : ops[i]? = some op) : ops.Perm (op :: ops.eraseIdx i) := by
  rcases List.getElem?_eq_some_iff.mp h with ⟨hi, hop⟩
  rw [← hop]
  exact (getElem_cons_eraseIdx_perm hi).symm

theorem set_perm (op' : Op ω τ) (h : ops[i]? = some op) :
    (ops.set i op').Perm (op' :: ops.eraseIdx i) := by
  rcases List.getElem?_eq_some_iff.mp h with ⟨hi, _⟩
  have hset : (ops.set i op')[i]? = some op' := by
    rw [getElem?_set_self hi]
  have hp := perm_of_getElem? hset
  rwa [eraseIdx_set_eq] at hp

theorem inFlight_perm {ops ops' : List (Op ω τ)} (h : ops.Perm (op :: ops')) :
    inFlight ops = holdOpt op.parent (inFlight ops') := by
  funext q
  rw [holdOpt_apply, inFlight, h.countP_eq, countP_cons]
  simp only [decide_eq_true_eq]
  rfl

theorem inFlight_pos {p : RoLayer} (hop : op ∈ ops) (hp : op.parent = some p) :
    0 < inFlight ops p.ptr := by
  refine countP_pos_iff.mpr ⟨op, hop, ?_⟩
  simp [Op.parentPtr, hp]

/-- The operations other than the one that runs keep their parents in the
    map. -/
theorem parents_evolve {ops' : List (Op ω τ)} (h : SysOK s) (hacc : Accounted ls' (inFlight ops'))
    (he : Evolves s.ls ls') (hold : ∀ op ∈ ops', ∀ p, op.parent = some p → InMap s.ls p) :
    ∀ op ∈ ops', ∀ p, op.parent = some p → InMap ls' p :=
  fun op hop p hp => evolves_lookup h.acc hacc he (hold op hop p hp) (inFlight_pos hop hp)

theorem no_newMount_of_countP (h : ops.countP Op.usesMountL = 0) :
    ∀ op ∈ ops, op.newMount = none := by
  intro op hop
  have hno := countP_eq_zero.mp h op hop
  cases hn : op.newMount with
  | none => rfl
  | some n => exact absurd (usesMountL_of_newMount hn) hno

variable {next : Next ω τ}

theorem segment_put {s : Sys ω τ} (h : SysOK s) {mount : Bool}
    {ls' : LayerStore} (w : ω) (hfree : mount = true → s.mountL = false)
    (hseg : Segment s.ls (inFlight s.ops) mount next ls') :
    SysOK (s.put mount ls' w next).2 := by
  -- The names found by the operations that were already in flight stay free.
  have hnames : ∀ op ∈ s.ops, ∀ n, op.newMount = some n → ls'.mounts.lookup n = none := by
    intro op hop n hn
    cases mount with
    | false =>
      rw [hseg.mounts rfl]
      exact h.newMount op hop n hn
    | true =>
      have hlock := h.lock
      rw [hfree rfl] at hlock
      simp [no_newMount_of_countP hlock op hop] at hn
  rcases next with res | op
  · exact ⟨hseg.acc, parents_evolve h hseg.acc hseg.evolves h.parents, h.lock, hnames⟩
  have hacc : Accounted ls' (inFlight (s.ops ++ [op])) := by
    rw [inFlight_append]
    exact hseg.acc
  refine ⟨hacc, parents_evolve h hacc hseg.evolves ?_, ?_, ?_⟩
  · intro op' hop'
    rcases mem_append.mp hop' with hold | hnew
    · exact h.parents op' hold
    · rw [mem_singleton] at hnew
      rw [hnew]
      exact hseg.parent op rfl
  · have hlock := h.lock
    have huses := hseg.lock op rfl
    simp only [Sys.put, countP_append, countP_singleton, huses, hlock]
    cases mount with
    | false => simp
    | true => simp [hfree rfl]
  · intro op' hop'
    rcases mem_append.mp hop' with hold | hnew
    · exact hnames op' hold
    · rw [mem_singleton] at hnew
      rw [hnew]
      exact hseg.newMount op rfl

/-- The holders of `mountL` when an operation leaves, by whether it was one. -/
theorem count_of_unlock {n : Nat} {locked mount : Bool}
    (h : n + (if mount then 1 else 0) = if locked then 1 else 0) :
    n = (if locked && !mount then 1 else 0) ∧ (mount = true → n = 0) := by
  cases locked <;> cases mount <;>
    simp only [if_true, Bool.false_eq_true, if_false, Bool.and_true, Bool.and_false,
      Bool.not_true, Bool.not_false, forall_const, false_implies, and_true] at h ⊢ <;> omega

theorem segment_advance (h : SysOK s) (hop : s.ops[i]? = some op) (huses : op.usesMountL = mount)
    (w : ω) (hseg : Segment s.ls (inFlight (s.ops.eraseIdx i)) mount next ls') :
    SysOK (s.advance i mount ls' w next).2 := by
  have hperm := perm_of_getElem? hop
  have hlock : (s.ops.eraseIdx i).countP Op.usesMountL + (if mount then 1 else 0) =
      if s.mountL then 1 else 0 := by
    rw [← h.lock, hperm.countP_eq, countP_cons, huses]
  have hothers : ∀ op' ∈ s.ops.eraseIdx i, op' ∈ s.ops :=
    fun op' hop' => hperm.mem_iff.mpr (mem_cons_of_mem _ hop')
  have hnames : ∀ op' ∈ s.ops.eraseIdx i, ∀ n, op'.newMount = some n →
      ls'.mounts.lookup n = none := by
    intro op' hop' n hn
    cases mount with
    | false =>
      rw [hseg.mounts rfl]
      exact h.newMount op' (hothers op' hop') n hn
    | true =>
      -- The operation that runs has `mountL`, so the others have no names.
      have hzero := (count_of_unlock hlock).2 rfl
      simp [no_newMount_of_countP hzero op' hop'] at hn
  rcases next with res | op'
  · exact ⟨hseg.acc, parents_evolve h hseg.acc hseg.evolves
      (fun op' hop' => h.parents op' (hothers op' hop')), (count_of_unlock hlock).1, hnames⟩
  have hset := set_perm op' hop
  have hacc : Accounted ls' (inFlight (s.ops.set i op')) := by
    rw [inFlight_perm hset]
    exact hseg.acc
  have hmem : ∀ o ∈ s.ops.set i op', o = op' ∨ o ∈ s.ops.eraseIdx i :=
    fun o ho => mem_cons.mp (hset.mem_iff.mp ho)
  refine ⟨hacc, parents_evolve h hacc hseg.evolves ?_, ?_, ?_⟩
  · intro o ho
    rcases hmem o ho with hnew | hold
    · rw [hnew]
      exact hseg.parent op' rfl
    · exact h.parents o (hothers o hold)
  · simp only [Sys.advance]
    rw [hset.countP_eq, countP_cons, hseg.lock op' rfl]
    exact hlock
  · intro o ho
    rcases hmem o ho with hnew | hold
    · rw [hnew]
      exact hseg.newMount op' rfl
    · exact hnames o hold

theorem evolves_refl (ls : LayerStore) : Evolves ls ls := evolves_of_layerMap_eq rfl rfl

theorem segment_finish (res : Result) (h : Accounted ls' held) (he : Evolves ls ls')
    (hm : mount = false → ls'.mounts = ls.mounts) :
    Segment ls held mount (.finish res : Next ω τ) ls' where
  acc := h
  evolves := he
  parent := fun _ hop => nomatch hop
  lock := fun _ hop => nomatch hop
  mounts := hm
  newMount := fun _ hop => nomatch hop

theorem segment_stay {res : Result} (h : Accounted ls held) :
    Segment ls held mount (.finish res : Next ω τ) ls :=
  segment_finish res h (evolves_refl ls) fun _ => rfl

theorem segment_wait (op : Op ω τ) (h : Accounted ls' (holdOpt op.parent held))
    (he : Evolves ls ls') (hp : ∀ p, op.parent = some p → InMap ls p)
    (huses : op.usesMountL = mount) (hm : mount = false → ls'.mounts = ls.mounts)
    (hnew : ∀ n, op.newMount = some n → ls'.mounts.lookup n = none) :
    Segment ls held mount (.wait op) ls' where
  acc := h
  evolves := he
  parent := fun op' hop => by
    cases hop
    exact hp
  lock := fun op' hop => by
    cases hop
    exact huses
  mounts := hm
  newMount := fun op' hop => by
    cases hop
    exact hnew

theorem segment_abandon (res : Result) {p : Option RoLayer} (h : Accounted ls' (holdOpt p held))
    (he : Evolves ls ls') (hp : ∀ q, p = some q → InMap ls q)
    (hm : mount = false → ls'.mounts = ls.mounts) :
    Segment ls held mount (abandon mount res p : Next ω τ) ls' := by
  cases p with
  | none => exact segment_finish res h he hm
  | some q =>
    exact segment_wait (.releaseParent q mount res) h he hp rfl hm nofun

theorem inMap_of_lookup (h : Accounted ls held) {c : ChainID} (hl : ls.layerMap.lookup c = some l) :
    InMap ls l := by
  rw [InMap, h.key c l hl]
  exact hl

theorem accounted_handOut (h : Accounted ls held) (hl : InMap ls l) :
    Accounted ((ls.retain l).getReference l).2 held :=
  accounted_getReference l (accounted_retain h l hl) hl

/-- Publishing a layer and handing out its first handle turns the hold on its
    parent into a child. -/
theorem accounted_register (hptr : l.ptr = ls.nextPtr) (hnone : ls.layerMap.lookup l.chainID = none)
    (h : Accounted ls (holdOpt l.parent held)) (hp : ∀ p, l.parent = some p → InMap ls p) :
    Accounted ((ls.publish l).getReference l).2 held :=
  accounted_getReference l (accounted_publish hptr hnone h hp) (inMap_publish ls l)

variable {parent : ChainID}

/-- Taking a parent is a hold on it, and changes nothing but its count. -/
theorem takeParent_accounted (h : Accounted ls held) {p : Option RoLayer}
    (ht : takeParent ls parent = some (p, ls')) :
    Accounted ls' (holdOpt p held) ∧ (∀ q, p = some q → InMap ls q) ∧ Evolves ls ls' ∧
      ls'.mounts = ls.mounts := by
  rcases takeParent_cases ht with ⟨_, rfl, rfl⟩ | ⟨_, l, hl, rfl, rfl⟩
  · exact ⟨h, nofun, evolves_refl _, rfl⟩
  have hin := inMap_of_lookup h hl
  refine ⟨accounted_retain h l hin, fun q hq => ?_, evolves_of_layerMap_eq rfl rfl, rfl⟩
  cases hq
  exact hin

theorem startRegister_segment (h : Accounted ls held) {ts : Bytes}
    {descriptor : Descriptor} {cacheID : Str}
    (hstart : startRegister ts parent descriptor cacheID ls = (next, ls')) :
    Segment ls held false next ls' := by
  rcases startRegister_cases hstart with ⟨e, rfl, rfl⟩ | ⟨p, ht, hnext⟩
  · exact segment_stay h
  rcases takeParent_accounted h ht with ⟨hacc, hp, he, hm⟩
  rcases hnext with ⟨e, rfl⟩ | ⟨rfl, _⟩
  · exact segment_abandon _ hacc he hp fun _ => hm
  · exact segment_wait _ hacc he hp rfl (fun _ => hm) nofun

theorem segment_newMount (h : Accounted ls held) {op : Op ω τ} {name : Str}
    (ht : takeParent ls parent = some (op.parent, ls')) (huses : op.usesMountL = true)
    (hname : op.newMount = some name) (hm : ls.mounts.lookup name = none) :
    Segment ls held true (.wait op) ls' := by
  rcases takeParent_accounted h ht with ⟨hacc, hp, he, hmounts⟩
  refine segment_wait op hacc he hp huses (fun _ => hmounts) fun n hn => ?_
  rw [hname] at hn
  cases hn
  rw [hmounts]
  exact hm

theorem segment_wait_same (op : Op ω τ) (h : Accounted ls (holdOpt op.parent held))
    (hp : ∀ p, op.parent = some p → InMap ls p) (huses : op.usesMountL = false) :
    Segment ls held false (.wait op) ls := by
  refine segment_wait op h (evolves_refl ls) hp huses (fun _ => rfl) fun n hn => ?_
  rw [usesMountL_of_newMount hn] at huses
  simp at huses

section Segments

variable (b : Backend ω τ) {ls : LayerStore} {held : Nat → Nat} {p : Option RoLayer}

variable {initFunc : Option (Str → Call Str ω Unit)}

theorem createRWLayerCalls_ok {name mountLabel : Str}
    {storageOpt : List (Str × Str)} {mountID : Str}
    {w w' : ω} {m : MountedLayer}
    (hok : createRWLayerCalls b p name mountLabel initFunc storageOpt mountID w = (.ok m, w')) :
    m.name = name ∧ m.parent = p ∧ m.mountID = mountID := by
  rcases Call.bind_eq_ok.mp hok with ⟨initID, w1, _, hok⟩
  rcases Call.bind_eq_ok.mp hok with ⟨_, w2, _, hok⟩
  rcases Call.bind_eq_ok.mp hok with ⟨_, w3, _, hok⟩
  cases hok
  exact ⟨rfl, rfl, rfl⟩

section Parent

variable (h : Accounted ls (holdOpt p held)) (hp : ∀ q, p = some q → InMap ls q)
include h hp

theorem registerApply_segment (ts : Bytes) (descriptor : Descriptor) (cacheID : Str) (w : ω) :
    Segment ls held false (registerApply b p ts descriptor cacheID w).1 ls := by
  unfold registerApply
  split
  · exact segment_abandon _ h (evolves_refl ls) hp fun _ => rfl
  split
  · exact segment_abandon _ h (evolves_refl ls) hp fun _ => rfl
  · split
    · exact segment_wait_same (.registerCleanup p cacheID _ _) h hp rfl
    · exact segment_wait_same (.registerCommit p descriptor cacheID ..) h hp rfl

theorem segment_publish {i : LayerInfo} {res : Result} (hnone : ls.layerMap.lookup i.chainID = none)
    (hptr : i.ptr = ls.nextPtr) : Segment ls held false (.finish res : Next ω τ)
      ((ls.publish (.mk i p)).getReference (.mk i p)).2 := by
  have hptr' := (mk_ptr i p).trans hptr
  refine segment_finish _ (accounted_register hptr' ?_ ?_ ?_)
    (evolves_trans (evolves_publish hptr') (evolves_of_layerMap_eq rfl rfl)) fun _ => rfl
  · rw [mk_chainID]
    exact hnone
  · rw [mk_parent]
    exact h
  · rw [mk_parent]
    exact hp

theorem registerCommit_segment (descriptor : Descriptor) (cacheID : Str) (tx : τ) (size : Int64)
    (diffID : DiffID) (w : ω) :
    Segment ls held false (registerCommit b p descriptor cacheID tx size diffID ls w).1
      (registerCommit b p descriptor cacheID tx size diffID ls w).2.1 := by
  unfold registerCommit
  rcases getWithoutLock_cases ls (registerChainID p diffID) with ⟨hnone, hget⟩ | ⟨l, hl, hget⟩
  · simp only [hget]
    split
    · exact segment_wait_same (.registerCleanup p cacheID tx _) h hp rfl
    · exact segment_publish h hp hnone rfl
  · simp only [hget]
    exact segment_wait (.registerCleanup p cacheID tx _)
      (accounted_handOut h (inMap_of_lookup h hl)) (evolves_of_layerMap_eq rfl rfl) hp rfl
      (fun _ => rfl) nofun

theorem registerByGraphID_segment (graphID : Str) (parentID : ChainID) (diffID : DiffID)
    (tarDataFile : Str) (size : Int64) (w : ω) :
    Segment ls held false (registerByGraphID b p graphID parentID diffID tarDataFile size ls w).1
      (registerByGraphID b p graphID parentID diffID tarDataFile size ls w).2.1 := by
  unfold registerByGraphID
  rcases getWithoutLock_cases ls (createChainIDFromParent parentID [diffID]) with
    ⟨hnone, hget⟩ | ⟨l, hl, hget⟩
  · simp only [hget]
    split
    · exact segment_abandon _ h (evolves_refl ls) hp fun _ => rfl
    · exact segment_publish h hp hnone rfl
  · simp only [hget]
    exact segment_abandon _ (accounted_handOut h (inMap_of_lookup h hl))
      (evolves_of_layerMap_eq rfl rfl) hp fun _ => rfl

theorem createRWLayer_segment (name : Str) (hfree : ls.mounts.lookup name = none) (mountLabel : Str)
    (initFunc : Option (Str → Call Str ω Unit)) (storageOpt : List (Str × Str)) (mountID : Str)
    (w : ω) :
    Segment ls held true (createRWLayer b p name mountLabel initFunc storageOpt mountID ls w).1
      (createRWLayer b p name mountLabel initFunc storageOpt mountID ls w).2.1 := by
  unfold createRWLayer
  rcases hcalls : createRWLayerCalls b p name mountLabel initFunc storageOpt mountID w with ⟨r, w'⟩
  cases r with
  | error e => exact segment_abandon _ h (evolves_refl ls) hp fun _ => rfl
  | ok m =>
    rcases createRWLayerCalls_ok b hcalls with ⟨hname, hparent, _⟩
    have hacc := accounted_saveMount
      { m with references := insert ls.nextRef m.references }
      (by rw [hparent]; exact h) (by rw [hname]; exact hfree) (by rw [hparent]; exact hp)
    exact segment_finish _ (accounted_nextRef hacc (ls.nextRef + 1) (Nat.le_succ _))
      (evolves_of_layerMap_eq rfl rfl) nofun

theorem createRWLayerByGraphID_segment (name graphID : Str) (hfree : ls.mounts.lookup name = none)
    (w : ω) :
    Segment ls held true (createRWLayerByGraphID b p name graphID ls w).1
      (createRWLayerByGraphID b p name graphID ls w).2.1 := by
  unfold createRWLayerByGraphID
  generalize (if b.driver.existsID (initIDOf graphID) w then initIDOf graphID else []) = initID
  simp only
  rcases saveMountCalls b ⟨name, graphID, initID, p, ∅⟩ w with ⟨r, w'⟩
  cases r with
  | error e => exact segment_abandon _ h (evolves_refl ls) hp fun _ => rfl
  | ok u =>
    exact segment_finish _ (accounted_saveMount ⟨name, graphID, initID, p, ∅⟩ h hfree hp)
      (evolves_of_layerMap_eq rfl rfl) nofun

end Parent

theorem get_segment (h : Accounted ls held) (c : ChainID) :
    Segment ls held false (.finish (get c ls).1 : Next ω τ) (get c ls).2 := by
  unfold get
  rcases getWithoutLock_cases ls c with ⟨_, hget⟩ | ⟨l, hl, hget⟩
  · simp only [hget]
    exact segment_stay h
  · simp only [hget]
    exact segment_finish _ (accounted_handOut h (inMap_of_lookup h hl))
      (evolves_of_layerMap_eq rfl rfl) fun _ => rfl

/-- Releasing a held layer, by whoever holds it. -/
theorem releaseLayer_segment {l : RoLayer} (h : Accounted ls (hold l held)) (hl : InMap ls l)
    (w : ω) :
    ∃ res ls' w', releaseLayer b 0 [] l ls w = .ok (res, ls', w') ∧
      ∀ (mount : Bool) (r : Result), Segment ls held mount (.finish r : Next ω τ) ls' := by
  rcases releaseLayer_accounted b l 0 [] w h hl (.inl rfl) with
    ⟨res, ls', w', hrel, hacc, hsub, hsame⟩
  exact ⟨res, ls', w', hrel, fun mount r =>
    segment_finish r hacc (evolves_of_submap hsub hsame) fun _ => hsame.mounts⟩

theorem release_segment (h : Accounted ls held) (c : ChainID) (ref : Nat) (w : ω) :
    ∃ res ls' w', release b c ref ls w = .ok (res, ls', w') ∧
      Segment ls held false (.finish res : Next ω τ) ls' := by
  unfold release
  rcases hl : ls.layerMap.lookup c with _ | l
  · exact ⟨_, ls, w, rfl, segment_stay h⟩
  have hin := inMap_of_lookup h hl
  by_cases hr : ref ∈ (ls.cells l.ptr).references
  · simp only [if_pos hr]
    have hdel := accounted_deleteReference h l ref hin hr
    rcases releaseLayer_segment b hdel hin w with ⟨res, ls', w', hrel, hseg⟩
    refine ⟨releaseResult res, ls', w', by rw [hrel], ?_⟩
    have hseg := hseg false (releaseResult res)
    exact segment_finish _ hseg.acc
      (evolves_trans (evolves_of_layerMap_eq rfl rfl) hseg.evolves) hseg.mounts
  · simp only [if_neg hr]
    exact ⟨_, ls, w, rfl, segment_stay h⟩

variable {parent : ChainID}

theorem startCreateRWLayer_segment (h : Accounted ls held) {name : Str} {mountLabel : Str}
    {storageOpt : List (Str × Str)} {mountID : Str} {next : Next ω τ} {ls' : LayerStore}
    (hstart : startCreateRWLayer name parent mountLabel initFunc storageOpt mountID ls =
      (next, ls')) : Segment ls held true next ls' := by
  rcases startCreateRWLayer_cases hstart with ⟨e, rfl, rfl⟩ | ⟨hm, p, ht, rfl⟩
  · exact segment_stay h
  · exact segment_newMount h ht rfl rfl hm

theorem startCreateRWLayerByGraphID_segment (h : Accounted ls held) {name graphID : Str}
    {w : ω} {next : Next ω τ} {ls' : LayerStore}
    (hok : startCreateRWLayerByGraphID b name graphID parent ls w = .ok (next, ls')) :
    Segment ls held true next ls' := by
  rcases startCreateRWLayerByGraphID_cases b hok with ⟨res, rfl, rfl⟩ | ⟨hm, p, ht, rfl⟩
  · exact segment_stay h
  · exact segment_newMount h ht rfl rfl hm

/-- The only panic before the parent is taken is the absent parent of the
    mount that is found. -/
theorem startCreateRWLayerByGraphID_error {name graphID : Str} {w : ω}
    {e : Panic} (herr : (startCreateRWLayerByGraphID b name graphID parent ls w :
      Except Panic (Next ω τ × LayerStore)) = .error e) : e = .nilParent := by
  unfold startCreateRWLayerByGraphID at herr
  cases hm : ls.mounts.lookup name with
  | some m =>
    cases hp : m.parent with
    | none =>
      simp only [hm, hp] at herr
      cases herr
      exact rfl
    | some p =>
      simp only [hm, hp] at herr
      split at herr
      · nomatch herr
      · split at herr <;> nomatch herr
  | none =>
    simp only [hm] at herr
    split at herr
    · split at herr <;> nomatch herr
    · nomatch herr

theorem getRWLayer_segment (h : Accounted ls held) (name : Str) :
    Segment ls held true (.finish (getRWLayer name ls).1 : Next ω τ) (getRWLayer name ls).2 := by
  unfold getRWLayer
  rcases hm : ls.mounts.lookup name with _ | m
  · exact segment_stay h
  have hname := h.mountKey name m hm
  have hacc := accounted_mountReferences h hm (insert ls.nextRef m.references)
  rw [← hname] at hacc
  exact segment_finish _ (accounted_nextRef hacc (ls.nextRef + 1) (Nat.le_succ _))
    (evolves_of_layerMap_eq rfl rfl) nofun

theorem startReleaseRWLayer_segment (h : Accounted ls held) (name : Str) (ref : Nat) (w : ω) :
    Segment ls held true (startReleaseRWLayer b name ref ls w : Next ω τ × LayerStore × ω).1
      (startReleaseRWLayer b name ref ls w : Next ω τ × LayerStore × ω).2.1 := by
  unfold startReleaseRWLayer
  rcases hm : ls.mounts.lookup name with _ | m
  · exact segment_stay h
  simp only
  split
  · split
    · exact segment_finish _ (accounted_mountReferences h hm _)
        (evolves_of_layerMap_eq rfl rfl) nofun
    rcases releaseRWLayerCalls b m w with ⟨r, w'⟩
    rcases r with e | u
    · exact segment_stay h
    -- The mount is gone, so its parent is held by the operation.
    have hacc := accounted_eraseMount h hm
    rcases hparent : m.parent with _ | q
    · rw [hparent] at hacc
      exact segment_finish _ hacc (evolves_of_layerMap_eq rfl rfl) nofun
    rw [hparent] at hacc
    refine segment_wait (.releaseRWLayer q) hacc (evolves_of_layerMap_eq rfl rfl)
      (fun p hp => ?_) rfl nofun nofun
    cases hp
    exact h.mountParentIn name m q hm hparent
  · exact segment_stay h

end Segments

section Step

variable (b : Backend ω τ)

variable {s : Sys ω τ}

/-- Resuming an operation does not panic and keeps the invariant. -/
theorem resume_sysOK (h : SysOK s) {i : Nat} {op : Op ω τ}
    (hop : s.ops[i]? = some op) : ∃ r s', resume b i s op = .ok (r, s') ∧ SysOK s' := by
  have hmem : op ∈ s.ops := mem_of_getElem? hop
  have hp := h.parents op hmem
  -- The hold of the operation that runs, apart from those of the others.
  have hacc : Accounted s.ls (holdOpt op.parent (inFlight (s.ops.eraseIdx i))) := by
    rw [← inFlight_perm (perm_of_getElem? hop)]
    exact h.acc
  cases op with
  | registerApply p ts descriptor cacheID =>
    exact ⟨_, _, rfl, segment_advance h hop rfl _
      (registerApply_segment b hacc hp ts descriptor cacheID s.world)⟩
  | registerCommit p descriptor cacheID tx size diffID =>
    exact ⟨_, _, rfl, segment_advance h hop rfl _
      (registerCommit_segment b hacc hp descriptor cacheID tx size diffID s.world)⟩
  | registerCleanup p cacheID tx res =>
    exact ⟨_, _, rfl, segment_advance h hop rfl _
      (segment_abandon res hacc (evolves_refl s.ls) hp fun _ => rfl)⟩
  | registerByGraphID p graphID parentID diffID tarDataFile size =>
    exact ⟨_, _, rfl, segment_advance h hop rfl _
      (registerByGraphID_segment b hacc hp graphID parentID diffID tarDataFile size s.world)⟩
  | createRWLayer p name mountLabel initFunc storageOpt mountID =>
    have hfree := h.newMount _ hmem name rfl
    exact ⟨_, _, rfl, segment_advance h hop rfl _ (createRWLayer_segment b hacc hp name hfree
      mountLabel initFunc storageOpt mountID s.world)⟩
  | createRWLayerByGraphID p name graphID =>
    have hfree := h.newMount _ hmem name rfl
    exact ⟨_, _, rfl, segment_advance h hop rfl _
      (createRWLayerByGraphID_segment b hacc hp name graphID hfree s.world)⟩
  | releaseRWLayer p =>
    rcases releaseLayer_segment b hacc (hp p rfl) s.world with ⟨res, ls', w', hrel, hseg⟩
    refine ⟨_, _, by simp only [resume, hrel]; rfl, ?_⟩
    exact segment_advance h hop rfl w' (hseg true (releaseResult res))
  | releaseParent p mount res =>
    rcases releaseLayer_segment b hacc (hp p rfl) s.world with ⟨res', ls', w', hrel, hseg⟩
    refine ⟨_, _, by simp only [resume, hrel]; rfl, ?_⟩
    exact segment_advance h hop rfl w' (hseg mount res)

/-- A step keeps the invariant, or dereferences the absent parent of a mount:
    no step takes a panic of `releaseLayer`. -/
theorem step_sysOK (h : SysOK s) (a : Action ω) :
    (∃ r s', step b a s = .ok (r, s') ∧ SysOK s') ∨ step b a s = .error .nilParent := by
  have hno : false = true → s.mountL = false := by simp
  -- A call that needs the mount lock waits for it, or puts what it does.
  have hlocked : ∀ {next : Next ω τ} {ls' : LayerStore} (w : ω),
      Segment s.ls (inFlight s.ops) true next ls' → ∃ r s',
        (if s.mountL = true then .ok (none, s) else .ok (s.put true ls' w next)) =
          (.ok (r, s') : Except Panic (Option Result × Sys ω τ)) ∧ SysOK s' := by
    intro next ls' w hseg
    by_cases hm : s.mountL = true
    · exact ⟨none, s, if_pos hm, h⟩
    · refine ⟨_, _, if_neg hm, ?_⟩
      exact segment_put h w (fun _ => Bool.not_eq_true _ ▸ hm) hseg
  cases a with
  | register ts parent descriptor cacheID =>
    exact .inl ⟨_, _, rfl, segment_put h _ hno (startRegister_segment h.acc rfl)⟩
  | registerByGraphID graphID parent diffID tarDataFile size =>
    left
    simp only [step]
    rcases ht : takeParent s.ls parent with _ | r
    · exact ⟨_, _, rfl, segment_put h _ hno
        (segment_finish (.error .layerDoesNotExist) h.acc (evolves_refl s.ls) fun _ => rfl)⟩
    rcases r with ⟨p, ls'⟩
    rcases takeParent_accounted h.acc ht with ⟨hacc, hp, he, hm⟩
    refine ⟨_, _, rfl, segment_put h _ hno (segment_wait
      (.registerByGraphID p graphID parent diffID tarDataFile size) hacc he hp rfl
      (fun _ => hm) fun n hn => ?_)⟩
    simp [Op.newMount] at hn
  | get c => exact .inl ⟨_, _, rfl, segment_put h _ hno (get_segment h.acc c)⟩
  | release c ref =>
    rcases release_segment b h.acc c ref s.world with ⟨res, ls', w', hrel, hseg⟩
    left
    refine ⟨_, _, by simp only [step, hrel]; rfl, segment_put h w' hno hseg⟩
  | createRWLayer name parent mountLabel initFunc storageOpt mountID =>
    exact .inl (hlocked _ (startCreateRWLayer_segment h.acc rfl))
  | createRWLayerByGraphID name graphID parent =>
    by_cases hm : s.mountL = true
    · exact .inl ⟨none, s, by simp [step, if_pos hm], h⟩
    simp only [step, if_neg hm]
    cases hstart : startCreateRWLayerByGraphID b name graphID parent s.ls s.world with
    | error e =>
      right
      rw [startCreateRWLayerByGraphID_error b hstart]
    | ok r =>
      left
      exact ⟨_, _, rfl, segment_put h _ (fun _ => Bool.not_eq_true _ ▸ hm)
        (startCreateRWLayerByGraphID_segment b h.acc hstart)⟩
  | getRWLayer name => exact .inl (hlocked s.world (getRWLayer_segment h.acc name))
  | releaseRWLayer name ref =>
    exact .inl (hlocked _ (startReleaseRWLayer_segment b h.acc name ref s.world))
  | resume i =>
    left
    simp only [step]
    cases hop : s.ops[i]? with
    | none => exact ⟨none, s, rfl, h⟩
    | some op => exact resume_sysOK b h hop

theorem sysOK_of_step {s s' : Sys ω τ} {a : Action ω} {r : Option Result} (h : SysOK s)
    (hstep : step b a s = .ok (r, s')) : SysOK s' := by
  rcases step_sysOK b h a with ⟨r1, s1, h1, hok⟩ | herr
  · rw [hstep] at h1
    cases h1
    exact hok
  · simp [hstep] at herr

theorem step_no_release_panic {a : Action ω} {e : Panic} (h : SysOK s)
    (hstep : step b a s = .error e) : e = .nilParent := by
  rcases step_sysOK b h a with ⟨r1, s1, h1, _⟩ | herr
  · simp [hstep] at h1
  · rw [hstep, Except.error.injEq] at herr
    exact herr

/-- Every run from a state that meets the invariant meets it at its end, and
    never takes a panic of `releaseLayer`. -/
theorem run_sysOK (h : SysOK s) (as : List (Action ω)) :
    (∀ rs t, run (step b) as s = .ok (rs, t) → SysOK t) ∧
      ∀ e, run (step b) as s = .error e → e = .nilParent := by
  refine ⟨fun rs t hrun => ?_, fun e hrun => ?_⟩
  · exact run_invariant SysOK (fun a s r s' hs hstep => sysOK_of_step b hs hstep) as s t rs h hrun
  by_contra hc
  exact run_not_error SysOK (fun e => e ≠ .nilParent)
    (fun a s r s' hs hstep => sysOK_of_step b hs hstep)
    (fun a s e hs hstep hne => hne (step_no_release_panic b hs hstep)) as s e h hrun hc

end Step

end Dao.Layer
