import Dao.Core.Image.Config
import Dao.Theory.Layer.Provenance
import Dao.Theory.Layer.Safety

/-!
# Chain Identity

A chain ID is computed in three places: by `registerWithDescriptor` from the
parent layer, by `RegisterByGraphID` from the parent's ID, and by
`RootFS.ChainID` from the whole list of diff IDs. An image finds its layers
only because the three agree.

`run_chained` is the invariant behind that: in every state of every run the
chain ID of a layer is `CreateChainID` of the diff IDs on its path. It is
proved with the rule for what a step makes, where the parent that an
operation holds is the layer in the map under the ID it was called with.

In the other direction a chain ID determines the diff IDs, as far as the
digest does. `createChainID_injective` asks for no more than that the strings
hashed for the two lists do not collide and are not the preimage of one of
the diff IDs.

## Theorems

* `run_chained`: The chain IDs of a run.
* `createChainID_injective`: One list for a chain ID.
* `chain_identity`: The three places agree.
-/

namespace Dao.Layer

open Lib Digest List

section Invariant

variable {ω τ : Type}

/-- The chain ID of the layer is the one of the diff IDs on its path. -/
def Chained (l : RoLayer) : Prop := l.chainID = createChainID l.diffIDs

/-- The diff IDs on the path of an optional parent. -/
def parentDiffIDs : Option RoLayer → List DiffID
  | none => []
  | some p => p.diffIDs

theorem diffIDs_mk (i : LayerInfo) (p : Option RoLayer) :
    (RoLayer.mk i p).diffIDs = parentDiffIDs p ++ [i.diffID] := by
  cases p <;> rfl

theorem registerChainID_eq (p : Option RoLayer) (d : DiffID) :
    registerChainID p d = createChainIDFromParent (parentID p) [d] := by
  cases p <;> rfl

/-- One more diff ID on top of a chained parent. -/
theorem chainID_on (p : Option RoLayer) (hp : ∀ q, p = some q → Chained q) (d : DiffID) :
    createChainIDFromParent (parentID p) [d] = createChainID (parentDiffIDs p ++ [d]) := by
  rw [createChainID, createChainIDFromParent_append]
  cases p with
  | none => rfl
  | some q => rw [parentID, parentDiffIDs, hp q rfl, createChainID]

/-- The parent of a layer that is going to be made is chained, and is the one
    its chain ID is computed from. -/
def ChainedOp (op : Op ω τ) : Prop :=
  (∀ p, op.parent = some p → Chained p) ∧
    match op with
    | .registerByGraphID p _ parentID' _ _ _ => parentID' = parentID p
    | _ => True

theorem makes_chained {op : Op ω τ} {l : RoLayer} (hop : ChainedOp op) (h : op.Makes l) :
    Chained l := by
  rcases makes_cases h with ⟨p, descriptor, cacheID, tx, size, diffID, ptr, heq, hl⟩ |
    ⟨p, graphID, parent, diffID, tarDataFile, size, ptr, heq, hl⟩
  · rw [heq] at hop
    rw [hl, Chained, mk_chainID, diffIDs_mk, registerChainID_eq]
    exact chainID_on p hop.1 diffID
  · rw [heq] at hop
    rw [hl, Chained, mk_chainID, diffIDs_mk, hop.2]
    exact chainID_on p hop.1 diffID

variable {ls : LayerStore}

/-- A parent taken from a store of chained layers is chained, and its chain ID
    is the one it was taken for. -/
theorem takenAs_chained {held : Nat → Nat} (hacc : Accounted ls held)
    (hls : ∀ c l, ls.layerMap.lookup c = some l → Chained l) {parent : ChainID}
    {p : Option RoLayer} (h : TakenAs ls parent p) :
    (∀ q, p = some q → Chained q) ∧ parent = parentID p := by
  rcases h with ⟨hparent, hp⟩ | ⟨_, q, hp, hq⟩
  · rw [hp, hparent]
    exact ⟨fun q hq => by simp at hq, rfl⟩
  rw [hp]
  refine ⟨fun q' hq' => ?_, (hacc.key parent q hq).symm⟩
  rw [← Option.some.inj hq']
  exact hls parent q hq

theorem run_chained (b : Backend ω τ) (hacc : Accounted ls (fun _ => 0))
    (hls : ∀ c l, ls.layerMap.lookup c = some l → Chained l) (w : ω) (as : List (Action ω))
    (rs : List (Option Result)) (s : Sys ω τ)
    (hrun : run (step b) as (Sys.init τ ls w) = .ok (rs, s)) :
    SysOK s ∧ ∀ c l, s.ls.layerMap.lookup c = some l → Chained l := by
  have htraced := run_provenance b (fun _ _ => True) Chained ChainedOp ?_ ?_ ?_ as _ s rs
    (sysOK_init w hacc) ⟨hls, nofun⟩ (meets_true _ _) hrun
  · exact ⟨htraced.1, htraced.2.layers⟩
  · exact fun op l hop _ hmakes => makes_chained hop hmakes
  · intro s a op hok htr _ hstarts
    rcases starts_cases hstarts with ⟨_, _, _, _, _, _, hop, htaken, _⟩ |
      ⟨_, _, _, _, _, _, _, hop, htaken⟩
    · rw [hop]
      exact ⟨(takenAs_chained hok.acc htr.layers htaken).1, trivial⟩
    · rw [hop]
      exact takenAs_chained hok.acc htr.layers htaken
  · intro op op' hop hcont
    rcases continues_cases hcont with ⟨p, ts, descriptor, cacheID, tx, size, heq, heq'⟩
    rw [heq] at hop
    rw [heq']
    exact ⟨hop.1, trivial⟩

/-- The stores that runs start from: an empty one, or one that is loaded from
    a consistent listing with stable reads, where each layer is stored under
    the chain ID of its contents. -/
inductive Start (b : Backend ω τ) : LayerStore → ω → Prop where
  | empty (w : ω) : Start b LayerStore.empty w
  | load {W : ω → Prop} {layers : ChainID → Except Str (LayerInfo × ChainID)}
      {mounts : Str → Except Str (Str × Str × ChainID)} {ids : List ChainID} {names : List Str}
      {rank : ChainID → Nat} {fuel : Nat} {w w₁ w' : ω} {ls : LayerStore}
      (stable : StableReads b W layers mounts)
      (consistent : Consistent layers mounts ids names rank)
      (addressed : ∀ c ∈ ids, ∀ i p, layers c = .ok (i, p) →
        c = createChainIDFromParent p [i.diffID])
      (enough : ∀ c ∈ ids, rank c < fuel) (list : b.store.list w = (.ok (ids, names), w₁))
      (reading : W w₁) (loaded : newStoreFromGraphDriver b fuel w = some (.ok ls, w')) :
      Start b ls w'

/-- A layer that is stored under the chain ID of its contents is chained when
    it is read back. -/
theorem readable_chained {layers : ChainID → Except Str (LayerInfo × ChainID)}
    {mounts : Str → Except Str (Str × Str × ChainID)} {ids : List ChainID} {names : List Str}
    {rank : ChainID → Nat} (hc : Consistent layers mounts ids names rank)
    (haddressed : ∀ c ∈ ids, ∀ i p, layers c = .ok (i, p) →
      c = createChainIDFromParent p [i.diffID])
    (l : RoLayer) (hmem : l.chainID ∈ ids) (h : Readable layers l) : Chained l := by
  induction l with
  | base i =>
    rcases h with ⟨j, hread, hi⟩
    have hd : i.diffID = j.diffID := by rw [hi]
    rw [Chained, haddressed _ hmem _ _ hread, ← hd]
    rfl
  | child i p ih =>
    rcases h with ⟨⟨j, hread, hi⟩, hne, hp⟩
    have hd : i.diffID = j.diffID := by rw [hi]
    have hpmem := (hc.parent _ hmem _ _ hread hne).1
    rw [Chained, haddressed _ hmem _ _ hread, ← hd]
    exact chainID_on (some p) (fun q hq => Option.some.inj hq ▸ ih hpmem hp) i.diffID

theorem start_chained {b : Backend ω τ} {w : ω} (h : Start b ls w) :
    Accounted ls (fun _ => 0) ∧ ∀ c l, ls.layerMap.lookup c = some l → Chained l := by
  rcases h with w | ⟨stable, consistent, addressed, enough, list, reading, loaded⟩
  · refine ⟨accounted_empty, fun c l hl => ?_⟩
    simp [show LayerStore.empty.layerMap.lookup c = none from AList.lookup_empty c] at hl
  rcases newStore_loading stable consistent _ enough _ _ list reading with
    ⟨ls', w'', hnew, _, hload⟩
  rw [loaded] at hnew
  cases hnew
  exact ⟨accounted_of_loading consistent.nodup hload,
    fun c l hl => readable_chained consistent addressed l
      (by rw [hload.key c l hl]; exact hload.listed c l hl) (hload.readable c l hl)⟩

end Invariant

section Injective

/-- The string that is hashed for a layer on top of a chain. -/
def chainInput (parent : ChainID) (d : DiffID) : Bytes := utf8 (parent ++ ' ' :: d)

/-- The strings that `createChainIDFromParent` hashes. -/
def chainInputs : ChainID → List DiffID → List Bytes
  | _, [] => []
  | parent, d :: ds =>
    if parent = [] then chainInputs d ds
    else chainInput parent d :: chainInputs (fromBytes (chainInput parent d)) ds

/-- The diff IDs are digests, the strings hashed for the two lists do not
    collide, and none of the diff IDs is the digest of one of them. -/
structure Distinguishable (x y : List DiffID) : Prop where
  digest : ∀ d ∈ x ++ y, d ≠ [] ∧ ' ' ∉ d
  free : ∀ m ∈ chainInputs [] x ++ chainInputs [] y, ∀ n ∈ chainInputs [] x ++ chainInputs [] y,
    fromBytes m = fromBytes n → m = n
  notInput : ∀ d ∈ x ++ y, ∀ m ∈ chainInputs [] x ++ chainInputs [] y, d ≠ fromBytes m

theorem chainInputs_append (x : List DiffID) (d : DiffID) : ∀ parent : ChainID,
    chainInputs parent (x ++ [d]) = chainInputs parent x ++
      if createChainIDFromParent parent x = [] then []
      else [chainInput (createChainIDFromParent parent x) d] := by
  induction x with
  | nil =>
    intro parent
    by_cases h : parent = []
    · simp only [nil_append, chainInputs, createChainIDFromParent, if_pos h]
      exact (if_pos h).symm
    · simp only [nil_append, chainInputs, createChainIDFromParent, if_neg h]
      exact (if_neg h).symm
  | cons e x ih =>
    intro parent
    by_cases h : parent = []
    · simp [chainInputs, createChainIDFromParent, if_pos h, ih]
    · simp [chainInputs, createChainIDFromParent, if_neg h, ih, chainInput]

theorem mem_chainInputs {x : List DiffID} (d : DiffID) (hne : createChainID x ≠ []) :
    chainInput (createChainID x) d ∈ chainInputs [] (x ++ [d]) := by
  unfold createChainID at hne ⊢
  rw [chainInputs_append, if_neg hne]
  exact mem_append_right _ (mem_singleton_self _)

/-- A chain of digests has a chain ID, and it is a digest. -/
theorem createChainIDFromParent_digest (x : List DiffID) : ∀ parent : ChainID,
    (∀ d ∈ x, d ≠ [] ∧ ' ' ∉ d) → (parent ≠ [] ∧ ' ' ∉ parent) →
    createChainIDFromParent parent x ≠ [] ∧ ' ' ∉ createChainIDFromParent parent x := by
  induction x with
  | nil => exact fun parent _ hparent => hparent
  | cons d x ih =>
    intro parent hx hparent
    rw [createChainIDFromParent, if_neg hparent.1]
    refine ih _ (forall_mem_cons.mp hx).2 ?_
    have hcanonical := fromBytes_canonical (utf8 (parent ++ ' ' :: d))
    refine ⟨canonical_ne_nil _ hcanonical, fun hmem => ?_⟩
    exact absurd (canonical_no_space _ hcanonical ' ' hmem) (by decide)

theorem createChainID_digest {x : List DiffID} (hx : ∀ d ∈ x, d ≠ [] ∧ ' ' ∉ d) (hne : x ≠ []) :
    createChainID x ≠ [] ∧ ' ' ∉ createChainID x := by
  cases x with
  | nil => exact absurd rfl hne
  | cons d x =>
    exact createChainIDFromParent_digest x d (forall_mem_cons.mp hx).2 (hx d mem_cons_self)

/-- The hashed string says what it was made from, the parent being a digest. -/
theorem chainInput_inj {p q : ChainID} {d e : DiffID} (hp : ' ' ∉ p) (hq : ' ' ∉ q)
    (h : chainInput p d = chainInput q e) : p = q ∧ d = e := by
  have hs : p ++ ' ' :: d = q ++ ' ' :: e := utf8_injective h
  have hcut : cut ' ' (p ++ ' ' :: d) = cut ' ' (q ++ ' ' :: e) := by rw [hs]
  rw [cut_append _ _ _ hp, cut_append _ _ _ hq, Option.some.injEq, Prod.mk.injEq] at hcut
  exact hcut

theorem createChainID_concat (x : List DiffID) (d : DiffID) :
    createChainID (x ++ [d]) = if createChainID x = [] then d
      else fromBytes (chainInput (createChainID x) d) := by
  rw [createChainID, createChainIDFromParent_append]
  rfl

theorem createChainID_nil : createChainID [] = [] := rfl

theorem distinguishable_init {x y : List DiffID} {d e : DiffID}
    (h : Distinguishable (x ++ [d]) (y ++ [e])) : Distinguishable x y := by
  have hx : ∀ m ∈ chainInputs [] x, m ∈ chainInputs [] (x ++ [d]) := fun m hm => by
    rw [chainInputs_append]
    exact mem_append_left _ hm
  have hy : ∀ m ∈ chainInputs [] y, m ∈ chainInputs [] (y ++ [e]) := fun m hm => by
    rw [chainInputs_append]
    exact mem_append_left _ hm
  have hids : ∀ c ∈ x ++ y, c ∈ (x ++ [d]) ++ (y ++ [e]) := by
    intro c hc
    simp only [mem_append] at hc ⊢
    tauto
  have hinputs : ∀ m ∈ chainInputs [] x ++ chainInputs [] y,
      m ∈ chainInputs [] (x ++ [d]) ++ chainInputs [] (y ++ [e]) := by
    intro m hm
    rcases mem_append.mp hm with hm | hm
    · exact mem_append_left _ (hx m hm)
    · exact mem_append_right _ (hy m hm)
  exact ⟨fun c hc => h.digest c (hids c hc),
    fun m hm n hn => h.free m (hinputs m hm) n (hinputs n hn),
    fun c hc m hm => h.notInput c (hids c hc) m (hinputs m hm)⟩

theorem createChainID_injective (x : List DiffID) : ∀ y : List DiffID, Distinguishable x y →
    createChainID x = createChainID y → x = y := by
  -- The last strings hashed are equal, so the last diff IDs are, and so are
  -- the chain IDs of what is below them.
  induction x using List.reverseRecOn with
  | nil =>
    intro y h heq
    by_cases hy : y = []
    · rw [hy]
    · exact absurd heq.symm (createChainID_digest h.digest hy).1
  | append_singleton x d ih =>
    intro y h heq
    have hx : ∀ c ∈ x, c ≠ [] ∧ ' ' ∉ c := fun c hc =>
      h.digest c (mem_append_left _ (mem_append_left _ hc))
    rcases eq_nil_or_concat y with hy | ⟨y', e, hy⟩
    · rw [hy] at heq
      exact absurd heq (createChainID_digest
        (fun c hc => h.digest c (mem_append_left _ hc)) (by simp)).1
    rw [hy, concat_eq_append] at h heq ⊢
    have hy' : ∀ c ∈ y', c ≠ [] ∧ ' ' ∉ c := fun c hc =>
      h.digest c (mem_append_right _ (mem_append_left _ hc))
    have hmemx := fun hne => mem_append_left (chainInputs [] (y' ++ [e]))
      (mem_chainInputs (x := x) d hne)
    have hmemy := fun hne => mem_append_right (chainInputs [] (x ++ [d]))
      (mem_chainInputs (x := y') e hne)
    rw [createChainID_concat, createChainID_concat] at heq
    by_cases hxe : x = []
    · by_cases hye : y' = []
      · rw [hxe, hye, if_pos createChainID_nil, if_pos createChainID_nil] at heq
        rw [hxe, hye, heq]
      · have hy1 := (createChainID_digest hy' hye).1
        rw [hxe, if_pos createChainID_nil, if_neg hy1] at heq
        exact absurd heq (h.notInput d (by simp) _ (hmemy hy1))
    · have hx1 := createChainID_digest hx hxe
      by_cases hye : y' = []
      · rw [hye, if_pos createChainID_nil, if_neg hx1.1] at heq
        exact absurd heq.symm (h.notInput e (by simp) _ (hmemx hx1.1))
      have hy1 := createChainID_digest hy' hye
      rw [if_neg hx1.1, if_neg hy1.1] at heq
      have hinput := h.free _ (hmemx hx1.1) _ (hmemy hy1.1) heq
      rcases chainInput_inj hx1.2 hy1.2 hinput with ⟨hchain, hde⟩
      rw [ih y' (distinguishable_init h) hchain, hde]

end Injective

/-- In every state of every run the chain ID of a layer is the one of the diff
    IDs on its path. Chain IDs are computed in parts, so the three places that
    compute one agree on it. Lists of diff IDs that the digest can tell apart
    have different chain IDs. -/
theorem chain_identity {ω τ : Type} (b : Backend ω τ) (ls : LayerStore) (w : ω)
    (hstart : Start b ls w) (as : List (Action ω)) (rs : List (Option Result)) (s : Sys ω τ)
    (hrun : run (step b) as (Sys.init τ ls w) = .ok (rs, s)) :
    (∀ c l, s.ls.layerMap.lookup c = some l → l.chainID = c ∧ l.chainID = createChainID l.diffIDs) ∧
    (∀ (parent : ChainID) (x y : List DiffID), createChainIDFromParent parent (x ++ y) =
        createChainIDFromParent (createChainIDFromParent parent x) y ∧
      createChainID (x ++ y) = createChainIDFromParent (createChainID x) y) ∧
    (∀ (parent : ChainID) (p : Option RoLayer) (d : DiffID) (type : Str), TakenAs s.ls parent p →
      registerChainID p d = createChainIDFromParent parent [d] ∧
      registerChainID p d = (Image.RootFS.mk type (parentDiffIDs p ++ [d])).chainID) ∧
    (∀ c c' l l', s.ls.layerMap.lookup c = some l → s.ls.layerMap.lookup c' = some l' →
      l.chainID = l'.chainID → l.diffIDs = l'.diffIDs) ∧
    (∀ x y : List DiffID, Distinguishable x y → createChainID x = createChainID y → x = y) := by
  rcases start_chained hstart with ⟨hacc, hls⟩
  rcases run_chained b hacc hls w as rs s hrun with ⟨hok, hchained⟩
  refine ⟨fun c l hl => ⟨hok.acc.key c l hl, hchained c l hl⟩, fun parent x y => ⟨?_, ?_⟩,
    fun parent p d type htaken => ?_, fun c c' l l' hl hl' heq => ?_, createChainID_injective⟩
  · exact createChainIDFromParent_append x y parent
  · exact createChainIDFromParent_append x y []
  -- The three computations are one, on the chain ID the parent was taken for.
  · rcases takenAs_chained hok.acc hchained htaken with ⟨hp, hparent⟩
    rw [hparent, registerChainID_eq]
    exact ⟨rfl, chainID_on p hp d⟩
  · rw [hok.acc.key c l hl, hok.acc.key c' l' hl'] at heq
    rw [heq, hl', Option.some.injEq] at hl
    rw [hl]

/-- Three layers on top of one another, and two lists that differ in their
    second diff ID. -/
theorem chain_identity_three :
    ∃ rs s, run (step idBackend) registerThree (Sys.init Path LayerStore.empty emptyWorld) =
        .ok (rs, s) ∧
      (∀ c l, s.ls.layerMap.lookup c = some l → l.chainID = createChainID l.diffIDs) ∧
      createChainID [flatDigest 'a', flatDigest 'b'] ≠
        createChainID [flatDigest 'a', flatDigest 'c'] := by
  have hok : (run (step idBackend) registerThree
      (Sys.init Path LayerStore.empty emptyWorld)).isOk = true := by decide +kernel
  rcases exists_run hok with ⟨rs, s, hrun⟩
  have hid := chain_identity idBackend LayerStore.empty emptyWorld (.empty emptyWorld)
    registerThree rs s hrun
  have hdist : Distinguishable [flatDigest 'a', flatDigest 'b'] [flatDigest 'a', flatDigest 'c'] :=
    ⟨by decide, by decide +kernel, by decide +kernel⟩
  refine ⟨rs, s, hrun, fun c l hl => (hid.1 c l hl).2, fun heq => ?_⟩
  exact absurd (hid.2.2.2.2 _ _ hdist heq) (by decide)

end Dao.Layer
