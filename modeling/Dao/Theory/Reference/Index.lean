import Dao.Core.Reference.Store
import Dao.Theory.Reference.Identity

/-!
# The Two Indexes of the Reference Store

In every state the store reaches, the index by image ID is the inverse of the
index by name.

`Indexed` is the invariant. Its clause `cached` is stronger than the inverse
the two indexes are meant to be: it also says which reference is cached for a
string, the one the string is parsed to. That is what `reload` puts there, so
the clause has to hold of the references the operations put there too, and
this is where references have to be read back from their text.

All writes of an entry go through `indexed_set`. It does not ask how the cache
was freed of the string before, so a new entry and a replaced one are the same
case.

## Theorems

* `run_indexed`: The indexes in every state of every run.
* `name_only_reference`: A reference without a tag is found under its default
  tag only.
* `step_error_unchanged`: When a call that fails changes nothing.
* `restart_answers`: A restarted store answers as before.
-/

namespace Dao.Reference

open Lib Nested List Except

variable {φ : Type}

/-- Every entry stands under the repository name of its string. -/
def Wellnamed (m : Repositories) : Prop :=
  ∀ name refStr id, m.find name refStr = some id →
    ∃ ref, parseNamed refStr = .ok ref ∧ ref.name = name ∧ ref.string = refStr

/-- The invariant of the store. -/
structure Indexed (s : Store) : Prop where
  wellnamed : Wellnamed s.repositories
  cached : ∀ id refStr ref, s.referencesByIDCache.find id refStr = some ref ↔
    parseNamed refStr = .ok ref ∧ s.repositories.find ref.name refStr = some id
  noEmpty : s.referencesByIDCache.NoEmpty

/-- The file holds a map whose entries stand where they belong. -/
def FileOK (codec : Codec φ) (file : Option φ) : Prop :=
  ∀ content, file = some content → ∃ m, codec.unmarshal content = some m ∧ Wellnamed m

/-- The references of a call are read back from their text. -/
def Action.RoundTrips : Action → Prop
  | .addTag ref _ _ _ => Reference.RoundTrips ref
  | .addDigest name digest _ _ _ => Reference.RoundTrips (.canonicalRef name digest)
  | .delete ref _ => Reference.RoundTrips ref
  | .restart _ => True

/-- The call neither deletes the reference nor restarts the store. -/
def Action.Keeps (ref : Named) : Action → Prop
  | .addTag _ _ _ _ => True
  | .addDigest _ _ _ _ _ => True
  | .delete ref' _ => withDefaultTag ref' ≠ ref
  | .restart _ => False

/-! ### The writes -/

variable {s : Store} {ref : Named} {cache : Nested Image.ID Str Named} {id : Image.ID}
  {codec : Codec φ} {digest : Digest}

/-- An entry is written, after whatever freed the cache of its string. -/
theorem indexed_set (h : Indexed s) (href : RoundTrips ref) (id : Image.ID) (hne : cache.NoEmpty)
    (hgone : ∀ id', cache.find id' ref.string = none)
    (hkeep : ∀ id' k, k ≠ ref.string → cache.find id' k = s.referencesByIDCache.find id' k) :
    Indexed ⟨s.repositories.put ref.name ref.string id, cache.put id ref.string ref⟩ := by
  refine ⟨?_, ?_, noEmpty_put hne _ _ _⟩
  · intro name k id' hfind
    rw [find_put] at hfind
    by_cases hk : name = ref.name ∧ k = ref.string
    · rw [hk.1, hk.2]
      exact ⟨ref, href, rfl, rfl⟩
    · rw [if_neg hk] at hfind
      exact h.wellnamed name k id' hfind
  · intro id' k r
    rw [find_put, find_put]
    by_cases hk : k = ref.string
    · -- The string of the entry: it is parsed to the reference, and the cache
      -- holds it under the new image only.
      rw [hk, show parseNamed ref.string = .ok ref from href, hgone id', ok.injEq]
      by_cases hid : id' = id
      · rw [if_pos ⟨hid, rfl⟩, hid, Option.some.injEq]
        refine ⟨fun hr => ⟨hr, ?_⟩, And.left⟩
        rw [if_pos ⟨by rw [hr], rfl⟩]
      · rw [if_neg (fun hc => hid hc.1)]
        refine ⟨nofun, ?_⟩
        rintro ⟨hr, hfind⟩
        rw [if_pos ⟨by rw [hr], rfl⟩, Option.some.injEq] at hfind
        exact absurd hfind.symm hid
    · rw [if_neg (fun hc => hk hc.2), if_neg (fun hc => hk hc.2), hkeep id' k hk]
      exact h.cached id' k r

/-- The image an entry stands for is the only one it is cached under. -/
theorem find_del_cache (h : Indexed s) {name k : Str} (hfind : s.repositories.find name k = some id)
    (id' : Image.ID) :
    (s.referencesByIDCache.del id k).find id' k = none := by
  rw [find_del]
  by_cases hid : id' = id
  · rw [if_pos ⟨hid, rfl⟩]
  rw [if_neg (fun hc => hid hc.1)]
  rcases h.wellnamed name k id hfind with ⟨ref, hparse, hname, _⟩
  rcases hcache : s.referencesByIDCache.find id' k with _ | r
  · rfl
  rcases (h.cached id' k r).mp hcache with ⟨hr, hfind'⟩
  rw [hparse, ok.injEq] at hr
  rw [← hr, hname, hfind, Option.some.injEq] at hfind'
  exact absurd hfind'.symm hid

theorem indexed_del (h : Indexed s) {name k : Str} (hfind : s.repositories.find name k = some id) :
    Indexed ⟨s.repositories.del name k, s.referencesByIDCache.del id k⟩ := by
  refine ⟨?_, ?_, noEmpty_del h.noEmpty _ _⟩
  · intro name' k' id' hfind'
    rw [find_del] at hfind'
    by_cases hk : name' = name ∧ k' = k
    · simp [if_pos hk] at hfind'
    · rw [if_neg hk] at hfind'
      exact h.wellnamed name' k' id' hfind'
  · intro id' k' r
    by_cases hk : k' = k
    · rw [hk, find_del_cache h hfind id', find_del]
      refine iff_of_false (by simp) ?_
      rintro ⟨hr, hfind'⟩
      rcases h.wellnamed name k id hfind with ⟨ref, hparse, hname, _⟩
      rw [hparse, ok.injEq] at hr
      rw [if_pos ⟨by rw [← hr, hname], rfl⟩] at hfind'
      cases hfind'
    · rw [find_del, find_del, if_neg fun hc => hk hc.2, if_neg (fun hc => hk hc.2)]
      exact h.cached id' k' r

/-! ### Reloading -/

/-- What the inner loop of `reload` caches, over a cache that holds for every
    string the reference it is parsed to. -/
theorem find_reloadRepository (entries : List (Sigma fun _ : Str => Image.ID))
    (cache : Nested Image.ID Str Named)
    (hsound : ∀ id k r, cache.find id k = some r → parseNamed k = .ok r)
    (id : Image.ID) (k : Str) (r : Named) :
    (reloadRepository entries cache).find id k = some r ↔
      cache.find id k = some r ∨ (parseNamed k = .ok r ∧ ⟨k, id⟩ ∈ entries) := by
  induction entries generalizing cache with
  | nil => simp [reloadRepository]
  | cons e entries ih =>
    rcases e with ⟨k', id'⟩
    rw [reloadRepository, foldl_cons]
    rcases hparse : parseNamed k' with e | ref
    · refine (ih cache hsound).trans ?_
      rw [mem_cons]
      refine or_congr_right (and_congr_right fun hk => ?_)
      refine ⟨.inr, fun hmem => hmem.resolve_left fun heq => ?_⟩
      simp [show k = k' from congrArg Sigma.fst heq, hparse] at hk
    -- An entry is cached under its image and string, in place of one with the same.
    have hput : ∀ i q x, (cache.put id' k' ref).find i q = some x ↔ (i = id' ∧ q = k' ∧ x = ref) ∨
          (¬ (i = id' ∧ q = k') ∧ cache.find i q = some x) := by
      intro i q x
      rw [find_put]
      by_cases hiq : i = id' ∧ q = k'
      · rw [if_pos hiq, Option.some.injEq]
        exact ⟨fun hx => .inl ⟨hiq.1, hiq.2, hx.symm⟩,
          fun hx => hx.elim (fun hl => hl.2.2.symm) fun hr => absurd hiq hr.1⟩
      · rw [if_neg hiq]
        exact ⟨fun hx => .inr ⟨hiq, hx⟩,
          fun hx => hx.elim (fun hl => absurd ⟨hl.1, hl.2.1⟩ hiq) And.right⟩
    refine (ih (cache.put id' k' ref) ?_).trans ?_
    · intro i q x hx
      rcases (hput i q x).mp hx with ⟨_, hq, hx⟩ | ⟨_, hold⟩
      · rw [hq, hx]
        exact hparse
      · exact hsound i q x hold
    · rw [hput, mem_cons]
      constructor
      · rintro ((⟨hi, hk, hr⟩ | ⟨_, hold⟩) | ⟨hk, hmem⟩)
        · rw [hi, hk, hr]
          exact .inr ⟨hparse, .inl rfl⟩
        · exact .inl hold
        · exact .inr ⟨hk, .inr hmem⟩
      · rintro (hold | ⟨hk, hmem | hmem⟩)
        · by_cases hik : id = id' ∧ k = k'
          · have hr := hsound id k r hold
            rw [hik.2, hparse, ok.injEq] at hr
            exact .inl (.inl ⟨hik.1, hik.2, hr.symm⟩)
          · exact .inl (.inr ⟨hik, hold⟩)
        · have hkk : k = k' := congrArg Sigma.fst hmem
          rw [hkk, hparse, ok.injEq] at hk
          exact .inl (.inl ⟨eq_of_heq (Sigma.mk.inj hmem).2, hkk, hk.symm⟩)
        · exact .inr ⟨hk, hmem⟩

theorem find_reloadAll (repos : List (Sigma fun _ : Str => AMap Str Image.ID))
    (cache : Nested Image.ID Str Named)
    (hsound : ∀ id k r, cache.find id k = some r → parseNamed k = .ok r)
    (id : Image.ID) (k : Str) (r : Named) :
    (repos.foldl (fun cache e => reloadRepository e.2.entries cache) cache).find id k = some r ↔
      cache.find id k = some r ∨ (parseNamed k = .ok r ∧ ∃ e ∈ repos, ⟨k, id⟩ ∈ e.2.entries) := by
  induction repos generalizing cache with
  | nil =>
    simp
  | cons e repos ih =>
    rw [foldl_cons, ih, find_reloadRepository _ _ hsound, or_assoc]
    · refine or_congr_right ?_
      rw [← and_or_left]
      refine and_congr_right fun _ => ?_
      simp
    · intro i q x hx
      rcases (find_reloadRepository _ _ hsound i q x).mp hx with hold | ⟨hq, _⟩
      · exact hsound i q x hold
      · exact hq

theorem noEmpty_reloadRepository (entries : List (Sigma fun _ : Str => Image.ID))
    (h : cache.NoEmpty) :
    (reloadRepository entries cache).NoEmpty := by
  unfold reloadRepository
  induction entries generalizing cache with
  | nil => exact h
  | cons e entries ih =>
    rw [foldl_cons]
    refine ih ?_
    split
    · exact h
    · exact noEmpty_put h _ _ _

theorem noEmpty_reloadAll (repos : List (Sigma fun _ : Str => AMap Str Image.ID))
    (h : cache.NoEmpty) :
    (repos.foldl (fun cache e => reloadRepository e.2.entries cache) cache).NoEmpty := by
  induction repos generalizing cache with
  | nil => exact h
  | cons e repos ih => exact ih (noEmpty_reloadRepository e.2.entries h)

theorem find_eq_some_iff (m : Repositories) (name k : Str) (id : Image.ID) :
    m.find name k = some id ↔
      ∃ repository, ⟨name, repository⟩ ∈ m.entries ∧ ⟨k, id⟩ ∈ repository.entries := by
  rw [find, Option.bind_eq_some_iff]
  simp [AMap.mem_entries_iff]

theorem indexed_reload {content : φ} {m : Repositories} (hm : codec.unmarshal content = some m)
    (hnamed : Wellnamed m) (h : reload codec content = .ok s) : Indexed s := by
  rw [reload, hm] at h
  rw [← ok.inj h]
  refine ⟨hnamed, ?_, noEmpty_reloadAll _ noEmpty_empty⟩
  intro id k r
  rw [find_reloadAll]
  · rw [find_empty]
    simp only [reduceCtorEq, false_or]
    refine and_congr_right fun hr => ?_
    constructor
    · rintro ⟨⟨name, repository⟩, he, hmem⟩
      have hfind := (find_eq_some_iff m name k id).mpr ⟨repository, he, hmem⟩
      rcases hnamed name k id hfind with ⟨ref, hparse, hname, _⟩
      rw [hr, ok.injEq] at hparse
      rw [hparse, hname]
      exact hfind
    · intro hfind
      rcases (find_eq_some_iff m r.name k id).mp hfind with ⟨repository, he, hmem⟩
      exact ⟨_, he, hmem⟩
  · intro id k r hc
    simp [find_empty] at hc

/-! ### The calls -/

theorem wellnamed_congr {m m' : Repositories} (h : ∀ name k, m'.find name k = m.find name k)
    (hm : Wellnamed m) : Wellnamed m' := by
  intro name k id hfind
  rw [h] at hfind
  exact hm name k id hfind

/-- The invariant of the store and its file. -/
structure Sound (codec : Codec φ) (s : Sys φ) : Prop where
  indexed : Indexed s.store
  file : FileOK codec s.file

theorem sound_save {s : Sys φ} (hstore : Indexed s.store) (hfile : FileOK codec s.file)
    (saves : Bool) : Sound codec (save codec saves s).2 := by
  unfold save
  split
  · refine ⟨hstore, ?_⟩
    intro content hcontent
    rcases codec.reads s.store.repositories with ⟨m, hm, hfind⟩
    rw [← Option.some.inj hcontent]
    exact ⟨m, hm, wellnamed_congr hfind hstore.wellnamed⟩
  · exact ⟨hstore, hfile⟩

theorem sound_addReference {s : Sys φ} (h : Sound codec s) (href : RoundTrips ref) (id : Image.ID)
    (force saves : Bool) :
    Sound codec (addReference codec ref id force saves s).2 := by
  unfold addReference
  split
  · exact h
  split
  · -- A new entry: no image has the string in its cache.
    next hfind =>
      refine sound_save (s := setReference ref id s.store.referencesByIDCache s)
        (indexed_set h.indexed href id h.indexed.noEmpty ?_ fun _ _ _ => rfl) h.file saves
      intro id'
      rcases hcache : s.store.referencesByIDCache.find id' ref.string with _ | r
      · rfl
      rcases (h.indexed.cached id' _ r).mp hcache with ⟨hr, hfind'⟩
      rw [show parseNamed ref.string = .ok ref from href, ok.injEq] at hr
      rw [← hr, hfind] at hfind'
      cases hfind'
  · next oldID hfind =>
    split
    · exact h
    split
    · refine sound_save
        (s := setReference ref id (s.store.referencesByIDCache.del oldID ref.string) s)
        (indexed_set h.indexed href id (noEmpty_del h.indexed.noEmpty _ _)
          (find_del_cache h.indexed hfind) ?_) h.file saves
      intro id' k hk
      rw [find_del, if_neg (fun hc => hk hc.2)]
    · exact h

theorem sound_delete {s : Sys φ} (h : Sound codec s) (ref : Named) (saves : Bool) :
    Sound codec (delete codec ref saves s).2 := by
  unfold delete
  simp only []
  split
  · exact h
  · next id hfind =>
    exact sound_save (s := { s with store := ⟨_, _⟩ }) (indexed_del h.indexed hfind) h.file saves

theorem indexed_empty : Indexed Store.empty := by
  refine ⟨?_, ?_, noEmpty_empty⟩
  · intro name k id hfind
    simp [Store.empty, find_empty] at hfind
  · intro id k r
    simp [Store.empty, find_empty]

theorem sound_newReferenceStore {saves : Bool} {file : Option φ} {s : Sys φ}
    (hfile : FileOK codec file) (h : newReferenceStore codec saves file = .ok s) :
    Sound codec s := by
  unfold newReferenceStore at h
  cases file with
  | none =>
    have hempty := sound_save (s := ⟨.empty, none⟩) indexed_empty hfile saves
    simp only [] at h
    split at h
    · nomatch h
    next hsave =>
    rw [hsave] at hempty
    rw [← ok.inj h]
    exact hempty
  | some content =>
    simp only [] at h
    split at h
    · nomatch h
    next store hreload =>
    rcases hfile content rfl with ⟨m, hm, hnamed⟩
    rw [← ok.inj h]
    exact ⟨indexed_reload hm hnamed hreload, hfile⟩

theorem step_sound (a : Action) (s : Sys φ) (r : Bool × Except StoreError Unit) (s' : Sys φ)
    (h : Sound codec s) (ha : a.RoundTrips) (hstep : step codec a s = .ok (r, s')) :
    Sound codec s' := by
  cases a with
  | addTag ref id force saves =>
    have hs' : s' = (addTag codec ref id force saves s).2 :=
      (congrArg Prod.snd (ok.inj hstep)).symm
    rw [hs', addTag]
    split
    · exact h
    · exact sound_addReference h (roundTrips_withDefaultTag ha) id force saves
  | addDigest name digest id force saves =>
    have hs' : s' = (addDigest codec name digest id force saves s).2 :=
      (congrArg Prod.snd (ok.inj hstep)).symm
    rw [hs']
    exact sound_addReference h ha id force saves
  | delete ref saves =>
    have hs' : s' = (delete codec ref saves s).2 :=
      (congrArg Prod.snd (ok.inj hstep)).symm
    rw [hs']
    exact sound_delete h ref saves
  | restart =>
    -- A restart reads the file, which agreed with the store after its last write.
    simp only [step] at hstep
    split at hstep
    · nomatch hstep
    next hnew =>
    have hs' := congrArg Prod.snd (ok.inj hstep)
    simp only [] at hs'
    rw [← hs']
    exact sound_newReferenceStore h.file hnew

/-! ### The queries -/

theorem mem_references (s : Store) (id : Image.ID) (ref : Named) :
    ref ∈ references id s ↔ ∃ k, s.referencesByIDCache.find id k = some ref := by
  rw [references, mem_insertionSort, mem_map]
  unfold find
  cases s.referencesByIDCache.lookup id with
  | none =>
    constructor
    · rintro ⟨e, he, _⟩
      nomatch he
    · rintro ⟨k, hk⟩
      simp at hk
  | some inner =>
    constructor
    · rintro ⟨e, he, heq⟩
      refine ⟨e.1, ?_⟩
      rw [Option.bind_some, ← heq]
      exact (AMap.mem_entries_iff inner e.1 e.2).mp he
    · rintro ⟨k, hk⟩
      exact ⟨⟨k, ref⟩, (AMap.mem_entries_iff inner k ref).mpr hk, rfl⟩

theorem get_eq_ok (ref : Named) (s : Store) (id : Image.ID) : get ref s = .ok id ↔
      s.repositories.find (withDefaultTag ref).name (withDefaultTag ref).string = some id := by
  unfold get
  simp only []
  cases s.repositories.find (withDefaultTag ref).name (withDefaultTag ref).string with
  | none => simp
  | some id' => simp

theorem get_iff (h : Indexed s) (href : RoundTrips ref) (id : Image.ID) :
    get ref s = .ok id ↔ withDefaultTag ref ∈ references id s := by
  have hparse : parseNamed (withDefaultTag ref).string = .ok (withDefaultTag ref) :=
    roundTrips_withDefaultTag href
  rw [get_eq_ok, mem_references]
  constructor
  · intro hfind
    exact ⟨_, (h.cached id _ _).mpr ⟨hparse, hfind⟩⟩
  rintro ⟨k, hk⟩
  rcases (h.cached id k _).mp hk with ⟨hr, hfind⟩
  rcases h.wellnamed _ k id hfind with ⟨ref', hparse', _, hstring⟩
  rw [hr, ok.injEq] at hparse'
  rw [hparse'] at hfind ⊢
  rw [hstring]
  exact hfind

/-! ### Digests -/

theorem roundTrips_inj {r r' : Named} (h : RoundTrips r) (h' : RoundTrips r')
    (heq : r.string = r'.string) : r = r' := by
  have hr : parseNamed r.string = .ok r := h
  rw [heq, show parseNamed r'.string = .ok r' from h', ok.injEq] at hr
  exact hr.symm

theorem save_store (codec : Codec φ) (saves : Bool) (s : Sys φ) :
    (save codec saves s).2.store = s.store := by
  unfold save
  split
  · rfl
  · rfl

/-- Adding a reference changes nothing for a digest that is there. -/
theorem find_addReference {s : Sys φ} {ref ref' : Named} (href : RoundTrips ref)
    (href' : RoundTrips ref') (hdig : ref.digest = some digest)
    (hfind : s.store.repositories.find ref.name ref.string = some id) (id' : Image.ID)
    (force saves : Bool) :
    (addReference codec ref' id' force saves s).2.store.repositories.find ref.name ref.string =
      some id := by
  have hput : ref.string ≠ ref'.string →
      (s.store.repositories.put ref'.name ref'.string id').find ref.name ref.string = some id := by
    intro hne
    rw [find_put, if_neg (fun hc => hne hc.2)]
    exact hfind
  unfold addReference
  split
  · exact hfind
  -- A digest that is there is not replaced, whatever `force` says.
  by_cases heq : ref.string = ref'.string
  · rw [← roundTrips_inj href href' heq, hfind, hdig]
    exact hfind
  split
  · rw [save_store]
    exact hput heq
  split
  · exact hfind
  split
  · rw [save_store]
    exact hput heq
  · exact hfind

theorem step_digest (a : Action) (s : Sys φ) (r : Bool × Except StoreError Unit) (s' : Sys φ)
    (href : RoundTrips ref) (hdig : ref.digest = some digest)
    (hfind : s.store.repositories.find ref.name ref.string = some id)
    (ha : a.RoundTrips ∧ a.Keeps ref) (hstep : step codec a s = .ok (r, s')) :
    s'.store.repositories.find ref.name ref.string = some id := by
  cases a with
  | addTag ref' id' force saves =>
    have hs' : s' = (addTag codec ref' id' force saves s).2 :=
      (congrArg Prod.snd (ok.inj hstep)).symm
    rw [hs', addTag]
    split
    · exact hfind
    · exact find_addReference href (roundTrips_withDefaultTag ha.1) hdig hfind id' force saves
  | addDigest name digest' id' force saves =>
    have hs' : s' = (addDigest codec name digest' id' force saves s).2 :=
      (congrArg Prod.snd (ok.inj hstep)).symm
    rw [hs']
    exact find_addReference href ha.1 hdig hfind id' force saves
  | delete ref' saves =>
    have hs' : s' = (delete codec ref' saves s).2 :=
      (congrArg Prod.snd (ok.inj hstep)).symm
    rw [hs', delete]
    split
    · exact hfind
    rw [save_store]
    rw [find_del, if_neg]
    · exact hfind
    -- The deletion is of another reference, whose string is another one.
    · intro hc
      exact ha.2 (roundTrips_inj (roundTrips_withDefaultTag ha.1) href hc.2.symm)
  | restart => exact ha.2.elim

theorem withDefaultTag_digest (h : ref.digest = some digest) :
    withDefaultTag ref = ref := by
  rw [withDefaultTag, isNameOnly, h, Option.isNone_some, Bool.and_false]
  rfl

/-! ### Runs -/

/-- In every state of every run, restarts included, the index by image is the
    inverse of the index by name and has no empty entries, and `Get` finds the
    references `References` lists, with their default tag. A digest stands for
    the image it was given until it is deleted or the store is restarted. -/
theorem run_indexed {codec : Codec φ} (saves : Bool) (as : List Action) (s₀ s : Sys φ)
    (rs : List (Bool × Except StoreError Unit))
    (hnew : newReferenceStore codec saves none = .ok s₀) (has : ∀ a ∈ as, a.RoundTrips)
    (hrun : run (step codec) as s₀ = .ok (rs, s)) :
    (∀ id refStr, (∃ ref, s.store.referencesByIDCache.find id refStr = some ref) ↔
      ∃ ref, parseNamed refStr = .ok ref ∧ s.store.repositories.find ref.name refStr = some id) ∧
    (∀ name refStr id, s.store.repositories.find name refStr = some id →
      ∃ ref, parseNamed refStr = .ok ref ∧ ref.name = name) ∧
    s.store.referencesByIDCache.NoEmpty ∧
    (∀ ref id, RoundTrips ref →
      (get ref s.store = .ok id ↔ withDefaultTag ref ∈ references id s.store)) ∧
    ∀ (bs : List Action) (t : Sys φ) (rs' : List (Bool × Except StoreError Unit)) (ref : Named)
      (digest : Digest) (id : Image.ID), RoundTrips ref → ref.digest = some digest →
      (∀ b ∈ bs, b.RoundTrips ∧ b.Keeps ref) → run (step codec) bs s = .ok (rs', t) →
      get ref s.store = .ok id → get ref t.store = .ok id := by
  have hsound : Sound codec s := by
    refine run_invariant_of_meets (fun _ a => a.RoundTrips) (Sound codec) step_sound as s₀ s rs ?_
      (meets_of_forall has s₀) hrun
    exact sound_newReferenceStore (fun content hc => absurd hc (by simp)) hnew
  have hindexed := hsound.indexed
  refine ⟨?_, ?_, hindexed.noEmpty, fun ref id href => get_iff hindexed href id, ?_⟩
  · intro id refStr
    exact exists_congr (hindexed.cached id refStr)
  · intro name refStr id hfind
    rcases hindexed.wellnamed name refStr id hfind with ⟨ref, hparse, hname, _⟩
    exact ⟨ref, hparse, hname⟩
  -- The digest is found under its own string, as no default tag is added.
  · intro bs t rs' ref digest id href hdig hbs hrun' hget
    rw [get_eq_ok, withDefaultTag_digest hdig] at hget ⊢
    exact run_invariant_of_meets (fun _ a => a.RoundTrips ∧ a.Keeps ref)
      (fun s => s.store.repositories.find ref.name ref.string = some id)
      (fun a s r s' h ha hs => step_digest a s r s' href hdig h ha hs) bs s t rs' hget
      (meets_of_forall hbs s) hrun'

theorem plain_decodes (m : Repositories) :
    ∃ m', some m = some m' ∧ ∀ name k, m'.find name k = m.find name k :=
  ⟨m, rfl, fun _ _ => rfl⟩

/-- The file as the map itself. -/
def plainCodec : Codec Repositories := ⟨fun m => m, some, plain_decodes⟩

/-- The reference `foo`, without a tag. -/
def fooRef : Named := .namedRef ['f', 'o', 'o']

/-- The reference `foo` with a digest. -/
def fooDigest : Digest := Digest.newDigestFromHex Digest.sha256 (List.replicate 64 'a')

/-- `foo` is tagged, given a digest, and after a restart tagged again by force,
    with a failing save. -/
def fooActions : List Action :=
  [.addTag fooRef ['x'] false true, .addDigest ['f', 'o', 'o'] fooDigest ['x'] false true,
    .restart true, .addTag fooRef ['y'] true false]

/-- The tag has moved to the second image and the digest has not. -/
theorem run_indexed_foo : ∃ s₀ s rs, newReferenceStore plainCodec true none = .ok s₀ ∧
      run (step plainCodec) fooActions s₀ = .ok (rs, s) ∧
      s.store.referencesByIDCache.NoEmpty ∧
      (get fooRef s.store = .ok ['y'] ↔ withDefaultTag fooRef ∈ references ['y'] s.store) := by
  have hok : (run (step plainCodec) fooActions ⟨.empty, some ∅⟩).isOk = true := by
    decide
  rcases exists_run hok with ⟨rs, s, hrun⟩
  have hnew : newReferenceStore plainCodec true none = .ok ⟨.empty, some ∅⟩ := rfl
  have hall : ∀ a ∈ fooActions, a.RoundTrips := by
    have href : RoundTrips fooRef := by decide
    have hdig : RoundTrips (.canonicalRef ['f', 'o', 'o'] fooDigest) := by decide +kernel
    intro a ha
    simp only [fooActions, List.mem_cons, List.not_mem_nil, or_false] at ha
    rcases ha with ha | ha | ha | ha
    · rw [ha]
      exact href
    · rw [ha]
      exact hdig
    · rw [ha]
      exact trivial
    · rw [ha]
      exact href
  have h := run_indexed true fooActions _ s rs hnew hall hrun
  exact ⟨_, s, rs, hnew, hrun, h.2.2.1, h.2.2.2.1 fooRef ['y'] (by decide)⟩

/-- A reference without a tag is found, but it is not among the references of
    its image: the store has added the default tag. -/
theorem name_only_reference :
    RoundTrips fooRef ∧ ∃ s₀ s, newReferenceStore plainCodec true none = .ok s₀ ∧
      (addTag plainCodec fooRef ['x'] false true s₀).2 = s ∧
      get fooRef s.store = .ok ['x'] ∧ fooRef ∉ references ['x'] s.store :=
  ⟨by decide, _, _, rfl, rfl, by decide, by decide⟩

section Atomicity

/-- Whether the write of the call succeeds. -/
def Action.saves : Action → Bool
  | .addTag _ _ _ saves | .addDigest _ _ _ _ saves | .delete _ saves | .restart saves => saves

/-- The file holds the entries of the store. -/
def Agrees (codec : Codec φ) (s : Sys φ) : Prop :=
  ∃ content m, s.file = some content ∧ codec.unmarshal content = some m ∧
    ∀ name refStr, m.find name refStr = s.store.repositories.find name refStr

variable {codec : Codec φ}

theorem agrees_save (s : Sys φ) : Agrees codec (save codec true s).2 := by
  rcases codec.reads s.store.repositories with ⟨m, hm, hfind⟩
  exact ⟨_, m, rfl, hm, hfind⟩

/-- Every error but that of the write comes before the first change. -/
theorem addReference_cases (ref : Named) (id : Image.ID) (force : Bool) (s : Sys φ) :
    (addReference codec ref id force true s).1 = .ok () ∧
      Agrees codec (addReference codec ref id force true s).2 ∨
    (addReference codec ref id force true s).2 = s := by
  unfold addReference
  split
  · exact .inr rfl
  split
  · exact .inl ⟨rfl, agrees_save _⟩
  split
  · exact .inr rfl
  · split
    · exact .inl ⟨rfl, agrees_save _⟩
    · exact .inr rfl

theorem agrees_newReferenceStore {saves : Bool} {file : Option φ} {s : Sys φ}
    (h : newReferenceStore codec saves file = .ok s) : Agrees codec s := by
  rcases file with _ | content
  · cases saves with
    | false => cases h
    | true =>
      cases h
      exact agrees_save _
  simp only [newReferenceStore, reload] at h
  rcases hm : codec.unmarshal content with _ | m
  · simp [hm] at h
  rw [hm] at h
  cases h
  exact ⟨content, m, rfl, hm, fun _ _ => rfl⟩

theorem step_cases {a : Action} {s s' : Sys φ} {r : Bool × Except StoreError Unit}
    (hsaves : a.saves = true) (hstep : step codec a s = .ok (r, s')) :
    r.2 = .ok () ∧ Agrees codec s' ∨ s' = s := by
  cases a with
  | addTag ref id force saves =>
    cases hsaves
    cases hstep
    unfold addTag
    split
    · exact .inr rfl
    · exact addReference_cases ..
  | addDigest name digest id force saves =>
    cases hsaves
    cases hstep
    exact addReference_cases ..
  | delete ref saves =>
    cases hsaves
    simp only [step, delete] at hstep
    split at hstep
    · cases hstep
      exact .inr rfl
    · cases hstep
      exact .inl ⟨rfl, agrees_save _⟩
  | restart saves =>
    cases hsaves
    simp only [step] at hstep
    split at hstep
    · cases hstep
    · next hnew =>
      cases hstep
      exact .inl ⟨rfl, agrees_newReferenceStore hnew⟩

/-- The same entries. -/
def Store.Same (s s' : Store) : Prop :=
  (∀ name k, s'.repositories.find name k = s.repositories.find name k) ∧
    ∀ id k, s'.referencesByIDCache.find id k = s.referencesByIDCache.find id k

theorem Store.Same.rfl {s : Store} : s.Same s := ⟨fun _ _ => Eq.refl _, fun _ _ => Eq.refl _⟩

/-- `addReference` comes to its write, and an entry is new by then. -/
def Alters (ref : Named) (id : Image.ID) (force : Bool) (s : Store) : Prop :=
  ref.name ≠ Digest.sha256 ∧
    ∀ oldID, s.repositories.find ref.name ref.string = some oldID → ref.digest = none ∧
      force = true ∧ (oldID = id → s.referencesByIDCache.find id ref.string ≠ some ref)

/-- The call changes an entry before its write. -/
def Action.Alters (s : Store) : Action → Prop
  | .addTag ref id force _ => ref.digest = none ∧ Reference.Alters (withDefaultTag ref) id force s
  | .addDigest name digest id force _ => Reference.Alters (.canonicalRef name digest) id force s
  | .delete ref _ =>
    s.repositories.find (withDefaultTag ref).name (withDefaultTag ref).string ≠ none
  | .restart _ => False

/-- What a call comes to whose write fails. -/
structure Unsaved (alters : Prop) (s : Sys φ) (out : Except StoreError Unit × Sys φ) : Prop where
  file : out.2.file = s.file
  changed : alters → out.1 ≠ .ok () ∧ ¬s.store.Same out.2.store
  same : ¬alters → s.store.Same out.2.store

theorem unsaved_of_not {alters : Prop} {s : Sys φ} {r : Except StoreError Unit}
    (h : ¬alters) : Unsaved alters s (r, s) :=
  ⟨rfl, fun ha => absurd ha h, fun _ => .rfl⟩

theorem unsaved_of_alters {alters : Prop} {s s' : Sys φ} (halters : alters)
    (hfile : s'.file = s.file) (h : ¬s.store.Same s'.store) :
    Unsaved alters s (save codec false s') :=
  ⟨hfile, fun _ => ⟨nofun, h⟩, absurd halters⟩

theorem addReference_unsaved (ref : Named) (id : Image.ID) (force : Bool) (s : Sys φ) :
    Unsaved (Alters ref id force s.store) s (addReference codec ref id force false s) := by
  unfold addReference
  split
  · next hname => exact unsaved_of_not fun h => h.1 hname
  next hname =>
  cases hfind : s.store.repositories.find ref.name ref.string with
  | none =>
    refine unsaved_of_alters ⟨hname, by simp [hfind]⟩ rfl fun hsame => ?_
    simpa [setReference, find_put, hfind] using hsame.1 ref.name ref.string
  | some oldID =>
    simp only
    cases hdigest : ref.digest with
    | some digest => exact unsaved_of_not fun h => by simpa [hdigest] using (h.2 oldID hfind).1
    | none =>
      cases force with
      | false => exact unsaved_of_not fun h => by simpa using (h.2 oldID hfind).2.1
      | true =>
        rw [if_pos rfl]
        by_cases hold : oldID = id ∧ s.store.referencesByIDCache.find id ref.string = some ref
        · -- The entry is taken away and put back as it was.
          obtain ⟨rfl, hcached⟩ := hold
          have halters : ¬Alters ref oldID true s.store := fun h => (h.2 _ hfind).2.2 rfl hcached
          refine ⟨rfl, fun h => absurd h halters, fun _ => ⟨fun name k => ?_, fun id k => ?_⟩⟩
          · change (s.store.repositories.put ..).find name k = _
            rw [find_put]
            split_ifs with hk
            · rw [hk.1, hk.2, hfind]
            · rfl
          · change ((s.store.referencesByIDCache.del ..).put ..).find id k = _
            rw [find_put, find_del]
            split_ifs with hk
            · rw [hk.1, hk.2, hcached]
            · rfl
        · refine unsaved_of_alters ⟨hname, fun oldID' hfind' => ⟨hdigest, rfl, ?_⟩⟩ rfl ?_
          · rw [hfind, Option.some.injEq] at hfind'
            exact fun heq hcached => hold ⟨hfind'.trans heq, hcached⟩
          · intro hsame
            have hrepo := hsame.1 ref.name ref.string
            have hcache := hsame.2 id ref.string
            simp only [setReference, find_put, hfind, and_self, if_true,
              Option.some.injEq] at hrepo hcache
            exact hold ⟨hrepo.symm, hcache.symm⟩

theorem delete_unsaved (ref : Named) (s : Sys φ) :
    Unsaved ((Action.delete ref false).Alters s.store) s
      ((delete codec ref false s).1.2, (delete codec ref false s).2) := by
  unfold delete
  simp only
  cases hfind : s.store.repositories.find (withDefaultTag ref).name (withDefaultTag ref).string with
  | none => exact unsaved_of_not fun h => h hfind
  | some id =>
    have halters : (Action.delete ref false).Alters s.store := by simp [Action.Alters, hfind]
    refine ⟨rfl, fun _ => ⟨by simp [save], fun hsame => ?_⟩, absurd halters⟩
    simpa [save, find_del, hfind] using
      hsame.1 (withDefaultTag ref).name (withDefaultTag ref).string

/-- A call that returns an error leaves the entries, and none makes the file and the
    store disagree. -/
def Atomic (codec : Codec φ) (s s' : Sys φ) (r : Except StoreError Unit) : Prop :=
  (r ≠ .ok () → s.store.Same s'.store) ∧ (Agrees codec s → Agrees codec s')

theorem Unsaved.atomic_iff {alters : Prop} {s : Sys φ} {out : Except StoreError Unit × Sys φ}
    (h : Unsaved alters s out) : Atomic codec s out.2 out.1 ↔ ¬alters := by
  constructor
  · intro hatomic halters
    obtain ⟨herr, hchanged⟩ := h.changed halters
    exact hchanged (hatomic.1 herr)
  · intro halters
    refine ⟨fun _ => h.same halters, ?_⟩
    rintro ⟨content, m, hfile, hm, hfind⟩
    refine ⟨content, m, h.file.trans hfile, hm, fun name k => ?_⟩
    rw [hfind, (h.same halters).1]

/-- A call is atomic just if its write succeeds or it changes no entry before it. -/
theorem step_error_unchanged (codec : Codec φ) (a : Action) (s s' : Sys φ)
    (r : Bool × Except StoreError Unit) (hstep : step codec a s = .ok (r, s')) :
    Atomic codec s s' r.2 ↔ a.saves = true ∨ ¬a.Alters s.store := by
  cases hsaves : a.saves with
  | true =>
    refine iff_of_true ?_ (.inl rfl)
    rcases step_cases hsaves hstep with ⟨hok, hagrees⟩ | rfl
    · exact ⟨fun hne => absurd hok hne, fun _ => hagrees⟩
    · exact ⟨fun _ => .rfl, id⟩
  | false =>
    rw [or_iff_right Bool.false_ne_true]
    cases a with
    | addTag ref id force saves =>
      cases hsaves
      cases hstep
      unfold addTag
      cases hdigest : ref.digest with
      | some digest =>
        exact (unsaved_of_not (r := .error .tagWithDigest) fun h => by
          simp [Action.Alters, hdigest] at h).atomic_iff
      | none =>
        refine (addReference_unsaved (withDefaultTag ref) id force s).atomic_iff.trans ?_
        simp [Action.Alters, hdigest]
    | addDigest name digest id force saves =>
      cases hsaves
      cases hstep
      exact (addReference_unsaved (.canonicalRef name digest) id force s).atomic_iff
    | delete ref saves =>
      cases hsaves
      obtain ⟨rfl, rfl⟩ := Prod.ext_iff.mp (Except.ok.inj hstep).symm
      exact (delete_unsaved ref s).atomic_iff
    | restart saves =>
      simp only [step] at hstep
      split at hstep
      · cases hstep
      · next hnew =>
        cases hstep
        exact iff_of_true ⟨absurd rfl, fun _ => agrees_newReferenceStore hnew⟩ id

/-- The tag of another image is not moved without force, and the write that would fail
    is not reached. -/
theorem step_error_unchanged_conflict :
    ∃ s s' r, (addTag plainCodec fooRef ['x'] false true ⟨.empty, some ∅⟩).2 = s ∧
      step plainCodec (.addTag fooRef ['y'] false false) s = .ok (r, s') ∧
      Atomic plainCodec s s' r.2 := by
  refine ⟨_, _, _, rfl, rfl, (step_error_unchanged plainCodec
    (.addTag fooRef ['y'] false false) _ _ _ rfl).mpr (.inr fun h => ?_)⟩
  have hforce := (h.2.2 ['x'] (by decide)).2.1
  nomatch hforce

/-- As long as every write succeeds, a restarted store answers as before. -/
theorem restart_answers (saves : Bool) (file : Option φ) (as : List Action) (s₀ s : Sys φ)
    (rs : List (Bool × Except StoreError Unit)) (hnew : newReferenceStore codec true file = .ok s₀)
    (has : ∀ a ∈ as, a.saves = true) (hrun : run (step codec) as s₀ = .ok (rs, s)) :
    ∃ s', newReferenceStore codec saves s.file = .ok s' ∧
      ∀ ref, get ref s'.store = get ref s.store := by
  have hagrees : Agrees codec s := by
    refine run_invariant_of_meets (fun _ a => a.saves = true) (Agrees codec) ?_ as s₀ s rs
      (agrees_newReferenceStore hnew) (meets_of_forall has s₀) hrun
    intro a s r s' hs hsaves hstep
    rcases step_cases hsaves hstep with ⟨_, hs'⟩ | rfl
    exacts [hs', hs]
  rcases hagrees with ⟨content, m, hfile, hm, hfind⟩
  rw [hfile, newReferenceStore, reload, hm]
  exact ⟨_, rfl, fun ref => by simp only [get, hfind]⟩

theorem restart_answers_foo : ∃ s', newReferenceStore plainCodec true
      (addTag plainCodec fooRef ['x'] false true ⟨.empty, some ∅⟩).2.file = .ok s' ∧
    get fooRef s'.store = .ok ['x'] :=
  (@restart_answers _ plainCodec true none [.addTag fooRef ['x'] false true] _ _ _ rfl
    (forall_mem_singleton.mpr rfl) rfl).imp fun _ h => ⟨h.1, (h.2 fooRef).trans (by decide)⟩

/-- When the write fails the tag stays in memory and is not in the file: the
    maps are changed before the save. -/
theorem unsaved_tag_kept :
    ∃ s', step plainCodec (.addTag fooRef ['x'] false false) ⟨.empty, some ∅⟩ =
        .ok ((false, .error .save), s') ∧
      get fooRef Store.empty = .error .doesNotExist ∧ get fooRef s'.store = .ok ['x'] ∧
      s'.file = some ∅ :=
  ⟨_, rfl, by decide, by decide, rfl⟩

end Atomicity

end Dao.Reference
