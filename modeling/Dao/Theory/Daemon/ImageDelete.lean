import Dao.Core.Daemon.ImageDelete
import Dao.Theory.Image.Cases
import Dao.Theory.Reference.Index

/-!
# Removing a Reference Untags

An image that is given by a reference loses that reference, and as long as it
has another one that is not a digest of the same repository, nothing else
happens to it or to its tags. This is what `ImageDelete` does when it takes
what it is given for a reference.

It does not remember how the image was found. A repository whose name is the
beginning of the ID, as `sha` is of every ID, is taken for an ID: with force
the image is deleted with all its tags. That is what was asked for only if the
image has no other reference.

## Theorems

* `helper_returns`, `untags_helper`: `imageDeleteHelper` returns, and only removes.
* `removeReferences_gone`: Removing the references of an image.
* `delete_untags`: When a reference is removed and its image stays while it has
  others.
* `sha_deleted`: A repository that is taken for an ID.
-/

namespace Dao.ImageDelete

open Lib Image Reference Digest List Option AMap

theorem parseDigest_of_validateID {s : Str} (h : validateID s = true) :
    parseDigest (newDigestFromHex sha256 s) = .ok (newDigestFromHex sha256 s) := by
  rcases (Regex.mem_cls_times _ 64 s).mp ((Regex.accepts_iff _ s).mp h) with ⟨hlen, hall⟩
  refine parseDigest_canonical _ ⟨s, rfl, hlen, fun c hc => ?_⟩
  have hc := hall c hc
  simp only [Regex.inClass, any_cons, any_nil, Bool.or_false, Bool.or_eq_true,
    Bool.and_eq_true, Nat.ble_eq] at hc
  have hle : 97 ≤ c.toNat ∧ c.toNat ≤ 102 ∨ 48 ≤ c.toNat ∧ c.toNat ≤ 57 := hc
  rw [← Char.ofNat_toNat c]
  rcases hle with ⟨hlow, hhigh⟩ | ⟨hlow, hhigh⟩
  · interval_cases c.toNat <;> decide
  · interval_cases c.toNat <;> decide

theorem parseNamed_of_reference {imageRef : Str} {ref : Named}
    (h : parseIDOrReference imageRef = .ok (.inr ref)) : parseNamed imageRef = .ok ref := by
  unfold parseIDOrReference at h
  by_cases hid : validateID imageRef = true
  · simp only [if_pos hid, parseDigest_of_validateID hid] at h
    nomatch h
  simp only [if_neg hid] at h
  cases hdigest : parseDigest imageRef with
  | ok dgst =>
    simp [hdigest] at h
  | error e =>
    rw [hdigest] at h
    cases hparse : parseNamed imageRef with
    | error e' =>
      rw [hparse] at h
      nomatch h
    | ok r =>
      rw [hparse] at h
      rw [Sum.inr.inj (Except.ok.inj h)]

theorem key_inj {r r' : Named} (hname : r.name = r'.name) (hstring : r.string = r'.string) :
    r = r' := by
  cases r <;> cases r' <;> simp_all [Named.name, Named.string]

/-- A digest of the same repository. -/
def OwnDigest (ref r : Named) : Prop := r.digest.isSome = true ∧ r.name = (withDefaultTag ref).name

/-- What is cleaned up are digests of the repository. -/
theorem mem_staleRefs {parsedRef s : Named} {repoRefs : List Named}
    (h : s ∈ staleRefs parsedRef repoRefs) : s.digest.isSome = true ∧ s.name = parsedRef.name := by
  unfold staleRefs at h
  split at h
  · nomatch h
  · rw [mem_filter, Bool.and_eq_true, decide_eq_true_eq] at h
    exact h.2

section Removals

variable {φ ψ η ρ : Type} (p : Ports φ ψ η ρ)

/-- The image ID a key stands for. -/
def find (d : Daemon φ ψ η ρ) (name refStr : Str) : Option ID :=
  d.refs.store.repositories.find name refStr

/-- A removal takes away its key, whether the file is saved or not, and leaves
    the images alone. -/
theorem find_removeImageRef (ref : Named) (d : Daemon φ ψ η ρ) (name refStr : Str) :
    (removeImageRef p ref d).2.images = d.images ∧ find (removeImageRef p ref d).2 name refStr =
        if name = (withDefaultTag ref).name ∧ refStr = (withDefaultTag ref).string then none
        else find d name refStr := by
  have hstore : (removeImageRef p ref d).2.images = d.images ∧ (removeImageRef p ref d).2.refs =
        (Reference.delete p.codec ref (d.saves.headD true) d.refs).2 := by
    simp only [removeImageRef]
    cases (Reference.delete p.codec ref (d.saves.headD true) d.refs).1.2 with
    | error e | ok u => exact ⟨rfl, rfl⟩
  refine ⟨hstore.1, ?_⟩
  rw [find, hstore.2, find, Reference.delete]
  cases hfind : d.refs.store.repositories.find (withDefaultTag ref).name (withDefaultTag ref).string
    with
  | none =>
    simp only
    split
    · next hkey => rw [hkey.1, hkey.2, hfind]
    · rfl
  | some id =>
    cases d.saves.headD true with
    | true | false => exact Nested.find_del ..

theorem removeImageRef_ok {ref parsed : Named} {d d' : Daemon φ ψ η ρ}
    (h : removeImageRef p ref d = (.ok parsed, d')) : parsed = withDefaultTag ref := by
  simp only [removeImageRef] at h
  generalize (Reference.delete p.codec ref (d.saves.headD true) d.refs).1.2 = r at h
  cases r with
  | error e => nomatch congrArg Prod.fst h
  | ok u => exact (Except.ok.inj (congrArg Prod.fst h)).symm

/-- Nothing is given back. -/
def Untags (d d' : Daemon φ ψ η ρ) : Prop :=
  ∀ name refStr, find d' name refStr = none ∨ find d' name refStr = find d name refStr

theorem untags_trans {d d' d'' : Daemon φ ψ η ρ} (h : Untags d d') (h' : Untags d' d'') :
    Untags d d'' := by
  intro name refStr
  rcases h' name refStr with h'' | h''
  · exact .inl h''
  · rw [h'']
    exact h name refStr

/-- Removing a list of references takes away only their keys. -/
theorem find_removeReferences (refs : List Named) : ∀ (records : List Record) (d : Daemon φ ψ η ρ),
    (removeReferences p refs records d).2.2.images = d.images ∧
      Untags d (removeReferences p refs records d).2.2 ∧
      ∀ name refStr, (∀ r ∈ refs, ¬ (name = (withDefaultTag r).name ∧
          refStr = (withDefaultTag r).string)) →
        find (removeReferences p refs records d).2.2 name refStr = find d name refStr := by
  induction refs with
  | nil => exact fun _ _ => ⟨rfl, fun _ _ => .inr rfl, fun _ _ _ => rfl⟩
  | cons ref refs ih =>
    intro records d
    have hone := find_removeImageRef p ref d
    have huntags : Untags d (removeImageRef p ref d).2 := by
      intro name refStr
      rw [(hone name refStr).2]
      split
      · exact .inl rfl
      · exact .inr rfl
    have hkeep : ∀ name refStr, (∀ r ∈ ref :: refs, ¬ (name = (withDefaultTag r).name ∧
        refStr = (withDefaultTag r).string)) →
        find (removeImageRef p ref d).2 name refStr = find d name refStr := by
      intro name refStr hother
      rw [(hone name refStr).2, if_neg (hother ref mem_cons_self)]
    have himages := (hone [] []).1
    unfold removeReferences
    generalize removeImageRef p ref d = removed at huntags hkeep himages ⊢
    rcases removed with ⟨r, d'⟩
    rcases r with e | parsed
    -- The loop ends at the first reference that cannot be removed.
    · exact ⟨himages, huntags, hkeep⟩
    rcases ih (records ++ [.untagged parsed.string]) d' with ⟨himages', huntags', hkeep'⟩
    refine ⟨himages'.trans himages, untags_trans huntags huntags', fun name refStr hother => ?_⟩
    have hrest := hkeep' name refStr (forall_mem_cons.mp hother).2
    exact hrest.trans (hkeep name refStr hother)

/-- The helper leaves everything as it is, or the references of the image go. -/
theorem helper_cases {fuel : Nat}
    (hparent : ∀ id force prune quiet records (d : Daemon φ ψ η ρ) out,
      imageDeleteHelper p fuel id force prune quiet records d = some out → Untags d out.2.2)
    {id : ID} {force prune quiet : Bool} {records : List Record} {d : Daemon φ ψ η ρ}
    {out : Except DeleteError Unit × List Record × Daemon φ ψ η ρ}
    (h : imageDeleteHelper p (fuel + 1) id force prune quiet records d = some out) :
    out.2.2 = d ∨
      Untags (removeReferences p (references id d.refs.store) records d).2.2 out.2.2 := by
  have hsame : ∀ d : Daemon φ ψ η ρ, Untags d d := fun _ _ _ => .inr rfl
  unfold imageDeleteHelper at h
  split at h
  · split at h <;> exact .inl (some.inj h ▸ rfl)
  right
  generalize removeReferences p (references id d.refs.store) records d = removed at h ⊢
  rcases removed with ⟨r, records', d'⟩
  rcases r with e | u
  · exact some.inj h ▸ hsame d'
  simp only at h
  split at h
  · exact some.inj h ▸ hsame d'
  split at h
  · exact some.inj h ▸ hsame d'
  split at h
  · exact some.inj h ▸ hsame d'
  next parent _ _ =>
  -- The call for the parent begins without the image, and the references are as before it.
  let d'' : Daemon φ ψ η ρ :=
    { d' with images := (Image.delete p.is id p.order d'.images).2 }
  have hrest : Untags d'' out.2.2 := hparent parent false true true _ d'' out h
  exact hrest

theorem untags_helper (fuel : Nat) : ∀ (id : ID) (force prune quiet : Bool) (records : List Record)
    (d : Daemon φ ψ η ρ) out, imageDeleteHelper p fuel id force prune quiet records d = some out →
      Untags d out.2.2 := by
  induction fuel with
  | zero => exact nofun
  | succ fuel ih =>
    intro id force prune quiet records d out h
    rcases helper_cases p ih h with heq | huntags
    · exact fun _ _ => .inr (heq ▸ rfl)
    · exact untags_trans (find_removeReferences p (references id d.refs.store) records d).2.1
        huntags

/-- How many images there are. -/
def size (images : Image.Sys φ ψ η) : Nat := AMap.count (fun _ => true) images.store.images

theorem count_detach (id : ID) (parent : Except Fault ID) (images : AMap ID (ImageMeta η)) :
    count (fun _ => true) (detach id parent images) = count (fun _ => true) images := by
  rcases parent with e | q
  · rfl
  simp only [detach, removeChild]
  rcases hq : images.lookup q with _ | m
  · rfl
  have hcount := count_insert (fun _ => true) images q
    { m with children := m.children.filter (fun c => decide (c ≠ id)) }
  simp only [valueAt, hq, if_true, Nat.add_right_cancel_iff] at hcount
  exact hcount

theorem size_delete {id : ID} {order : Order} {s s' : Image.Sys φ ψ η} {v : Value}
    (h : Image.delete p.is id order s = (.ok v, s')) : size s' < size s := by
  unfold Image.delete at h
  rcases hm : s.store.images.lookup id with _ | m
  · rw [hm] at h
    nomatch congrArg Prod.fst h
  -- Every way to the end erases the image from what `detach` leaves.
  have hless : ∀ parent, count (fun _ => true)
      ((detach id parent s.store.images).erase id) < size s := by
    intro parent
    have hm' := lookup_detach s.store.images id id parent
    rw [hm, map_some] at hm'
    have herase := count_erase (fun _ => true) _ id _ hm'
    rw [count_detach, if_pos rfl] at herase
    rw [size, herase]
    exact Nat.lt_succ_self _
  rw [hm] at h
  simp only at h
  split at h
  · nomatch congrArg Prod.fst h
  split at h
  · nomatch congrArg Prod.fst h
  split at h
  · nomatch congrArg Prod.fst h
  · rw [Prod.mk.injEq] at h
    rw [← h.2]
    exact hless _

theorem helper_returns (fuel : Nat) : ∀ (id : ID) (force prune quiet : Bool)
    (records : List Record) (d : Daemon φ ψ η ρ), size d.images < fuel →
      ∃ out, imageDeleteHelper p fuel id force prune quiet records d = some out := by
  induction fuel with
  | zero => exact fun id force prune quiet records d h => absurd h (Nat.not_lt_zero _)
  | succ fuel ih =>
    intro id force prune quiet records d hfuel
    unfold imageDeleteHelper
    split
    · split
      · exact ⟨_, rfl⟩
      · exact ⟨_, rfl⟩
    have himages := (find_removeReferences p (references id d.refs.store) records d).1
    generalize removeReferences p (references id d.refs.store) records d = removed at himages ⊢
    rcases removed with ⟨r, records', d'⟩
    rcases r with e | u
    · exact ⟨_, rfl⟩
    simp only at himages ⊢
    rcases hdel : Image.delete p.is id p.order d'.images with ⟨r, images⟩
    rcases r with e | v
    · exact ⟨_, rfl⟩
    -- The call for the parent has one image less.
    have hless := size_delete p hdel
    rw [himages] at hless
    simp only
    split
    · exact ⟨_, rfl⟩
    · split
      · exact ⟨_, rfl⟩
      · exact ih _ false true true _ _ (by simp only; omega)

end Removals

section Delete

variable {φ ψ η ρ : Type} (p : Ports φ ψ η ρ)

theorem none_of_untags {d d' : Daemon φ ψ η ρ} (h : Untags d d') {name refStr : Str}
    (hnone : find d name refStr = none) : find d' name refStr = none := by
  rcases h name refStr with h | h
  · exact h
  · exact h.trans hnone

/-- The cleanup after a tag: no image and no reference goes but digests of the repository. -/
theorem cleanup (ref : Named) (id : ID) (d : Daemon φ ψ η ρ) :
    let d' := (removeReferences p (staleRefs (withDefaultTag ref) (references id d.refs.store))
      [.untagged (withDefaultTag ref).string] d).2.2
    d'.images = d.images ∧ Untags d d' ∧
      ∀ r, ¬ OwnDigest ref r → find d' r.name r.string = find d r.name r.string := by
  rcases find_removeReferences p (staleRefs (withDefaultTag ref) (references id d.refs.store))
    [.untagged (withDefaultTag ref).string] d with ⟨himages, huntags, hkeep⟩
  refine ⟨himages, huntags, fun r hr => hkeep _ _ fun s hs ⟨hname, hstring⟩ => ?_⟩
  obtain ⟨hdigest, hrepo⟩ := mem_staleRefs hs
  have hself : withDefaultTag s = s := by
    cases s with
    | namedRef n | taggedRef n t => nomatch hdigest
    | canonicalRef n t => rfl
  rw [key_inj hname hstring, hself] at hr
  exact hr ⟨hdigest, hrepo⟩

variable (fuel : Nat) (imageRef : Str) (force prune : Bool) (d : Daemon φ ψ η ρ) (ref : Named)
  (id : ID)

/-- `ImageDelete` returns and has removed the reference. If the image then has another
    one that is not a digest of the same repository, the images and all such
    references are as they were. -/
def OnlyUntags : Prop := ∃ r records d', imageDelete p fuel imageRef force prune d =
    some (r, records, d') ∧
  find d' (withDefaultTag ref).name (withDefaultTag ref).string = none ∧
  ((∃ kept ∈ references id (removeImageRef p ref d).2.refs.store, ¬ OwnDigest ref kept) →
    d'.images = d.images ∧ ∀ other, other ≠ withDefaultTag ref → ¬ OwnDigest ref other →
      find d' other.name other.string = find d other.name other.string)

variable {fuel imageRef force prune d ref id}

theorem deleteReference_untags (hparse : parseIDOrReference imageRef = .ok (.inr ref))
    (hmay : (!force && isSingleReference (references id d.refs.store) && isUsed id d) = false)
    (hfuel : size d.images < fuel)
    (hdelete : imageDelete p fuel imageRef force prune d =
      deleteReference p fuel imageRef id force prune d) :
    OnlyUntags p fuel imageRef force prune d ref id := by
  have hone := find_removeImageRef p ref d
  have hgone : find (removeImageRef p ref d).2 (withDefaultTag ref).name
      (withDefaultTag ref).string = none := by
    rw [(hone _ _).2, if_pos ⟨rfl, rfl⟩]
  have hothers : ∀ other, other ≠ withDefaultTag ref →
      find (removeImageRef p ref d).2 other.name other.string =
        find d other.name other.string := by
    intro other hne
    rw [(hone _ _).2, if_neg fun hkey => hne (key_inj hkey.1 hkey.2)]
  have himages := (hone [] []).1
  rw [OnlyUntags, hdelete]
  simp only [deleteReference, hmay, Bool.false_eq_true, if_false, parseNamed_of_reference hparse]
  rcases hrem : removeImageRef p ref d with ⟨r, d₁⟩
  rw [hrem] at hgone hothers himages
  cases r with
  | error e => exact ⟨_, _, d₁, rfl, hgone,
    fun _ => ⟨himages, fun other hne _ => hothers other hne⟩⟩
  | ok =>
    rw [removeImageRef_ok p hrem]
    simp only
    rcases cleanup p ref id d₁ with ⟨himages₂, huntags, hkeep⟩
    generalize removeReferences p (staleRefs (withDefaultTag ref) (references id d₁.refs.store))
      [.untagged (withDefaultTag ref).string] d₁ = cleaned at himages₂ huntags hkeep ⊢
    rcases cleaned with ⟨r, records, d₂⟩
    have hgone₂ := none_of_untags huntags hgone
    have hothers₂ : ∀ other, other ≠ withDefaultTag ref → ¬ OwnDigest ref other →
        find d₂ other.name other.string = find d other.name other.string :=
      fun other hne hother => (hkeep other hother).trans (hothers other hne)
    have himages₂ := himages₂.trans himages
    cases r with
    | error e => exact ⟨_, _, d₂, rfl, hgone₂, fun _ => ⟨himages₂, hothers₂⟩⟩
    | ok u =>
      simp only
      split
      · exact ⟨_, _, d₂, rfl, hgone₂, fun _ => ⟨himages₂, hothers₂⟩⟩
      · next hleft =>
        rcases helper_returns p fuel id force prune true records d₂ (by rwa [himages₂])
          with ⟨⟨r', records', d₃⟩, hout⟩
        have huntags₃ := untags_helper p fuel id force prune true records d₂ _ hout
        refine ⟨r', records', d₃, hout, none_of_untags huntags₃ hgone₂, ?_⟩
        -- A reference that is no digest of the repository would have been left.
        rintro ⟨kept, hkept, hother⟩
        refine absurd ?_ hleft
        refine List.ne_nil_of_mem (List.mem_filter.mpr ⟨hkept, ?_⟩)
        rw [decide_eq_true_eq]
        exact fun hs => hother (mem_staleRefs hs)

/-- The indexes of the reference store are inverse, the references of the image have a
    tag or a digest, and the store can be saved. -/
structure Plain (id : ID) (d : Daemon φ ψ η ρ) : Prop where
  indexed : Indexed d.refs.store
  tagged : ∀ r ∈ references id d.refs.store, withDefaultTag r = r
  saves : ∀ b ∈ d.saves, b = true

/-- The references of an image are those that stand for it. -/
theorem Plain.mem_iff (h : Plain id d) {r : Named} (hr : r ∈ references id d.refs.store) :
    RoundTrips r ∧ find d r.name r.string = some id := by
  obtain ⟨k, hk⟩ := (mem_references _ id r).mp hr
  obtain ⟨hparse, hfind⟩ := (h.indexed.cached id k r).mp hk
  obtain ⟨r', hparse', -, rfl⟩ := h.indexed.wellnamed _ k id hfind
  cases hparse.symm.trans hparse'
  exact ⟨hparse, hfind⟩

theorem Plain.nodup (h : Plain id d) : (references id d.refs.store).Nodup := by
  refine (perm_insertionSort _ _).nodup_iff.mpr ?_
  refine (List.nodup_map_iff_inj_on (NodupKeys.nodup (AList.nodupKeys _))).mpr ?_
  rintro ⟨k, r⟩ hk ⟨k', r'⟩ hk' heq
  cases heq
  have hstring : ∀ k : Str, ⟨k, r⟩ ∈ ((d.refs.store.referencesByIDCache.lookup id).getD ∅).entries →
      r.string = k := by
    intro k hmem
    have hfind : d.refs.store.referencesByIDCache.find id k = some r := by
      rw [Nested.find]
      cases hin : d.refs.store.referencesByIDCache.lookup id with
      | none =>
        rw [hin] at hmem
        exact absurd hmem not_mem_nil
      | some inner =>
        rw [hin] at hmem
        exact (AMap.mem_entries_iff inner k r).mp hmem
    obtain ⟨hparse, hfound⟩ := (h.indexed.cached id k r).mp hfind
    obtain ⟨r', hparse', -, rfl⟩ := h.indexed.wellnamed _ k id hfound
    cases hparse.symm.trans hparse'
    rfl
  rw [← hstring k hk, ← hstring k' hk']

theorem removeReferences_gone {refs : List Named} (hnodup : refs.Nodup) :
    ∀ {records : List Record} {d : Daemon φ ψ η ρ}, (∀ b ∈ d.saves, b = true) →
      (∀ r ∈ refs, withDefaultTag r = r ∧ find d r.name r.string ≠ none) →
      (removeReferences p refs records d).1 = .ok () ∧
        ∀ r ∈ refs, find (removeReferences p refs records d).2.2 r.name r.string = none := by
  induction refs with
  | nil => exact fun _ _ => ⟨rfl, nofun⟩
  | cons ref refs ih =>
    intro records d hsaves hfound
    obtain ⟨⟨htagged, hfind⟩, hrest⟩ := forall_mem_cons.mp hfound
    obtain ⟨hnew, hnodup⟩ := nodup_cons.mp hnodup
    have hkey := find_removeImageRef p ref d
    rw [htagged] at hkey
    have hok : ∃ d', removeImageRef p ref d = (.ok ref, d') ∧ d'.saves = d.saves.tail := by
      obtain ⟨id, hid⟩ := Option.ne_none_iff_exists'.mp hfind
      have hsave : d.saves.headD true = true := by
        cases hs : d.saves with
        | nil => rfl
        | cons b bs => exact hsaves b (by rw [hs]; exact mem_cons_self)
      rw [find] at hid
      simp only [removeImageRef, Reference.delete, htagged, hid, hsave, save, if_true]
      exact ⟨_, rfl, rfl⟩
    obtain ⟨d', hremove, htail⟩ := hok
    rw [hremove] at hkey
    unfold removeReferences
    rw [hremove]
    have hmore := @ih hnodup (records ++ [.untagged ref.string]) d'
      (fun b hb => hsaves b (mem_of_mem_tail (htail ▸ hb))) fun r hr => by
        refine ⟨(hrest r hr).1, ?_⟩
        rw [(hkey _ _).2, if_neg ?_]
        · exact (hrest r hr).2
        · exact fun heq => hnew (key_inj heq.1 heq.2 ▸ hr)
    refine ⟨hmore.1, forall_mem_cons.mpr ⟨?_, hmore.2⟩⟩
    -- Its key went first and is not given back.
    refine none_of_untags (find_removeReferences p refs _ d').2.1 ?_
    rw [(hkey _ _).2, if_pos ⟨rfl, rfl⟩]

/-- The image has no reference beside this one but digests of its repository. -/
def Sole (ref : Named) (refs : List Named) : Prop :=
  ∀ r ∈ refs, r = withDefaultTag ref ∨ OwnDigest ref r

theorem isSingleReference_of_sole {refs : List Named} (hnodup : refs.Nodup)
    (hmem : withDefaultTag ref ∈ refs) (hsole : Sole ref refs) : isSingleReference refs = true := by
  have hname : ∀ r ∈ refs, r.name = (withDefaultTag ref).name := fun r hr =>
    (hsole r hr).elim (fun heq => heq ▸ rfl) And.right
  -- At most one of them has no digest, and the names are all the same.
  have htags := List.eq_replicate_of_mem (l := refs.filter fun r => r.digest.isNone)
    (a := withDefaultTag ref) fun r hr => by
      obtain ⟨hr, hnone⟩ := mem_filter.mp hr
      refine (hsole r hr).resolve_right fun hown => ?_
      rw [Option.isNone_iff_eq_none] at hnone
      nomatch hnone ▸ hown.1
  have hone : (refs.filter fun r => r.digest.isNone).length ≤ 1 := by
    have hfilter := hnodup.filter fun r => r.digest.isNone
    rw [htags] at hfilter
    exact nodup_replicate.mp hfilter
  obtain ⟨k, hcanonical⟩ : ∃ k, (refs.filter fun r => r.digest.isSome).map Named.name =
      replicate k (withDefaultTag ref).name := by
    refine ⟨_, List.eq_replicate_of_mem fun n hn => ?_⟩
    obtain ⟨r, hr, rfl⟩ := mem_map.mp hn
    exact hname r (mem_filter.mp hr).1
  have hk : (refs.filter fun r => r.digest.isSome).length = k := by
    simpa using congrArg length hcanonical
  have hlength : refs.length = (refs.filter fun r => r.digest.isSome).length +
      (refs.filter fun r => r.digest.isNone).length := by
    have hsplit := List.length_eq_length_filter_add (l := refs) fun r => r.digest.isSome
    simpa only [Option.not_isSome] using hsplit
  rcases refs with _ | ⟨a, _ | ⟨b, rest⟩⟩
  · nomatch hmem
  · rfl
  · unfold isSingleReference
    have hsome : k ≠ 0 := by
      simp only [length_cons] at hlength
      omega
    have hfirst : ∀ l : List Named, (∀ r ∈ l, r ∈ a :: b :: rest) →
        (l.headD a).name = (withDefaultTag ref).name := by
      rintro (_ | ⟨x, l⟩) hl
      · exact hname a mem_cons_self
      · exact hname x (hl x mem_cons_self)
    have hsub := hfirst ((a :: b :: rest).filter fun r => r.digest.isNone)
      fun r hr => (mem_filter.mp hr).1
    simp only [hcanonical, replicate_dedup hsome, length_singleton, decide_true, Bool.true_and]
    generalize (a :: b :: rest).filter (fun r => r.digest.isNone) = tags at hone hsub ⊢
    rcases tags with _ | ⟨x, _ | ⟨y, tags⟩⟩
    · simpa [hsome] using hsub
    · simpa [hsome] using hsub
    · simp only [length_cons] at hone
      omega

/-- What an image has left of its references. -/
theorem Plain.mem_removed (h : Plain id d)
    (hfind : find d (withDefaultTag ref).name (withDefaultTag ref).string = some id) (r : Named) :
    r ∈ references id (removeImageRef p ref d).2.refs.store ↔
      r ∈ references id d.refs.store ∧ r ≠ withDefaultTag ref := by
  have hstore : (removeImageRef p ref d).2.refs.store = ⟨d.refs.store.repositories.del
      (withDefaultTag ref).name (withDefaultTag ref).string,
      d.refs.store.referencesByIDCache.del id (withDefaultTag ref).string⟩ := by
    rw [find] at hfind
    simp only [removeImageRef, Reference.delete, hfind]
    split <;> exact save_store ..
  -- The removal takes the cached string of the reference, which no other reference has.
  obtain ⟨ref', hparse', hname', hstring'⟩ := h.indexed.wellnamed _ _ id hfind
  cases key_inj hname' hstring'
  rw [hstore, mem_references, mem_references]
  simp only [Nested.find_del, true_and]
  constructor
  · rintro ⟨k, hk⟩
    split_ifs at hk with hkey
    refine ⟨⟨k, hk⟩, ?_⟩
    rintro rfl
    obtain ⟨hparse, hfound⟩ := (h.indexed.cached id k _).mp hk
    obtain ⟨r', hparse'', -, rfl⟩ := h.indexed.wellnamed _ k id hfound
    cases hparse.symm.trans hparse''
    exact hkey rfl
  · rintro ⟨⟨k, hk⟩, hne⟩
    refine ⟨k, ?_⟩
    rw [if_neg]
    · exact hk
    · rintro rfl
      obtain ⟨hparse, -⟩ := (h.indexed.cached id _ r).mp hk
      cases hparse.symm.trans hparse'
      exact hne rfl

theorem deleteID_untags (h : Plain id d) (hget : get ref d.refs.store = .ok id)
    (hfuel : size d.images < fuel)
    (hdelete : imageDelete p fuel imageRef force prune d = deleteID p fuel id force prune d) :
    OnlyUntags p fuel imageRef force prune d ref id ↔
      Sole ref (references id d.refs.store) ∧
        checkImageDeleteConflict id ⟨false, !force⟩ d = none := by
  have hfind : find d (withDefaultTag ref).name (withDefaultTag ref).string = some id :=
    (get_eq_ok ref _ id).mp hget
  have hmem : withDefaultTag ref ∈ references id d.refs.store := by
    obtain ⟨ref', hparse', hname', hstring'⟩ := h.indexed.wellnamed _ _ id hfind
    cases key_inj hname' hstring'
    exact (mem_references _ id _).mpr ⟨_, (h.indexed.cached id _ _).mpr ⟨hparse', hfind⟩⟩
  have hall : ∀ records, (removeReferences p (references id d.refs.store) records d).1 = .ok () ∧
      ∀ r ∈ references id d.refs.store,
        find (removeReferences p (references id d.refs.store) records d).2.2 r.name r.string =
          none :=
    fun records => removeReferences_gone p h.nodup h.saves fun r hr =>
      ⟨h.tagged r hr, by rw [(h.mem_iff hr).2]; exact nofun⟩
  -- What is returned when the references of the image have gone.
  have hgone : ∀ d', (∀ r ∈ references id d.refs.store, find d' r.name r.string = none) →
      ∀ r records, imageDelete p fuel imageRef force prune d = some (r, records, d') →
      (OnlyUntags p fuel imageRef force prune d ref id ↔
        Sole ref (references id d.refs.store)) := by
    intro d' hnone r records hrun
    constructor
    · rintro ⟨r', records', d'', hrun', -, hkeep⟩
      cases hrun.symm.trans hrun'
      intro kept hkept
      by_contra hother
      rw [not_or] at hother
      have hsame := (hkeep ⟨kept, (h.mem_removed p hfind kept).mpr ⟨hkept, hother.1⟩, hother.2⟩).2
        kept hother.1 hother.2
      rw [hnone kept hkept, (h.mem_iff hkept).2] at hsame
      nomatch hsame
    · intro hsole
      refine ⟨r, records, d', hrun, hnone _ hmem, ?_⟩
      rintro ⟨kept, hkept, hother⟩
      obtain ⟨hkept, hne⟩ := (h.mem_removed p hfind kept).mp hkept
      exact absurd hother (not_not.mpr ((hsole kept hkept).resolve_left hne))
  have hstays : ∀ r records, imageDelete p fuel imageRef force prune d = some (r, records, d) →
      ¬ OnlyUntags p fuel imageRef force prune d ref id := by
    rintro r records hrun ⟨r', records', d', hrun', hnone, -⟩
    cases hrun.symm.trans hrun'
    nomatch hnone.symm.trans hfind
  obtain ⟨fuel, rfl⟩ := Nat.exists_eq_succ_of_ne_zero (Nat.ne_zero_of_lt hfuel)
  by_cases hsingle : isSingleReference (references id d.refs.store) = true
  · simp only [deleteID, if_pos hsingle] at hdelete
    cases hconflict : checkImageDeleteConflict id ⟨false, !force⟩ d with
    | some c =>
      rw [hconflict] at hdelete
      exact iff_of_false (hstays _ _ hdelete) nofun
    | none =>
      rw [hconflict] at hdelete
      obtain ⟨hok, hnone⟩ := hall []
      have himages := (find_removeReferences p (references id d.refs.store) [] d).1
      generalize removeReferences p (references id d.refs.store) [] d = removed
        at hdelete hok hnone himages
      obtain ⟨_, records, d'⟩ := removed
      cases hok
      obtain ⟨⟨r, records', d''⟩, hout⟩ :=
        helper_returns p (fuel + 1) id force prune false records d'
        (by rwa [himages])
      have huntags := untags_helper p (fuel + 1) id force prune false records d' _ hout
      rw [and_iff_left rfl]
      exact hgone d'' (fun r hr => none_of_untags huntags (hnone r hr)) r records'
        (hdelete.trans hout)
  · simp only [deleteID, if_neg hsingle] at hdelete
    have hnot : ¬ Sole ref (references id d.refs.store) :=
      fun hsole => hsingle (isSingleReference_of_sole h.nodup hmem hsole)
    refine iff_of_false (fun huntags => ?_) fun hsole => hnot hsole.1
    obtain ⟨⟨r, records, d'⟩, hout⟩ := helper_returns p (fuel + 1) id force prune false [] d hfuel
    rcases helper_cases p (untags_helper p fuel) hout with heq | hrest
    · cases heq
      exact hstays r records (hdelete.trans hout) huntags
    · exact hnot ((hgone d' (fun x hx => none_of_untags hrest ((hall []).2 x hx)) r records
        (hdelete.trans hout)).mp huntags)

/-- A reference that is not taken for an ID is removed, and nothing else while the
    image has others, unless it is the single one of an image that a container uses
    and must be forced. One that is taken for an ID is removed in this way if the
    image has no other reference and there is no conflict. -/
theorem delete_untags (fuel : Nat) (imageRef : Str) (force prune : Bool) (d : Daemon φ ψ η ρ)
    (ref : Named) (id : ID) (hparse : parseIDOrReference imageRef = .ok (.inr ref))
    (hget : get ref d.refs.store = .ok id) (hfuel : size d.images < fuel) :
    (isImageIDPrefix id imageRef = false → (OnlyUntags p fuel imageRef force prune d ref id ↔
      force = true ∨ isSingleReference (references id d.refs.store) = false ∨
        isUsed id d = false)) ∧
    (isImageIDPrefix id imageRef = true → Plain id d →
      (OnlyUntags p fuel imageRef force prune d ref id ↔ Sole ref (references id d.refs.store) ∧
        checkImageDeleteConflict id ⟨false, !force⟩ d = none)) := by
  have hid : getImageID p imageRef d = .ok id := by
    simp [getImageID, hparse, hget]
  refine ⟨fun hnotID => ?_, fun hID hplain => ?_⟩
  · have hdelete : imageDelete p fuel imageRef force prune d =
        deleteReference p fuel imageRef id force prune d := by
      simp only [imageDelete, hid, hnotID, Bool.false_eq_true, if_false]
    constructor
    · rintro ⟨r, records, d', hrun, hnone, -⟩
      -- The single reference of an image in use is refused before anything is removed.
      by_contra hrefused
      simp only [not_or, Bool.not_eq_true, Bool.not_eq_false] at hrefused
      rw [hdelete] at hrun
      simp only [deleteReference, hrefused, Bool.not_false, Bool.and_true, if_true] at hrun
      cases hrun
      nomatch hnone.symm.trans ((get_eq_ok ref _ id).mp hget)
    · intro hfree
      refine deleteReference_untags p hparse ?_ hfuel hdelete
      rcases hfree with hf | hf | hf
      · rw [hf, Bool.not_true, Bool.false_and, Bool.false_and]
      · rw [hf, Bool.and_false, Bool.false_and]
      · rw [hf, Bool.and_false]
  · refine deleteID_untags p hplain hget hfuel ?_
    simp only [imageDelete, hid, hID, if_true]

end Delete

/-- A daemon that can be run, whose images are found only by their references. -/
def idDelete : Ports (Node Bytes) (Layer.LayerStore × Layer.FileWorld (List Str))
    (Layer.ChainID × Nat) Repositories :=
  ⟨idPorts, plainCodec, fun _ _ => none, idOrder⟩

/-- One image with tags in repositories. -/
def tagged (repos : List Str) : Daemon (Node Bytes) (Layer.LayerStore × Layer.FileWorld (List Str))
    (Layer.ChainID × Nat) Repositories where
  images := ((run (Image.step idPorts) [.create [0], .createLocked 0] idSys).toOption.map
    (fun out => out.2)).getD idSys
  refs := repos.foldl (fun s repo =>
    (addTag plainCodec (.namedRef repo) (fromBytes [0]) false true s).2)
    ⟨.empty, none⟩
  containers := []
  saves := []

theorem plain_tagged (repos : List Str) (h : ∀ repo ∈ repos, RoundTrips (.namedRef repo))
    (htagged : ∀ r ∈ references (fromBytes [0]) (tagged repos).refs.store, withDefaultTag r = r) :
    Plain (fromBytes [0]) (tagged repos) := by
  refine ⟨?_, htagged, nofun⟩
  -- The invariant of the store, along the fold.
  have hsound : ∀ s : Reference.Sys Repositories, Sound plainCodec s → Sound plainCodec
      (repos.foldl (fun s repo =>
        (addTag plainCodec (.namedRef repo) (fromBytes [0]) false true s).2) s) := by
    clear htagged
    induction repos with
    | nil => exact fun _ hs => hs
    | cons repo repos ih =>
      obtain ⟨hrepo, hrepos⟩ := forall_mem_cons.mp h
      exact fun s hs => ih hrepos _ (step_sound (.addTag (.namedRef repo) _ _ _) s _ _ hs hrepo rfl)
  exact (hsound ⟨.empty, none⟩ ⟨indexed_empty, nofun⟩).indexed

/-- What is left of the image and its two tags after a forced deletion. -/
def leftOf (repo : Str) : Option (Bool × Bool × Bool) :=
  (imageDelete idDelete 2 repo true true (tagged [repo, "keep".toList])).map (fun out =>
    ((out.2.2.images.store.images.lookup (fromBytes [0])).isSome,
      (find out.2.2 repo (repo ++ ":latest".toList)).isSome,
      (find out.2.2 "keep".toList "keep:latest".toList).isSome))

/-- One tag of two in a repository that is no beginning of the ID, and the only tag in
    one that is. -/
theorem delete_untags_app : (∃ r records d', imageDelete idDelete 2 "app".toList true true
        (tagged ["app".toList, "keep".toList]) = some (r, records, d') ∧
      find d' "app".toList "app:latest".toList = none ∧
      d'.images = (tagged ["app".toList, "keep".toList]).images ∧
      find d' "keep".toList "keep:latest".toList = some (fromBytes [0])) ∧
    ∃ r records d', imageDelete idDelete 2 "sha".toList false true (tagged ["sha".toList]) =
        some (r, records, d') ∧ find d' "sha".toList "sha:latest".toList = none := by
  constructor
  · obtain ⟨r, records, d', hrun, hgone, hkept⟩ := ((delete_untags idDelete 2 "app".toList true true
      (tagged ["app".toList, "keep".toList]) (.namedRef "app".toList) (fromBytes [0]) (by decide)
      (by decide) (by decide +kernel)).1 (by decide)).mpr (.inl rfl)
    obtain ⟨himages, hothers⟩ := hkept ⟨.taggedRef "keep".toList "latest".toList, by decide, nofun⟩
    refine ⟨r, records, d', hrun, hgone, himages, ?_⟩
    exact (hothers (.taggedRef "keep".toList "latest".toList) (by decide) nofun).trans (by decide)
  · obtain ⟨r, records, d', hrun, hgone, -⟩ := ((delete_untags idDelete 2 "sha".toList false true
      (tagged ["sha".toList]) (.namedRef "sha".toList) (fromBytes [0]) (by decide) (by decide)
      (by decide +kernel)).2 (by decide) (plain_tagged _ (by decide) (by decide))).mpr
      ⟨by unfold Sole OwnDigest; decide, by decide +kernel⟩
    exact ⟨r, records, d', hrun, hgone⟩

/-- The repository `sha` is taken for the beginning of an ID: a forced removal
    of its tag deletes the image and the other tag. -/
theorem sha_deleted : parseIDOrReference "sha".toList = .ok (.inr (.namedRef "sha".toList)) ∧
      get (.namedRef "sha".toList) (tagged ["sha".toList, "keep".toList]).refs.store =
        .ok (fromBytes [0]) ∧
      leftOf "sha".toList = some (false, false, false) := by
  decide +kernel

end Dao.ImageDelete
