import Dao.Core.TarExport.Load

/-!
# Loading Ends When the Parents Do

A legacy archive is loaded image by image, the parent of an image before the
image itself. The map of the images that are loaded is filled in when an image
is done, so it does not stop a recursion that comes back to an image that is
still being loaded: an archive whose image is its own parent is never loaded.

Loading ends exactly when the parents of every directory it comes to do. Its depth
is the number of ancestors, and no name is entered twice: while an image is being
loaded only its ancestors are looked at, and it is not one of them.

## Theorems

* `legacyLoadImage_mono`: More fuel does not change an answer.
* `legacyLoadImage_ends`: An image whose parents end.
* `legacyLoadImage_endless`: One whose parents do not.
* `load_ends`: `Load`.
* `own_parent_never_loaded`: An archive that is never loaded.
-/

namespace Dao.TarExport

open Lib Layer Image Option List

section Ancestors

variable {φ ψ η ρ : Type} (ex : Exporter φ ψ η ρ) (ar : Archive)

/-- The parent an image names, if the image can be read and has one. -/
def parentOf (oldID : Str) : Option Str :=
  match readImageJSON ex ar oldID with
  | .error _ => none
  | .ok (_, parent) => if parent = [] then none else some parent

/-- The image that is reached by going to the parent `n` times. -/
def ancestor : Nat → Str → Option Str
  | 0, s => some s
  | n + 1, s => (parentOf ex ar s).bind (ancestor n)

theorem ancestor_add (m n : Nat) (s : Str) :
    ancestor ex ar (m + n) s = (ancestor ex ar m s).bind (ancestor ex ar n) := by
  induction m generalizing s with
  | zero => rw [zero_add, ancestor, bind_some]
  | succ m ih =>
    rw [Nat.succ_add, ancestor, ancestor, bind_assoc]
    congr 1
    funext t
    exact ih t

theorem ancestor_none_of_le {m n : Nat} {s : Str} (h : ancestor ex ar m s = none) (hmn : m ≤ n) :
    ancestor ex ar n s = none := by
  rw [← Nat.add_sub_cancel' hmn, ancestor_add, h, bind_none]

theorem ancestor_ends {n k : Nat} {s x : Str} (h : ancestor ex ar n s = none)
    (hx : ancestor ex ar k s = some x) : ancestor ex ar n x = none := by
  have hsum := ancestor_none_of_le ex ar h (Nat.le_add_left n k)
  rwa [ancestor_add, hx, bind_some] at hsum

theorem not_own_ancestor {n : Nat} {s : Str} (h : ancestor ex ar n s = none) (k : Nat) :
    ancestor ex ar (k + 1) s ≠ some s := by
  intro hcycle
  -- Going around the cycle `j` times leads back, however large `j` is.
  have hround : ∀ j, ancestor ex ar (j * (k + 1)) s = some s := by
    intro j
    induction j with
    | zero => rw [zero_mul, ancestor]
    | succ j ih => rw [Nat.succ_mul, ancestor_add, ih, bind_some, hcycle]
  have hnone := ancestor_none_of_le ex ar h (Nat.le_mul_of_pos_right n (Nat.succ_pos k))
  simp [hround n] at hnone

end Ancestors

section Images

variable {φ ψ η ρ : Type} {ex : Exporter φ ψ η ρ} {ar : Archive}

/-- The image is in the map. -/
def Loaded (l : Legacy φ ψ η ρ) (x : Str) : Prop := (l.loadedMap.lookup x).isSome = true

/-- What happens while `s` is loaded: no name is entered twice, and what is entered
    and loaded are ancestors of `s`. -/
structure Grown (ex : Exporter φ ψ η ρ) (ar : Archive) (s : Str) (l l' : Legacy φ ψ η ρ) :
    Prop where
  nodup : l'.entered.Nodup
  from_ancestors : ∀ x ∈ l'.entered, x ∈ l.entered ∨ ∃ k, ancestor ex ar k s = some x
  keeps : ∀ x, Loaded l x → Loaded l' x
  adds : ∀ x, Loaded l' x → Loaded l x ∨ ∃ k, ancestor ex ar k s = some x

/-- What the call for `s` leaves behind: when it succeeds, all that was entered is
    loaded. -/
structure Entered (ex : Exporter φ ψ η ρ) (ar : Archive) (s : Str) (l : Legacy φ ψ η ρ)
    (r : Except LoadError Unit) (l' : Legacy φ ψ η ρ) : Prop extends Grown ex ar s l l' where
  loads : r = .ok () → Loaded l' s ∧ ∀ x ∈ l'.entered, x ∈ l.entered ∨ Loaded l' x

/-- The ancestors of `s` that were entered are loaded. -/
def Clear (ex : Exporter φ ψ η ρ) (ar : Archive) (s : Str) (l : Legacy φ ψ η ρ) : Prop :=
  ∀ k x, ancestor ex ar k s = some x → x ∈ l.entered → Loaded l x

variable {s parent : Str} {l : Legacy φ ψ η ρ}

theorem readImageJSON_of_parentOf (h : parentOf ex ar s = some parent) :
    ∃ json, readImageJSON ex ar s = .ok (json, parent) ∧ parent ≠ [] := by
  unfold parentOf at h
  split at h
  · nomatch h
  next json p hread =>
  by_cases hp : p = []
  · simp [if_pos hp] at h
  · rw [if_neg hp, some.injEq] at h
    exact ⟨json, by rw [hread, h], h ▸ hp⟩

/-- The call for an image that is not loaded and can be read. -/
theorem legacyLoadImage_succ {json : Bytes} (hloaded : l.loadedMap.lookup s = none)
    (hread : readImageJSON ex ar s = .ok (json, parent)) (fuel : Nat) :
    legacyLoadImage ex ar (fuel + 1) s l =
      match if parent = [] then some (.ok [], l.enter s)
        else loadParent (legacyLoadImage ex ar fuel) parent fuel (l.enter s) with
      | none => none
      | some (.error e, l2) => some (.error e, l2)
      | some (.ok parentID, l2) => some (afterParent ex ar s json parentID l2) := by
  rewrite [legacyLoadImage, hloaded, hread]
  rfl

theorem mem_enter {s x : Str} (h : x ∈ (l.enter s).entered) : x ∈ l.entered ∨ x = s := by
  rw [Legacy.enter, mem_append, mem_singleton] at h
  exact h

theorem grown_enter (hnodup : (l.enter s).entered.Nodup) : Grown ex ar s l (l.enter s) where
  nodup := hnodup
  from_ancestors _ hx := (mem_enter hx).imp_right fun h => ⟨0, congrArg some h.symm⟩
  keeps _ hx := hx
  adds _ hx := .inl hx

theorem Grown.of_parent {l' : Legacy φ ψ η ρ} (h : Grown ex ar parent (l.enter s) l')
    (hparent : parentOf ex ar s = some parent) : Grown ex ar s l l' := by
  have hup : ∀ {x}, (∃ k, ancestor ex ar k parent = some x) → ∃ k, ancestor ex ar k s = some x :=
    fun ⟨k, hk⟩ => ⟨k + 1, by rw [ancestor, hparent, bind_some, hk]⟩
  refine ⟨h.nodup, fun x hx => ?_, h.keeps, fun x hx => (h.adds x hx).imp_right hup⟩
  rcases h.from_ancestors x hx with hx | hk
  · exact (mem_enter hx).imp_right fun h => ⟨0, congrArg some h.symm⟩
  · exact .inr (hup hk)

theorem afterParent_entered (json : Bytes) (parentID : ID) {l l2 : Legacy φ ψ η ρ}
    (h : Grown ex ar s l l2) (hloads : ∀ x ∈ l2.entered, x ∈ l.entered ∨ x = s ∨ Loaded l2 x) :
    Entered ex ar s l (afterParent ex ar s json parentID l2).1
      (afterParent ex ar s json parentID l2).2 := by
  unfold afterParent
  rcases legacyAddImage ex ar s json parentID l2.world with ⟨res, w⟩
  rcases res with e | imgID
  · exact ⟨⟨h.nodup, h.from_ancestors, h.keeps, h.adds⟩, nofun⟩
  -- The image goes into the map last, after its parent and what the parent needed.
  have hself : ((l2.loadedMap.insert s imgID).lookup s).isSome = true := by
    rw [AList.lookup_insert, isSome_some]
  have hgrow : ∀ x, Loaded l2 x → ((l2.loadedMap.insert s imgID).lookup x).isSome = true := by
    intro x hx
    by_cases hxs : x = s
    · rw [hxs]
      exact hself
    · rw [AList.lookup_insert_ne hxs]
      exact hx
  refine ⟨⟨h.nodup, h.from_ancestors, fun x hx => hgrow x (h.keeps x hx), fun x hx => ?_⟩,
    fun _ => ⟨hself, fun x hx => ?_⟩⟩
  · by_cases hxs : x = s
    · exact .inr ⟨0, congrArg some hxs.symm⟩
    · rw [Loaded, AList.lookup_insert_ne hxs] at hx
      exact h.adds x hx
  · rcases hloads x hx with hl | rfl | hl
    · exact .inl hl
    · exact .inr hself
    · exact .inr (hgrow x hl)

/-- The loop for the parent, when loading the parent ends with it in the map or
    with an error: it is loaded at most once. -/
theorem loadParent_ends
    {load : Str → Legacy φ ψ η ρ → Option (Except LoadError Unit × Legacy φ ψ η ρ)}
    {l l' : Legacy φ ψ η ρ} {r : Except LoadError Unit} (hload : load parent l = some (r, l'))
    (hloads : r = .ok () → Loaded l' parent) (fuel : Nat) :
    ∃ r' l'', loadParent load parent (fuel + 2) l = some (r', l'') ∧
      (l'' = l ∧ (∃ id, r' = .ok id) ∨ l'' = l' ∧ ((∃ e, r' = .error e) ∨ r = .ok ())) := by
  cases hfound : l.loadedMap.lookup parent with
  | some id => exact ⟨.ok id, l, by simp [loadParent, hfound], .inl ⟨rfl, id, rfl⟩⟩
  | none =>
    cases r with
    | error e =>
      exact ⟨.error e, l', by simp [loadParent, hfound, hload], .inr ⟨rfl, .inl ⟨e, rfl⟩⟩⟩
    | ok u =>
      rcases isSome_iff_exists.mp (hloads rfl) with ⟨id, hid⟩
      exact ⟨.ok id, l', by simp [loadParent, hfound, hload, hid], .inr ⟨rfl, .inr rfl⟩⟩

theorem loadParent_mono {load load' : Str → Legacy φ ψ η ρ →
      Option (Except LoadError Unit × Legacy φ ψ η ρ)}
    (h : ∀ s l r, load s l = some r → load' s l = some r) : ∀ (fuel : Nat) (l : Legacy φ ψ η ρ) {r},
    loadParent load parent fuel l = some r → ∀ k, fuel ≤ k →
    loadParent load' parent k l = some r := by
  intro fuel
  induction fuel with
  | zero => exact fun _ _ hr => absurd hr nofun
  | succ fuel ih =>
    intro l r hr k hk
    obtain ⟨k, rfl⟩ := Nat.exists_eq_add_of_le' (Nat.le_trans (Nat.le_add_left 1 fuel) hk)
    cases hfound : l.loadedMap.lookup parent with
    | some id => simpa [loadParent, hfound] using hr
    | none =>
      cases hload : load parent l with
      | none => simp [loadParent, hfound, hload] at hr
      | some out =>
        rw [loadParent, hfound, hload] at hr
        rw [loadParent, hfound, h _ _ _ hload]
        rcases out with ⟨e | u, l'⟩
        · exact hr
        · exact ih l' hr k (Nat.le_of_succ_le_succ hk)

theorem legacyLoadImage_mono {fuel k : Nat} {r : Except LoadError Unit × Legacy φ ψ η ρ}
    (hr : legacyLoadImage ex ar fuel s l = some r) (hk : fuel ≤ k) :
    legacyLoadImage ex ar k s l = some r := by
  induction fuel generalizing s l r k with
  | zero => cases hr
  | succ fuel ih =>
    obtain ⟨k, rfl⟩ := Nat.exists_eq_add_of_le' (Nat.le_trans (Nat.le_add_left 1 fuel) hk)
    have hk := Nat.le_of_succ_le_succ hk
    cases hloaded : l.loadedMap.lookup s with
    | some id => simpa [legacyLoadImage, hloaded] using hr
    | none =>
      cases hread : readImageJSON ex ar s with
      | error e => simpa [legacyLoadImage, hloaded, hread] using hr
      | ok read =>
        rw [legacyLoadImage_succ hloaded hread] at hr ⊢
        by_cases hempty : read.2 = []
        · rwa [if_pos hempty] at hr ⊢
        · rw [if_neg hempty] at hr ⊢
          cases hparent : loadParent (legacyLoadImage ex ar fuel) read.2 fuel (l.enter s) with
          | none => simp [hparent] at hr
          | some out =>
            rw [hparent] at hr
            rw [loadParent_mono (fun _ _ _ h => ih h hk) fuel _ hparent k hk]
            exact hr

theorem legacyLoadImages_mono (dirs : List Str) {l : Legacy φ ψ η ρ} {fuel k : Nat}
    {r : Except LoadError Unit × Legacy φ ψ η ρ}
    (hr : legacyLoadImages ex ar fuel dirs l = some r) (hk : fuel ≤ k) :
    legacyLoadImages ex ar k dirs l = some r := by
  induction dirs generalizing l with
  | nil => exact hr
  | cons d ds ih =>
    cases hload : legacyLoadImage ex ar fuel d l with
    | none => simp [legacyLoadImages, hload] at hr
    | some out =>
      rw [legacyLoadImages, hload] at hr
      rw [legacyLoadImages, legacyLoadImage_mono hload hk]
      rcases out with ⟨e | u, l'⟩
      · exact hr
      · exact ih hr

/-- An image that is entered was not entered before. -/
theorem enter_nodup (hloaded : l.loadedMap.lookup s = none) (hnodup : l.entered.Nodup)
    (hclear : Clear ex ar s l) : (l.enter s).entered.Nodup := by
  rw [Legacy.enter, nodup_append]
  refine ⟨hnodup, nodup_singleton s, fun a ha b hb heq => ?_⟩
  rw [mem_singleton] at hb
  have h := hclear 0 s rfl (by rw [← hb, ← heq]; exact ha)
  simp [Loaded, hloaded] at h

/-- While an image is loaded, nothing stands in the way of its parent. -/
theorem clear_parent {n : Nat} (hend : ancestor ex ar n s = none)
    (hparent : parentOf ex ar s = some parent) (hclear : Clear ex ar s l) :
    Clear ex ar parent (l.enter s) := by
  intro k x hx hmem
  have hup : ancestor ex ar (k + 1) s = some x := by
    rw [ancestor, hparent, bind_some, hx]
  rcases mem_enter hmem with hmem | hxs
  · exact hclear (k + 1) x hup hmem
  · rw [hxs] at hup
    exact absurd hup (not_own_ancestor ex ar hend k)

theorem legacyLoadImage_ends (n : Nat) : ∀ (s : Str) (l : Legacy φ ψ η ρ),
    ancestor ex ar n s = none → l.entered.Nodup → Clear ex ar s l →
    ∃ r l', legacyLoadImage ex ar (n + 2) s l = some (r, l') ∧ Entered ex ar s l r l' := by
  induction n with
  | zero =>
    intro s l h
    nomatch h
  | succ n ih =>
    intro s l hend hnodup hclear
    cases hloaded : l.loadedMap.lookup s with
    | some id =>
      exact ⟨.ok (), l, by simp [legacyLoadImage, hloaded],
        ⟨hnodup, fun x hx => .inl hx, fun _ hx => hx, fun _ hx => .inl hx⟩,
        fun _ => ⟨by rw [Loaded, hloaded, isSome_some], fun x hx => .inl hx⟩⟩
    | none =>
      have hnodup1 := enter_nodup hloaded hnodup hclear
      cases hread : readImageJSON ex ar s with
      | error e =>
        exact ⟨.error e, l.enter s, by simp [legacyLoadImage, hloaded, hread], grown_enter hnodup1,
          nofun⟩
      | ok read =>
        rcases read with ⟨json, parent⟩
        by_cases hempty : parent = []
        · exact ⟨_, _, by rw [legacyLoadImage_succ hloaded hread, if_pos hempty],
            afterParent_entered json [] (grown_enter hnodup1) fun x hx =>
              (mem_enter hx).imp_right .inl⟩
        · have hparent : parentOf ex ar s = some parent := by
            simp [parentOf, hread, if_neg hempty]
          have hendp : ancestor ex ar n parent = none := by
            rw [ancestor, hparent, bind_some] at hend
            exact hend
          rcases ih parent (l.enter s) hendp hnodup1 (clear_parent hend hparent hclear) with
            ⟨rp, lp, hload, hent⟩
          rcases loadParent_ends hload (fun h => (hent.loads h).1) n with ⟨r', l2, hrun, hcases⟩
          -- What the loop leaves is what it found, or what loading the parent left.
          have hgrown : Grown ex ar s l l2 := by
            rcases hcases with ⟨rfl, _⟩ | ⟨rfl, _⟩
            · exact grown_enter hnodup1
            · exact hent.toGrown.of_parent hparent
          cases r' with
          | error e =>
            exact ⟨.error e, l2, by rw [legacyLoadImage_succ hloaded hread, if_neg hempty, hrun],
              hgrown, nofun⟩
          | ok id =>
            refine ⟨_, _, by rw [legacyLoadImage_succ hloaded hread, if_neg hempty, hrun],
              afterParent_entered json id hgrown fun x hx => ?_⟩
            rcases hcases with ⟨rfl, _⟩ | ⟨rfl, ⟨e, he⟩ | hok⟩
            · exact (mem_enter hx).imp_right .inl
            · nomatch he
            · rcases (hent.loads hok).2 x hx with hx | hx
              · exact (mem_enter hx).imp_right .inl
              · exact .inr (.inr hx)

theorem legacyLoadImage_endless (fuel : Nat) : ∀ (s : Str) (l : Legacy φ ψ η ρ),
    (∀ n, ∃ x, ancestor ex ar n s = some x ∧ l.loadedMap.lookup x = none) →
    legacyLoadImage ex ar fuel s l = none := by
  induction fuel with
  | zero => exact fun s l _ => rfl
  | succ fuel ih =>
    intro s l hendless
    rcases hendless 0 with ⟨_, hself, hloaded⟩
    rw [ancestor, some.injEq] at hself
    rw [← hself] at hloaded
    rcases hendless 1 with ⟨parent, hone, hnone⟩
    have hparent : parentOf ex ar s = some parent := by
      rw [ancestor, bind_eq_some_iff] at hone
      rcases hone with ⟨p, hp, heq⟩
      rw [hp, ← heq, ancestor]
    rcases readImageJSON_of_parentOf hparent with ⟨json, hread, hne⟩
    -- The parent has endless parents too, none of which is in the map.
    have hload : legacyLoadImage ex ar fuel parent (l.enter s) = none := by
      refine ih parent (l.enter s) fun n => ?_
      rcases hendless (n + 1) with ⟨x, hx, hxl⟩
      rw [ancestor, hparent, bind_some] at hx
      exact ⟨x, hx, hxl⟩
    have hloop : loadParent (legacyLoadImage ex ar fuel) parent fuel (l.enter s) = none := by
      cases fuel with
      | zero => rfl
      | succ k =>
        have hlook : (l.enter s).loadedMap.lookup parent = none := hnone
        simp [loadParent, hlook, hload]
    rw [legacyLoadImage_succ hloaded hread, if_neg hne, hloop]

/-- Between two directories everything that was entered is loaded, and the parents of
    what is loaded end. -/
structure Settled (ex : Exporter φ ψ η ρ) (ar : Archive) (l : Legacy φ ψ η ρ) : Prop where
  nodup : l.entered.Nodup
  loaded : ∀ x ∈ l.entered, Loaded l x
  ends : ∀ x, Loaded l x → ∃ n, ancestor ex ar n x = none

theorem Settled.next {r : Except LoadError Unit} {l l' : Legacy φ ψ η ρ} {n : Nat}
    (h : Settled ex ar l) (hend : ancestor ex ar n s = none) (hent : Entered ex ar s l r l')
    (hr : r = .ok ()) : Settled ex ar l' where
  nodup := hent.nodup
  loaded x hx := ((hent.loads hr).2 x hx).elim (fun hx => hent.keeps x (h.loaded x hx)) id
  ends x hx := (hent.adds x hx).elim (h.ends x) fun ⟨_, hk⟩ => ⟨n, ancestor_ends ex ar hend hk⟩

/-- The parents end for every directory that is come to. -/
def ParentsEnd (ex : Exporter φ ψ η ρ) (ar : Archive) : List Str → Legacy φ ψ η ρ → Prop
  | [], _ => True
  | d :: ds, l => (∃ n, ancestor ex ar n d = none) ∧
    ∀ fuel l', legacyLoadImage ex ar fuel d l = some (.ok (), l') → ParentsEnd ex ar ds l'

theorem legacyLoadImages_ends (dirs : List Str) : ∀ (l : Legacy φ ψ η ρ),
    ParentsEnd ex ar dirs l → Settled ex ar l →
    ∃ fuel r l', legacyLoadImages ex ar fuel dirs l = some (r, l') ∧ l'.entered.Nodup ∧
      ∀ x ∈ l'.entered, x ∈ l.entered ∨ ∃ d ∈ dirs, ∃ k, ancestor ex ar k d = some x := by
  induction dirs with
  | nil =>
    intro l _ hl
    exact ⟨0, .ok (), l, rfl, hl.nodup, fun x hx => .inl hx⟩
  | cons d ds ih =>
    rintro l ⟨⟨n, hn⟩, hrest⟩ hl
    rcases legacyLoadImage_ends n d l hn hl.nodup (fun _ x _ hx => hl.loaded x hx) with
      ⟨r, l1, hload, hent⟩
    have hfrom : ∀ x ∈ l1.entered,
        x ∈ l.entered ∨ ∃ e ∈ d :: ds, ∃ k, ancestor ex ar k e = some x :=
      fun x hx => (hent.from_ancestors x hx).imp_right fun h => ⟨d, mem_cons_self, h⟩
    rcases r with e | u
    · refine ⟨n + 2, .error e, l1, ?_, hent.nodup, hfrom⟩
      rw [legacyLoadImages, hload]
    rcases ih l1 (hrest _ _ hload) (hl.next hn hent rfl) with
      ⟨fuel, r, l', hds, hnodup', hfrom'⟩
    -- More fuel than a directory needs gives it the same answer.
    refine ⟨max (n + 2) fuel, r, l', ?_, hnodup', fun x hx => ?_⟩
    · rw [legacyLoadImages, legacyLoadImage_mono hload (le_max_left _ _)]
      exact legacyLoadImages_mono ds hds (le_max_right _ _)
    · rcases hfrom' x hx with hx | ⟨e, he, hk⟩
      · exact hfrom x hx
      · exact .inr ⟨e, mem_cons_of_mem d he, hk⟩

theorem parentsEnd_of_loaded {fuel : Nat} (dirs : List Str) : ∀ (l : Legacy φ ψ η ρ),
    (legacyLoadImages ex ar fuel dirs l).isSome = true → Settled ex ar l →
    ParentsEnd ex ar dirs l := by
  induction dirs with
  | nil => exact fun _ _ _ => trivial
  | cons d ds ih =>
    intro l hsome hl
    have hend : ∃ n, ancestor ex ar n d = none := by
      by_contra hnot
      -- What is loaded ends, so that no ancestor of the image is loaded.
      have hnone : legacyLoadImage ex ar fuel d l = none := by
        refine legacyLoadImage_endless fuel d l fun n => ?_
        obtain ⟨x, hx⟩ := ne_none_iff_exists'.mp fun h => hnot ⟨n, h⟩
        refine ⟨x, hx, not_isSome_iff_eq_none.mp fun hloaded => hnot ?_⟩
        obtain ⟨m, hm⟩ := hl.ends x hloaded
        exact ⟨n + m, by rw [ancestor_add, hx, bind_some, hm]⟩
      simp [legacyLoadImages, hnone] at hsome
    obtain ⟨n, hn⟩ := hend
    refine ⟨⟨n, hn⟩, fun k l' hload => ?_⟩
    obtain ⟨r, l1, hlarge, hent⟩ :=
      legacyLoadImage_ends n d l hn hl.nodup fun _ x _ hx => hl.loaded x hx
    -- All amounts of fuel that are enough lead to the same state.
    have hsame := legacyLoadImage_mono hload (le_max_left k (n + 2))
    rw [legacyLoadImage_mono hlarge (le_max_right _ _), some.injEq, Prod.mk.injEq] at hsame
    obtain ⟨rfl, rfl⟩ := hsame
    refine ih l1 ?_ (hl.next hn hent rfl)
    cases hfuel : legacyLoadImage ex ar fuel d l with
    | none => simp [legacyLoadImages, hfuel] at hsome
    | some out =>
      have hout := legacyLoadImage_mono hfuel (le_max_left fuel (n + 2))
      rw [legacyLoadImage_mono hlarge (le_max_right _ _), some.injEq] at hout
      subst hout
      simpa [legacyLoadImages, hfuel] using hsome

/-- A name that was reached from a directory is a directory or cannot be read,
    when no parent is spelled in another way than its directory. -/
theorem ancestor_named {dirs : List Str} (hnamed : ∀ s parent, parentOf ex ar s = some parent →
      (readImageJSON ex ar parent).isOk = true → parent ∈ dirs)
    {d : Str} (hd : d ∈ dirs) {k : Nat} {x : Str} (hx : ancestor ex ar k d = some x) :
    x ∈ dirs ∨ (readImageJSON ex ar x).isOk = false := by
  induction k generalizing d with
  | zero =>
    rw [ancestor, some.injEq] at hx
    exact .inl (hx ▸ hd)
  | succ k ih =>
    rw [ancestor, bind_eq_some_iff] at hx
    rcases hx with ⟨parent, hparent, hx⟩
    cases hok : (readImageJSON ex ar parent).isOk with
    | true => exact ih (hnamed d parent hparent hok) hx
    | false =>
      cases k with
      | zero =>
        rw [ancestor, some.injEq] at hx
        exact .inr (hx ▸ hok)
      | succ k =>
        -- What cannot be read has no parent, so the way ends there.
        have hnone : parentOf ex ar parent = none := by
          cases hread : readImageJSON ex ar parent with
          | error e => simp [parentOf, hread]
          | ok read =>
            rw [hread] at hok
            nomatch hok
        simp [ancestor, hnone] at hx

/-- The directories of an archive without a manifest. -/
def legacyDirs (ar : Archive) : Option (List Str) :=
  match ar.safePath manifestFileName with
  | .error _ => none
  | .ok file =>
    match ar.readFile file, ar.dirs with
    | .error .notExist, .ok dirs => some dirs
    | _, _ => none

/-- The tags come after the images, and enter nothing. -/
theorem load_legacy {dirs : List Str} (w : World φ ψ η ρ) (h : legacyDirs ar = some dirs) :
    ∃ tags : Except LoadError Unit × Legacy φ ψ η ρ → Except LoadError Unit × Legacy φ ψ η ρ,
      (∀ out, (tags out).2.entered = out.2.entered) ∧ ∀ fuel,
      legacyLoad ex ar fuel w = (legacyLoadImages ex ar fuel dirs ⟨w, ∅, []⟩).map tags ∧
      load ex ar fuel w = (legacyLoad ex ar fuel w).map (fun r => (r.1, r.2.world)) := by
  unfold legacyDirs at h
  split at h
  · cases h
  next file hpath =>
  split at h
  next ds hfile hdirs =>
    obtain rfl := some.inj h
    refine ⟨fun out => match out with
      | (.error e, l) => (.error e, l)
      | (.ok _, l) => ((legacyTags ex ar l.loadedMap l.world).1,
        { l with world := (legacyTags ex ar l.loadedMap l.world).2 }), ?_, fun fuel => ⟨?_, ?_⟩⟩
    · rintro ⟨_ | _, l⟩ <;> rfl
    · simp only [legacyLoad, hdirs]
      rcases legacyLoadImages ex ar fuel ds ⟨w, ∅, []⟩ with _ | ⟨_ | _, l⟩ <;> rfl
    · simp only [load, hpath, hfile]
  · cases h

theorem load_manifest (w : World φ ψ η ρ) (h : legacyDirs ar = none) :
    ∃ r, ∀ fuel, load ex ar fuel w = some r := by
  unfold legacyDirs at h
  unfold load
  split
  · exact ⟨_, fun _ => rfl⟩
  next file hpath =>
  split
  next hfile =>
    simp only [hpath, hfile] at h
    rcases hdirs : ar.dirs with e | dirs
    · exact ⟨(.error (.fault e), w), fun _ => by simp [legacyLoad, hdirs]⟩
    · simp [hdirs] at h
  · exact ⟨_, fun _ => rfl⟩
  · exact ⟨_, fun _ => rfl⟩

/-- `Load` ends exactly if the parents of every directory it comes to end. It has one
    answer for every amount of fuel that is enough, no image is entered twice, and
    when the parents are spelled as their directories, what is entered is a directory
    of the archive or cannot be read. -/
theorem load_ends (ex : Exporter φ ψ η ρ) (ar : Archive) (w : World φ ψ η ρ) :
    ((∃ fuel, (load ex ar fuel w).isSome = true) ↔
      ∀ dirs, legacyDirs ar = some dirs → ParentsEnd ex ar dirs ⟨w, ∅, []⟩) ∧
    ∀ fuel r, load ex ar fuel w = some r → (∀ k, fuel ≤ k → load ex ar k w = some r) ∧
      ∀ dirs, legacyDirs ar = some dirs → ∃ rl l, legacyLoad ex ar fuel w = some (rl, l) ∧
        l.entered.Nodup ∧ ((∀ s parent, parentOf ex ar s = some parent →
          (readImageJSON ex ar parent).isOk = true → parent ∈ dirs) →
          ∀ x ∈ l.entered, x ∈ dirs ∨ (readImageJSON ex ar x).isOk = false) := by
  cases hlegacy : legacyDirs ar with
  | none =>
    obtain ⟨r, hload⟩ := load_manifest w hlegacy
    refine ⟨iff_of_true ⟨0, by rw [hload, isSome_some]⟩ nofun, fun fuel r' hr => ⟨?_, nofun⟩⟩
    intro k _
    rw [hload, ← hr, hload]
  | some dirs =>
    have hstart : Settled ex ar (⟨w, ∅, []⟩ : Legacy φ ψ η ρ) := ⟨nodup_nil, nofun, nofun⟩
    obtain ⟨tags, htags, hrun⟩ := load_legacy w hlegacy
    refine ⟨⟨?_, ?_⟩, fun fuel r hr => ⟨fun k hk => ?_, ?_⟩⟩
    · rintro ⟨fuel, hsome⟩ _ ⟨⟩
      rw [(hrun fuel).2, (hrun fuel).1, isSome_map, isSome_map] at hsome
      exact parentsEnd_of_loaded dirs _ hsome hstart
    · intro h
      obtain ⟨fuel, r, l, hload, -, -⟩ := legacyLoadImages_ends dirs _ (h dirs rfl) hstart
      exact ⟨fuel, by rw [(hrun fuel).2, (hrun fuel).1, hload]; rfl⟩
    · rw [(hrun fuel).2, (hrun fuel).1, Option.map_map, map_eq_some_iff] at hr
      obtain ⟨out, hout, hr⟩ := hr
      rw [(hrun k).2, (hrun k).1, legacyLoadImages_mono dirs hout hk, Option.map_map, map_some, hr]
    · rintro _ ⟨⟩
      rw [(hrun fuel).2, (hrun fuel).1, Option.map_map, map_eq_some_iff] at hr
      obtain ⟨out, hout, -⟩ := hr
      have hends := parentsEnd_of_loaded dirs _ (by rw [hout, isSome_some]) hstart
      obtain ⟨k, r', l', hload, hnodup, hfrom⟩ := legacyLoadImages_ends dirs _ hends hstart
      -- The answer is the one with enough fuel for the parents.
      have hsame := legacyLoadImages_mono dirs hload (le_max_right fuel k)
      rw [legacyLoadImages_mono dirs hout (le_max_left fuel k), some.injEq] at hsame
      subst hsame
      refine ⟨_, _, by rw [(hrun fuel).1, hout]; rfl, ?_, fun hnamed x hx => ?_⟩
      · rw [htags]
        exact hnodup
      · rw [htags] at hx
        obtain hx | ⟨d, hd, k, hk⟩ := hfrom x hx
        · exact absurd hx not_mem_nil
        · exact ancestor_named hnamed hd hk

end Images

/-- An archive with an image that is its own parent. -/
def ownParent : Archive := plainArchive [['a']] [("a/json".toList, utf8 ['a'])]

/-- It is never loaded, whatever the fuel. -/
theorem own_parent_never_loaded :
    ¬ ∃ fuel, (load (plainExporter []) ownParent fuel plainWorld).isSome = true := by
  rintro ⟨fuel, h⟩
  have hparent : parentOf (plainExporter []) ownParent ['a'] = some ['a'] := by decide
  have hround : ∀ n, ancestor (plainExporter []) ownParent n ['a'] = some ['a'] := by
    intro n
    induction n with
    | zero => rfl
    | succ n ih => rw [ancestor, hparent, Option.bind_some, ih]
  have hnever : legacyLoadImages (plainExporter []) ownParent fuel [['a']] ⟨plainWorld, ∅, []⟩ =
      none := by
    rw [legacyLoadImages, legacyLoadImage_endless fuel _ _ (fun n => ⟨['a'], hround n, rfl⟩)]
  have hlegacy : legacyLoad (plainExporter []) ownParent fuel plainWorld = none := by
    have hdirs : ownParent.dirs = .ok [['a']] := rfl
    simp [legacyLoad, hdirs, hnever]
  have hnone : load (plainExporter []) ownParent fuel plainWorld = none := by
    have hpath : ownParent.safePath manifestFileName = .ok manifestFileName := rfl
    have hfile : ownParent.readFile manifestFileName = .error .notExist := by rfl
    simp [load, hpath, hfile, hlegacy]
  simp [hnone] at h

end Dao.TarExport
