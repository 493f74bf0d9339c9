import Dao.Core.Pkg.IDTools

/-!
# The Mapping Is a Bijection

What `createIDMap` builds, as a relation between container ids and host ids:
`Maps` lays the ranges one after the other on the container side and leaves
them where they are on the host side. Both translations decide this relation,
from either end. On the container side the ranges follow one another, so the
loop cannot find a wrong entry. On the host side it cannot because the ranges
are disjoint, in whatever order they come, so the sorting only decides which
range comes first.

All ids that occur have to be values of `int`, the sum of the lengths
included, since that is how many container ids there are.

## Theorems

* `toHost_iff`: From the container to the host.
* `toContainer_iff`: Back again.
* `createIDMap_inverse`: The two are inverse.
-/

namespace Dao.IDTools

open List

/-- The host ids of a range. -/
def SubIDRange.Has (r : SubIDRange) (h : Int) : Prop := r.start ≤ h ∧ h < r.start + r.length

/-- The length and the host ids of a range are values of `int`. -/
def SubIDRange.Fits (r : SubIDRange) : Prop :=
  r.length < 2 ^ 63 ∧ -2 ^ 63 ≤ r.start ∧ r.start + r.length ≤ 2 ^ 63

/-- The number of ids in the ranges. -/
def total (rs : List SubIDRange) : Int := (rs.map SubIDRange.length).sum

/-- The container id `c` and the host id `h` belong together, when the ranges
    are laid out from `c₀` on. -/
def Maps : Int → List SubIDRange → Int → Int → Prop
  | _, [], _, _ => False
  | c₀, r :: rs, c, h => (r.Has h ∧ c - c₀ = h - r.start) ∨ Maps (c₀ + r.length) rs c h

theorem wrap_eq {x : Int} (hlo : -2 ^ 63 ≤ x) (hhi : x < 2 ^ 63) : wrap x = x := by
  have hwidth : ((2 ^ 64 : Nat) : Int) = 18446744073709551616 := rfl
  refine Int.bmod_eq_of_le ?_ ?_
  · rw [hwidth]
    omega
  · rw [hwidth]
    omega

theorem wrap_pred {x : Int} (hlo : -2 ^ 63 < x) (hhi : x ≤ 2 ^ 63) : wrap (wrap x - 1) = x - 1 := by
  have hsub : wrap (wrap x - 1) = wrap (x - 1) := Int.bmod_sub_bmod
  rw [hsub]
  exact wrap_eq (by omega) (by omega)

@[simp] theorem total_cons (r : SubIDRange) (rs : List SubIDRange) :
    total (r :: rs) = r.length + total rs := sum_cons

variable {rs : List SubIDRange}

theorem total_nonneg (hpos : ∀ r ∈ rs, 0 < r.length) : 0 ≤ total rs := by
  induction rs with
  | nil => exact Int.le_refl 0
  | cons r rs ih =>
    have hr := hpos r mem_cons_self
    have hrs := ih (forall_mem_cons.mp hpos).2
    rw [total_cons]
    omega

theorem translate_cons (message : Str) (source target : IDMap → Int) (id : Int) (m : IDMap)
    (ms : List IDMap) (hsize : 0 < m.size) (hint : m.size < 2 ^ 63)
    (hsource : -2 ^ 63 ≤ source m ∧ source m + m.size ≤ 2 ^ 63)
    (htarget : -2 ^ 63 ≤ target m ∧ target m + m.size ≤ 2 ^ 63) :
    translate message source target id (m :: ms) =
      if source m ≤ id ∧ id < source m + m.size then .ok (target m + (id - source m))
      else translate message source target id ms := by
  have hend : wrap (wrap (source m + m.size) - 1) = source m + m.size - 1 :=
    wrap_pred (by omega) hsource.2
  rw [translate, hend]
  by_cases hin : source m ≤ id ∧ id < source m + m.size
  · have hlast : id ≥ source m ∧ id ≤ source m + m.size - 1 := by omega
    rw [if_pos hin, if_pos hlast]
    have hdist : wrap (id - source m) = id - source m := wrap_eq (by omega) (by omega)
    rw [hdist, wrap_eq (by omega) (by omega)]
  · have hlast : ¬ (id ≥ source m ∧ id ≤ source m + m.size - 1) := by omega
    rw [if_neg hin, if_neg hlast]

/-! ### The relation -/

theorem maps_bounds {c₀ : Int} {c h : Int} (hpos : ∀ r ∈ rs, 0 < r.length)
    (hm : Maps c₀ rs c h) : (c₀ ≤ c ∧ c < c₀ + total rs) ∧ ∃ r ∈ rs, r.Has h := by
  induction rs generalizing c₀ with
  | nil => exact hm.elim
  | cons r rs ih =>
    have hr := hpos r mem_cons_self
    have hrs : ∀ x ∈ rs, 0 < x.length := fun x hx => hpos x (mem_cons_of_mem r hx)
    have hnonneg := total_nonneg hrs
    rw [total_cons]
    rcases hm with ⟨hhas, hoff⟩ | hm
    · have hlo := hhas.1
      have hhi := hhas.2
      exact ⟨by omega, r, mem_cons_self, hhas⟩
    · rcases ih hrs hm with ⟨hc, x, hx, hhas⟩
      exact ⟨by omega, x, mem_cons_of_mem r hx, hhas⟩

theorem maps_of_container (c₀ : Int) {c : Int} (hlo : c₀ ≤ c)
    (hhi : c < c₀ + total rs) : ∃ h, Maps c₀ rs c h := by
  induction rs generalizing c₀ with
  | nil =>
    simp only [total, map_nil, sum_nil, Int.add_zero] at hhi
    omega
  | cons r rs ih =>
    rw [total_cons] at hhi
    by_cases hr : c < c₀ + r.length
    · refine ⟨r.start + (c - c₀), .inl ⟨⟨?_, ?_⟩, ?_⟩⟩
      · omega
      · omega
      · omega
    · rcases ih (c₀ + r.length) (by omega) (by omega) with ⟨h, hm⟩
      exact ⟨h, .inr hm⟩

theorem maps_of_host (c₀ : Int) {h : Int} (hin : ∃ r ∈ rs, r.Has h) :
    ∃ c, Maps c₀ rs c h := by
  induction rs generalizing c₀ with
  | nil =>
    rcases hin with ⟨r, hr, _⟩
    nomatch hr
  | cons r rs ih =>
    rcases hin with ⟨x, hx, hhas⟩
    rcases mem_cons.mp hx with rfl | hx
    · exact ⟨c₀ + (h - x.start), .inl ⟨hhas, by omega⟩⟩
    · rcases ih (c₀ + r.length) ⟨x, hx, hhas⟩ with ⟨c, hm⟩
      exact ⟨c, .inr hm⟩

/-! ### The translations decide it -/

section Decide

variable {c₀ : Int} {rs : List SubIDRange}

/-- What is known about the ranges that are left. -/
structure Laid (c₀ : Int) (rs : List SubIDRange) : Prop where
  pos : ∀ r ∈ rs, 0 < r.length
  fits : ∀ r ∈ rs, r.Fits
  start : 0 ≤ c₀
  total : c₀ + total rs ≤ 2 ^ 63

theorem laid_tail {r : SubIDRange} (h : Laid c₀ (r :: rs)) : Laid (c₀ + r.length) rs := by
  have hr := h.pos r mem_cons_self
  have hstart := h.start
  have htotal := h.total
  rw [total_cons] at htotal
  exact ⟨fun x hx => h.pos x (mem_cons_of_mem r hx),
    fun x hx => h.fits x (mem_cons_of_mem r hx), by omega, by omega⟩

/-- The loop of `createIDMap` counts without an overflow as long as there is a
    range to come. -/
theorem idMapFrom_cons {r : SubIDRange} (h : Laid c₀ (r :: rs)) :
    idMapFrom c₀ (r :: rs) = ⟨c₀, r.start, r.length⟩ :: idMapFrom (c₀ + r.length) rs := by
  rcases rs with _ | ⟨x, xs⟩
  · rfl
  have hr := h.pos r mem_cons_self
  have hx := h.pos x (mem_cons_of_mem r mem_cons_self)
  have hxs := total_nonneg (fun y hy =>
    h.pos y (mem_cons_of_mem r (mem_cons_of_mem x hy)))
  have hstart := h.start
  have htotal := h.total
  rw [total_cons, total_cons] at htotal
  rw [idMapFrom, wrap_eq (by omega) (by omega)]

/-- The ends of the first entry are values of `int`. -/
theorem laid_ends {r : SubIDRange} (h : Laid c₀ (r :: rs)) :
    (-2 ^ 63 ≤ c₀ ∧ c₀ + r.length ≤ 2 ^ 63) ∧ -2 ^ 63 ≤ r.start ∧ r.start + r.length ≤ 2 ^ 63 := by
  have hrs := total_nonneg (forall_mem_cons.mp h.pos).2
  have hstart := h.start
  have htotal := h.total
  rw [total_cons] at htotal
  exact ⟨by omega, (h.fits r mem_cons_self).2⟩

theorem toHost_iff (message : Str) (h : Laid c₀ rs) (c x : Int) :
    translate message IDMap.containerID IDMap.hostID c (idMapFrom c₀ rs) = .ok x ↔
      Maps c₀ rs c x := by
  induction rs generalizing c₀ with
  | nil => simp [idMapFrom, translate, Maps]
  | cons r rs ih =>
    rcases laid_ends h with ⟨hcont, hhost⟩
    rw [idMapFrom_cons h, translate_cons message _ _ c _ _ (h.pos r mem_cons_self)
      (h.fits r mem_cons_self).1 hcont hhost]
    simp only []
    by_cases hin : c₀ ≤ c ∧ c < c₀ + r.length
    · rw [if_pos hin, Except.ok.injEq]
      constructor
      · intro hx
        refine .inl ⟨⟨?_, ?_⟩, ?_⟩
        · omega
        · omega
        · omega
      · rintro (⟨hhas, hoff⟩ | hm)
        · omega
        · -- The ranges after this one are further on.
          have hc := (maps_bounds (laid_tail h).pos hm).1
          omega
    · rw [if_neg hin, ih (laid_tail h)]
      constructor
      · exact .inr
      · rintro (⟨⟨hlo, hhi⟩, hoff⟩ | hm)
        · omega
        · exact hm

theorem toContainer_iff (message : Str) (h : Laid c₀ rs)
    (hdisj : rs.Pairwise (fun r r' => ∀ x, r.Has x → ¬ r'.Has x)) (x c : Int) :
    translate message IDMap.hostID IDMap.containerID x (idMapFrom c₀ rs) = .ok c ↔
      Maps c₀ rs c x := by
  induction rs generalizing c₀ with
  | nil => simp [idMapFrom, translate, Maps]
  | cons r rs ih =>
    rcases laid_ends h with ⟨hcont, hhost⟩
    rcases pairwise_cons.mp hdisj with ⟨hfirst, hrest⟩
    rw [idMapFrom_cons h, translate_cons message _ _ x _ _ (h.pos r mem_cons_self)
      (h.fits r mem_cons_self).1 hhost hcont]
    simp only []
    by_cases hin : r.start ≤ x ∧ x < r.start + r.length
    · rw [if_pos hin, Except.ok.injEq]
      constructor
      · intro hc
        exact .inl ⟨hin, by omega⟩
      rintro (⟨_, hoff⟩ | hm)
      · omega
      · -- No other range has the id.
        rcases (maps_bounds (laid_tail h).pos hm).2 with ⟨r', hr', hhas⟩
        exact absurd hhas (hfirst r' hr' x hin)
    · rw [if_neg hin, ih (laid_tail h) hrest]
      constructor
      · exact .inr
      · rintro (⟨hhas, _⟩ | hm)
        · exact absurd hhas hin
        · exact hm

end Decide

theorem error_of_not_ok {α : Type} {x : Except Str α} (h : ∀ a, x ≠ .ok a) : ∃ e, x = .error e := by
  cases x with
  | error e => exact ⟨e, rfl⟩
  | ok a => exact absurd rfl (h a)

/-- For ranges of positive length with disjoint host ids, in any order, the
    container ids up to the sum of the lengths and the host ids of the ranges
    are translated into each other, one to one, and no other id is
    translated. -/
theorem createIDMap_inverse (rs : List SubIDRange) (hpos : ∀ r ∈ rs, 0 < r.length)
    (hdisj : rs.Pairwise (fun r r' => ∀ x, r.Has x → ¬ r'.Has x))
    (hfits : ∀ r ∈ rs, r.Fits) (htotal : total rs ≤ 2 ^ 63) :
    (∀ c, 0 ≤ c → c < total rs → ∃ h, toHost c (some (createIDMap rs)) = .ok h ∧
      (∃ r ∈ rs, r.Has h) ∧ toContainer h (some (createIDMap rs)) = .ok c) ∧
    (∀ h, (∃ r ∈ rs, r.Has h) → ∃ c, toContainer h (some (createIDMap rs)) = .ok c ∧
      (0 ≤ c ∧ c < total rs) ∧ toHost c (some (createIDMap rs)) = .ok h) ∧
    (∀ c c' h, toHost c (some (createIDMap rs)) = .ok h →
      toHost c' (some (createIDMap rs)) = .ok h → c = c') ∧
    (∀ c, ¬ (0 ≤ c ∧ c < total rs) → ∃ e, toHost c (some (createIDMap rs)) = .error e) ∧
    ∀ h, ¬ (∃ r ∈ rs, r.Has h) → ∃ e, toContainer h (some (createIDMap rs)) = .error e := by
  -- The ranges are sorted first, which changes none of their conditions.
  have hperm := mergeSort_perm rs fun a b => decide (a.start ≤ b.start)
  unfold createIDMap
  generalize hsorted : rs.mergeSort (fun a b => decide (a.start ≤ b.start)) = sorted at hperm ⊢
  have hsum : total sorted = total rs := (hperm.map SubIDRange.length).sum_eq
  have hlaid : Laid 0 sorted := by
    refine ⟨fun r hr => hpos r (hperm.mem_iff.mp hr), fun r hr => hfits r (hperm.mem_iff.mp hr),
      Int.le_refl 0, ?_⟩
    rw [hsum, Int.zero_add]
    exact htotal
  have hapart : sorted.Pairwise (fun r r' => ∀ x, r.Has x → ¬ r'.Has x) :=
    (hperm.pairwise_iff fun hxy x hx hy => hxy x hy hx).mpr hdisj
  have hhas : ∀ h, (∃ r ∈ sorted, r.Has h) ↔ ∃ r ∈ rs, r.Has h := by
    intro h
    simp only [hperm.mem_iff]
  have hto : ∀ c h, toHost c (some (idMapFrom 0 sorted)) = .ok h ↔ Maps 0 sorted c h :=
    fun c h => toHost_iff _ hlaid c h
  have hfrom : ∀ h c, toContainer h (some (idMapFrom 0 sorted)) = .ok c ↔ Maps 0 sorted c h :=
    fun h c => toContainer_iff _ hlaid hapart h c
  have hbounds : ∀ {c h}, Maps 0 sorted c h → (0 ≤ c ∧ c < total rs) ∧ ∃ r ∈ rs, r.Has h := by
    intro c h hm
    rcases maps_bounds hlaid.pos hm with ⟨hc, hin⟩
    rw [hsum, Int.zero_add] at hc
    exact ⟨hc, (hhas h).mp hin⟩
  -- All five parts are about the one relation between container and host ids.
  refine ⟨?_, ?_, ?_, ?_, ?_⟩
  · intro c hlo hhi
    have hsum : c < 0 + total sorted := by omega
    rcases maps_of_container 0 hlo hsum with ⟨h, hm⟩
    exact ⟨h, (hto c h).mpr hm, (hbounds hm).2, (hfrom h c).mpr hm⟩
  · intro h hin
    rcases maps_of_host 0 ((hhas h).mpr hin) with ⟨c, hm⟩
    exact ⟨c, (hfrom h c).mpr hm, (hbounds hm).1, (hto c h).mpr hm⟩
  · intro c c' h hc hc'
    have hone := (hfrom h c).mpr ((hto c h).mp hc)
    rw [(hfrom h c').mpr ((hto c' h).mp hc'), Except.ok.injEq] at hone
    exact hone.symm
  · intro c hout
    exact error_of_not_ok fun h hok => hout (hbounds ((hto c h).mp hok)).1
  · intro h hout
    exact error_of_not_ok fun c hok => hout (hbounds ((hfrom h c).mp hok)).2

/-- Two ranges, the higher one first. -/
theorem createIDMap_inverse_two : (∃ h, toHost 3 (some (createIDMap [⟨200, 5⟩, ⟨100, 2⟩])) = .ok h ∧
      (∃ r ∈ [SubIDRange.mk 200 5, ⟨100, 2⟩], r.Has h) ∧
      toContainer h (some (createIDMap [⟨200, 5⟩, ⟨100, 2⟩])) = .ok 3) ∧
    total [⟨200, 5⟩, ⟨100, 2⟩] = 7 := by
  refine ⟨(createIDMap_inverse [⟨200, 5⟩, ⟨100, 2⟩] ?_ ?_ ?_ ?_).1 3 (by decide) (by decide),
    by decide⟩
  · decide
  · refine pairwise_pair.mpr (fun x hx hy => ?_)
    have h1 := hx.1
    have h2 := hy.2
    simp only [] at h1 h2
    omega
  · intro r hr
    simp only [mem_cons, not_mem_nil, or_false] at hr
    rcases hr with rfl | rfl
    · exact ⟨by decide, by decide, by decide⟩
    · exact ⟨by decide, by decide, by decide⟩
  · decide

end Dao.IDTools
