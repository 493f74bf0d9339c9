import Dao.Core.Daemon.Stats

/-!
# System CPU usage is exact while the product fits

The sum of the counters is multiplied in 64 bits before it is divided by the
ticks, so the result can be wrong although it fits.

## Theorems

* `addTicks_ok`, `usageLoop_ok`: A result is the sum modulo 2^64, times 10^9
  modulo 2^64, over the ticks.
* `usageLoop_eq`: There is a result if the product fits, and it is exact.
* `wrapped_lt`: A product that wraps gives less than the true value.
* `getSystemCPUUsage_exact`: The result is exact just if the product fits.
-/

namespace Dao.Stats

/-- The seven counters of the first cpu line. -/
def cpuCounters : List Str → Option (List Nat)
  | [] => none
  | line :: lines =>
    match fields line with
    | [] => cpuCounters lines
    | name :: parts =>
      if name = "cpu".toList then
        if parts.length < 7 then none else (parts.take 7).mapM parseDigits
      else cpuCounters lines

/-- The counters that the loop comes to. There are none if the line is not ended
    or comes after a blank one. -/
def shown : List Str → Option (List Nat)
  | [] => none
  | line :: lines =>
    match fields line with
    | [] => none
    | name :: parts =>
      if name = "cpu".toList then
        if parts.length < 7 then none else (parts.take 7).mapM parseDigits
      else shown lines

/-- The true value. -/
def nanoseconds (ticks : UInt64) (counters : List Nat) : Nat :=
  counters.sum * 10 ^ 9 / ticks.toNat

theorem addTicks_eq {parts : List Str} {counters : List Nat} (total : UInt64)
    (h : parts.mapM parseDigits = some counters) (hfits : total.toNat + counters.sum < 2 ^ 64) :
    ∃ t, addTicks total parts = .ok t ∧ t.toNat = total.toNat + counters.sum := by
  induction parts generalizing total counters with
  | nil =>
    cases h
    exact ⟨total, rfl, rfl⟩
  | cons i parts ih =>
    simp only [List.mapM_cons, Option.bind_eq_bind, Option.bind_eq_some_iff] at h
    obtain ⟨n, hn, rest, hrest, h⟩ := h
    cases h
    rw [List.sum_cons] at hfits ⊢
    have hparse : parseUint i = some (.ofNat n) := by
      simp only [parseUint, hn, Option.bind_some]
      exact if_pos (by omega)
    -- No addition wraps, since the whole sum fits.
    have hadd : (total + .ofNat n).toNat = total.toNat + n := by
      rw [UInt64.toNat_add, UInt64.toNat_ofNat_of_lt' (show n < 2 ^ 64 by omega)]
      omega
    simp only [addTicks, hparse]
    rw [← Nat.add_assoc, ← hadd] at hfits ⊢
    exact ih _ hrest hfits

theorem usageLoop_eq {ticks : UInt64} (hticks : 0 < ticks) {lines : List Str}
    {counters : List Nat} (h : shown lines = some counters)
    (hfits : counters.sum * 10 ^ 9 < 2 ^ 64) :
    ∃ r, usageLoop ticks lines = .ok r ∧ r.toNat = nanoseconds ticks counters := by
  induction lines with
  | nil => nomatch h
  | cons line lines ih =>
    unfold shown at h
    unfold usageLoop
    cases hline : fields line with
    | nil => simp [hline] at h
    | cons name parts =>
      simp only [hline] at h ⊢
      -- The first line named `cpu` decides.
      by_cases hname : name = "cpu".toList
      · by_cases hlen : parts.length < 7
        · simp [hname, hlen] at h
        · rw [if_pos hname, if_neg hlen] at h ⊢
          obtain ⟨t, ht, hsum⟩ := addTicks_eq 0 h (by rw [UInt64.toNat_zero]; omega)
          refine ⟨t * 1000000000 / ticks, ?_, ?_⟩
          · rw [ht]
            exact if_neg (UInt64.ne_of_lt hticks).symm
          · rw [UInt64.toNat_div, UInt64.toNat_mul, hsum, UInt64.toNat_zero, Nat.zero_add]
            exact congrArg (· / _) (Nat.mod_eq_of_lt hfits)
      · rw [if_neg hname] at h ⊢
        exact ih h

theorem addTicks_ok {parts : List Str} {total t : UInt64} (h : addTicks total parts = .ok t) :
    ∃ counters, parts.mapM parseDigits = some counters ∧
      t.toNat = (total.toNat + counters.sum) % 2 ^ 64 := by
  induction parts generalizing total with
  | nil =>
    cases h
    exact ⟨[], rfl, (Nat.mod_eq_of_lt (UInt64.toNat_lt _)).symm⟩
  | cons i parts ih =>
    unfold addTicks at h
    cases hparse : parseUint i with
    | none => simp [hparse] at h
    | some v =>
      simp only [hparse] at h
      obtain ⟨counters, hcounters, ht⟩ := ih h
      obtain ⟨n, hn, hv⟩ := Option.bind_eq_some_iff.mp hparse
      split at hv
      · cases hv
        refine ⟨n :: counters, by simp [hn, hcounters], ?_⟩
        rw [ht, UInt64.toNat_add, UInt64.toNat_ofNat_of_lt' ‹_›, List.sum_cons]
        omega
      · nomatch hv

theorem usageLoop_ok {ticks r : UInt64} {lines : List Str} (h : usageLoop ticks lines = .ok r) :
    ∃ counters, shown lines = some counters ∧
      r.toNat = counters.sum * 10 ^ 9 % 2 ^ 64 / ticks.toNat := by
  induction lines with
  | nil => nomatch h
  | cons line lines ih =>
    unfold usageLoop at h
    unfold shown
    cases hline : fields line with
    | nil => simp [hline] at h
    | cons name parts =>
      simp only [hline] at h ⊢
      by_cases hname : name = "cpu".toList
      · by_cases hlen : parts.length < 7
        · simp [hname, hlen] at h
        · rw [if_pos hname, if_neg hlen] at h ⊢
          cases hadd : addTicks 0 (parts.take 7) with
          | error e => simp [hadd, Except.bind] at h
          | ok t =>
            obtain ⟨counters, hcounters, ht⟩ := addTicks_ok hadd
            refine ⟨counters, hcounters, ?_⟩
            simp only [hadd, Except.bind] at h
            -- A sum that wraps is shown as its remainder, before the division.
            split at h
            · nomatch h
            · cases h
              rw [UInt64.toNat_div, UInt64.toNat_mul, ht, UInt64.toNat_zero, Nat.zero_add]
              exact congrArg (· / _) (Nat.mod_mul_mod counters.sum (10 ^ 9) (2 ^ 64))
      · rw [if_neg hname] at h ⊢
        exact ih h

theorem cpuCounters_of_shown {lines more : List Str} {counters : List Nat}
    (h : shown lines = some counters) : cpuCounters (lines ++ more) = some counters := by
  induction lines with
  | nil => nomatch h
  | cons line lines ih =>
    unfold shown at h
    rw [List.cons_append]
    unfold cpuCounters
    cases hline : fields line with
    | nil => simp [hline] at h
    | cons name parts =>
      simp only [hline] at h ⊢
      by_cases hname : name = "cpu".toList
      · rw [if_pos hname] at h ⊢
        exact h
      · rw [if_neg hname] at h ⊢
        exact ih h

/-- A product that wraps loses at least 2^64, which is more than the ticks. -/
theorem wrapped_lt {ticks : UInt64} (hticks : 0 < ticks) {n : Nat} (h : 2 ^ 64 ≤ n) :
    n % 2 ^ 64 / ticks.toNat < n / ticks.toNat := by
  have hpos : 0 < ticks.toNat := UInt64.lt_iff_toNat_lt.mp hticks
  have hlt := ticks.toNat_lt
  have hmod : n % 2 ^ 64 + ticks.toNat ≤ n := by omega
  calc n % 2 ^ 64 / ticks.toNat
      < n % 2 ^ 64 / ticks.toNat + 1 := Nat.lt_succ_self _
    _ = (n % 2 ^ 64 + ticks.toNat) / ticks.toNat := (Nat.add_div_right _ hpos).symm
    _ ≤ n / ticks.toNat := Nat.div_le_div_right hmod

/-- If the true value fits it is the result. -/
def Exact (ticks : UInt64) (content : Str) (counters : List Nat) : Prop :=
  nanoseconds ticks counters < 2 ^ 64 →
    ∃ r, getSystemCPUUsage ticks content = .ok r ∧ r.toNat = nanoseconds ticks counters

/-- The loop comes to the counters, and the product fits. -/
def Fits (content : Str) (counters : List Nat) : Prop :=
  shown (readLines content) = some counters ∧ counters.sum * 10 ^ 9 < 2 ^ 64

/-- The result is exact if the product fits, and otherwise only if the true value
    does not fit itself. While the counters grow it does not decrease. -/
theorem getSystemCPUUsage_exact (ticks : UInt64) (hticks : 0 < ticks) (content : Str)
    (counters : List Nat) (h : cpuCounters (content.splitOn '\n') = some counters) :
    (Exact ticks content counters ↔
      Fits content counters ∨ 2 ^ 64 ≤ nanoseconds ticks counters) ∧
    ∀ later grown, Fits content counters → Fits later grown →
      List.Forall₂ (· ≤ ·) counters grown → ∃ r r', getSystemCPUUsage ticks content = .ok r ∧
        getSystemCPUUsage ticks later = .ok r' ∧ r ≤ r' := by
  constructor
  · constructor
    · intro hexact
      by_cases hvalue : nanoseconds ticks counters < 2 ^ 64
      · left
        obtain ⟨r, hr, hresult⟩ := hexact hvalue
        obtain ⟨found, hfound, hwrapped⟩ := usageLoop_ok hr
        -- The counters that were found are those of the file.
        have hlines : content.splitOn '\n' = readLines content ++
            [(content.splitOn '\n').getLast (List.splitOn_ne_nil _ _)] :=
          (List.dropLast_append_getLast _).symm
        rw [hlines, cpuCounters_of_shown hfound] at h
        cases h
        refine ⟨hfound, Nat.lt_of_not_le fun hwraps => ?_⟩
        exact (wrapped_lt hticks hwraps).ne (hwrapped.symm.trans hresult)
      · exact .inr (Nat.le_of_not_lt hvalue)
    · rintro (hfits | hvalue) hlt
      · exact usageLoop_eq hticks hfits.1 hfits.2
      · exact absurd hlt (Nat.not_lt.mpr hvalue)
  · intro later grown hfits hfits' hgrown
    obtain ⟨r, hr, hexact⟩ := usageLoop_eq hticks hfits.1 hfits.2
    obtain ⟨r', hr', hexact'⟩ := usageLoop_eq hticks hfits'.1 hfits'.2
    refine ⟨r, r', hr, hr', UInt64.le_iff_toNat_le.mpr ?_⟩
    have hsum : counters.sum ≤ grown.sum := by
      clear * - hgrown
      induction hgrown with
      | nil => exact Nat.le_refl _
      | cons hle _ ih =>
        rw [List.sum_cons, List.sum_cons]
        omega
    rw [hexact, hexact']
    exact Nat.div_le_div_right (Nat.mul_le_mul_right _ hsum)

/-- A file whose first counter is the number. -/
def statFile (n : String) : Str := ("cpu " ++ n ++ " 0 0 0 0 0 0\n").toList

/-- Two readings, of which the second is later. -/
theorem getSystemCPUUsage_exact_250 : Exact 100 (statFile "250") [250, 0, 0, 0, 0, 0, 0] ∧
    ∃ r r', getSystemCPUUsage 100 (statFile "250") = .ok r ∧
      getSystemCPUUsage 100 (statFile "300") = .ok r' ∧ r ≤ r' := by
  have hfits : Fits (statFile "250") [250, 0, 0, 0, 0, 0, 0] := ⟨by decide, by decide⟩
  obtain ⟨hexact, hgrown⟩ := getSystemCPUUsage_exact 100 (by decide) (statFile "250")
    [250, 0, 0, 0, 0, 0, 0] (by decide)
  exact ⟨hexact.mpr (.inl hfits), hgrown (statFile "300") [300, 0, 0, 0, 0, 0, 0] hfits
    ⟨by decide, by decide⟩ (by decide)⟩

/-- The product wraps although the true value fits. -/
theorem getSystemCPUUsage_wraps :
    shown (readLines (statFile "18446744074")) = some [18446744074, 0, 0, 0, 0, 0, 0] ∧
      nanoseconds 100 [18446744074, 0, 0, 0, 0, 0, 0] = 184467440740000000 ∧
      getSystemCPUUsage 100 (statFile "18446744074") = .ok 2904483 := by
  refine ⟨?_, ?_, ?_⟩ <;> decide

end Dao.Stats
