import Mathlib

/-!
# Bitmaps

A set of numbers as one bit for each, eight to a byte. A bit is set with `or`
and cleared with `and`, through a mask for its place in the byte, so what has
to be shown is that two numbers with one byte and one mask are the same number.
-/

namespace Lib

open Function

/-- The bytes of a bitmap. -/
abbrev Bitmap : Type := Nat → BitVec 8

namespace Bitmap

/-- The bitmap without a bit set. -/
def empty : Bitmap := fun _ => 0

/-- The bit of a number within its byte. -/
def mask (n : Nat) : BitVec 8 := BitVec.twoPow 8 (n % 8)

def test (m : Bitmap) (n : Nat) : Bool := (m (n / 8) &&& mask n) != 0

def set (m : Bitmap) (n : Nat) : Bitmap := Function.update m (n / 8) (m (n / 8) ||| mask n)

def clear (m : Bitmap) (n : Nat) : Bitmap := Function.update m (n / 8) (m (n / 8) &&& ~~~ mask n)

theorem test_eq (m : Bitmap) (n : Nat) : m.test n = (m (n / 8)).getLsbD (n % 8) := by
  have hlt : n % 8 < 8 := Nat.mod_lt n (by decide)
  have hmask : mask n ≠ 0 := by
    intro h
    have hbit := @BitVec.getLsbD_twoPow 8 (n % 8) (n % 8)
    rw [show BitVec.twoPow 8 (n % 8) = 0 from h] at hbit
    simp [hlt] at hbit
  rw [test, mask, BitVec.and_twoPow]
  cases (m (n / 8)).getLsbD (n % 8) with
  | true => exact bne_iff_ne.mpr hmask
  | false => rfl

theorem place_eq {n k : Nat} (h : k / 8 = n / 8) : n % 8 = k % 8 ↔ k = n := by
  omega

theorem test_set (m : Bitmap) (n k : Nat) : (m.set n).test k = (decide (k = n) || m.test k) := by
  have hn : n % 8 < 8 := Nat.mod_lt n (by decide)
  rw [test_eq, test_eq, set]
  by_cases hbyte : k / 8 = n / 8
  · rw [hbyte, update_self, BitVec.getLsbD_or, mask, BitVec.getLsbD_twoPow, Bool.or_comm]
    simp [hn, place_eq hbyte]
  · have hne : k ≠ n := fun h => hbyte (by rw [h])
    rw [update_of_ne hbyte, decide_eq_false hne, Bool.false_or]

theorem test_clear (m : Bitmap) (n k : Nat) :
    (m.clear n).test k = (!decide (k = n) && m.test k) := by
  have hlt : k % 8 < 8 := Nat.mod_lt k (by decide)
  have hn : n % 8 < 8 := Nat.mod_lt n (by decide)
  rw [test_eq, test_eq, clear]
  by_cases hbyte : k / 8 = n / 8
  · rw [hbyte, update_self, BitVec.getLsbD_and, BitVec.getLsbD_not, mask,
      BitVec.getLsbD_twoPow, Bool.and_comm]
    simp [hn, hlt, place_eq hbyte]
  · have hne : k ≠ n := fun h => hbyte (by rw [h])
    rw [update_of_ne hbyte, decide_eq_false hne, Bool.not_false, Bool.true_and]

end Bitmap

end Lib
