import Mathlib

/-!
# Texts Behind Keys

A list of keys and values written one after the other without anything between them.

What is written can be taken apart again if every value ends where the next key begins
for the first time. This is `Clear`, and it depends on the value and the next key only.
Lists of the same keys with clear values are then written differently if they differ.
-/

namespace Lib

open List

namespace Tagged

variable {α : Type}

/-- The key does not begin inside the value when it is written behind it. -/
def Clear (v k : List α) : Prop := ∀ i, i < v.length → ¬k <+: (v ++ k).drop i

/-- The shorter of two clear values is not the beginning of the longer one. -/
theorem Clear.not_lt {v v' k x x' : List α} (hv' : Clear v' k)
    (h : v ++ (k ++ x) = v' ++ (k ++ x')) :
    ¬v.length < v'.length := by
  intro hlt
  refine hv' v.length hlt ?_
  have hdrop : k ++ x = (v' ++ (k ++ x')).drop v.length := by
    rw [← h, drop_left]
  have hlen : v.length ≤ (v' ++ k).length := by
    rw [length_append]
    omega
  rw [← append_assoc, drop_append_of_le_length hlen] at hdrop
  have hfit : k.length ≤ ((v' ++ k).drop v.length).length := by
    rw [length_drop, length_append]
    omega
  exact prefix_of_prefix_length_le (prefix_append k x) (hdrop ▸ prefix_append _ x') hfit

/-- The keys and values in a row. -/
def write (l : List (List α × List α)) : List α := l.flatMap (fun f => f.1 ++ f.2)

/-- Every value is clear of the key that follows. -/
def Chained (l : List (List α × List α)) : Prop := l.IsChain (fun f g => Clear f.2 g.1)

variable {l l' : List (List α × List α)}

end Tagged

end Lib
