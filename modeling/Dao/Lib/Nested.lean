import Dao.Lib.AMap

/-!
# Maps of Maps

Finite maps whose values are finite maps, read and written at a pair of keys.

A program that keeps such a map creates the inner map at the first write to it
and may drop it again when its last entry goes. `find` does not see the
difference, so the two writes have the laws of a map over pairs, and `NoEmpty`
says that no emptied inner map was left behind.
-/

namespace Lib

open AList

/-- A finite map of finite maps. -/
abbrev Nested (α β γ : Type) : Type := AMap α (AMap β γ)

namespace Nested

variable {α β γ : Type} [DecidableEq α] [DecidableEq β]

/-- The value at a pair of keys. -/
def find (m : Nested α β γ) (a : α) (b : β) : Option γ :=
  (m.lookup a).bind fun inner => inner.lookup b

/-- Write at a pair of keys. The inner map is created when there is none. -/
def put (m : Nested α β γ) (a : α) (b : β) (c : γ) : Nested α β γ :=
  m.insert a (((m.lookup a).getD ∅).insert b c)

/-- Delete a pair of keys, and the inner map with it when that was its last
    entry. -/
def del (m : Nested α β γ) (a : α) (b : β) : Nested α β γ :=
  match m.lookup a with
  | none => m
  | some inner => if (inner.erase b).keys = [] then m.erase a else m.insert a (inner.erase b)

/-- No inner map is empty. -/
def NoEmpty (m : Nested α β γ) : Prop := ∀ a inner, m.lookup a = some inner → inner.keys ≠ []

omit [DecidableEq α] in
theorem lookup_eq_none_of_keys {m : AMap β γ} (h : m.keys = []) (b : β) : m.lookup b = none := by
  refine lookup_eq_none.mpr fun hb => ?_
  have hkeys := mem_keys.mp hb
  simp [h] at hkeys

theorem find_empty (a : α) (b : β) : find (∅ : Nested α β γ) a b = none := rfl

theorem find_put (m : Nested α β γ) (a a' : α) (b b' : β) (c : γ) :
    find (put m a b c) a' b' = if a' = a ∧ b' = b then some c else find m a' b' := by
  unfold find put
  by_cases ha : a' = a
  · rw [ha, lookup_insert, Option.bind_some]
    by_cases hb : b' = b
    · rw [hb, lookup_insert, if_pos ⟨rfl, rfl⟩]
    rw [lookup_insert_ne hb, if_neg (fun h => hb h.2)]
    cases m.lookup a with
    | none => rfl
    | some => rfl
  · rw [lookup_insert_ne ha, if_neg (fun h => ha h.1)]

theorem find_del (m : Nested α β γ) (a a' : α) (b b' : β) :
    find (del m a b) a' b' = if a' = a ∧ b' = b then none else find m a' b' := by
  unfold del
  rcases hin : m.lookup a with _ | inner
  · by_cases h : a' = a ∧ b' = b
    · rw [if_pos h, find, h.1, hin, Option.bind_none]
    · rw [if_neg h]
  simp only []
  have herase : ∀ b', (inner.erase b).lookup b' = if b' = b then none else inner.lookup b' := by
    intro b'
    by_cases hb : b' = b
    · rw [if_pos hb, hb, lookup_erase]
    · rw [if_neg hb, lookup_erase_ne hb]
  by_cases ha : a' = a
  · have hold : find m a' b' = inner.lookup b' := by rw [find, ha, hin, Option.bind_some]
    -- An inner map that gets empty is taken out, and holds nothing either way.
    have hnew : find (if (inner.erase b).keys = [] then m.erase a
        else m.insert a (inner.erase b)) a' b' = (inner.erase b).lookup b' := by
      split
      · next hkeys =>
        rw [lookup_eq_none_of_keys hkeys, find, ha, lookup_erase, Option.bind_none]
      · rw [find, ha, lookup_insert, Option.bind_some]
    rw [hnew, hold, herase]
    by_cases hb : b' = b
    · rw [if_pos hb, if_pos ⟨ha, hb⟩]
    · rw [if_neg hb, if_neg (fun h => hb h.2)]
  · have hne : ¬ (a' = a ∧ b' = b) := fun h => ha h.1
    split
    · rw [find, lookup_erase_ne ha, find]
    · rw [find, lookup_insert_ne ha, find]

omit [DecidableEq β] in
theorem noEmpty_empty : NoEmpty (∅ : Nested α β γ) := fun a inner h => by
  simp [lookup_empty] at h

theorem noEmpty_put {m : Nested α β γ} (h : NoEmpty m) (a : α) (b : β) (c : γ) :
    NoEmpty (put m a b c) := by
  intro a' inner hin
  rcases AMap.lookup_insert_cases hin with ⟨_, hold⟩ | ⟨_, rfl⟩
  · exact h a' inner hold
  · exact List.ne_nil_of_mem (mem_keys.mp (mem_insert _ |>.mpr (.inl rfl)))

theorem noEmpty_del {m : Nested α β γ} (h : NoEmpty m) (a : α) (b : β) : NoEmpty (del m a b) := by
  unfold del
  rcases hin : m.lookup a with _ | _
  · exact h
  simp only []
  split
  · exact fun a' inner' hin' => h a' inner' (AMap.lookup_erase_cases hin').2
  next hkeys =>
  intro a' inner' hin'
  rcases AMap.lookup_insert_cases hin' with ⟨_, hold⟩ | ⟨_, rfl⟩
  · exact h a' inner' hold
  · exact hkeys

end Nested

end Lib
