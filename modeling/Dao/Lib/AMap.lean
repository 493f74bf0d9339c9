import Mathlib

/-!
# Counting in Finite Maps

Finite maps with values of one type, as Mathlib's `AList`, and how many of
their values satisfy a predicate.

A reference count is a claim about a number of entries, so every update of a
map has to say how that number moves. `count_insert` is the one law: an
insertion adds its own value and takes away the value it overwrites, and
`valueAt` names that overwritten value as zero or one so that both cases are
one equation. The fresh insertion and the erasure are its two special cases.
-/

namespace Lib

open List

/-- A finite map from keys to values of one type. -/
abbrev AMap (α : Type) (β : Type) : Type := AList (fun _ : α => β)

namespace AMap

variable {α β : Type} [DecidableEq α]

/-- How many values of the map satisfy the predicate. -/
def count (p : β → Bool) (m : AMap α β) : Nat :=
  m.entries.countP fun e => p e.2

/-- Whether the value at the key satisfies the predicate, as a number. -/
def valueAt (p : β → Bool) (a : α) (m : AMap α β) : Nat :=
  match m.lookup a with
  | some b => if p b then 1 else 0
  | none => 0

theorem mem_entries_iff (m : AMap α β) (a : α) (b : β) :
    (⟨a, b⟩ : Sigma fun _ : α => β) ∈ m.entries ↔ m.lookup a = some b := by
  rw [← AList.mem_lookup_iff, Option.mem_def]

theorem lookup_insert_eq_ite (m : AMap α β) (a i : α) (b : β) :
    (m.insert a b).lookup i = if i = a then some b else m.lookup i := by
  split_ifs with h
  · rw [h, AList.lookup_insert]
  · rw [AList.lookup_insert_ne h]

theorem lookup_erase_eq_ite (m : AMap α β) (a i : α) :
    (m.erase a).lookup i = if i = a then none else m.lookup i := by
  split_ifs with h
  · rw [h, AList.lookup_erase]
  · rw [AList.lookup_erase_ne h]

theorem lookup_insert_cases {m : AMap α β} {a i : α} {b x : β}
    (h : (m.insert a b).lookup i = some x) :
    (i ≠ a ∧ m.lookup i = some x) ∨ (i = a ∧ x = b) := by
  rw [lookup_insert_eq_ite] at h
  split_ifs at h with hia
  · exact .inr ⟨hia, (Option.some.inj h).symm⟩
  · exact .inl ⟨hia, h⟩

theorem lookup_insert_or {m : AMap α β} {a i : α} {b x : β}
    (h : (m.insert a b).lookup i = some x) : (i = a ∧ x = b) ∨ m.lookup i = some x :=
  (lookup_insert_cases h).symm.imp_right And.right

theorem lookup_erase_cases {m : AMap α β} {a i : α} {x : β} (h : (m.erase a).lookup i = some x) :
    i ≠ a ∧ m.lookup i = some x := by
  rw [lookup_erase_eq_ite] at h
  split_ifs at h with hia
  exact ⟨hia, h⟩

theorem exists_lookup_insert (m : AMap α β) (a i : α) (b : β) :
    (∃ x, (m.insert a b).lookup i = some x) ↔ i = a ∨ ∃ x, m.lookup i = some x := by
  constructor
  · rintro ⟨x, hx⟩
    rcases lookup_insert_cases hx with ⟨_, hold⟩ | ⟨hia, _⟩
    · exact .inr ⟨x, hold⟩
    · exact .inl hia
  · intro h
    by_cases hia : i = a
    · rw [hia]
      exact ⟨b, AList.lookup_insert _⟩
    · rw [AList.lookup_insert_ne hia]
      exact h.resolve_left hia

theorem count_insert_fresh (p : β → Bool) (m : AMap α β) (a : α) (b : β) (h : m.lookup a = none) :
    count p (m.insert a b) = count p m + if p b then 1 else 0 := by
  have ha : a ∉ m := AList.lookup_eq_none.mp h
  rw [count, AList.entries_insert_of_notMem ha, countP_cons, count]

/-- Erasing a key and inserting the value it held gives the same entries back
    in another order, which is what lets an erasure be counted as an
    insertion read backwards. -/
theorem count_erase (p : β → Bool) (m : AMap α β) (a : α) (b : β) (h : m.lookup a = some b) :
    count p m = count p (m.erase a) + if p b then 1 else 0 := by
  have hmem : (⟨a, b⟩ : Sigma fun _ : α => β) ∈ m.entries := (mem_entries_iff m a b).mpr h
  rcases mem_iff_append.mp hmem with ⟨l1, l2, hl⟩
  have hnd : (l1 ++ ⟨a, b⟩ :: l2).NodupKeys := by
    rw [← hl]
    exact m.nodupKeys
  -- The key occurs once, so the erasure stops at the entry found above.
  have hnot : a ∉ l1.keys := by
    intro hin
    have hk : (l1.keys ++ a :: l2.keys).Nodup := by
      simpa only [NodupKeys, keys, map_append, map_cons] using hnd
    exact (nodup_append.mp hk).2.2 a hin a (by simp) rfl
  have herase : (m.erase a).entries = l1 ++ l2 := by
    change kerase a m.entries = l1 ++ l2
    have hhead : kerase a ((⟨a, b⟩ : Sigma fun _ : α => β) :: l2) = l2 :=
      kerase_cons_eq rfl
    rw [hl, kerase_append_right hnot, hhead]
  rw [count, count, herase, hl, countP_append, countP_append, countP_cons]
  ring

theorem count_insert (p : β → Bool) (m : AMap α β) (a : α) (b : β) :
    count p (m.insert a b) + valueAt p a m = count p m + if p b then 1 else 0 := by
  rcases h : m.lookup a with _ | c
  · rw [count_insert_fresh p m a b h, valueAt, h]
    ring
  have hins : count p (m.insert a b) = count p (m.erase a) + if p b then 1 else 0 := by
    rw [count, AList.entries_insert, countP_cons]
    rfl
  rw [hins, valueAt, h, count_erase p m a c h]
  ring

theorem count_eq_zero (p : β → Bool) (m : AMap α β) :
    count p m = 0 ↔ ∀ a b, m.lookup a = some b → p b = false := by
  rw [count, countP_eq_zero]
  constructor
  · intro h a b hab
    have := h ⟨a, b⟩ ((mem_entries_iff m a b).mpr hab)
    simpa only [Bool.not_eq_true] using this
  · intro h e he
    have := h e.1 e.2 ((mem_entries_iff m e.1 e.2).mp he)
    simpa only [Bool.not_eq_true] using this

theorem countP_lookup (p : β → Bool) (m : AMap α β) (ks : List α) (hnd : ks.Nodup)
    (hks : ∀ a b, m.lookup a = some b → a ∈ ks) :
    ks.countP (fun a => (m.lookup a).any p) = count p m := by
  have hkeys : m.keys.countP (fun a => (m.lookup a).any p) = count p m := by
    rw [AList.keys, keys, countP_map, count]
    refine countP_congr fun e he => ?_
    rw [Function.comp_apply, (mem_entries_iff m e.1 e.2).mp he, Option.any_some]
  -- The keys that count are the same on both sides, and neither repeats one.
  have hperm : (ks.filter fun a => (m.lookup a).any p).Perm
      (m.keys.filter fun a => (m.lookup a).any p) := by
    refine (perm_ext_iff_of_nodup (hnd.filter _) (m.keys_nodup.filter _)).mpr fun a => ?_
    rw [mem_filter, mem_filter]
    refine and_congr_left fun ha => ?_
    cases hb : m.lookup a with
    | none => simp [hb] at ha
    | some b =>
      have hsome : (m.lookup a).isSome = true := by rw [hb, Option.isSome_some]
      exact ⟨fun _ => AList.mem_keys.mpr (AList.lookup_isSome.mp hsome), fun _ => hks a b hb⟩
  rw [← hkeys, countP_eq_length_filter, countP_eq_length_filter, hperm.length_eq]

end AMap

end Lib
