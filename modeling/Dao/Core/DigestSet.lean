import Dao.Core.Digest
import Dao.Lib.FileTree

/-!
# Sets of Digests

The `Set` of the vendored `digest` package: a slice of entries kept in the
order of their hex digits, with the places found by `sort.Search`.

Both changes of a set look at one entry only. `Add` leaves the slice alone or
puts its digest at the place the search found, and `Remove` takes out the
entry at that place if it is the digest in question. So nothing about the
order of the slice is needed to see that an addition loses no digest and that
a removal loses no other one.
-/

namespace Dao.Digest

open Lib

/-- The loop of `sort.Search`. Each round shortens the range, so that its
    length is enough fuel. -/
def searchLoop (f : Nat → Bool) : Nat → Nat → Nat → Nat
  | 0, i, _ => i
  | fuel + 1, i, j =>
    if i < j then
      let h := i + (j - i) / 2
      if f h then searchLoop f fuel i h else searchLoop f fuel (h + 1) j
    else i

def search (n : Nat) (f : Nat → Bool) : Nat := searchLoop f n 0 n

structure DigestEntry where
  alg : Str
  val : Str
  digest : Digest
  deriving DecidableEq

/-- `Set`. -/
structure DigestSet where
  entries : List DigestEntry
  deriving DecidableEq

namespace DigestSet

/-- `NewSet`. -/
def empty : DigestSet := ⟨[]⟩

/-- The comparison that `Add` and `Remove` search with. -/
def atLeast (alg val : Str) (e : DigestEntry) : Bool :=
  if e.val = val then FileTree.nameLe alg e.alg else FileTree.nameLe val e.val

/-- The place of a digest among the entries. -/
def place (dst : DigestSet) (alg val : Str) : Nat :=
  search dst.entries.length (fun i => (dst.entries[i]?).any (atLeast alg val))

/-- The two halves of a digest that has passed `Validate`. -/
def halves (d : Digest) : Except DigestError (Str × Str) :=
  match validate d with
  | .error e => .error e
  | .ok _ =>
    match cut ':' d with
    | none => .error .invalidFormat
    | some p => .ok p

def add (dst : DigestSet) (d : Digest) : Except DigestError DigestSet :=
  match halves d with
  | .error e => .error e
  | .ok (alg, val) =>
    let idx := dst.place alg val
    -- No entry at the place is the place behind the last one.
    match dst.entries[idx]? with
    | none => .ok ⟨dst.entries ++ [⟨alg, val, d⟩]⟩
    | some e =>
      if e.digest = d then .ok dst
      else .ok ⟨dst.entries.take idx ++ ⟨alg, val, d⟩ :: dst.entries.drop idx⟩

def remove (dst : DigestSet) (d : Digest) : Except DigestError DigestSet :=
  match halves d with
  | .error e => .error e
  | .ok (alg, val) =>
    let idx := dst.place alg val
    match dst.entries[idx]? with
    | none => .ok dst
    | some e => if e.digest = d then .ok ⟨dst.entries.eraseIdx idx⟩ else .ok dst

/-- The digest has an entry. -/
def mem (dst : DigestSet) (d : Digest) : Prop := ∃ e ∈ dst.entries, e.digest = d

instance (dst : DigestSet) (d : Digest) : Decidable (dst.mem d) :=
  inferInstanceAs (Decidable (∃ e ∈ dst.entries, e.digest = d))

theorem halves_of_validate {d : Digest} (h : validate d = .ok ()) : ∃ p, halves d = .ok p := by
  have hcut : cut ':' d ≠ none := by
    intro hnone
    unfold validate at h
    rw [hnone] at h
    split at h <;> exact nomatch h
  cases hp : cut ':' d with
  | none => exact absurd hp hcut
  | some p => exact ⟨p, by rw [halves, h, hp]⟩

theorem add_cases {dst dst' : DigestSet} {d : Digest} (h : dst.add d = .ok dst') :
    (dst' = dst ∧ dst.mem d) ∨ ∃ e idx, e.digest = d ∧
      dst'.entries = dst.entries.take idx ++ e :: dst.entries.drop idx := by
  unfold add at h
  cases hp : halves d with
  | error e =>
    simp [hp] at h
  | ok p =>
    rcases p with ⟨alg, val⟩
    rw [hp] at h
    simp only at h
    cases hidx : dst.entries[dst.place alg val]? with
    | none =>
      rw [hidx] at h
      cases h
      refine .inr ⟨⟨alg, val, d⟩, dst.entries.length, rfl, ?_⟩
      rw [List.take_length, List.drop_length]
    | some e =>
      rw [hidx] at h
      simp only at h
      -- An entry at the place is the digest itself, or the new one goes before it.
      by_cases hed : e.digest = d
      · rw [if_pos hed] at h
        cases h
        exact .inl ⟨rfl, e, List.mem_of_getElem? hidx, hed⟩
      · rw [if_neg hed] at h
        cases h
        exact .inr ⟨⟨alg, val, d⟩, dst.place alg val, rfl, rfl⟩

theorem mem_add_iff {dst dst' : DigestSet} {d : Digest} (h : dst.add d = .ok dst') (x : Digest) :
    dst'.mem x ↔ x = d ∨ dst.mem x := by
  rcases add_cases h with ⟨hdst, hd⟩ | ⟨e, idx, hed, hentries⟩
  · rw [hdst]
    refine ⟨.inr, fun hx => ?_⟩
    rcases hx with hx | hx
    · rw [hx]
      exact hd
    · exact hx
  · have hsplit : ∀ f : DigestEntry, f ∈ dst'.entries ↔ f = e ∨ f ∈ dst.entries := by
      intro f
      rw [hentries, List.mem_append, List.mem_cons, ← or_assoc, or_comm (a := f ∈ _), or_assoc,
        ← List.mem_append, List.take_append_drop]
    unfold mem
    simp only [hsplit, or_and_right, exists_or, exists_eq_left, hed]
    rw [eq_comm]

theorem add_of_validate (dst : DigestSet) {d : Digest} (h : validate d = .ok ()) :
    ∃ dst', dst.add d = .ok dst' := by
  rcases halves_of_validate h with ⟨p, hp⟩
  unfold add
  rw [hp]
  simp only
  split
  · exact ⟨_, rfl⟩
  · split
    · exact ⟨_, rfl⟩
    · exact ⟨_, rfl⟩

theorem mem_remove {dst dst' : DigestSet} {d x : Digest} (h : dst.remove d = .ok dst')
    (hx : dst.mem x) (hne : x ≠ d) : dst'.mem x := by
  unfold remove at h
  cases hp : halves d with
  | error e =>
    simp [hp] at h
  | ok p =>
    rcases p with ⟨alg, val⟩
    rw [hp] at h
    simp only at h
    cases hidx : dst.entries[dst.place alg val]? with
    | none =>
      rw [hidx] at h
      cases h
      exact hx
    | some e =>
      rw [hidx] at h
      simp only at h
      by_cases hed : e.digest = d
      · rw [if_pos hed, Except.ok.injEq] at h
        rcases hx with ⟨f, hf, hfx⟩
        have hfe : f ≠ e := by
          intro hc
          rw [hc, hed] at hfx
          exact hne hfx.symm
        -- The entry of `x` is not the one at the place that is emptied.
        rcases List.getElem?_of_mem hf with ⟨i, hi⟩
        refine ⟨f, ?_, hfx⟩
        rw [← h]
        refine List.mem_eraseIdx_iff_getElem?.mpr ⟨i, fun hc => ?_, hi⟩
        rw [hc, hidx] at hi
        cases hi
        exact hfe rfl
      · rw [if_neg hed] at h
        cases h
        exact hx

end DigestSet

end Dao.Digest
