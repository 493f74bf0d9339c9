import Dao.Core.Pkg.MultiReader
import Dao.Lib.Run

/-!
# Reading the Concatenation

When a `MultiReadSeeker` behaves like one file with the contents of its readers
one after the other, and when it does not.

The position of a `multiReadSeeker` is an index and an offset, and besides it
each reader has a position of its own. `Placed` says how the three fit: the
reader with the index stands at the offset, the readers after it at their
beginning, and the sizes of those before it and the offset add up to a position
in the file. A seek from the start and a read keep this. A seek from the current
position does not, since it moves no reader; a read into a slice with a capacity
beyond its length takes bytes that it does not return; and a seek out of range is
not refused.

## Theorems

* `seek_refines`: A seek that moves the readers.
* `read_refines`: A read.
* `run_refines`: The runs like those of a file.
* `run_not_file`: One that is not.
-/

namespace Dao.MultiReader

open Lib Nat List

/-- The abstract reader: one content and a position. -/
structure File where
  content : Bytes
  pos : Nat
  deriving DecidableEq

/-- The position a seek designates. -/
def File.target (offset : Int) (whence : Whence) (f : File) : Int :=
  match whence with
  | .set => offset
  | .cur => f.pos + offset
  | .end_ => f.content.length + offset

def File.InRange (offset : Int) (whence : Whence) (f : File) : Prop :=
  0 ≤ f.target offset whence ∧ f.target offset whence ≤ f.content.length

instance (offset : Int) (whence : Whence) (f : File) : Decidable (f.InRange offset whence) :=
  inferInstanceAs (Decidable (_ ∧ _))

/-- The file after a call with this result, if a file can answer so. A read may
    return less than it was asked for, but nothing only at the end. -/
def File.accept (op : Op) (r : Res) (f : File) : Option File :=
  match op, r with
  | .seek offset whence, .at_ n =>
    if f.InRange offset whence ∧ n = f.target offset whence then some { f with pos := n.toNat }
    else none
  | .seek offset whence, .failed _ => if f.InRange offset whence then none else some f
  | .read len _, .data bs eof =>
    if bs.length ≤ len ∧ bs = (f.content.drop f.pos).take bs.length ∧
        (eof = true ↔ bs = [] ∧ 0 < len) ∧ (eof = true → f.content.length ≤ f.pos) then
      some { f with pos := f.pos + bs.length }
    else none
  | _, _ => none

/-- Every call of the list is answered as a file answers it. -/
def File.accepts : List Op → List Res → File → Bool
  | [], [], _ => true
  | op :: ops, r :: rs, f =>
    match f.accept op r with
    | none => false
    | some f' => f'.accepts ops rs
  | _, _, _ => false

/-! ### Positions -/

/-- The contents one after the other. -/
def joined (rs : List Reader) : Bytes := rs.flatMap Reader.content

/-- The reader with the index stands at the offset, the readers after it stand at
    their beginning, and this is the position in the file. -/
def Placed : Nat → Nat → List Reader → Nat → Prop
  | _, _, [], _ => False
  | 0, off, r :: rest, p => r.pos = off ∧ off ≤ r.content.length ∧ (∀ x ∈ rest, x.pos = 0) ∧ p = off
  | k + 1, off, r :: rest, p => ∃ p', p = r.content.length + p' ∧ Placed k off rest p'

theorem total_cons (r : Reader) (rs : List Reader) :
    total (r :: rs) = r.content.length + total rs := by
  simp [total, getReadSeekerSize]

theorem joined_cons (r : Reader) (rs : List Reader) : joined (r :: rs) = r.content ++ joined rs :=
  flatMap_cons

theorem total_joined (rs : List Reader) : total rs = (joined rs).length := by
  induction rs with
  | nil => rfl
  | cons r rs ih =>
    rw [total_cons, ih, joined_cons, length_append]
    rfl

variable {k off p : Nat} {rs : List Reader} {offset : Int} {s : ReadSeeker} {f : File} {m : Multi}

theorem placed_offset (h : Placed k off rs p) : getCurOffset rs ⟨k, off⟩ = p := by
  induction k generalizing rs p with
  | zero =>
    match rs, h with
    | r :: rest, h =>
      rw [h.2.2.2, getCurOffset, take_zero]
      exact Int.zero_add _
  | succ k ih =>
    match rs, h with
    | r :: rest, h =>
      rcases h with ⟨p', rfl, hrest⟩
      have hoff := ih hrest
      rw [getCurOffset] at hoff ⊢
      rw [take_succ_cons, total_cons, Int.add_assoc, hoff]
      rfl

/-- The same readers, standing elsewhere. -/
def SameContents (rs rs' : List Reader) : Prop := rs'.map Reader.content = rs.map Reader.content

theorem sameContents_joined {rs rs' : List Reader} (h : SameContents rs rs') :
    joined rs' = joined rs := by
  rw [joined, joined, flatMap_def, flatMap_def, h]

/-! ### Seeking -/

theorem seek_end (r : Reader) :
    r.seek 0 .end_ = (.ok r.content.length, { r with pos := r.content.length }) := by
  have hnot : ¬((r.content.length : Int) < 0) := by omega
  simp only [Reader.seek, Int.add_zero, if_neg hnot, Int.toNat_natCast]

theorem seek_set (r : Reader) {n : Int} (h : 0 ≤ n) :
    r.seek n .set = (.ok n, { r with pos := n.toNat }) := by
  have hnot : ¬n < 0 := by omega
  simp only [Reader.seek, Int.zero_add, if_neg hnot]

theorem seekSet_placed (i : Nat) (tmp : Int) (hne : rs ≠ []) (hlow : tmp ≤ offset)
    (hhigh : offset ≤ tmp + total rs) :
    ∃ k off : Nat, (seekSet offset i tmp rs).result = .ok offset ∧
      (seekSet offset i tmp rs).pos = some ⟨i + k, off⟩ ∧
      SameContents rs (seekSet offset i tmp rs).readers ∧
      Placed k off (seekSet offset i tmp rs).readers (offset - tmp).toNat := by
  induction rs generalizing i tmp with
  | nil => exact absurd rfl hne
  | cons r rest ih =>
    rw [total_cons] at hhigh
    simp only [seekSet, seek_end]
    by_cases hbeyond : offset > tmp + r.content.length
    · rw [if_pos hbeyond]
      have hrest : rest ≠ [] := by
        rintro rfl
        simp only [total, map_nil, sum_nil] at hhigh
        omega
      rw [if_neg hrest]
      rcases ih (i + 1) (tmp + r.content.length) hrest (by omega) (by omega) with
        ⟨k, off, hres, hpos, hsame, hplaced⟩
      refine ⟨k + 1, off, hres, ?_, ?_, (offset - (tmp + r.content.length)).toNat, ?_, hplaced⟩
      · rw [hpos, Nat.add_assoc, Nat.add_comm 1 k]
      · rw [SameContents, map_cons, map_cons, hsame]
      · simp only []
        omega
    · rw [if_neg hbeyond]
      have hsame : SameContents (r :: rest)
          ((Reader.seek (offset - tmp) .set { r with pos := r.content.length }).2 ::
            rest.map fun x => (x.seek 0 .set).2) := by
        rw [seek_set _ (by omega), SameContents, map_cons, map_cons, map_map]
        rfl
      have hzero : ∀ x ∈ rest.map fun x => (x.seek 0 .set).2, x.pos = 0 := by
        intro x hx
        rcases mem_map.mp hx with ⟨y, _, rfl⟩
        rfl
      by_cases hend : offset - tmp = r.content.length ∧ rest ≠ []
      · -- The position is the beginning of the next reader.
        rw [if_pos hend]
        refine ⟨1, 0, rfl, rfl, hsame, ?_⟩
        match rest, hend.2, hzero with
        | x :: more, _, hzero =>
          rw [seek_set _ (by omega)]
          refine ⟨0, ?_, hzero _ mem_cons_self, zero_le _,
            fun y hy => hzero y (mem_cons_of_mem _ hy), rfl⟩
          simp only []
          omega
      · rw [if_neg hend]
        refine ⟨0, (offset - tmp).toNat, rfl, ?_, hsame, ?_⟩
        · rw [Int.toNat_of_nonneg (by omega)]
          rfl
        rw [seek_set _ (by omega)]
        refine ⟨rfl, ?_, hzero, rfl⟩
        simp only []
        omega

/-! ### Reading -/

theorem readLoop_first {r : Reader} {rest : List Reader} (n : Nat)
    (h : Placed 0 off (r :: rest) off) :
    ∃ data rs k off', readLoop n (r :: rest) = (data, rs, k) ∧
      data = ((joined (r :: rest)).drop off).take n ∧ SameContents (r :: rest) rs ∧
      Placed k off' rs (off + data.length) := by
  induction rest generalizing r off n with
  | nil =>
    rcases h with ⟨hpos, hle, _, _⟩
    refine ⟨(r.content.drop off).take n, [{ r with pos := off + _ }], 0, _, ?_, ?_, rfl, rfl, ?_,
      nofun, rfl⟩
    · simp [readLoop, Reader.read, hpos]
    · rw [joined, flatMap_cons, flatMap_nil, append_nil]
    · rw [length_take, length_drop]
      simp only []
      omega
  | cons x rest ih =>
    rcases h with ⟨hpos, hle, hzero, _⟩
    have hdrop : (joined (r :: x :: rest)).drop off = r.content.drop off ++ joined (x :: rest) := by
      rw [joined_cons, drop_append_of_le_length hle]
    by_cases hfull : n - ((r.content.drop off).take n).length = 0
    · -- This reader has enough.
      refine ⟨(r.content.drop off).take n, { r with pos := off + _ } :: x :: rest, 0, _, ?_, ?_,
        rfl, rfl, ?_, hzero, rfl⟩
      · simp only [readLoop, Reader.read, hpos, hfull, true_or, if_true]
      · rw [hdrop, take_append_of_le_length]
        rw [length_take] at hfull
        omega
      · rw [length_take, length_drop]
        simp only []
        omega
    · have hall : (r.content.drop off).take n = r.content.drop off := by
        rw [length_take] at hfull
        exact take_of_length_le (by omega)
      have hplaced : Placed 0 0 (x :: rest) 0 :=
        ⟨hzero x mem_cons_self, zero_le _,
          fun y hy => hzero y (mem_cons_of_mem x hy), rfl⟩
      rcases ih (n - (r.content.drop off).length) hplaced with
        ⟨data, rs, k, off', hloop, hdata, hsame, hend⟩
      rw [hall] at hfull
      refine ⟨r.content.drop off ++ data, { r with pos := off + (r.content.drop off).length } :: rs,
        k + 1, off', ?_, ?_, ?_, 0 + data.length, ?_, hend⟩
      · rw [readLoop]
        simp only [Reader.read, hpos, hall, hfull, hloop, reduceCtorEq, or_self, if_false]
      · rw [hdrop, take_append, take_of_length_le (by omega), hdata, drop_zero]
      · rw [SameContents, map_cons, hsame]
        rfl
      · rw [length_append, length_drop]
        simp only []
        omega

theorem readLoop_placed (n : Nat) (h : Placed k off rs p) :
    ∃ data rs' j off', readLoop n (rs.drop k) = (data, rs', j) ∧ rs.drop k ≠ [] ∧
      data = ((joined rs).drop p).take n ∧ SameContents rs (rs.take k ++ rs') ∧
      Placed (k + j) off' (rs.take k ++ rs') (p + data.length) := by
  induction k generalizing rs p with
  | zero =>
    match rs, h with
    | r :: rest, h =>
      have hp : p = off := h.2.2.2
      rcases readLoop_first n (hp ▸ h) with ⟨data, rs', j, off', hloop, hdata, hsame, hplaced⟩
      refine ⟨data, rs', j, off', hloop, cons_ne_nil _ _, ?_, hsame, ?_⟩
      · rw [hdata, hp]
      · rw [Nat.zero_add, hp]
        exact hplaced
  | succ k ih =>
    match rs, h with
    | r :: rest, h =>
      rcases h with ⟨p', rfl, hrest⟩
      rcases ih hrest with ⟨data, rs', j, off', hloop, hne, hdata, hsame, hplaced⟩
      refine ⟨data, rs', j, off', hloop, hne, ?_, ?_, ?_⟩
      · rw [hdata, joined_cons, ← drop_drop, drop_left' rfl]
      · rw [SameContents, take_succ_cons, cons_append, map_cons, hsame, map_cons]
      · rw [take_succ_cons, cons_append, Nat.add_right_comm k 1 j]
        exact ⟨p' + data.length, by omega, hplaced⟩

theorem placed_reader (h : Placed k off rs p) : ∃ r, rs[k]? = some r ∧ r.pos = off := by
  induction k generalizing rs p with
  | zero =>
    match rs, h with
    | r :: rest, h => exact ⟨r, rfl, h.1⟩
  | succ k ih =>
    match rs, h with
    | r :: rest, h =>
      rcases h with ⟨p', _, hrest⟩
      exact ih hrest

/-! ### Runs -/

/-- The file that the readers are, with the position that `getCurOffset`
    computes. -/
def ReadSeeker.file : ReadSeeker → File
  | .single r => ⟨r.content, r.pos⟩
  | .multi m => ⟨joined m.readers, match m.pos with
      | none => 0
      | some p => (getCurOffset m.readers p).toNat⟩

/-- A seek from the current position that leaves the readers where they are. -/
def ReadSeeker.Stays (offset : Int) (whence : Whence) : ReadSeeker → Prop
  | .single _ => False
  | .multi m => whence = .cur ∧ offset ≠ 0 ∧ m.pos.isSome = true

/-- The calls that are answered as a file answers them. A slice is as long as its
    capacity, or what is left fits into it. -/
def Sound (s : ReadSeeker) : Op → Prop
  | .seek offset whence => s.file.InRange offset whence ∧ ¬s.Stays offset whence
  | .read len cap => len = cap ∨ len ≤ cap ∧ s.file.content.length - s.file.pos ≤ len

instance (offset : Int) (whence : Whence) (s : ReadSeeker) : Decidable (s.Stays offset whence) :=
  match s with
  | .single _ => isFalse id
  | .multi _ => inferInstanceAs (Decidable (_ ∧ _))

instance (s : ReadSeeker) (op : Op) : Decidable (Sound s op) :=
  match op with
  | .seek _ _ => inferInstanceAs (Decidable (_ ∧ _))
  | .read _ _ => inferInstanceAs (Decidable (_ ∨ _))

/-- The readers stand at the position of the file. -/
def Simulates : ReadSeeker → File → Prop
  | .single r, f => f = ⟨r.content, r.pos⟩ ∧ r.pos ≤ r.content.length
  | .multi m, f => f.content = joined m.readers ∧
      ∃ k off : Nat, Placed k off m.readers f.pos ∧
        (m.pos = some ⟨k, off⟩ ∨ m.pos = none ∧ k = 0 ∧ off = 0)

theorem simulates_file (h : Simulates s f) : s.file = f := by
  rcases s with r | m
  · exact h.1.symm
  rcases f with ⟨content, pos⟩
  rcases h with ⟨hcontent, k, off, hplaced, hpos | ⟨hpos, rfl, rfl⟩⟩
  · simp only [ReadSeeker.file, hpos, placed_offset hplaced, Int.toNat_natCast, File.mk.injEq]
    exact ⟨hcontent.symm, trivial⟩
  · have hzero := placed_offset hplaced
    simp only [ReadSeeker.file, hpos, File.mk.injEq]
    exact ⟨hcontent.symm, Int.ofNat.inj hzero⟩

theorem placed_ne_nil (h : Placed k off rs p) : rs ≠ [] := by
  rintro rfl
  cases k with
  | zero => exact h
  | succ k => exact h

/-- A seek from the start, on readers with the contents. -/
theorem sought_simulates (hcontent : f.content = joined rs) (hne : rs ≠ []) (hlow : 0 ≤ offset)
    (hhigh : offset ≤ f.content.length) :
    (seekSet offset 0 0 rs).result = .ok offset ∧
      Simulates (.multi (m.sought (seekSet offset 0 0 rs))) { f with pos := offset.toNat } := by
  have htotal : offset ≤ 0 + total rs := by
    rw [total_joined, ← hcontent]
    omega
  rcases seekSet_placed 0 0 hne hlow htotal with ⟨k, off, hres, hpos, hsame, hplaced⟩
  rw [Int.sub_zero] at hplaced
  refine ⟨hres, ?_, k, off, hplaced, .inl ?_⟩
  · simp only [Multi.sought]
    rw [sameContents_joined hsame]
    exact hcontent
  · simp [Multi.sought, hpos]

theorem seek_refines {whence : Whence} (h : Simulates (.multi m) f)
    (hrange : f.InRange offset whence) (hmoves : ¬(ReadSeeker.multi m).Stays offset whence) :
    ∃ m', m.seek offset whence = .ok (.ok (f.target offset whence), m') ∧
      Simulates (.multi m') { f with pos := (f.target offset whence).toNat } := by
  rcases h with ⟨hcontent, k, off, hplaced, hpos⟩
  have hne := placed_ne_nil hplaced
  rcases hrange with ⟨hlow, hhigh⟩
  cases whence with
  | set =>
    rcases sought_simulates (m := m) hcontent hne hlow hhigh with ⟨hres, hsim⟩
    refine ⟨_, ?_, hsim⟩
    simp only [Multi.seek, File.target] at hres ⊢
    rw [hres]
  | end_ =>
    -- The sizes are asked for with seeks, which move the readers only.
    have hsame : SameContents m.readers (m.readers.map fun r => (r.seek 0 .end_).2) := by
      rw [SameContents, map_map]
      exact map_congr_left fun r _ => by rw [Function.comp_apply, seek_end]
    rcases sought_simulates (m := m) (hcontent.trans (sameContents_joined hsame).symm)
      (fun heq => hne (map_eq_nil_iff.mp heq)) hlow hhigh with ⟨_, hsim⟩
    refine ⟨_, ?_, hsim⟩
    simp only [Multi.seek, File.target, total_joined, hcontent]
  | cur =>
    rcases hpos with hpos | ⟨hpos, rfl, rfl⟩
    · -- Only the question for the position is left.
      have hzero : offset = 0 := by
        by_contra hoffset
        exact hmoves ⟨rfl, hoffset, by rw [hpos]; rfl⟩
      rw [hzero]
      refine ⟨m, ?_, hcontent, k, off, ?_, .inl hpos⟩
      · simp only [Multi.seek, hpos, placed_offset hplaced, if_true, File.target, Int.add_zero]
      · simp only [File.target, Int.add_zero, Int.toNat_natCast]
        exact hplaced
    · have hstart : f.pos = 0 := by
        have hfile := placed_offset hplaced
        exact (Int.ofNat.inj hfile).symm
      have htarget : f.target offset .cur = offset := by
        simp only [File.target, hstart]
        omega
      rw [htarget] at hlow hhigh ⊢
      rcases sought_simulates (m := m) hcontent hne hlow hhigh with ⟨hres, hsim⟩
      refine ⟨_, ?_, hsim⟩
      simp only [Multi.seek, hpos]
      rw [hres]

theorem read_refines {len cap : Nat} (h : Simulates (.multi m) f)
    (hsound : len = cap ∨ len ≤ cap ∧ f.content.length - f.pos ≤ len) :
    ∃ m' data, m.read len cap = .ok ((data, decide (data = [] ∧ 0 < len)), m') ∧
      data = (f.content.drop f.pos).take len ∧
      Simulates (.multi m') { f with pos := f.pos + data.length } := by
  rcases h with ⟨hcontent, k, off, hplaced, hpos⟩
  have hidx : (m.pos.getD ⟨0, 0⟩).idx = k := by
    rcases hpos with hpos | ⟨hpos, rfl, _⟩
    · rw [hpos]
      rfl
    · rw [hpos]
      rfl
  rcases readLoop_placed cap hplaced with ⟨data, rs, j, off', hloop, hne, hdata, hsame, hend⟩
  rcases placed_reader hend with ⟨r, hr, hroff⟩
  -- Nothing is read that is not returned.
  have htake : data.take len = data := by
    refine take_of_length_le ?_
    rw [hdata, length_take, length_drop, ← hcontent]
    omega
  have hdata' : data = (f.content.drop f.pos).take len := by
    rw [← htake, hdata, take_take, hcontent]
    rcases hsound with rfl | ⟨hle, _⟩
    · rw [Nat.min_self]
    · rw [Nat.min_eq_left hle]
  refine ⟨⟨m.readers.take k ++ rs, some ⟨k + j, off'⟩⟩, data, ?_, hdata', ?_, k + j, off', hend,
    .inl rfl⟩
  · cases hdrop : m.readers.drop k with
    | nil => exact absurd hdrop hne
    | cons =>
      rw [hdrop] at hloop
      simp [Multi.read, hidx, hdrop, hloop, htake, hr, hroff]
  · rw [sameContents_joined hsame]
    exact hcontent

theorem reader_seek {r : Reader} {whence : Whence}
    (h : (⟨r.content, r.pos⟩ : File).InRange offset whence) :
    r.seek offset whence = (.ok ((⟨r.content, r.pos⟩ : File).target offset whence),
      { r with pos := ((⟨r.content, r.pos⟩ : File).target offset whence).toNat }) := by
  have hlow := h.1
  cases whence with
  | set => exact seek_set r hlow
  | cur | end_ => exact if_neg (Int.not_lt.mpr hlow)

theorem step_refines {op : Op} (h : Simulates s f) (hsound : Sound s op) :
    ∃ r s' f', step op s = .ok (r, s') ∧ f.accept op r = some f' ∧ Simulates s' f' := by
  have hfile := simulates_file h
  cases op with
  | seek offset whence =>
    rcases hsound with ⟨hrange, hmoves⟩
    rw [hfile] at hrange
    have haccept : f.accept (.seek offset whence) (.at_ (f.target offset whence)) =
        some { f with pos := (f.target offset whence).toNat } := if_pos ⟨hrange, rfl⟩
    cases s with
    | single r =>
      rcases h with ⟨rfl, hle⟩
      refine ⟨_, .single ⟨r.content, ((⟨r.content, r.pos⟩ : File).target offset whence).toNat⟩, _,
        ?_, haccept, rfl, ?_⟩
      · simp [step, reader_seek hrange, Res.ofSeek]
      · have hhigh := hrange.2
        simp only [] at hhigh ⊢
        omega
    | multi m =>
      rcases seek_refines h hrange hmoves with ⟨m', hseek, hsim⟩
      refine ⟨_, _, _, ?_, haccept, hsim⟩
      simp [step, hseek, Res.ofSeek]
  | read len cap =>
    -- A file may answer with fewer bytes, but only at its end with none.
    have haccept : ∀ data : Bytes, data = (f.content.drop f.pos).take len →
        f.accept (.read len cap) (.data data (decide (data = [] ∧ 0 < len))) =
          some { f with pos := f.pos + data.length } := by
      intro data hdata
      have hlen : data.length = min len (f.content.length - f.pos) := by
        rw [hdata, length_take, length_drop]
      refine if_pos ⟨by omega, ?_, by rw [decide_eq_true_eq], ?_⟩
      · rw [hdata]
        exact prefix_iff_eq_take.mp (List.take_prefix _ _)
      intro heof
      rcases of_decide_eq_true heof with ⟨hnil, hpos⟩
      rw [hnil, length_nil] at hlen
      omega
    cases s with
    | single r =>
      rcases h with ⟨rfl, hle⟩
      refine ⟨_, _, _, rfl, haccept _ rfl, rfl, ?_⟩
      simp only [Reader.read, length_take, length_drop]
      omega
    | multi m =>
      change len = cap ∨ _ at hsound
      rw [hfile] at hsound
      rcases read_refines h hsound with ⟨m', data, hread, hdata, hsim⟩
      refine ⟨_, _, _, ?_, haccept data hdata, hsim⟩
      simp [step, hread]

/-- A list of sound calls is answered as the file answers it, and none of them
    panics. -/
theorem run_accepts {ops : List Op} (h : Simulates s f) (hmeets : Meets step Sound ops s) :
    ∃ rs t, run step ops s = .ok (rs, t) ∧ f.accepts ops rs = true := by
  induction ops generalizing s f with
  | nil => exact ⟨[], s, rfl, rfl⟩
  | cons op ops ih =>
    rcases step_refines h hmeets.1 with ⟨r, s', f', hstep, haccept, hsim⟩
    rcases ih hsim (hmeets.2 r s' hstep) with ⟨rs, t, hrun, haccepts⟩
    refine ⟨r :: rs, t, ?_, ?_⟩
    · simp [run, hstep, hrun]
    · simp [File.accepts, haccept, haccepts]

theorem simulates_new {contents : List Bytes} (hne : contents ≠ []) :
    Simulates (multiReadSeeker contents) ⟨contents.flatten, 0⟩ := by
  match contents, hne with
  | [content], _ =>
    refine ⟨?_, zero_le _⟩
    simp
  | a :: b :: contents, _ =>
    refine ⟨?_, 0, 0, ⟨rfl, zero_le _, ?_, rfl⟩, .inr ⟨rfl, rfl, rfl⟩⟩
    · simp only [joined, flatMap_def, map_map]
      rw [show (Reader.content ∘ fun content => (⟨content, 0⟩ : Reader)) = id from rfl, map_id]
    · intro x hx
      rcases mem_map.mp hx with ⟨c, _, rfl⟩
      rfl

/-- In every run in which each seek is within the data, none but the first call
    seeks from the current position by more than nothing, and each slice is as
    long as its capacity or takes all that is left, every call is answered as by
    one file with the contents. -/
theorem run_refines (contents : List Bytes) (hne : contents ≠ []) (ops : List Op)
    (hmeets : Meets step Sound ops (multiReadSeeker contents)) :
    ∃ rs t, run step ops (multiReadSeeker contents) = .ok (rs, t) ∧
      File.accepts ops rs ⟨contents.flatten, 0⟩ = true :=
  run_accepts (simulates_new hne) hmeets

/-- A seek to the end of the first reader, a question and two reads. -/
theorem run_refines_two : ∃ rs t, run step [.seek 2 .set, .seek 0 .cur, .read 1 1, .read 5 8]
        (multiReadSeeker [[1, 2], [3, 4]]) = .ok (rs, t) ∧
      File.accepts [.seek 2 .set, .seek 0 .cur, .read 1 1, .read 5 8] rs ⟨[1, 2, 3, 4], 0⟩ = true :=
  run_refines [[1, 2], [3, 4]] (by decide) _ (by decide)

/-- The results of a run that does not panic. -/
def results (ops : List Op) (s : ReadSeeker) : Option (List Res) :=
  match run step ops s with
  | .ok (rs, _) => some rs
  | .error _ => none

/-- Four runs that no file answers so. A seek from the current position returns
    the right position and moves no reader. A read takes as much as the capacity
    and returns as much as the length. Seeks beyond the end and before the
    beginning are not refused. -/
theorem run_not_file :
    results [.seek 1 .set, .seek 2 .cur, .read 1 1] (multiReadSeeker [[1, 2], [3, 4]]) =
      some [.at_ 1, .at_ 3, .data [2] false] ∧
    results [.read 1 3, .read 1 1] (multiReadSeeker [[1, 2], [3, 4]]) =
      some [.data [1] false, .data [4] false] ∧
    results [.seek 5 .set] (multiReadSeeker [[1, 2], [3, 4]]) = some [.at_ 5] ∧
    results [.seek (-1) .set] (multiReadSeeker [[1, 2], [3, 4]]) = some [.at_ (-1)] ∧
    File.accepts [.seek 1 .set, .seek 2 .cur, .read 1 1] [.at_ 1, .at_ 3, .data [2] false]
      ⟨[1, 2, 3, 4], 0⟩ = false ∧
    File.accepts [.read 1 3, .read 1 1] [.data [1] false, .data [4] false] ⟨[1, 2, 3, 4], 0⟩ =
      false ∧
    File.accepts [.seek 5 .set] [.at_ 5] ⟨[1, 2, 3, 4], 0⟩ = false ∧
    File.accepts [.seek (-1) .set] [.at_ (-1)] ⟨[1, 2, 3, 4], 0⟩ = false := by
  decide

end Dao.MultiReader
