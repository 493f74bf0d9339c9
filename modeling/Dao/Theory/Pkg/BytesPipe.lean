import Dao.Core.Pkg.BytesPipe
import Dao.Lib.Run

/-!
# The Pipe is a Queue

Over every interleaving of calls, a `BytesPipe` hands out the bytes it accepted
in the order in which it accepted them, and holds no more than the threshold and
one buffer.

The bytes that have not been read are those between the cursors of the buffers,
one buffer after the other. A critical section of `Write` adds at the end of them
what it accepts, and one of `Read` takes off at the beginning what it returns.
The bound rests on the last buffer alone: a buffer is only appended while less
than the threshold is unread, and from then on only this buffer is written to.

## Theorems

* `writeLoop_spec`, `writeWoken_spec`, `readLoop_spec`: What the loops do.
* `step_cases`: What a critical section can be.
* `step_does`, `step_accounts`: What it does to the unread bytes, and what a `Write`
  returns.
* `run_fifo`: The pipe is a queue in every interleaving.
-/

namespace Dao.BytesPipe

open Lib FixedBuffer List

/-! ### Buffers -/

/-- The bytes between the cursors. -/
def FixedBuffer.unread (b : FixedBuffer) : Bytes := (b.buf.take b.pos).drop b.lastRead

theorem unread_length (b : FixedBuffer) : b.unread.length = b.len := by
  have hle := b.pos_le
  rw [unread, length_drop, length_take, len]
  omega

theorem unread_put (b : FixedBuffer) (p : Bytes) :
    (b.put p).unread = b.unread ++ p.take (b.room p) := by
  have hlen : (b.buf.take b.pos).length = b.pos := by
    rw [length_take]
    exact Nat.min_eq_left b.pos_le
  have hfront : (b.buf.take b.pos ++ p.take (b.room p)).length = b.pos + b.room p := by
    have hroom : b.room p ≤ p.length := Nat.min_le_left _ _
    rw [length_append, hlen, length_take, Nat.min_eq_left hroom]
  change (take (b.pos + b.room p) (b.buf.take b.pos ++ p.take (b.room p) ++
    b.buf.drop (b.pos + b.room p))).drop b.lastRead = _
  rw [take_left' hfront, drop_append_of_le_length (by rw [hlen]; exact b.lastRead_le)]
  rfl

theorem cap_put (b : FixedBuffer) (p : Bytes) : (b.put p).cap = b.cap := by
  have hroom := b.room_le p
  have hle : b.room p ≤ p.length := Nat.min_le_left _ _
  simp only [put, cap, length_append, length_take, length_drop]
  omega

theorem read_data (b : FixedBuffer) (n : Nat) : (b.read n).1 = b.unread.take n := rfl

theorem read_rest (b : FixedBuffer) (n : Nat) : (b.read n).2.unread = b.unread.drop n := by
  change (b.buf.take b.pos).drop (b.lastRead + min n b.len) = _
  have hdrop : b.unread.drop (min n b.len) = b.unread.drop n := by
    rw [← unread_length]
    rcases Nat.le_total n b.unread.length with hle | hle
    · rw [Nat.min_eq_left hle]
    · rw [Nat.min_eq_right hle, drop_length, drop_of_length_le hle]
  rw [← drop_drop, ← hdrop]
  rfl

theorem unread_getBuffer (size : Nat) (old : Option Bytes) : (getBuffer size old).unread = [] := rfl

theorem cap_getBuffer (size : Nat) (old : Option Bytes) : (getBuffer size old).cap = size := by
  simp only [getBuffer, cap, length_take, length_append, length_replicate]
  omega

/-! ### The pipe -/

/-- The bytes that have not been read. -/
def Pipe.unread (pipe : Pipe) : Bytes := pipe.buf.flatMap FixedBuffer.unread

/-- The length is that of the unread bytes, all but the last buffer hold less than
    the threshold of them, and no buffer is larger than the largest. -/
structure Pipe.OK (pipe : Pipe) : Prop where
  bufLen : pipe.bufLen = pipe.unread.length
  front : (pipe.buf.dropLast.flatMap FixedBuffer.unread).length < blockThreshold
  caps : ∀ b ∈ pipe.buf, 0 < b.cap ∧ b.cap ≤ maxCap

theorem unread_append (front : List FixedBuffer) (b : FixedBuffer) (n : Int) (e : Option Err) :
    Pipe.unread ⟨front ++ [b], n, e⟩ = front.flatMap unread ++ b.unread := by
  simp [Pipe.unread]

/-- The unread bytes never reach the threshold and the largest capacity. -/
theorem bufLen_lt {pipe : Pipe} (h : pipe.OK) : pipe.bufLen < blockThreshold + maxCap := by
  rw [h.bufLen]
  rcases eq_nil_or_concat pipe.buf with hnil | ⟨front, b, hbuf⟩
  · rw [Pipe.unread, hnil]
    decide
  have hfront := h.front
  have hmem : b ∈ pipe.buf := by
    rw [hbuf, concat_eq_append]
    exact mem_append_right _ mem_cons_self
  have hcap := h.caps b hmem
  have hlen := unread_length b
  have hpos := b.pos_le
  rw [hbuf, concat_eq_append, dropLast_concat] at hfront
  rw [Pipe.unread, hbuf, concat_eq_append, flatMap_append, flatMap_cons,
    flatMap_nil, append_nil, length_append]
  simp only [len, cap] at hlen hcap
  omega

/-- The buffer that is written to: those before it, and it is new or the last. -/
theorem last_spec {pipe : Pipe} (h : pipe.OK) (gets : List (Option Bytes)) :
    pipe.unread = (pipe.last gets).1.flatMap unread ++ (pipe.last gets).2.1.unread ∧
      ((pipe.last gets).1.flatMap unread).length < blockThreshold ∧
      ∀ b, b ∈ (pipe.last gets).1 ∨ b = (pipe.last gets).2.1 → 0 < b.cap ∧ b.cap ≤ maxCap := by
  unfold Pipe.last
  rcases eq_nil_or_concat pipe.buf with hnil | ⟨front, b, hbuf⟩
  · simp only [hnil, getLast?_nil, Pipe.unread, flatMap_nil, nil_append]
    refine ⟨(unread_getBuffer _ _).symm, by decide, ?_⟩
    rintro b (hb | rfl)
    · nomatch hb
    · rw [cap_getBuffer]
      decide
  · rw [concat_eq_append] at hbuf
    have hfront := h.front
    have hcaps := h.caps
    rw [hbuf] at hfront hcaps
    simp only [hbuf, getLast?_concat, dropLast_concat] at hfront ⊢
    refine ⟨?_, hfront, ?_⟩
    · rw [Pipe.unread, hbuf, flatMap_append, flatMap_cons, flatMap_nil, append_nil]
    · rintro b' (hb | rfl)
      · exact hcaps b' (mem_append_left _ hb)
      · exact hcaps b' (mem_append_right _ mem_cons_self)

/-! ### Writing -/

/-- What a critical section of `Write` does. The bytes it accepts come first among
    those it was to write. -/
structure Writes (pipe : Pipe) (p : Bytes) (written : Nat) (w : Wrote) (accepted : Bytes)
    (pipe' : Pipe) : Prop where
  ok : pipe'.OK
  unread : pipe'.unread = pipe.unread ++ accepted
  returned : ∀ n e wake, w = .returned n e wake → n = written + accepted.length ∧ accepted <+: p
  blocked : ∀ p' n bcap, w = .blocked p' n bcap →
    p = accepted ++ p' ∧ n = written + accepted.length ∧ 0 < bcap

/-- The pipe after a write into the last buffer. -/
def Pipe.put (pipe : Pipe) (gets : List (Option Bytes)) (p : Bytes) : Pipe :=
  { pipe with
    buf := (pipe.last gets).1 ++ [(pipe.last gets).2.1.put p]
    bufLen := pipe.bufLen + (pipe.last gets).2.1.room p }

theorem put_ok {pipe : Pipe} (h : pipe.OK) (gets : List (Option Bytes)) (p : Bytes) :
    (pipe.put gets p).OK ∧
      (pipe.put gets p).unread = pipe.unread ++ p.take ((pipe.last gets).2.1.room p) := by
  rcases last_spec h gets with ⟨hunread, hfront, hcaps⟩
  have hroom : (pipe.last gets).2.1.room p ≤ p.length := Nat.min_le_left _ _
  have hnew : (pipe.put gets p).unread = pipe.unread ++ p.take ((pipe.last gets).2.1.room p) := by
    rw [Pipe.put, unread_append, unread_put, hunread, append_assoc]
  refine ⟨⟨?_, ?_, ?_⟩, hnew⟩
  · rw [hnew, length_append, length_take, Nat.min_eq_left hroom]
    change pipe.bufLen + _ = _
    rw [h.bufLen]
    rfl
  · rw [Pipe.put, dropLast_concat]
    exact hfront
  · intro x hx
    rcases mem_append.mp hx with hx | hx
    · exact hcaps x (.inl hx)
    · rw [mem_singleton.mp hx, cap_put]
      exact hcaps _ (.inr rfl)

/-- Appending a buffer while less than the threshold is unread. -/
theorem append_ok {pipe : Pipe} (h : pipe.OK) (hlen : pipe.bufLen < blockThreshold) {size : Nat}
    (hsize : 0 < size ∧ size ≤ maxCap) (old : Option Bytes) :
    ({ pipe with buf := pipe.buf ++ [getBuffer size old] } : Pipe).OK ∧
      ({ pipe with buf := pipe.buf ++ [getBuffer size old] } : Pipe).unread = pipe.unread := by
  have hsame : ({ pipe with buf := pipe.buf ++ [getBuffer size old] } : Pipe).unread =
    pipe.unread := by
    rw [unread_append, unread_getBuffer, append_nil]
    rfl
  refine ⟨⟨?_, ?_, ?_⟩, hsame⟩
  · rw [hsame]
    exact h.bufLen
  · rw [dropLast_concat]
    have hbufLen := h.bufLen
    change (pipe.unread).length < _
    omega
  · intro x hx
    rcases mem_append.mp hx with hx | hx
    · exact h.caps x hx
    · rw [mem_singleton.mp hx, cap_getBuffer]
      exact hsize

theorem nextCap_range {bcap : Nat} (h : 0 < bcap) : 0 < nextCap bcap ∧ nextCap bcap ≤ maxCap := by
  unfold nextCap
  split
  · exact ⟨by decide, Nat.le_refl _⟩
  · omega

/-- There is room in the buffer that is written to. -/
def Roomy (pipe : Pipe) (gets : List (Option Bytes)) : Prop :=
  (pipe.last gets).2.1.pos < (pipe.last gets).2.1.cap

theorem roomy_append (pipe : Pipe) {size : Nat} (hsize : 0 < size) (old : Option Bytes)
    (gets : List (Option Bytes)) :
    Roomy { pipe with buf := pipe.buf ++ [getBuffer size old] } gets := by
  simp only [Roomy, Pipe.last, getLast?_concat, cap_getBuffer]
  exact hsize

/-- The error of a write into a buffer says that the buffer is full, and then not
    everything was written. -/
theorem write_err (b : FixedBuffer) (p : Bytes) :
    b.write p = (b.room p, if b.room p < p.length then some .bufferFull else none, b.put p) := by
  unfold write
  by_cases hshort : b.room p < p.length
  · have hfull : (b.put p).pos = (b.put p).cap := by
      rw [cap_put]
      change b.pos + b.room p = b.cap
      have hpos := b.pos_le
      simp only [room, cap] at hshort ⊢
      omega
    simp [if_pos hshort, if_pos hfull]
  · simp [if_neg hshort]

/-- One round of the loop on an open pipe. -/
theorem writeLoop_round {pipe : Pipe} (hopen : ¬pipe.closeErr.isSome = true) (fuel : Nat)
    (gets : List (Option Bytes)) (p : Bytes) (written : Nat) :
    writeLoop (fuel + 1) gets p written pipe =
      let b := (pipe.last gets).2.1
      let n := b.room p
      let gets' := (pipe.last gets).2.2
      if p.length = n then some (.returned (written + n) none true, p.take n, pipe.put gets p)
      else if (pipe.put gets p).bufLen ≥ blockThreshold then
        some (.blocked (p.drop n) (written + n) (b.put p).cap, p.take n, pipe.put gets p)
      else
        match writeLoop fuel gets'.tail (p.drop n) (written + n)
            { pipe.put gets p with
              buf := (pipe.put gets p).buf ++
                [getBuffer (nextCap (b.put p).cap) gets'.head?.join] } with
        | none => none
        | some (w, more, pipe') => some (w, p.take n ++ more, pipe') := by
  -- A write into a buffer has no error but that the buffer is full.
  have herr : ∀ e : Option Err, e = (if (pipe.last gets).2.1.room p < p.length then
      some .bufferFull else none) → ¬(e.isSome = true ∧ e ≠ some .bufferFull) := by
    rintro e rfl ⟨hsome, hne⟩
    split at hne
    · exact hne rfl
    · next hshort =>
      simp [if_neg hshort] at hsome
  rw [writeLoop, if_neg hopen]
  simp only [write_err, if_neg (herr _ rfl)]
  rfl

theorem writeLoop_spec {fuel : Nat} (gets : List (Option Bytes)) {p : Bytes} (written : Nat)
    {pipe : Pipe} (h : pipe.OK)
    (hfuel : p.length + 2 ≤ fuel ∨ p.length + 1 ≤ fuel ∧ Roomy pipe gets) :
    ∃ w accepted pipe', writeLoop fuel gets p written pipe = some (w, accepted, pipe') ∧
      Writes pipe p written w accepted pipe' := by
  induction fuel generalizing gets p written pipe with
  | zero => omega
  | succ fuel ih =>
    by_cases hclosed : pipe.closeErr.isSome = true
    · refine ⟨_, [], pipe, by rw [writeLoop, if_pos hclosed], h, (append_nil _).symm, ?_, ?_⟩
      · rintro n e wake heq
        cases heq
        exact ⟨rfl, nil_prefix⟩
      · rintro p' n bcap heq
        cases heq
    · rcases put_ok h gets p with ⟨hok, hunread⟩
      have hcap := (last_spec h gets).2.2 _ (.inr rfl)
      rw [writeLoop_round hclosed]
      have hroomy : Roomy pipe gets → 0 < p.length → 0 < (pipe.last gets).2.1.room p := by
        intro hroomy hp
        simp only [Roomy] at hroomy
        simp only [room]
        omega
      have hroom : (pipe.last gets).2.1.room p ≤ p.length := Nat.min_le_left _ _
      generalize (pipe.last gets).2.1 = b at hunread hcap hroomy hroom
      have htake : (p.take (b.room p)).length = b.room p := by
        rw [length_take]
        exact Nat.min_eq_left hroom
      have hcap' : 0 < (b.put p).cap := by
        rw [cap_put]
        exact hcap.1
      by_cases hall : p.length = b.room p
      · refine ⟨_, _, _, if_pos hall, hok, hunread, ?_, ?_⟩
        · rintro n e wake heq
          cases heq
          exact ⟨by rw [htake], take_prefix _ _⟩
        · rintro p' n bcap heq
          cases heq
      rw [if_neg hall]
      by_cases hblock : (pipe.put gets p).bufLen ≥ blockThreshold
      · refine ⟨_, _, _, if_pos hblock, hok, hunread, ?_, ?_⟩
        · rintro n e wake heq
          cases heq
        · rintro p' n bcap heq
          cases heq
          exact ⟨(take_append_drop _ _).symm, by rw [htake], hcap'⟩
      rw [if_neg hblock]
      -- The next round writes into a new buffer, and so a byte at least.
      have hsize := nextCap_range hcap'
      rcases append_ok hok (Int.not_le.mp hblock) hsize (pipe.last gets).2.2.head?.join with
        ⟨hok2, hunread2⟩
      have hnext : (p.drop (b.room p)).length + 1 ≤ fuel := by
        rw [length_drop]
        rcases hfuel with hfuel | ⟨hfuel, hr⟩
        · omega
        · have hpos := hroomy hr (by omega)
          omega
      rcases ih (pipe.last gets).2.2.tail (written + b.room p) hok2
        (.inr ⟨hnext, roomy_append _ hsize.1 _ _⟩) with ⟨w, more, pipe', hloop, hw⟩
      refine ⟨w, p.take (b.room p) ++ more, pipe', by simp [hloop], hw.ok, ?_, ?_, ?_⟩
      · rw [hw.unread, hunread2, hunread, append_assoc]
      · intro n e wake heq
        rcases hw.returned n e wake heq with ⟨hn, hprefix⟩
        refine ⟨by rw [hn, length_append, htake, Nat.add_assoc], ?_⟩
        have happend := prefix_append_right_inj (p.take (b.room p)) |>.mpr hprefix
        rw [take_append_drop] at happend
        exact happend
      · intro p' n bcap heq
        rcases hw.blocked p' n bcap heq with ⟨hp, hn, hbcap⟩
        refine ⟨?_, by rw [hn, length_append, htake, Nat.add_assoc], hbcap⟩
        rw [append_assoc, ← hp, take_append_drop]

theorem writeWoken_spec {gets : List (Option Bytes)} {p : Bytes} {written bcap : Nat} {pipe : Pipe}
    (h : pipe.OK) (hbcap : 0 < bcap) :
    ∃ w accepted pipe', writeWoken gets p written bcap pipe = some (w, accepted, pipe') ∧
      Writes pipe p written w accepted pipe' := by
  have hfuel : p.length + 2 ≤ writeFuel p := Nat.le_refl _
  unfold writeWoken
  by_cases hclosed : pipe.closeErr.isSome = true
  · rw [if_pos hclosed]
    exact writeLoop_spec gets written h (.inl hfuel)
  rw [if_neg hclosed]
  by_cases hblock : pipe.bufLen ≥ blockThreshold
  · refine ⟨_, _, _, if_pos hblock, h, (append_nil _).symm, ?_, ?_⟩
    · rintro n e wake heq
      cases heq
    · rintro p' n bcap' heq
      cases heq
      exact ⟨rfl, rfl, hbcap⟩
  rw [if_neg hblock]
  rcases append_ok h (Int.not_le.mp hblock) (nextCap_range hbcap) gets.head?.join with
    ⟨hok, hunread⟩
  rcases writeLoop_spec gets.tail written hok (.inl hfuel) with ⟨w, accepted, pipe', hloop, hw⟩
  exact ⟨w, accepted, pipe', hloop, hw.ok, by rw [hw.unread, hunread], hw.returned, hw.blocked⟩

/-! ### Reading -/

theorem take_ok {b : FixedBuffer} {rest : List FixedBuffer} {n : Int} {e : Option Err}
    (h : Pipe.OK ⟨b :: rest, n, e⟩) (len : Nat) :
    let b' := (b.read len).2
    let pipe' : Pipe := ⟨if b'.len = 0 then rest else b' :: rest, n - (b.read len).1.length, e⟩
    pipe'.OK ∧ Pipe.unread ⟨b :: rest, n, e⟩ = (b.read len).1 ++ pipe'.unread := by
  intro b' pipe'
  have hrest : b'.unread = b.unread.drop len := read_rest b len
  have hsplit : b.unread = (b.read len).1 ++ b'.unread := by
    rw [read_data, hrest, take_append_drop]
  have hunread : Pipe.unread ⟨b :: rest, n, e⟩ = (b.read len).1 ++ pipe'.unread := by
    simp only [Pipe.unread, flatMap_cons, pipe']
    rw [hsplit, append_assoc]
    split
    · next hempty =>
      have hnil : b'.unread = [] := length_eq_zero_iff.mp (by rw [unread_length]; exact hempty)
      rw [hnil, nil_append]
    · rw [flatMap_cons]
  have hfront : ((b :: rest).dropLast.flatMap unread).length < blockThreshold := h.front
  refine ⟨⟨?_, ?_, ?_⟩, hunread⟩
  · have hlen := h.bufLen
    rw [hunread, length_append] at hlen
    simp only [] at hlen
    change n - _ = _
    omega
  · -- The front loses bytes or its first buffer.
    have hdrop : (rest.dropLast.flatMap unread).length < blockThreshold := by
      cases rest with
      | nil => decide
      | cons =>
        rw [dropLast_cons_cons, flatMap_cons, length_append] at hfront
        omega
    simp only [pipe']
    split
    · exact hdrop
    rcases rest with _ | _
    · exact show 0 < blockThreshold by decide
    have hle : b'.unread.length ≤ b.unread.length := by
      rw [hrest, length_drop]
      omega
    rw [dropLast_cons_cons, flatMap_cons, length_append] at hfront ⊢
    omega
  · intro x hx
    have hcaps := h.caps
    simp only [pipe'] at hx
    split at hx
    · exact hcaps x (mem_cons_of_mem b hx)
    · rcases mem_cons.mp hx with rfl | hx
      · exact hcaps b mem_cons_self
      · exact hcaps x (mem_cons_of_mem b hx)

theorem readLoop_spec {fuel len : Nat} {pipe : Pipe} (h : pipe.OK)
    (hfuel : pipe.buf.length < fuel) :
    ∃ data pipe', readLoop fuel len pipe = some (data, pipe') ∧ pipe'.OK ∧
      pipe.unread = data ++ pipe'.unread := by
  induction fuel generalizing len pipe with
  | zero => nomatch hfuel
  | succ fuel ih =>
    by_cases hempty : pipe.bufLen > 0
    · rcases pipe with ⟨buf, n, e⟩
      rcases buf with _ | ⟨b, rest⟩
      · have hzero := h.bufLen
        simp only [Pipe.unread, flatMap_nil, length_nil] at hzero hempty
        omega
      rcases take_ok h len with ⟨hok, hunread⟩
      simp only [readLoop, if_pos hempty]
      by_cases hall : len = (b.read len).1.length
      · exact ⟨_, _, if_pos hall, hok, hunread⟩
      rw [if_neg hall]
      -- The slice is not full, so the buffer is empty now and gone.
      have hgone : (b.read len).2.len = 0 := by
        rw [read_data, length_take] at hall
        rw [← unread_length, read_rest, length_drop]
        omega
      simp only [if_pos hgone] at hok hunread ⊢
      rcases @ih (len - (b.read len).1.length) _ hok (Nat.lt_of_succ_lt_succ hfuel) with
        ⟨data, pipe', hloop, hok', hunread'⟩
      refine ⟨(b.read len).1 ++ data, pipe', by rw [hloop], hok', ?_⟩
      rw [hunread, hunread', append_assoc]
    · exact ⟨[], pipe, by rw [readLoop, if_neg hempty], h, rfl⟩

/-! ### Runs -/

/-- The pipe is in order, and so is what the waiting writers remember. -/
structure Sys.OK (s : Sys) : Prop where
  pipe : s.pipe.OK
  calls : ∀ c p n bcap woken, s.calls c = some (.write p n bcap, woken) → 0 < bcap

/-- What a critical section does to the unread bytes: what it accepts comes at the
    end, what it returns was at the beginning. A read that returns the error of a
    closed pipe finds none. -/
structure Does (s : Sys) (e : Event) (s' : Sys) : Prop where
  ok : s'.OK
  queue : s.pipe.unread ++ e.accepted = e.returned ++ s'.pipe.unread
  closed : ∀ data err, e.response = some (.read data (some err)) →
    data = [] ∧ s.pipe.unread = [] ∧ s'.pipe.unread = [] ∧ s.pipe.closeErr = some err

section Calls

variable {calls : Nat → Option (Waiter × Bool)}
  (h : ∀ c p n bcap woken, calls c = some (.write p n bcap, woken) → 0 < bcap)
include h

theorem calls_setCall {w : Option (Waiter × Bool)}
    (hw : ∀ p n bcap woken, w = some (.write p n bcap, woken) → 0 < bcap) (call : Nat) :
    ∀ c p n bcap woken, setCall call w calls c = some (.write p n bcap, woken) → 0 < bcap := by
  intro c p n bcap woken hc
  unfold setCall at hc
  split at hc
  · exact hw p n bcap woken hc
  · exact h c p n bcap woken hc

theorem calls_clear (call : Nat) :
    ∀ c p n bcap woken, setCall call none calls c = some (.write p n bcap, woken) → 0 < bcap :=
  calls_setCall h (w := none) nofun call

theorem calls_broadcast :
    ∀ c p n bcap woken, broadcast calls c = some (.write p n bcap, woken) → 0 < bcap := by
  intro c p n bcap woken hc
  rcases Option.map_eq_some_iff.mp hc with ⟨⟨w, b⟩, hw, heq⟩
  simp only [Prod.mk.injEq] at heq
  rw [heq.1] at hw
  exact h c p n bcap b hw

end Calls

theorem wrote_does {s s' : Sys} {e : Event} {call written : Nat} {p accepted : Bytes} {w : Wrote}
    {pipe' : Pipe} (h : s.OK) (hw : Writes s.pipe p written w accepted pipe')
    (hstep : s.wrote call (some (w, accepted, pipe')) = .ok (e, s')) : Does s e s' := by
  cases w with
  | returned n err wake =>
    cases hstep
    have hcalls := calls_clear h.calls call
    refine ⟨⟨hw.ok, ?_⟩, hw.unread.symm, nofun⟩
    split
    · exact calls_broadcast hcalls
    · exact hcalls
  | blocked p' n bcap =>
    cases hstep
    refine ⟨⟨hw.ok, calls_setCall h.calls ?_ call⟩, hw.unread.symm, nofun⟩
    intro q m c woken heq
    cases heq
    exact (hw.blocked p' n bcap rfl).2.2

theorem closed_does {s : Sys} {err : Err} {calls : Nat → Option (Waiter × Bool)} (h : s.OK)
    (hlen : s.pipe.bufLen = 0) (herr : s.pipe.closeErr = some err)
    (hcalls : ∀ c p n bcap woken, calls c = some (.write p n bcap, woken) → 0 < bcap) :
    Does s ⟨[], some (.read [] (some err))⟩ ⟨s.pipe, calls⟩ := by
  have hnil : s.pipe.unread = [] := by
    have hbufLen := h.pipe.bufLen
    exact length_eq_zero_iff.mp (by omega)
  refine ⟨⟨h.pipe, hcalls⟩, ?_, fun data e heq => ?_⟩
  · rw [append_nil]
    rfl
  · cases heq
    exact ⟨rfl, hnil, hnil, herr⟩

/-- The action is a critical section of a `Write` that still has these bytes to write. -/
def Given (s : Sys) (a : Action) (call : Nat) (p : Bytes) (written : Nat) : Prop :=
  (∃ gets, a = .write call p gets ∧ written = 0) ∨
    ∃ gets bcap, a = .resume call gets ∧ s.calls call = some (.write p written bcap, true)

/-- A step that accepts no bytes and leaves the pipe, but for its error. -/
structure Idle (s : Sys) (e : Event) (s' : Sys) : Prop where
  does : Does s e s'
  accepted : e.accepted = []
  response : ∀ n err, e.response ≠ some (.wrote n err)
  calls : ∀ c p n bcap woken, s'.calls c = some (.write p n bcap, woken) →
    ∃ woken', s.calls c = some (.write p n bcap, woken')

theorem broadcast_write {calls : Nat → Option (Waiter × Bool)} {c : Nat} {w : Waiter} {woken : Bool}
    (h : broadcast calls c = some (w, woken)) : ∃ woken', calls c = some (w, woken') := by
  rcases Option.map_eq_some_iff.mp h with ⟨⟨w', b⟩, hw, heq⟩
  cases heq
  exact ⟨b, hw⟩

theorem setCall_write {calls : Nat → Option (Waiter × Bool)} {w : Option (Waiter × Bool)}
    {call c n bcap : Nat} {p : Bytes} {woken : Bool}
    (hw : ∀ p n bcap woken, w ≠ some (.write p n bcap, woken))
    (h : setCall call w calls c = some (.write p n bcap, woken)) :
    calls c = some (.write p n bcap, woken) := by
  unfold setCall at h
  split at h
  · exact absurd h (hw p n bcap woken)
  · exact h

theorem reads_idle {s : Sys} {call len : Nat} (h : s.OK) :
    ∃ e s', s.reads call len = .ok (e, s') ∧ Idle s e s' := by
  rcases @readLoop_spec _ len _ h.pipe (Nat.lt_succ_self _) with ⟨data, pipe', hloop, hok, hunread⟩
  refine ⟨⟨[], some (.read data none)⟩, ⟨pipe', broadcast (setCall call none s.calls)⟩,
    by rw [Sys.reads, hloop],
    ⟨⟨hok, calls_broadcast (calls_clear h.calls call)⟩, ?_, ?_⟩, rfl, ?_, ?_⟩
  · rw [append_nil]
    exact hunread
  · intro data err heq
    nomatch heq
  · intro n err heq
    nomatch heq
  · intro c p n bcap woken hc
    obtain ⟨woken', hc⟩ := broadcast_write hc
    exact ⟨woken', setCall_write (by simp) hc⟩

/-- A step is a critical section of a `Write`, it is idle, or the call may not go on. -/
theorem step_cases (a : Action) {s : Sys} (h : s.OK) :
    (∃ call p written w accepted pipe', Given s a call p written ∧
      Writes s.pipe p written w accepted pipe' ∧
      step a s = s.wrote call (some (w, accepted, pipe'))) ∨
    ((∀ call p gets, a ≠ .write call p gets) ∧ ∃ e s', step a s = .ok (e, s') ∧ Idle s e s') ∨
    step a s = .error .disabled := by
  cases a with
  | write call p gets =>
    simp only [step]
    split
    · exact .inr (.inr rfl)
    · obtain ⟨w, accepted, pipe', hx, hw⟩ :=
        writeLoop_spec gets 0 h.pipe (.inl (Nat.le_refl (writeFuel p)))
      exact .inl ⟨call, p, 0, w, accepted, pipe', .inl ⟨gets, rfl, rfl⟩, hw, by rw [hx]⟩
  -- The first part of a `Read` returns, or waits for something to read.
  | read call len =>
    refine .inr ?_
    simp only [step]
    split
    · exact .inr rfl
    refine .inl ⟨nofun, ?_⟩
    split
    · next hlen =>
      split
      · next err herr =>
        exact ⟨_, _, rfl, closed_does h hlen herr h.calls, rfl, nofun, fun _ _ _ _ _ hc => ⟨_, hc⟩⟩
      · refine ⟨_, _, rfl, ⟨⟨h.pipe, calls_setCall h.calls (by simp) call⟩, append_nil _, nofun⟩,
          rfl, nofun, ?_⟩
        exact fun _ _ _ _ _ hc => ⟨_, setCall_write (by simp) hc⟩
    · exact reads_idle h
  | resume call gets =>
    simp only [step]
    split
    · next p written bcap hcall =>
      obtain ⟨w, accepted, pipe', hx, hw⟩ :=
        @writeWoken_spec gets _ _ _ _ h.pipe (h.calls call p written bcap true hcall)
      exact .inl ⟨call, p, written, w, accepted, pipe', .inr ⟨gets, bcap, rfl, hcall⟩, hw,
        by rw [hx]⟩
    · refine .inr (.inl ⟨nofun, ?_⟩)
      split
      · next err herr =>
        split
        · next hlen =>
          exact ⟨_, _, rfl, closed_does h hlen herr (calls_clear h.calls call), rfl, nofun,
            fun _ _ _ _ _ hc => ⟨_, setCall_write (by simp) hc⟩⟩
        · exact reads_idle h
      · exact reads_idle h
    · exact .inr (.inr rfl)
  | closeWithError err =>
    refine .inr (.inl ⟨nofun, _, _, rfl, ⟨⟨⟨h.pipe.bufLen, h.pipe.front, h.pipe.caps⟩,
      calls_broadcast h.calls⟩, append_nil _, nofun⟩, rfl, nofun, ?_⟩)
    exact fun _ _ _ _ _ hc => broadcast_write hc

theorem step_does {a : Action} {s s' : Sys} {e : Event} (h : s.OK)
    (hstep : step a s = .ok (e, s')) : Does s e s' := by
  rcases step_cases a h with ⟨call, p, written, w, accepted, pipe', -, hw, hcase⟩ |
    ⟨-, e, s', hcase, hidle⟩ | hcase
  · exact wrote_does h hw (hcase.symm.trans hstep)
  · cases hcase.symm.trans hstep
    exact hidle.does
  · nomatch hcase.symm.trans hstep

/-- A step that is not taken is one of a call that may not go on. -/
theorem step_not_panic {a : Action} {s : Sys} {f : Fault} (h : s.OK) (hstep : step a s = .error f) :
    f ≠ .panic := by
  rintro rfl
  rcases step_cases a h with ⟨_, _, _, w, _, _, -, -, hcase⟩ | ⟨-, _, _, hcase, -⟩ | hcase
  · cases w with
    | returned | blocked => nomatch hcase.symm.trans hstep
  · nomatch hcase.symm.trans hstep
  · nomatch hcase.symm.trans hstep

/-! ### What a write accepts -/

/-- The last `Write` of a call: the bytes it was given, and those that were accepted in
    its critical sections. -/
def writing (call : Nat) (h : List (Action × Event)) : Bytes × Bytes :=
  h.foldl (fun w x =>
    match x.1 with
    | .write c p _ => if c = call then (p, x.2.accepted) else w
    | .resume c _ => if c = call then (w.1, w.2 ++ x.2.accepted) else w
    | _ => w) ([], [])

/-- A waiting `Write` has the bytes that were not accepted, and the number of the others. -/
def Remembers (h : List (Action × Event)) (s : Sys) : Prop :=
  ∀ c p n bcap woken, s.calls c = some (.write p n bcap, woken) →
    (writing c h).1 = (writing c h).2 ++ p ∧ n = (writing c h).2.length

section Writing

variable {h : List (Action × Event)} {s s' : Sys} {a : Action} {e : Event} {call : Nat}

theorem writing_idle (ha : ∀ call p gets, a ≠ .write call p gets) (he : e.accepted = []) (c : Nat) :
    writing c (h ++ [(a, e)]) = writing c h := by
  rw [writing, foldl_append]
  cases a with
  | write call p gets => exact absurd rfl (ha call p gets)
  | read | closeWithError => rfl
  | resume call gets =>
    simp only [foldl_cons, foldl_nil, he, append_nil, Prod.mk.eta, ite_self]
    rfl

theorem writing_other {p : Bytes} {written c : Nat} (hgiven : Given s a call p written)
    (hc : c ≠ call) : writing c (h ++ [(a, e)]) = writing c h := by
  rw [writing, foldl_append]
  rcases hgiven with ⟨gets, rfl, -⟩ | ⟨gets, bcap, rfl, -⟩ <;> exact if_neg hc.symm

/-- A critical section accepts the next of the bytes. -/
theorem writing_given {p : Bytes} {written : Nat} (hmem : Remembers h s)
    (hgiven : Given s a call p written) : ∃ before, before.length = written ∧
      writing call (h ++ [(a, e)]) = (before ++ p, before ++ e.accepted) := by
  rw [writing, foldl_append]
  rcases hgiven with ⟨gets, rfl, rfl⟩ | ⟨gets, bcap, rfl, hcall⟩
  · exact ⟨[], rfl, if_pos rfl⟩
  · obtain ⟨hp, hn⟩ := hmem call p written bcap true hcall
    exact ⟨(writing call h).2, hn.symm, (if_pos rfl).trans (Prod.ext hp rfl)⟩

/-- What a call of `Write` returns is what was accepted of its bytes. -/
def Accounts (h : List (Action × Event)) (a : Action) (e : Event) : Prop :=
  ∀ n err, e.response = some (.wrote n err) → ∃ call,
    ((∃ p gets, a = .write call p gets) ∨ ∃ gets, a = .resume call gets) ∧
      n ≤ (writing call (h ++ [(a, e)])).1.length ∧
      (writing call (h ++ [(a, e)])).2 = (writing call (h ++ [(a, e)])).1.take n

theorem step_accounts (hok : s.OK) (hmem : Remembers h s) (hstep : step a s = .ok (e, s')) :
    Remembers (h ++ [(a, e)]) s' ∧ Accounts h a e := by
  rcases step_cases a hok with ⟨call, p, written, w, accepted, pipe', hgiven, hw, hcase⟩ |
    ⟨hne, e, s', hcase, hidle⟩ | hcase
  · rw [hcase] at hstep
    -- The other calls wait for what they waited for.
    have hother : ∀ c q n bcap woken, c ≠ call → s.calls c = some (.write q n bcap, woken) →
        (writing c (h ++ [(a, e)])).1 = (writing c (h ++ [(a, e)])).2 ++ q ∧
          n = (writing c (h ++ [(a, e)])).2.length := by
      intro c q n bcap woken hc hcalls
      rw [writing_other hgiven hc]
      exact hmem c q n bcap woken hcalls
    obtain ⟨before, hbefore, hwriting⟩ := writing_given (e := e) hmem hgiven
    cases w with
    | returned n err wake =>
      cases hstep
      obtain ⟨rfl, rest, rfl⟩ := hw.returned n err wake rfl
      refine ⟨fun c q m bcap woken hc => ?_, fun n' err' heq => ?_⟩
      · have hc : ∃ woken', setCall call none s.calls c = some (.write q m bcap, woken') := by
          split at hc
          · exact broadcast_write hc
          · exact ⟨woken, hc⟩
        obtain ⟨woken', hc⟩ := hc
        unfold setCall at hc
        split at hc
        · nomatch hc
        · next hne => exact hother c q m bcap woken' hne hc
      · cases heq
        refine ⟨call, ?_, ?_⟩
        · rcases hgiven with ⟨gets, ha, -⟩ | ⟨gets, bcap, ha, -⟩
          · exact .inl ⟨_, gets, ha⟩
          · exact .inr ⟨gets, ha⟩
        · rw [hwriting, ← hbefore, ← append_assoc, ← length_append]
          exact ⟨by simp, take_left.symm⟩
    | blocked p' n bcap =>
      cases hstep
      obtain ⟨rfl, rfl, -⟩ := hw.blocked p' n bcap rfl
      refine ⟨fun c q m bcap' woken hc => ?_, nofun⟩
      simp only [setCall] at hc
      split at hc
      · next heq =>
        cases hc
        rw [heq, hwriting]
        exact ⟨(append_assoc ..).symm, by rw [length_append, hbefore]⟩
      · next hne => exact hother c q m bcap' woken hne hc
  · cases hcase.symm.trans hstep
    refine ⟨fun c p n bcap woken hc => ?_, fun n err heq => absurd heq (hidle.response n err)⟩
    obtain ⟨woken', hc⟩ := hidle.calls c p n bcap woken hc
    rw [writing_idle hne hidle.accepted]
    exact hmem c p n bcap woken' hc
  · nomatch hcase.symm.trans hstep

end Writing

theorem newBytesPipe_ok (old : Option Bytes) : (newBytesPipe old).OK := by
  refine ⟨⟨rfl, show 0 < blockThreshold by decide, fun b hb => ?_⟩, fun c p n bcap woken hc => ?_⟩
  · rw [mem_singleton.mp hb, cap_getBuffer]
    decide
  · nomatch hc

/-- What a run has accepted is what it has returned and what is unread. -/
theorem run_queue {old : Option Bytes} {as : List Action} {es : List Event} {s : Sys}
    (hrun : run step as (newBytesPipe old) = .ok (es, s)) :
    s.OK ∧ es.flatMap Event.accepted = es.flatMap Event.returned ++ s.pipe.unread := by
  have htrace := @run_trace _ _ _ _ step (fun _ _ => True)
    (fun es s => s.OK ∧ es.flatMap Event.accepted = es.flatMap Event.returned ++ s.pipe.unread)
    (fun a s e s' es hI _ hstep => by
      have hdoes := step_does hI.1 hstep
      refine ⟨hdoes.ok, ?_⟩
      simp only [flatMap_append, flatMap_cons, flatMap_nil, append_nil]
      rw [hI.2, append_assoc, hdoes.queue, append_assoc])
    as (newBytesPipe old) s es [] ⟨newBytesPipe_ok old, rfl⟩ (meets_true as _) hrun
  exact htrace

theorem run_remembers {old : Option Bytes} {as : List Action} {es : List Event} {s : Sys}
    (hrun : run step as (newBytesPipe old) = .ok (es, s)) : Remembers (as.zip es) s := by
  refine (run_history (fun h s => s.OK ∧ Remembers h s) ?_ as _ s es [] ⟨newBytesPipe_ok old, ?_⟩
    hrun).2
  · rintro a s e s' h ⟨hok, hmem⟩ hstep
    exact ⟨(step_does hok hstep).ok, (step_accounts hok hmem hstep).1⟩
  · intro c p n bcap woken hc
    nomatch hc

/-- In every interleaving of calls, what the reads have returned is the beginning
    of what the writes have been accepted, each in the order of the critical
    sections, `bufLen` is the number of the bytes in between and less than the
    threshold and the largest capacity, and no call panics. A `Write` that returns has
    had the bytes accepted that it counts, from the beginning of those it was given, and
    a read that returns the error of the closed pipe has left nothing behind. -/
theorem run_fifo (old : Option Bytes) (as : List Action) :
    (∀ es s, run step as (newBytesPipe old) = .ok (es, s) →
      es.flatMap Event.returned <+: es.flatMap Event.accepted ∧
      s.pipe.bufLen = (es.flatMap Event.accepted).length - (es.flatMap Event.returned).length ∧
      s.pipe.bufLen < blockThreshold + maxCap ∧
      ∀ a e s', step a s = .ok (e, s') → Accounts (as.zip es) a e ∧
        ∀ data err, e.response = some (.read data (some err)) →
          data = [] ∧ s.pipe.closeErr = some err ∧
            es.flatMap Event.returned = es.flatMap Event.accepted) ∧
    run step as (newBytesPipe old) ≠ .error .panic := by
  constructor
  · intro es s hrun
    -- What was accepted and not returned is unread, and `bufLen` counts it.
    rcases run_queue hrun with ⟨hok, hqueue⟩
    refine ⟨⟨s.pipe.unread, hqueue.symm⟩, ?_, bufLen_lt hok.pipe, ?_⟩
    · have hlen := hok.pipe.bufLen
      rw [hqueue, length_append]
      omega
    · intro a e s' hstep
      refine ⟨(step_accounts hok (run_remembers hrun) hstep).2, fun data err hres => ?_⟩
      rcases (step_does hok hstep).closed data err hres with ⟨hdata, hnil, _, herr⟩
      refine ⟨hdata, herr, ?_⟩
      rw [hqueue, hnil, append_nil]
  · intro herr
    exact run_not_error Sys.OK (· = .panic) (fun a s r s' h hstep => (step_does h hstep).ok)
      (fun a s f h hstep => step_not_panic h hstep) as _ _ (newBytesPipe_ok old) herr rfl

end Dao.BytesPipe
