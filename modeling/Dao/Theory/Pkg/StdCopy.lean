import Dao.Core.Pkg.StdCopy

/-!
# Taking the Streams Apart

`StdCopy` delivers the payloads of the complete frames of a stream, each to its
writer, however the stream is cut into reads and wherever it ends.

Everything rests on one invariant of the buffer: the bytes that have been read
and not used, followed by what the reader still has, are what is left of the
stream. `Keeps` says that reading moves bytes from the second part to the
first and changes nothing else. So whether a loop that reads finds enough
bytes depends on the length of what is left alone, and not on the script of
the reader.

## Theorems

* `copyLoop_spec`: The loop over the frames.
* `stdCopy_frames`: What is delivered.
* `stdCopy_roundTrip`: What was written is.
-/

namespace Dao.StdCopy

open List State Nat

/-- The header of a frame. -/
def header (t : StdType) (n : Nat) : Bytes := [t.byte, 0, 0, 0] ++ putUint32 (n % 2 ^ 32)

/-- What a `stdWriter` sends for a payload. -/
def frame (x : StdType × Bytes) : Bytes := header x.1 x.2.length ++ x.2

def encode (fs : List (StdType × Bytes)) : Bytes := fs.flatMap frame

/-- The payloads that go to one of the two writers. -/
def payloads (err : Bool) (fs : List (StdType × Bytes)) : Bytes :=
  fs.flatMap fun x => if decide (x.1 = .stderr) = err then x.2 else []

/-- The number of payload bytes. -/
def payloadBytes (fs : List (StdType × Bytes)) : Nat := (fs.map (fun x => x.2.length)).sum

theorem header_length (t : StdType) (n : Nat) : (header t n).length = 8 := rfl

theorem frame_length (x : StdType × Bytes) : (frame x).length = x.2.length + 8 := by
  rw [frame, length_append, header_length, Nat.add_comm]

theorem take_frame (x : StdType × Bytes) (rest : Bytes) :
    (frame x ++ rest).take 8 = header x.1 x.2.length := by
  exact take_left' (header_length _ _)

theorem drop_frame (x : StdType × Bytes) : (frame x).drop 8 = x.2 :=
  drop_left' (header_length _ _)

variable {n need : Nat} {st : State} {fs : List (StdType × Bytes)}

theorem uint32_putUint32 (h : n < 2 ^ 32) : uint32 (putUint32 n) = n := by
  simp only [putUint32, uint32, foldl_cons, foldl_nil, UInt8.toNat_ofNat']
  omega

theorem ofByte_byte (t : StdType) : StdType.ofByte t.byte = some t := by
  cases t with
  | stdin => rfl
  | stdout => rfl
  | stderr => rfl

/-! ### Reading -/

/-- What has been read and not used. -/
def State.unused (st : State) : Bytes := st.buf.take st.nr

/-- What is left of the stream. -/
def State.pending (st : State) : Bytes := st.unused ++ st.src.rest

/-- The indices are in order, and the reader ends with `io.EOF`. -/
structure State.OK (st : State) : Prop where
  bufLen : st.bufLen = st.buf.length
  nr : st.nr ≤ st.buf.length
  ending : st.src.ending = .eof

/-- Nothing has happened but reading. -/
structure Keeps (st st' : State) : Prop where
  ok : st'.OK
  pending : st'.pending = st.pending
  length : st'.buf.length = st.buf.length
  written : st'.written = st.written
  dstout : st'.dstout = st.dstout
  dsterr : st'.dsterr = st.dsterr

theorem keeps_refl (h : st.OK) : Keeps st st := ⟨h, rfl, rfl, rfl, rfl, rfl⟩

theorem keeps_trans {st st1 st2 : State} (h : Keeps st st1) (h' : Keeps st1 st2) : Keeps st st2 :=
  ⟨h'.ok, h'.pending.trans h.pending, h'.length.trans h.length, h'.written.trans h.written,
    h'.dstout.trans h.dstout, h'.dsterr.trans h.dsterr⟩

theorem unused_length (h : st.OK) : st.unused.length = st.nr := by
  rw [unused, length_take]
  exact Nat.min_eq_left h.nr

theorem pending_length (h : st.OK) : st.pending.length = st.nr + st.src.rest.length := by
  rw [pending, length_append, unused_length h]

theorem source_read (k : Nat) (src : Source) :
    (src.read k).1 ++ (src.read k).2.2.rest = src.rest ∧ (src.read k).1.length ≤ k ∧
      (src.read k).2.2.ending = src.ending ∧
      ((src.read k).2.1 = none ∨ (src.read k).2.1 = some src.ending ∧ (src.read k).2.2.rest = []) ∧
      (0 < k → (src.read k).2.1 = none →
        (src.read k).2.2.sizes.length + (src.read k).2.2.rest.length <
          src.sizes.length + src.rest.length) := by
  unfold Source.read
  by_cases hrest : src.rest = []
  · simp only [if_pos hrest]
    refine ⟨rfl, zero_le k, trivial, .inr ⟨trivial, hrest⟩, fun _ hnone => ?_⟩
    nomatch hnone
  simp only [if_neg hrest]
  refine ⟨take_append_drop _ _, ?_, trivial, ?_, fun hk _ => ?_⟩
  · rw [length_take]
    omega
  · split
    · next hlast => exact .inr ⟨rfl, hlast.1⟩
    · exact .inl rfl
  · -- An entry of the script is used up, or there is none and all is read.
    have hpos : 0 < src.rest.length := length_pos_iff.mpr hrest
    cases hsizes : src.sizes with
    | nil =>
      simp only [headD_nil, tail_nil, length_drop, length_nil]
      omega
    | cons =>
      simp only [headD_cons, tail_cons, length_drop, length_cons]
      omega

theorem read_spec (h : st.OK) : Keeps st st.read.2 ∧
      (st.read.1 = none ∨ st.read.1 = some .eof ∧ st.read.2.src.rest = []) ∧
      (st.nr < st.buf.length → st.read.1 = none →
        st.read.2.src.sizes.length + st.read.2.src.rest.length <
          st.src.sizes.length + st.src.rest.length) := by
  rcases source_read (st.buf.length - st.nr) st.src with ⟨hsplit, hroom, hending, herr, hless⟩
  unfold State.read
  generalize st.src.read (st.buf.length - st.nr) = r at hsplit hroom hending herr hless
  rcases r with ⟨bs, er, src⟩
  simp only [] at hsplit hroom hending herr hless ⊢
  have hnr := h.nr
  have htake : (st.buf.take st.nr).length = st.nr := unused_length h
  refine ⟨⟨⟨?_, ?_, ?_⟩, ?_, ?_, rfl, rfl, rfl⟩, ?_, fun hlt hnone => hless (by omega) hnone⟩
  · simp only [length_append, htake, length_drop, h.bufLen]
    omega
  · simp only [length_append, htake, length_drop]
    omega
  · exact hending.trans h.ending
  · -- The bytes have moved from the reader to the buffer.
    have hunused : (st.buf.take st.nr ++ bs ++ st.buf.drop (st.nr + bs.length)).take
        (st.nr + bs.length) = st.buf.take st.nr ++ bs := by
      have hlen : (st.buf.take st.nr ++ bs).length = st.nr + bs.length := by
        rw [length_append, htake]
      rw [take_append_of_le_length (Nat.le_of_eq hlen.symm), take_of_length_le (Nat.le_of_eq hlen)]
    simp only [pending, unused]
    rw [hunused, append_assoc, hsplit]
  · simp only [length_append, htake, length_drop]
    omega
  · rw [h.ending] at herr
    exact herr

/-- How a loop that reads ends. -/
def Fills (need : Nat) (st : State) : Filled → Prop
  | .full st' => Keeps st st' ∧ need ≤ st'.nr
  | .ended st' => Keeps st st' ∧ st'.nr < need ∧ st'.src.rest = []
  | .failed _ _ => False

theorem fills_keeps {st st1 : State} (hk : Keeps st st1) {r : Filled} (h : Fills need st1 r) :
    Fills need st r := by
  cases r with
  | full st' | ended st' => exact ⟨keeps_trans hk h.1, h.2⟩
  | failed => exact h

theorem fill_spec {need fuel : Nat} (h : st.OK) (hneed : need ≤ st.buf.length)
    (hfuel : st.src.sizes.length + st.src.rest.length + 2 ≤ fuel) :
    ∃ r, fill need fuel st = some r ∧ Fills need st r := by
  induction fuel generalizing st with
  | zero => omega
  | succ fuel ih =>
    by_cases hnr : st.nr < need
    · rcases read_spec h with ⟨hkeeps, herr, hless⟩
      rw [fill, if_pos hnr]
      generalize st.read = r at hkeeps herr hless
      rcases r with ⟨er, st'⟩
      rcases herr with rfl | ⟨rfl, hrest⟩
      · have hdec := hless (by omega) rfl
        have hlen : need ≤ st'.buf.length := by
          rw [hkeeps.length]
          exact hneed
        rcases ih hkeeps.ok hlen (by omega) with ⟨r, hr, hfills⟩
        exact ⟨r, hr, fills_keeps hkeeps hfills⟩
      · by_cases hshort : st'.nr < need
        · exact ⟨.ended st', by simp [if_pos hshort], hkeeps, hshort, hrest⟩
        · exact ⟨.full st', by simp [if_neg hshort], hkeeps, by omega⟩
    · exact ⟨.full st, by rw [fill, if_neg hnr], keeps_refl h, by omega⟩

theorem fill_full (h : st.OK) (hneed : need ≤ st.buf.length) (hlen : need ≤ st.pending.length) :
    ∃ st', fill need st.fuel st = some (.full st') ∧ Keeps st st' ∧ need ≤ st'.nr := by
  rcases fill_spec h hneed (Nat.le_refl _) with ⟨r, hr, hfills⟩
  cases r with
  | full st' => exact ⟨st', hr, hfills⟩
  | ended st' =>
    -- All of it has been read, and that is enough.
    have hall := pending_length hfills.1.ok
    rw [hfills.1.pending, hfills.2.2, length_nil] at hall
    have hshort := hfills.2.1
    omega
  | failed => exact hfills.elim

theorem fill_ended (h : st.OK) (hneed : need ≤ st.buf.length) (hlen : st.pending.length < need) :
    ∃ st', fill need st.fuel st = some (.ended st') ∧ Keeps st st' := by
  rcases fill_spec h hneed (Nat.le_refl _) with ⟨r, hr, hfills⟩
  cases r with
  | full st' =>
    have hall := pending_length hfills.1.ok
    rw [hfills.1.pending] at hall
    have hfull := hfills.2
    omega
  | ended st' => exact ⟨st', hr, hfills.1⟩
  | failed => exact hfills.elim

/-! ### One frame -/

/-- The first bytes that are left stand at the beginning of the buffer. -/
theorem buf_take (h : st.OK) {k : Nat} (hk : k ≤ st.nr) : st.buf.take k = st.pending.take k := by
  rw [pending, take_append_of_le_length (by rw [unused_length h]; exact hk),
    unused, take_take, Nat.min_eq_left hk]

theorem header_of_pending (h : st.OK) (hnr : 8 ≤ st.nr) {t : StdType} (hn : n < 2 ^ 32)
    (hhead : st.pending.take 8 = header t n) :
    StdType.ofByte (st.buf.headD 0) = some t ∧ uint32 ((st.buf.drop 4).take 4) = n := by
  rw [← buf_take h hnr] at hhead
  have hfd : st.buf.headD 0 = (st.buf.take 8).headD 0 := by
    cases st.buf with
    | nil => rfl
    | cons b bs => rfl
  have hsize : (st.buf.drop 4).take 4 = (st.buf.take 8).drop 4 := by rw [drop_take]
  rw [hfd, hsize, hhead]
  refine ⟨ofByte_byte t, ?_⟩
  change uint32 (putUint32 (n % 2 ^ 32)) = n
  rw [mod_eq_of_lt hn]
  exact uint32_putUint32 hn

theorem extend_spec (h : st.OK) (frameSize : Nat) :
    (st.extend frameSize).OK ∧ (st.extend frameSize).pending = st.pending ∧
      frameSize + 8 ≤ (st.extend frameSize).buf.length ∧ (st.extend frameSize).nr = st.nr ∧
      (st.extend frameSize).written = st.written ∧
      (st.extend frameSize).dstout = st.dstout ∧ (st.extend frameSize).dsterr = st.dsterr := by
  have hlen := h.bufLen
  have hnr := h.nr
  unfold extend stdWriterPrefixLen
  split
  · next hshort =>
    refine ⟨⟨rfl, ?_, h.ending⟩, ?_, ?_, rfl, rfl, rfl, rfl⟩
    · simp only [length_append]
      omega
    · simp only [pending, unused]
      rw [take_append_of_le_length hnr]
    · simp only [length_append, length_replicate]
      omega
  · exact ⟨h, rfl, by omega, rfl, rfl, rfl, rfl⟩

/-- After the shift the rest stands at the beginning. -/
theorem shift_spec (h : st.OK) {frameSize : Nat} (hnr : frameSize + 8 ≤ st.nr) :
    (st.shift frameSize).OK ∧ (st.shift frameSize).pending = st.pending.drop (frameSize + 8) := by
  have hbound := h.nr
  have hlen := h.bufLen
  unfold shift stdWriterPrefixLen
  refine ⟨⟨?_, ?_, h.ending⟩, ?_⟩
  · simp only [length_append, length_drop]
    omega
  · simp only [length_append, length_drop]
    omega
  · simp only [pending, unused]
    rw [take_append_of_le_length (by rw [length_drop]; omega),
      drop_append_of_le_length (by rw [length_take]; omega), drop_take]

/-- A writer that takes everything. -/
def Writer.Open (w : Writer) : Prop := w.room = none

def Writer.add (w : Writer) (p : Bytes) : Writer := { w with got := w.got ++ p }

theorem add_add (w : Writer) (p q : Bytes) : (w.add p).add q = w.add (p ++ q) := by
  simp [Writer.add]

theorem add_nil (w : Writer) : w.add [] = w := by
  simp [Writer.add]

/-- Delivering a payload. -/
def State.deliver (t : StdType) (p : Bytes) (st : State) : State :=
  { st with
    dstout := st.dstout.add (payloads false [(t, p)])
    dsterr := st.dsterr.add (payloads true [(t, p)]) }

theorem open_write {w : Writer} (hw : w.Open) (p : Bytes) :
    w.write p = (p.length, none, w.add p) := by
  rcases w with ⟨got, room, err⟩
  change room = none at hw
  rw [hw]
  rfl

theorem write_spec (hout : st.dstout.Open) (herr : st.dsterr.Open) (t : StdType) (p : Bytes) :
    st.write t p = (p.length, none, st.deliver t p) := by
  cases t with
  | stderr =>
    simp [write, open_write herr, deliver, payloads, add_nil]
  | stdin | stdout =>
    simp [write, open_write hout, deliver, payloads, add_nil]

/-! ### The whole stream -/

/-- The beginning of a frame. -/
def Part (part : Bytes) : Prop :=
  ∃ x : StdType × Bytes, x.2.length < 2 ^ 32 ∧ part = (frame x).take part.length ∧
    part.length < (frame x).length

/-- What `StdCopy` returns after the frames. -/
def State.after (fs : List (StdType × Bytes)) (st : State) : Result :=
  ⟨st.written + Int64.ofNat (payloadBytes fs), none, st.dstout.add (payloads false fs),
    st.dsterr.add (payloads true fs)⟩

theorem copyLoop_part {st : State} (h : st.OK) (hbuf : 8 ≤ st.buf.length) (hpart : Part st.pending)
    (fuel : Nat) : copyLoop (fuel + 1) st = some (st.after []) := by
  have hafter : st.after [] = st.return_ st.written none := by
    simp only [State.after, payloads, payloadBytes, map_nil, sum_nil, flatMap_nil, add_nil, return_]
    rw [show Int64.ofNat 0 = 0 from rfl, Int64.add_zero]
  rcases hpart with ⟨⟨t, p⟩, hp, hprefix, hshort⟩
  by_cases hhead : st.pending.length < 8
  · rcases fill_ended h hbuf hhead with ⟨st', hfill, hk⟩
    simp only [copyLoop, stdWriterPrefixLen, hfill, hafter, return_, hk.written, hk.dstout,
      hk.dsterr]
  rcases fill_full h hbuf (Nat.le_of_not_lt hhead) with ⟨st', hfill, hk, hnr⟩
  have htake : st'.pending.take 8 = header t p.length := by
    have hframe := take_frame (t, p) []
    rw [append_nil] at hframe
    rw [hk.pending, hprefix, take_take, Nat.min_eq_left (by omega), hframe]
  rcases header_of_pending hk.ok hnr hp htake with ⟨hfd, hsize⟩
  rcases extend_spec hk.ok p.length with ⟨hok, hpend, hlen, _, hwritten, hout, herr⟩
  have hless : (st'.extend p.length).pending.length < p.length + 8 := by
    rw [hpend, hk.pending]
    exact hshort
  rcases fill_ended hok hlen hless with ⟨st2, hfill2, hk2⟩
  simp only [copyLoop, stdWriterPrefixLen, hfill, hfd, hsize, hfill2, hafter, return_,
    hk2.written, hk2.dstout, hk2.dsterr, hwritten, hout, herr, hk.written, hk.dstout, hk.dsterr]

theorem after_cons (st : State) (t : StdType) (p : Bytes) (fs : List (StdType × Bytes)) :
    ({ st.deliver t p with written := st.written + Int64.ofNat p.length } : State).after fs =
      st.after ((t, p) :: fs) := by
  have hsum : payloadBytes ((t, p) :: fs) = p.length + payloadBytes fs := by
    simp only [payloadBytes, map_cons, sum_cons]
  have hpay : ∀ err, payloads err ((t, p) :: fs) = payloads err [(t, p)] ++ payloads err fs := by
    intro err
    simp only [payloads, flatMap_cons, flatMap_nil, append_nil]
  simp only [State.after, State.deliver, hsum, hpay, add_add, Int64.ofNat_add, Int64.add_assoc]

/-- One round of the loop, with a complete frame at the beginning. -/
theorem copyLoop_frame (h : st.OK) (hbuf : 8 ≤ st.buf.length) (hout : st.dstout.Open)
    (herr : st.dsterr.Open) {x : StdType × Bytes} {rest : Bytes} (hx : x.2.length < 2 ^ 32)
    (hpend : st.pending = frame x ++ rest) (fuel : Nat) :
    ∃ st', copyLoop (fuel + 1) st = copyLoop fuel st' ∧ st'.OK ∧ 8 ≤ st'.buf.length ∧
      st'.pending = rest ∧ st'.written = st.written + Int64.ofNat x.2.length ∧
      st'.dstout = (st.deliver x.1 x.2).dstout ∧ st'.dsterr = (st.deliver x.1 x.2).dsterr := by
  rcases x with ⟨t, p⟩
  have hlength : (frame (t, p)).length = p.length + 8 := frame_length (t, p)
  have hlen : st.pending.length = p.length + 8 + rest.length := by
    rw [hpend, length_append, hlength]
  rcases fill_full h hbuf (by omega) with ⟨st1, hfill1, hk1, hnr1⟩
  have htake : st1.pending.take 8 = header t p.length := by
    rw [hk1.pending, hpend, take_frame]
  rcases header_of_pending hk1.ok hnr1 hx htake with ⟨hfd, hsize⟩
  rcases extend_spec hk1.ok p.length with ⟨hok2, hpend2, hlen2, _, hwritten2, hout2, herr2⟩
  have henough : p.length + 8 ≤ (st1.extend p.length).pending.length := by
    rw [hpend2, hk1.pending]
    omega
  rcases fill_full hok2 hlen2 henough with ⟨st3, hfill3, hk3, hnr3⟩
  have hpend3 : st3.pending = frame (t, p) ++ rest := by
    rw [hk3.pending, hpend2, hk1.pending, hpend]
  -- The payload stands in the buffer behind the header.
  have hpayload : (st3.buf.drop 8).take p.length = p := by
    have hframe : st3.buf.take (p.length + 8) = frame (t, p) := by
      rw [buf_take hk3.ok hnr3, hpend3]
      exact take_left' hlength
    have hdrop : (st3.buf.take (p.length + 8)).drop 8 = (st3.buf.drop 8).take p.length := by
      rw [drop_take, Nat.add_sub_cancel]
    rw [← hdrop, hframe, drop_frame]
  have hout3 : st3.dstout = st.dstout := by rw [hk3.dstout, hout2, hk1.dstout]
  have herr3 : st3.dsterr = st.dsterr := by rw [hk3.dsterr, herr2, hk1.dsterr]
  have hwrite := write_spec (show st3.dstout.Open by rw [hout3]; exact hout)
    (show st3.dsterr.Open by rw [herr3]; exact herr) t p
  let st4 : State := { st3.deliver t p with written := st3.written + Int64.ofNat p.length }
  have hok4 : st4.OK := ⟨hk3.ok.bufLen, hk3.ok.nr, hk3.ok.ending⟩
  rcases shift_spec hok4 (show p.length + 8 ≤ st4.nr from hnr3) with ⟨hok5, hpend5⟩
  refine ⟨st4.shift p.length, ?_, hok5, ?_, ?_, ?_, ?_, ?_⟩
  · simp only [copyLoop, stdWriterPrefixLen, hfill1, hfd, hsize, hfill3, hpayload, hwrite, ne_eq,
      not_true_eq_false, if_false, st4]
    rfl
  · have hroom : 8 ≤ st3.buf.length := by
      rw [hk3.length]
      omega
    have hkeep : (st4.shift p.length).buf.length = st3.buf.length := by
      change (st3.buf.drop (p.length + 8) ++
        st3.buf.drop (st3.buf.length - (p.length + 8))).length = st3.buf.length
      simp only [length_append, length_drop]
      omega
    rw [hkeep]
    exact hroom
  · rw [hpend5, show st4.pending = st3.pending from rfl, hpend3]
    exact drop_left' hlength
  · change st3.written + _ = _
    rw [hk3.written, hwritten2, hk1.written]
  · change st3.dstout.add _ = st.dstout.add _
    rw [hout3]
  · change st3.dsterr.add _ = st.dsterr.add _
    rw [herr3]

theorem copyLoop_spec {part : Bytes} {fuel : Nat} (h : st.OK) (hbuf : 8 ≤ st.buf.length)
    (hout : st.dstout.Open) (herr : st.dsterr.Open) (hfs : ∀ x ∈ fs, x.2.length < 2 ^ 32)
    (hpart : Part part) (hpend : st.pending = encode fs ++ part) (hfuel : fs.length < fuel) :
    copyLoop fuel st = some (st.after fs) := by
  induction fs generalizing st fuel with
  | nil =>
    cases fuel with
    | zero => nomatch hfuel
    | succ fuel =>
      exact copyLoop_part h hbuf (hpend ▸ hpart) fuel
  | cons x fs ih =>
    rcases fuel with _ | fuel
    · nomatch hfuel
    rw [encode, flatMap_cons, append_assoc] at hpend
    rcases copyLoop_frame h hbuf hout herr (hfs x mem_cons_self) hpend fuel with
      ⟨st', hstep, hok', hbuf', hpend', hwritten', hout', herr'⟩
    have hrest := ih hok' hbuf' (by rw [hout']; exact hout)
      (by rw [herr']; exact herr) (forall_mem_cons.mp hfs).2 hpend'
      (lt_of_succ_lt_succ hfuel)
    rw [hstep, hrest, ← after_cons st x.1 x.2 fs]
    simp [State.after, hwritten', hout', herr', State.deliver]

/-! ### Writing and cutting -/

/-- The frames a list of writes sends: a nil slice sends none. -/
def framesOf (ws : List (StdType × Option Bytes)) : List (StdType × Bytes) :=
  ws.filterMap fun x => x.2.map (fun p => (x.1, p))

theorem writeAll_spec (ws : List (StdType × Option Bytes)) {w : Writer} (hw : w.Open) :
    writeAll ws (some w) = some (w.add (encode (framesOf ws))) := by
  induction ws generalizing w with
  | nil => rw [writeAll, framesOf, filterMap_nil, encode, flatMap_nil, add_nil]
  | cons x ws ih =>
    rcases x with ⟨t, p⟩
    rcases p with _ | p
    · exact ih hw
    have hone : (stdWriterWrite t (some p) (some w)).2.2 = some (w.add (frame (t, p))) := by
      simp only [stdWriterWrite, open_write hw]
      rfl
    rw [writeAll, hone, ih (show (w.add (frame (t, p))).Open from hw), add_add]
    rfl

/-- The frames that lie within the first `n` bytes. -/
def complete : Nat → List (StdType × Bytes) → List (StdType × Bytes)
  | _, [] => []
  | n, x :: fs =>
    if (frame x).length ≤ n then x :: complete (n - (frame x).length) fs else []

theorem complete_sublist (n : Nat) (fs : List (StdType × Bytes)) : ∀ x ∈ complete n fs, x ∈ fs := by
  induction fs generalizing n with
  | nil => exact fun x hx => hx
  | cons y fs ih =>
    intro x hx
    rw [complete] at hx
    split at hx
    · rcases mem_cons.mp hx with hx | hx
      · rw [hx]
        exact mem_cons_self
      · exact mem_cons_of_mem y (ih _ x hx)
    · nomatch hx

theorem part_nil : Part [] := ⟨(.stdin, []), by decide, rfl, by decide⟩

/-- A cut stream is the complete frames and a beginning of the next. -/
theorem take_encode (hfs : ∀ x ∈ fs, x.2.length < 2 ^ 32) :
    ∃ part, Part part ∧ (encode fs).take n = encode (complete n fs) ++ part := by
  induction fs generalizing n with
  | nil => exact ⟨[], part_nil, take_nil⟩
  | cons x fs ih =>
    rw [encode, flatMap_cons, complete]
    by_cases hfit : (frame x).length ≤ n
    · rcases ih (n := n - (frame x).length) (forall_mem_cons.mp hfs).2 with
        ⟨part, hpart, htake⟩
      refine ⟨part, hpart, ?_⟩
      rw [if_pos hfit, encode, flatMap_cons, take_append, take_of_length_le hfit, append_assoc]
      exact congrArg (frame x ++ ·) htake
    · refine ⟨(frame x).take n, ⟨x, hfs x mem_cons_self, ?_, ?_⟩, ?_⟩
      · rw [length_take, Nat.min_eq_left (by omega)]
      · rw [length_take]
        omega
      · rw [if_neg hfit, take_append_of_le_length (by omega)]
        rfl

theorem encode_length (fs : List (StdType × Bytes)) : fs.length ≤ (encode fs).length := by
  induction fs with
  | nil => exact Nat.le_refl 0
  | cons x fs ih =>
    rw [encode, flatMap_cons, length_append, frame_length, length_cons]
    change fs.length ≤ (List.flatMap frame fs).length at ih
    omega

/-- `StdCopy` on a stream of frames and a beginning of one more. -/
theorem stdCopy_frames {part : Bytes} {dstout dsterr : Writer} {src : Source} (hout : dstout.Open)
    (herr : dsterr.Open) (hend : src.ending = .eof) (hfs : ∀ x ∈ fs, x.2.length < 2 ^ 32)
    (hpart : Part part) (hsrc : src.rest = encode fs ++ part) :
    stdCopy dstout dsterr src = some ⟨Int64.ofNat (payloadBytes fs), none,
      dstout.add (payloads false fs), dsterr.add (payloads true fs)⟩ := by
  have hlen : (List.replicate startingBufLen (0 : UInt8)).length = startingBufLen :=
    length_replicate
  have hcount := encode_length fs
  have hall : src.rest.length = (encode fs).length + part.length := by
    rw [hsrc, length_append]
  unfold stdCopy
  rw [copyLoop_spec ⟨hlen.symm, zero_le _, hend⟩ ?_ hout herr hfs hpart ?_ (by omega)]
  · simp [State.after]
  · change 8 ≤ (List.replicate startingBufLen (0 : UInt8)).length
    rw [hlen, startingBufLen]
    omega
  · simp only [pending, unused, take_zero, nil_append]
    exact hsrc

/-- For every sequence of writes, every way to cut the stream into reads and
    both ways to end it, `StdCopy` delivers the payloads of each writer in order
    and returns their total length. Of a stream that is cut off it delivers the
    complete frames. -/
theorem stdCopy_roundTrip (ws : List (StdType × Option Bytes))
    (hws : ∀ t p, (t, some p) ∈ ws → p.length < 2 ^ 32) :
    ∃ stream : Writer, writeAll ws (some ⟨[], none, none⟩) = some stream ∧
      ∀ (n : Nat) (sizes : List Nat) (withLast : Bool),
        stdCopy ⟨[], none, none⟩ ⟨[], none, none⟩ ⟨stream.got, sizes, .eof, withLast⟩ =
          some ⟨Int64.ofNat (payloadBytes (framesOf ws)), none,
            ⟨payloads false (framesOf ws), none, none⟩,
            ⟨payloads true (framesOf ws), none, none⟩⟩ ∧
        stdCopy ⟨[], none, none⟩ ⟨[], none, none⟩ ⟨stream.got.take n, sizes, .eof, withLast⟩ =
          some ⟨Int64.ofNat (payloadBytes (complete n (framesOf ws))), none,
            ⟨payloads false (complete n (framesOf ws)), none, none⟩,
            ⟨payloads true (complete n (framesOf ws)), none, none⟩⟩ := by
  have hfs : ∀ x ∈ framesOf ws, x.2.length < 2 ^ 32 := by
    intro x hx
    rcases mem_filterMap.mp hx with ⟨⟨t, p⟩, hmem, hp⟩
    rcases Option.map_eq_some_iff.mp hp with ⟨q, hq, rfl⟩
    simp only [] at hq
    rw [hq] at hmem
    exact hws t q hmem
  have hopen : (⟨[], none, none⟩ : Writer).Open := rfl
  have hadd : ∀ p : Bytes, (⟨[], none, none⟩ : Writer).add p = ⟨p, none, none⟩ := fun p => rfl
  refine ⟨_, writeAll_spec ws hopen, ?_⟩
  intro n sizes withLast
  constructor
  · rw [stdCopy_frames hopen hopen rfl hfs part_nil (append_nil _).symm, hadd, hadd]
  -- A cut stream ends in the beginning of a frame, which is not delivered.
  rcases take_encode (n := n) hfs with ⟨part, hpart, htake⟩
  have hcut : ∀ x ∈ complete n (framesOf ws), x.2.length < 2 ^ 32 :=
    fun x hx => hfs x (complete_sublist n _ x hx)
  rw [stdCopy_frames hopen hopen rfl hcut hpart htake, hadd, hadd]

/-- Two writes, of which a cut leaves one. -/
theorem stdCopy_roundTrip_cut : ∃ stream : Writer,
      writeAll [(.stdout, some [104, 105]), (.stderr, some [33])] (some ⟨[], none, none⟩) =
        some stream ∧
      stdCopy ⟨[], none, none⟩ ⟨[], none, none⟩ ⟨stream.got.take 12, [3, 1], .eof, true⟩ =
        some ⟨2, none, ⟨[104, 105], none, none⟩, ⟨[], none, none⟩⟩ := by
  have hws : ∀ (t : StdType) (p : Bytes),
      (t, some p) ∈ [(StdType.stdout, some [104, 105]), (.stderr, some [33])] →
      p.length < 2 ^ 32 := by
    intro t p hp
    simp only [mem_cons, Prod.mk.injEq, Option.some.injEq, not_mem_nil, or_false] at hp
    rcases hp with ⟨_, rfl⟩ | ⟨_, rfl⟩
    · decide
    · decide
  rcases stdCopy_roundTrip _ hws with ⟨stream, hstream, hall⟩
  exact ⟨stream, hstream, (hall 12 [3, 1] true).2⟩

end Dao.StdCopy
