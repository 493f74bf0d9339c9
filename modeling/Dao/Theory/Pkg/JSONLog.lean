import Dao.Core.Pkg.JSONLog
import Dao.Lib.Json

/-!
# Reading the Log Back

What the JSON log writes for a string is a literal without a raw control
character or quote, and it is read back as the string with each invalid byte
replaced. A record is one line, and is read back as what was logged.

The loop that writes a literal keeps a run of bytes that it has passed and not
written. `writeLoop_spec` gets rid of the run: the loop writes what `body`
writes character by character. Each character is then a `Piece`, which says all
that is needed of it once, for the whole literal by `decode_induction`.

## Theorems

* `decode_quoted`: A string is read back.
* `jsonLogs_roundTrip`: A record of encoded parts is.
* `jsonLog_roundTrip`: A record is.
-/

namespace Dao.JSONLog

open Lib Utf8 Json JSONLogs List

/-! ### The loop -/

/-- The inside of the literal, character by character. -/
def body : Bytes → Bytes
  | [] => []
  | b :: s =>
    if b.toNat < 0x80 then (if copied b = true then [b] else escape b) ++ body s
    else
      let x := decodeRune (b :: s)
      if Invalid x then [92, 117, 102, 102, 102, 100] ++ body s
      else (if x.1 = 0x2028 ∨ x.1 = 0x2029 then [92, 117, 50, 48, 50, hex (x.1 % 16)]
        else (b :: s).take x.2) ++ body (s.drop (x.2 - 1))
  termination_by s => s.length
  decreasing_by
    · exact Nat.lt_succ_self _
    · exact Nat.lt_succ_self _
    · rw [length_drop, length_cons]
      omega

theorem body_nil : body [] = [] := by
  rw [body]

variable {b : UInt8} {s bs rest time : Bytes} {c : Nat} {mj : JSONLogs}
  {attrs : List (Bytes × Bytes)}

theorem body_ascii (h : b.toNat < 0x80) (s : Bytes) :
    body (b :: s) = (if copied b = true then [b] else escape b) ++ body s := by
  rw [body, if_pos h]

theorem body_invalid (hb : 0x80 ≤ b.toNat) (h : decodeRune (b :: s) = (runeError, 1)) :
    body (b :: s) = [92, 117, 102, 102, 102, 100] ++ body s := by
  rw [body, if_neg (Nat.not_lt.mpr hb), h, if_pos (show Invalid (runeError, 1) from ⟨rfl, rfl⟩)]

theorem body_char (h : IsChar c bs) (hlen : 2 ≤ bs.length) (rest : Bytes) :
    body (bs ++ rest) = (if c = 0x2028 ∨ c = 0x2029 then [92, 117, 50, 48, 50, hex (c % 16)]
      else bs) ++ body rest := by
  have hdecode := h.decode rest
  have hnot := h.not_invalid
  have hhigh := h.high hlen
  have htake : (bs ++ rest).take bs.length = bs := take_left' rfl
  rcases bs with _ | ⟨b, bs⟩
  · exact absurd hlen (by decide)
  have hdrop : (bs ++ rest).drop (bs.length + 1 - 1) = rest := drop_left' rfl
  rw [cons_append] at hdecode htake ⊢
  rw [body, if_neg (Nat.not_lt.mpr (hhigh b mem_cons_self)), hdecode, if_neg hnot]
  simp only [length_cons] at htake ⊢
  rw [htake, hdrop]

theorem flush_eq (s : Bytes) (start i : Nat) (buf : Bytes) :
    flush s start i buf = buf ++ (s.take i).drop start := by
  unfold flush
  split
  · rfl
  next hle =>
  rw [drop_of_length_le, append_nil]
  rw [length_take]
  omega

theorem run_extend {start i : Nat} (hstart : start ≤ i) (hi : i ≤ s.length)
    (hdrop : s.drop i = bs ++ rest) :
    (s.take (i + bs.length)).drop start = (s.take i).drop start ++ bs ∧
      s.drop (i + bs.length) = rest := by
  have hs : s = s.take i ++ (bs ++ rest) := by rw [← hdrop, take_append_drop]
  have htake : (s.take i).length = i := by
    rw [length_take]
    exact Nat.min_eq_left hi
  have hlong : s.take (i + bs.length) = s.take i ++ bs := by
    have hfront : (s.take i ++ bs).length = i + bs.length := by rw [length_append, htake]
    have hall : s = (s.take i ++ bs) ++ rest := by rw [append_assoc, ← hs]
    calc s.take (i + bs.length) = ((s.take i ++ bs) ++ rest).take (i + bs.length) := by rw [← hall]
      _ = s.take i ++ bs := take_left' hfront
  constructor
  · rw [hlong, drop_append_of_le_length]
    rw [htake]
    exact hstart
  · rw [← drop_drop, hdrop]
    exact drop_left' rfl

theorem writeLoop_spec (s : Bytes) {fuel i start : Nat} {buf : Bytes} (hstart : start ≤ i)
    (hi : i ≤ s.length) (hfuel : s.length - i < fuel) :
    writeLoop decodeRune s fuel i start buf =
      some (buf ++ (s.take i).drop start ++ body (s.drop i)) := by
  induction fuel generalizing i start buf with
  | zero => nomatch hfuel
  | succ fuel ih =>
    cases hdrop : s.drop i with
    | nil =>
      have hend : i = s.length := by
        have hlen := congrArg length hdrop
        rw [length_drop, length_nil] at hlen
        omega
      simp only [writeLoop, hdrop, body_nil, append_nil]
      rw [hend, take_length]
      by_cases hlt : start < s.length
      · rw [if_pos hlt]
      · rw [if_neg hlt, drop_of_length_le (Nat.not_lt.mp hlt), append_nil]
    | cons b t =>
      have hlen : s.length - i = t.length + 1 := by
        rw [← length_drop, hdrop, length_cons]
      -- The two ways on: the run goes on over the bytes, or it is written and a new one begins.
      have hrun : ∀ bs rest, b :: t = bs ++ rest → 0 < bs.length →
          writeLoop decodeRune s fuel (i + bs.length) start buf =
            some (buf ++ (s.take i).drop start ++ (bs ++ body rest)) := by
        intro bs rest hsplit hpos
        have hlen' := congrArg length hsplit
        rw [length_cons, length_append] at hlen'
        rcases run_extend hstart hi (hdrop.trans hsplit) with ⟨htake, hrest⟩
        rw [ih (by omega) (by omega) (by omega), htake, hrest]
        simp
      have hflush : ∀ bs rest out, b :: t = bs ++ rest → 0 < bs.length →
          writeLoop decodeRune s fuel (i + bs.length) (i + bs.length) (flush s start i buf ++ out) =
            some (buf ++ (s.take i).drop start ++ (out ++ body rest)) := by
        intro bs rest out hsplit hpos
        have hlen' := congrArg length hsplit
        rw [length_cons, length_append] at hlen'
        rcases run_extend hstart hi (hdrop.trans hsplit) with ⟨_, hrest⟩
        have hempty : (s.take (i + bs.length)).drop (i + bs.length) = [] :=
          drop_of_length_le (by rw [length_take]; exact Nat.min_le_left _ _)
        rw [ih (Nat.le_refl _) (by omega) (by omega), hrest, flush_eq, hempty, append_nil]
        simp
      by_cases hb : b.toNat < 0x80
      · by_cases hcopied : copied b = true
        · rw [body_ascii hb, if_pos hcopied, ← hrun [b] t rfl Nat.zero_lt_one]
          simp only [writeLoop, hdrop, if_pos hb, if_pos hcopied, length_singleton]
        · rw [body_ascii hb, if_neg hcopied, ← hflush [b] t _ rfl Nat.zero_lt_one]
          simp only [writeLoop, hdrop, if_pos hb, if_neg hcopied, length_singleton]
      rcases decodeRune_cases b t with ⟨hinvalid, _⟩ | ⟨c, bs, rest, hsplit, hchar⟩
      · rw [body_invalid (Nat.not_lt.mp hb) hinvalid, ← hflush [b] t _ rfl Nat.zero_lt_one]
        simp only [writeLoop, hdrop, if_neg hb, hinvalid,
          if_pos (show Invalid (runeError, 1) from ⟨rfl, rfl⟩), length_singleton]
      have hlong : 2 ≤ bs.length := by
        have hpos := hchar.nonempty
        by_contra hshort
        rcases hchar.ascii (by omega) with ⟨b', hb', rfl⟩
        rw [singleton_append, cons.injEq] at hsplit
        rw [hsplit.1] at hb
        exact hb hb'
      have hdecode : decodeRune (b :: t) = (c, bs.length) := by
        rw [hsplit]
        exact hchar.decode rest
      rw [hsplit, body_char hchar hlong]
      simp only [writeLoop, hdrop, if_neg hb, hdecode, if_neg hchar.not_invalid]
      split
      · exact hflush bs rest _ hsplit hchar.nonempty
      · exact hrun bs rest hsplit hchar.nonempty

/-- The literal of a string. -/
def quoted (s : Bytes) : Bytes := 34 :: body s ++ [34]

theorem writeQuoted_eq (buf s : Bytes) : writeQuoted decodeRune buf s = some (buf ++ quoted s) := by
  rw [writeQuoted, writeLoop_spec s (Nat.le_refl 0) (Nat.zero_le _) (by omega)]
  simp [quoted]

/-! ### Reading a literal back -/

/-- The bytes of a literal that are not part of an escape. -/
def raw : Bytes → Bytes
  | [] => []
  | [b] => if b = backslash then [] else [b]
  | b :: c :: s => if b = backslash then raw s else b :: raw (c :: s)

theorem raw_cons (h : b ≠ backslash) (s : Bytes) : raw (b :: s) = b :: raw s := by
  cases s with
  | nil | cons c s => exact if_neg h

theorem raw_append (h : ∀ b ∈ bs, b ≠ backslash) (s : Bytes) : raw (bs ++ s) = bs ++ raw s := by
  induction bs with
  | nil => rfl
  | cons b bs ih =>
    rw [cons_append, raw_cons (h b mem_cons_self), ih (forall_mem_cons.mp h).2, cons_append]

/-- What is written for a character, and what it is read as. -/
structure Piece (out valid : Bytes) : Prop where
  reads : ∀ rest, character (out ++ rest) = some (valid, rest)
  head : ∀ rest, (out ++ rest).head? ≠ some quote
  printable : ∀ b ∈ out, 0x20 ≤ b.toNat
  raw : ∀ rest, ∀ b ∈ raw (out ++ rest), b = quote → b ∈ raw rest

theorem piece_copied {c : Nat} {bs : Bytes} (h : IsChar c bs)
    (hraw : ∀ b ∈ bs, 0x20 ≤ b.toNat ∧ b ≠ quote ∧ b ≠ backslash) : Piece bs bs where
  reads := character_isChar h hraw
  head := fun rest => by
    have hpos := h.nonempty
    cases bs with
    | nil => exact absurd hpos (Nat.lt_irrefl 0)
    | cons b bs =>
      intro heq
      exact (hraw b mem_cons_self).2.1 (Option.some.inj heq)
  printable := fun b hb => (hraw b hb).1
  raw := fun rest b hb hquote => by
    rw [raw_append (fun x hx => (hraw x hx).2.2)] at hb
    rcases mem_append.mp hb with hb | hb
    · exact absurd hquote (hraw b hb).2.1
    · exact hb

theorem piece_escape {e : UInt8} {ds valid : Bytes} (he : 0x20 ≤ e.toNat)
    (hds : ∀ b ∈ ds, 0x20 ≤ b.toNat ∧ b ≠ quote ∧ b ≠ backslash)
    (hreads : character (92 :: e :: ds) = some (valid, [])) : Piece (92 :: e :: ds) valid where
  reads := fun rest => character_append hreads rest
  head := fun rest heq => absurd (Option.some.inj heq) (by decide)
  printable := forall_mem_cons.mpr ⟨by decide, forall_mem_cons.mpr ⟨he, fun b hb => (hds b hb).1⟩⟩
  raw := fun rest b hb hquote => by
    have hskip : JSONLog.raw (92 :: e :: ds ++ rest) = ds ++ JSONLog.raw rest := by
      rw [← raw_append (fun x hx => (hds x hx).2.2) rest]
      exact if_pos rfl
    rw [hskip] at hb
    rcases mem_append.mp hb with hb | hb
    · exact absurd hquote (hds b hb).2.1
    · exact hb

theorem hex_spec : ∀ n < 16, hexVal (hex n) = some n ∧
    (0x20 ≤ (hex n).toNat ∧ hex n ≠ quote ∧ hex n ≠ backslash) := by
  decide

theorem unicode_small {r : Nat} (hhex : hex4 s = some (r, rest)) (hr : r < 0xD800) :
    unicode s = some (encodeRune r, rest) := by
  have hnot : ¬(0xD800 ≤ r ∧ r < 0xDC00) := by omega
  simp [unicode, hhex, if_neg hnot]

theorem piece_control (hb : b.toNat < 0x80) :
    Piece [92, 117, 48, 48, hex (b.toNat / 16), hex (b.toNat % 16)] [b] := by
  rcases hex_spec (b.toNat / 16) (by omega) with ⟨hhigh, hhigh'⟩
  rcases hex_spec (b.toNat % 16) (by omega) with ⟨hlow, hlow'⟩
  refine piece_escape (by decide) ?_ ?_
  · intro x hx
    simp only [mem_cons, not_mem_nil, or_false] at hx
    rcases hx with rfl | rfl | rfl | rfl
    · decide
    · decide
    · exact hhigh'
    · exact hlow'
  · have hzero : hexVal 48 = some 0 := rfl
    have hval : ((0 * 16 + 0) * 16 + b.toNat / 16) * 16 + b.toNat % 16 = b.toNat := by omega
    have hhex : hex4 [48, 48, hex (b.toNat / 16), hex (b.toNat % 16)] = some (b.toNat, []) := by
      simp only [hex4, hzero, hhigh, hlow, hval]
    change unicode [48, 48, hex (b.toNat / 16), hex (b.toNat % 16)] = _
    rw [unicode_small hhex (by omega), encodeRune_ascii hb]

theorem piece_ascii (hb : b.toNat < 0x80) :
    Piece (if copied b = true then [b] else escape b) [b] := by
  by_cases hcopied : copied b = true
  · rw [if_pos hcopied]
    simp only [copied, Bool.and_eq_true, decide_eq_true_eq] at hcopied
    refine piece_copied (isChar_ascii hb) ?_
    intro x hx
    rw [mem_singleton.mp hx]
    exact ⟨hcopied.1.1.1.1.1, hcopied.1.1.1.2, hcopied.1.1.1.1.2⟩
  -- Four bytes have an escape of their own, and the rest are written in hexadecimal.
  · rw [if_neg hcopied, escape]
    by_cases hself : b = 92 ∨ b = 34
    · rw [if_pos hself]
      rcases hself with rfl | rfl
      · exact piece_escape (by decide) (by simp) rfl
      · exact piece_escape (by decide) (by simp) rfl
    rw [if_neg hself]
    by_cases hnl : b = 10
    · rw [if_pos hnl, hnl]
      exact piece_escape (by decide) (by simp) rfl
    rw [if_neg hnl]
    by_cases hcr : b = 13
    · rw [if_pos hcr, hcr]
      exact piece_escape (by decide) (by simp) rfl
    rw [if_neg hcr]
    exact piece_control hb

theorem piece_invalid : Piece [92, 117, 102, 102, 102, 100] [0xEF, 0xBF, 0xBD] :=
  piece_escape (by decide) (all_iff_forall_prop.mp (by decide)) (by decide)

/-- A character of several bytes. The two separators are escaped. -/
theorem piece_char (h : IsChar c bs) (hlen : 2 ≤ bs.length) :
    Piece (if c = 0x2028 ∨ c = 0x2029 then [92, 117, 50, 48, 50, hex (c % 16)] else bs) bs := by
  by_cases hsep : c = 0x2028 ∨ c = 0x2029
  · rw [if_pos hsep, ← h.encode]
    rcases hsep with rfl | rfl
    · exact piece_escape (by decide) (all_iff_forall_prop.mp (by decide)) (by decide)
    · exact piece_escape (by decide) (all_iff_forall_prop.mp (by decide)) (by decide)
  · rw [if_neg hsep]
    refine piece_copied h fun b hb => ?_
    have hhigh := h.high hlen b hb
    refine ⟨by omega, ?_, ?_⟩
    · rintro rfl
      exact absurd hhigh (by decide)
    · rintro rfl
      exact absurd hhigh (by decide)

theorem literal_piece {out valid : Bytes} (h : Piece out valid) (rest : Bytes) (fuel : Nat) :
    literal (fuel + 1) (out ++ rest) = (literal fuel rest).map (fun x => (valid ++ x.1, x.2)) :=
  literal_character (h.reads rest) (h.head rest) fuel

/-- What holds of the inside of the literal of the string. -/
structure Reads (s : Bytes) : Prop where
  literal : ∀ {fuel : Nat}, (body s).length < fuel → ∀ rest,
    literal fuel (body s ++ quote :: rest) = some (toValid s, rest)
  printable : ∀ b ∈ body s, 0x20 ≤ b.toNat
  raw : quote ∉ raw (body s)

theorem reads_piece {s rest out valid : Bytes} (hpiece : Piece out valid)
    (hbody : body s = out ++ body rest) (hvalid : toValid s = valid ++ toValid rest)
    (h : Reads rest) : Reads s where
  literal := fun {fuel} hfuel tail => by
    have hpos : 0 < out.length := by
      have hreads := hpiece.reads []
      cases out with
      | nil => nomatch hreads
      | cons => exact Nat.succ_pos _
    rw [hbody, length_append] at hfuel
    obtain ⟨k, rfl⟩ : ∃ k, fuel = k + 1 := ⟨fuel - 1, by omega⟩
    rw [hbody, append_assoc, literal_piece hpiece, h.literal (by omega) tail, Option.map_some,
      hvalid]
  printable := by
    rw [hbody]
    exact forall_mem_append.mpr ⟨hpiece.printable, h.printable⟩
  raw := fun hquote => by
    rw [hbody] at hquote
    exact h.raw (hpiece.raw (body rest) quote hquote rfl)

theorem body_spec (s : Bytes) : Reads s := by
  induction s using decode_induction with
  | nil =>
    refine ⟨fun {fuel} hfuel rest => ?_, fun b hb => ?_, fun hquote => ?_⟩
    · obtain ⟨k, rfl⟩ : ∃ k, fuel = k + 1 := ⟨fuel - 1, by omega⟩
      rw [body_nil, toValid_nil]
      exact literal_quote k rest
    · simp [body_nil] at hb
    · rw [body_nil] at hquote
      nomatch hquote
  | invalid b s hdecode hb ih =>
    exact reads_piece piece_invalid (body_invalid hb hdecode) (toValid_invalid hdecode) ih
  | char c bs rest hchar ih =>
    by_cases hlen : 2 ≤ bs.length
    · exact reads_piece (piece_char hchar hlen) (body_char hchar hlen rest)
        (toValid_char hchar rest) ih
    have hpos := hchar.nonempty
    have hvalid := toValid_char hchar rest
    rcases hchar.ascii (by omega) with ⟨b, hb, rfl⟩
    exact reads_piece (piece_ascii hb) (body_ascii hb rest) hvalid ih

theorem printable_between {x y : UInt8} (hx : 0x20 ≤ x.toNat) (hy : 0x20 ≤ y.toNat)
    (h : ∀ b ∈ s, 0x20 ≤ b.toNat) : ∀ b ∈ x :: s ++ [y], 0x20 ≤ b.toNat := by
  rw [forall_mem_append, forall_mem_cons, forall_mem_singleton]
  exact ⟨⟨hx, h⟩, hy⟩

theorem quoted_printable (s : Bytes) : ∀ b ∈ quoted s, 0x20 ≤ b.toNat :=
  printable_between (by decide) (by decide) (body_spec s).printable

theorem decode_quoted (s : Bytes) : decode (quoted s) = some (.str (toValid s)) := by
  have hfuel : (body s).length < (body s ++ [34]).length + 1 := by
    rw [length_append]
    omega
  rw [decode_spec, quoted, cons_append, length_cons, value,
    if_pos (show (34 : UInt8) = quote from rfl)]
  have hlit := (body_spec s).literal hfuel []
  rw [show body s ++ quote :: [] = body s ++ [34] from rfl] at hlit
  simp only [hlit]

/-! ### Times -/

theorem appendInt_digits (n width : Nat) :
    ∀ b ∈ appendInt n width, 48 ≤ b.toNat ∧ b.toNat ≤ 57 := by
  intro b hb
  rw [appendInt, mem_append, mem_replicate, mem_map] at hb
  rcases hb with ⟨_, rfl⟩ | ⟨c, hc, rfl⟩
  · decide
  have hdigit := Nat.isDigit_of_mem_toDigits (by decide) (by decide) hc
  simp only [Char.isDigit, Bool.and_eq_true, decide_eq_true_eq, ge_iff_le,
    UInt32.le_iff_toNat_le] at hdigit
  have hrange : 48 ≤ c.toNat ∧ c.toNat ≤ 57 := hdigit
  rw [UInt8.toNat_ofNat_of_lt' (show c.toNat < 256 by omega)]
  exact hrange

/-- A string of characters that a literal holds as themselves. -/
theorem decode_plain (h : ∀ b ∈ s, Plain b) : decode (34 :: s ++ [34]) = some (.str s) := by
  have hfuel : s.length < (s ++ [34]).length + 1 := by
    rw [length_append]
    omega
  rw [decode_spec, cons_append, length_cons, value, if_pos (show (34 : UInt8) = quote from rfl)]
  have hlit := literal_plain h hfuel []
  rw [show s ++ quote :: [] = s ++ [34] from rfl] at hlit
  simp only [hlit]

theorem plain_digits (h : ∀ b ∈ s, 48 ≤ b.toNat ∧ b.toNat ≤ 57) : ∀ b ∈ s, Plain b := by
  intro b hb
  rcases h b hb with ⟨hlow, hhigh⟩
  refine ⟨by omega, by omega, ?_, ?_⟩
  · rintro rfl
    exact absurd hlow (by decide)
  · rintro rfl
    exact absurd hhigh (by decide)

theorem plain_appendInt (n width : Nat) : ∀ b ∈ appendInt n width, Plain b :=
  plain_digits (appendInt_digits n width)

theorem plain_fraction (n : Nat) : ∀ b ∈ fraction n, Plain b := by
  intro b hb
  unfold fraction at hb
  simp only [] at hb
  split at hb
  · nomatch hb
  rcases mem_cons.mp hb with rfl | hb
  · exact ⟨by decide, by decide, by decide, by decide⟩
  · rw [mem_reverse] at hb
    exact plain_appendInt n 9 b (mem_reverse.mp ((dropWhile_suffix _).mem hb))

theorem plain_mark (h : b = 45 ∨ b = 84 ∨ b = 58 ∨ b = 90 ∨ b = 43) : ∀ x ∈ [b], Plain x := by
  intro x hx
  rw [mem_singleton.mp hx]
  rcases h with rfl | rfl | rfl | rfl | rfl
  all_goals exact ⟨by decide, by decide, by decide, by decide⟩

/-- What `formatJSON` prints between the quotes. -/
def formatted (t : Time) : Bytes :=
  appendInt t.year.toNat 4 ++ [45] ++ appendInt t.month 2 ++ [45] ++ appendInt t.day 2 ++
    [84] ++ appendInt t.hour 2 ++ [58] ++ appendInt t.minute 2 ++ [58] ++ appendInt t.second 2 ++
    fraction t.nanosecond ++
    (if t.zone = 0 then [90]
      else [if t.zone < 0 then 45 else 43] ++ appendInt (t.zone.natAbs / 60) 2 ++ [58] ++
        appendInt (t.zone.natAbs % 60) 2)

theorem formatJSON_eq (t : Time) : formatJSON t = 34 :: formatted t ++ [34] := by
  simp [formatJSON, formatted]

theorem plain_formatted (t : Time) : ∀ b ∈ formatted t, Plain b := by
  have hsign : ∀ b ∈ [if t.zone < 0 then (45 : UInt8) else 43], Plain b := by
    split
    · exact plain_mark (by decide)
    · exact plain_mark (by decide)
  have hzone : ∀ b ∈ (if t.zone = 0 then [90]
      else [if t.zone < 0 then 45 else 43] ++ appendInt (t.zone.natAbs / 60) 2 ++ [58] ++
        appendInt (t.zone.natAbs % 60) 2), Plain b := by
    split
    · exact plain_mark (by decide)
    · simp only [forall_mem_append]
      exact ⟨⟨⟨hsign, plain_appendInt _ _⟩, plain_mark (by decide)⟩, plain_appendInt _ _⟩
  have hdash := plain_mark (show (45 : UInt8) = 45 ∨ _ from .inl rfl)
  have hcolon : ∀ b ∈ [(58 : UInt8)], Plain b := plain_mark (by decide)
  have ht : ∀ b ∈ [(84 : UInt8)], Plain b := plain_mark (by decide)
  unfold formatted
  rw [forall_mem_append]
  refine ⟨?_, hzone⟩
  simp only [forall_mem_append]
  refine ⟨⟨⟨⟨⟨⟨⟨⟨⟨⟨⟨?_, hdash⟩, ?_⟩, hdash⟩, ?_⟩, ht⟩, ?_⟩, hcolon⟩, ?_⟩, hcolon⟩, ?_⟩,
    plain_fraction _⟩
  all_goals exact plain_appendInt _ _

/-- A text as an encoder writes it: it is read, and is on one line. -/
structure Encoded (text : Bytes) (v : Json) : Prop where
  reads : decode text = some v
  printable : ∀ b ∈ text, 0x20 ≤ b.toNat

theorem encoded_quoted (s : Bytes) : Encoded (quoted s) (.str (toValid s)) :=
  ⟨decode_quoted s, quoted_printable s⟩

theorem encoded_time {t : Time} {timestamp : Bytes} (h : fastTimeMarshalJSON t = .ok timestamp) :
    Encoded timestamp (.str (formatted t)) := by
  unfold fastTimeMarshalJSON at h
  split at h
  · nomatch h
  rw [Except.ok.injEq, formatJSON_eq] at h
  rw [← h]
  exact ⟨decode_plain (plain_formatted t),
    printable_between (by decide) (by decide) fun b hb => (plain_formatted t b hb).1⟩

/-! ### Records -/

/-- A member that is written unless the text is empty. -/
def member (name : String) (written : Bool) (text : Bytes) : List (Bytes × Bytes) :=
  if written then [(ascii name, text)] else []

/-- The members of a record. -/
def JSONLogs.members (mj : JSONLogs) : List (Bytes × Bytes) :=
  member "log" (mj.log ≠ []) (quoted mj.log) ++
    member "stream" (mj.stream ≠ []) (quoted mj.stream) ++
    member "attrs" (mj.rawAttrs ≠ []) mj.rawAttrs ++ [(ascii "time", mj.created)]

theorem jsonLogs_text (mj : JSONLogs) (buf : Bytes) :
    mj.marshalJSONBuf buf = some (buf ++ (123 :: membersText mj.members ++ [125])) := by
  unfold marshalJSONBuf JSONLogs.members ffjsonWriteJSONBytesAsString ffjsonWriteJSONString
  by_cases hlog : mj.log = []
  all_goals by_cases hstream : mj.stream = []
  all_goals by_cases hattrs : mj.rawAttrs = []
  all_goals
    simp [hlog, hstream, hattrs, writeQuoted_eq, writeName, member, membersText, memberText, quote]

/-- The attributes as an object. -/
def attrsJson (attrs : List (Bytes × Bytes)) : Json := .obj (attrs.map (fun x => (x.1, .str x.2)))

/-- The content of `RawAttrs`: nothing, or the attributes, encoded. -/
def EncodedAttrs (text : Bytes) (attrs : List (Bytes × Bytes)) : Prop :=
  text = [] ∧ attrs = [] ∨ Encoded text (attrsJson attrs)

/-- What a record says. -/
structure Logged where
  log : Bytes
  stream : Bytes
  attrs : List (Bytes × Bytes)
  time : Bytes
  deriving DecidableEq

/-- A member that is a string, or the empty one. -/
def strField (name : String) (ms : List (Bytes × Json)) : Bytes :=
  match ms.lookup (ascii name) with
  | some (.str x) => x
  | _ => []

/-- A member that is an object of strings, or the empty one. -/
def attrsField (name : String) (ms : List (Bytes × Json)) : List (Bytes × Bytes) :=
  match ms.lookup (ascii name) with
  | some (.obj as) => as.filterMap (fun x =>
    match x.2 with
    | .str y => some (x.1, y)
    | .obj _ => none)
  | _ => []

/-- `json.Unmarshal` into a `JSONLog`. -/
def unmarshal (text : Bytes) : Option Logged :=
  match decode text with
  | some (.obj ms) =>
    some ⟨strField "log" ms, strField "stream" ms, attrsField "attrs" ms, strField "time" ms⟩
  | _ => none

/-- The values of the members of a record. -/
def JSONLogs.values (mj : JSONLogs) (attrs : List (Bytes × Bytes)) (time : Bytes) :
    List (Bytes × Json) :=
  (if mj.log ≠ [] then [(ascii "log", .str (toValid mj.log))] else []) ++
    (if mj.stream ≠ [] then [(ascii "stream", .str (toValid mj.stream))] else []) ++
    (if mj.rawAttrs ≠ [] then [(ascii "attrs", attrsJson attrs)] else []) ++
    [(ascii "time", .str time)]

theorem texts_append {ms ms' : List (Bytes × Bytes)} {xs xs' : List (Bytes × Json)}
    (h : Texts ms xs) (h' : Texts ms' xs') : Texts (ms ++ ms') (xs ++ xs') := by
  induction h with
  | nil => exact h'
  | cons hm _ ih => exact .cons hm ih

theorem plain_name {name : String}
    (h : name = "log" ∨ name = "stream" ∨ name = "attrs" ∨ name = "time") :
    ∀ b ∈ ascii name, Plain b := by
  unfold Plain
  rcases h with rfl | rfl | rfl | rfl
  all_goals exact all_iff_forall_prop.mp (by decide)

theorem texts_member (name : String)
    (hname : name = "log" ∨ name = "stream" ∨ name = "attrs" ∨ name = "time") {written : Bool}
    {text : Bytes} {v : Json} (h : written = true → Encoded text v) :
    Texts (member name written text) (if written = true then [(ascii name, v)] else []) := by
  unfold member
  split
  · next hw => exact .cons ⟨rfl, plain_name hname, (h hw).reads⟩ .nil
  · exact .nil

theorem texts_members (hattrs : EncodedAttrs mj.rawAttrs attrs)
    (htime : Encoded mj.created (.str time)) :
    Texts mj.members (mj.values attrs time) := by
  have hraw : decide (mj.rawAttrs ≠ []) = true → Encoded mj.rawAttrs (attrsJson attrs) := by
    intro hne
    rcases hattrs with ⟨hempty, _⟩ | hencoded
    · exact absurd hempty (of_decide_eq_true hne)
    · exact hencoded
  have hlast : Texts [(ascii "time", mj.created)] [(ascii "time", .str time)] :=
    .cons ⟨rfl, plain_name (by decide), htime.reads⟩ .nil
  have h := texts_append (texts_append (texts_append
    (texts_member "log" (by decide) (fun (_ : decide (mj.log ≠ []) = true) =>
      encoded_quoted mj.log))
    (texts_member "stream" (by decide) (fun (_ : decide (mj.stream ≠ []) = true) =>
      encoded_quoted mj.stream))) (texts_member "attrs" (by decide) hraw)) hlast
  simp only [decide_eq_true_eq] at h
  exact h

theorem lookup_optional {key key' : Bytes} {v : Json} {c : Prop} [Decidable c]
    (rest : List (Bytes × Json)) :
    ((if c then [(key', v)] else []) ++ rest).lookup key =
      if c ∧ key = key' then some v else rest.lookup key := by
  by_cases hc : c
  · rw [if_pos hc, singleton_append, lookup_cons]
    by_cases hkey : key = key'
    · rw [if_pos ⟨hc, hkey⟩, beq_iff_eq.mpr hkey]
    · rw [if_neg fun h => hkey h.2, beq_eq_false_iff_ne.mpr hkey]
  · rw [if_neg hc, if_neg fun h => hc h.1, nil_append]

theorem lookup_last (key key' : Bytes) (v : Json) :
    lookup key [(key', v)] = if key = key' then some v else none := by
  have h := @lookup_optional key key' v True _ []
  simpa only [if_true, append_nil, true_and, lookup_nil] using h

theorem values_logged (mj : JSONLogs) (time : Bytes) (hattrs : EncodedAttrs mj.rawAttrs attrs) :
    strField "log" (mj.values attrs time) = toValid mj.log ∧
      strField "stream" (mj.values attrs time) = toValid mj.stream ∧
      attrsField "attrs" (mj.values attrs time) = attrs ∧
      strField "time" (mj.values attrs time) = time := by
  have hattrs' : attrsField "attrs" (mj.values attrs time) = attrs := by
    have hfilter : (attrs.map fun x => (x.1, Json.str x.2)).filterMap (fun x =>
        match x.2 with
        | .str y => some (x.1, y)
        | .obj _ => none) = attrs := by
      rw [filterMap_map]
      exact filterMap_some
    unfold attrsField values
    simp +decide only [append_assoc, lookup_optional, lookup_last, and_false, and_true, if_false]
    -- Without attributes the member is missing, and none are read.
    by_cases hraw : mj.rawAttrs = []
    · rcases hattrs with ⟨_, rfl⟩ | hencoded
      · simp [hraw]
      · rw [hraw] at hencoded
        nomatch hencoded.reads
    · simp [hraw, attrsJson, hfilter]
  refine ⟨?_, ?_, hattrs', ?_⟩
  · unfold strField values
    simp +decide only [append_assoc, lookup_optional, lookup_last, and_false, and_true, if_false]
    by_cases hlog : mj.log = []
    · simp [hlog]
    · simp [hlog]
  · unfold strField values
    simp +decide only [append_assoc, lookup_optional, lookup_last, and_false, and_true, if_false]
    by_cases hstream : mj.stream = []
    · simp [hstream]
    · simp [hstream]
  · unfold strField values
    simp +decide only [append_assoc, lookup_optional, lookup_last, and_false, if_false, if_true]

theorem membersText_printable {ms : List (Bytes × Bytes)}
    (h : ∀ m ∈ ms, ∀ b ∈ m.1 ++ m.2, 0x20 ≤ b.toNat) : ∀ b ∈ membersText ms, 0x20 ≤ b.toNat := by
  have hone : ∀ m ∈ ms, ∀ b ∈ memberText m, 0x20 ≤ b.toNat := by
    intro m hm b hb
    rw [memberText, cons_append, mem_cons, mem_append, mem_cons, mem_cons] at hb
    rcases hb with rfl | hb | rfl | rfl | hb
    · decide
    · exact h m hm b (mem_append_left _ hb)
    · decide
    · decide
    · exact h m hm b (mem_append_right _ hb)
  clear h
  induction ms with
  | nil =>
    intro b hb
    cases hb
  | cons m ms ih =>
    -- Members are separated by commas, so the last one is a case of its own.
    rcases ms with _ | _
    · exact hone m mem_cons_self
    intro b hb
    rw [membersText, mem_append, mem_cons] at hb
    · rcases hb with hb | rfl | hb
      · exact hone m mem_cons_self b hb
      · decide
      · exact ih (forall_mem_cons.mp hone).2 b hb
    · intro hc
      cases hc

theorem record_printable (hattrs : EncodedAttrs mj.rawAttrs attrs)
    (htime : Encoded mj.created (.str time)) :
    ∀ b ∈ 123 :: membersText mj.members ++ [125], 0x20 ≤ b.toNat := by
  have hmember : ∀ (name : String) (written : Bool) (text : Bytes),
      (name = "log" ∨ name = "stream" ∨ name = "attrs" ∨ name = "time") →
      (∀ b ∈ text, 0x20 ≤ b.toNat) →
      ∀ m ∈ member name written text, ∀ b ∈ m.1 ++ m.2, 0x20 ≤ b.toNat := by
    intro name written text hname htext m hm
    unfold member at hm
    split at hm
    · rw [mem_singleton.mp hm]
      exact forall_mem_append.mpr ⟨fun b hb => (plain_name hname b hb).1, htext⟩
    · nomatch hm
  have hraw : ∀ b ∈ mj.rawAttrs, 0x20 ≤ b.toNat := by
    rcases hattrs with ⟨hempty, _⟩ | hencoded
    · rw [hempty]
      exact nofun
    · exact hencoded.printable
  -- The names are plain, and the texts are quoted or encoded.
  have hall : ∀ m ∈ mj.members, ∀ b ∈ m.1 ++ m.2, 0x20 ≤ b.toNat := by
    intro m hm
    unfold JSONLogs.members at hm
    simp only [mem_append] at hm
    rcases hm with ((hm | hm) | hm) | hm
    · exact hmember "log" _ _ (by decide) (quoted_printable _) m hm
    · exact hmember "stream" _ _ (by decide) (quoted_printable _) m hm
    · exact hmember "attrs" _ _ (by decide) hraw m hm
    · exact hmember "time" true _ (by decide) htime.printable m hm
  exact printable_between (by decide) (by decide) (membersText_printable hall)

/-- A record of encoded parts. -/
theorem jsonLogs_roundTrip (hattrs : EncodedAttrs mj.rawAttrs attrs)
    (htime : Encoded mj.created (.str time)) (buf : Bytes) :
    ∃ record, mj.marshalJSONBuf buf = some (buf ++ record) ∧ (∀ b ∈ record, 0x20 ≤ b.toNat) ∧
      unmarshal record = some ⟨toValid mj.log, toValid mj.stream, attrs, time⟩ := by
  refine ⟨_, jsonLogs_text mj buf, record_printable hattrs htime, ?_⟩
  have hne : mj.members ≠ [] := by
    exact append_ne_nil_of_right_ne_nil _ (cons_ne_nil _ _)
  rcases values_logged mj time hattrs with ⟨hlog, hstream, hattrs', htime'⟩
  simp only [unmarshal, decode_object (texts_members hattrs htime) hne, hlog, hstream, hattrs',
    htime']

/-- The two functions write the same literal for the same bytes, in which no
    control character stands and no quote stands unescaped but the two at its
    ends, and it is read as the bytes with each invalid one replaced. A record is
    one line, and is read as the message, the stream, the attributes and the time
    of which it was made. -/
theorem jsonLog_roundTrip : (∀ buf s : Bytes, ∃ inside,
      ffjsonWriteJSONString buf s = some (buf ++ (quote :: inside ++ [quote])) ∧
      ffjsonWriteJSONBytesAsString buf s = ffjsonWriteJSONString buf s ∧
      (∀ b ∈ inside, 0x20 ≤ b.toNat) ∧ quote ∉ raw inside ∧
      decode (quote :: inside ++ [quote]) = some (.str (toValid s))) ∧
    (∀ (log stream buf timestamp rawAttrs : Bytes) (t : Time) (attrs : List (Bytes × Bytes)),
      fastTimeMarshalJSON t = .ok timestamp → EncodedAttrs rawAttrs attrs →
      ∃ record, marshalJSONBuf ⟨log, stream, timestamp, rawAttrs⟩ buf = some (buf ++ record) ∧
        (∀ b ∈ record, 0x20 ≤ b.toNat) ∧
        unmarshal record = some ⟨toValid log, toValid stream, attrs, formatted t⟩) := by
  constructor
  · intro buf s
    exact ⟨body s, writeQuoted_eq buf s, rfl, (body_spec s).printable, (body_spec s).raw,
      decode_quoted s⟩
  · intro log stream buf timestamp rawAttrs t attrs ht hattrs
    exact jsonLogs_roundTrip hattrs (encoded_time ht) buf

/-- A record with a newline in the message and an attribute. -/
theorem jsonLog_roundTrip_attrs : ∃ record, marshalJSONBuf
        ⟨ascii "hi" ++ [10], ascii "stdout", formatJSON ⟨2016, 2, 3, 4, 5, 6, 7, 0⟩,
          [123, 34, 97, 34, 58, 34, 98, 34, 125]⟩ [] = some record ∧
      (∀ b ∈ record, 0x20 ≤ b.toNat) ∧
      unmarshal record = some ⟨toValid (ascii "hi" ++ [10]), toValid (ascii "stdout"),
        [(ascii "a", ascii "b")], formatted ⟨2016, 2, 3, 4, 5, 6, 7, 0⟩⟩ := by
  have hattrs : EncodedAttrs [123, 34, 97, 34, 58, 34, 98, 34, 125] [(ascii "a", ascii "b")] :=
    .inr ⟨rfl, List.all_iff_forall_prop.mp (by decide)⟩
  exact jsonLog_roundTrip.2 _ _ [] _ _ _ _ rfl hattrs

end Dao.JSONLog
