import Dao.Core.Builder.ShellWord

/-!
# The Words of a Word

`ProcessWords` returns the text of `ProcessWord`, split at the spaces that were
not quoted and without them, as long as no reference outside of quotes has a
value that begins with a byte order mark: that mark is in the text, and not in
the words.

A scan is a list of pieces, each with where it came from. The two accumulators
are folds over the pieces, so the scan itself is walked through once.

## Theorems

* `scan_returns`: The scan ends.
* `processStopOn_pieces`: The accumulators are folds over the pieces.
* `splits_foldl_take`: What the words are made of.
* `processWords_agree`: When the words and the text agree.
* `byte_order_mark_lost`: A value that begins with a byte order mark.
-/

namespace Dao.ShellWord

open List Nat

/-- A part of a word, with where it came from. -/
inductive Piece where
  | text (c : Char)
  | escaped (c : Char)
  | quoted (s : Str)
  | expanded (s : Str)
  deriving DecidableEq

/-- The characters of a piece, each with whether it was quoted or escaped. -/
def Piece.tagged : Piece → List (Char × Bool)
  | .text c => [(c, false)]
  | .escaped c => [(c, true)]
  | .quoted s => s.map fun c => (c, true)
  | .expanded s => s.map fun c => (c, false)

/-- The characters of some pieces. -/
def tagged (ps : List Piece) : List (Char × Bool) := ps.flatMap Piece.tagged

/-- The pieces of a scan to the end. -/
def pieces (sw : Shell) : Nat → Str → Option (Except WordError (List Piece))
  | 0, _ => none
  | _ + 1, [] => some (.ok [])
  | n + 1, ch :: rest =>
    if ch = singleQuote then
      let (tmp, rest) := processSingleQuote [] rest
      (pieces sw n rest).map fun r => r.map (fun ps => .quoted tmp :: ps)
    else if ch = doubleQuote then
      match processDoubleQuote sw n [] rest with
      | none => none
      | some (.error e) => some (.error e)
      | some (.ok (tmp, rest)) =>
        (pieces sw n rest).map fun r => r.map (fun ps => .quoted tmp :: ps)
    else if ch = '$' then
      match processDollar sw n rest with
      | none => none
      | some (.error e) => some (.error e)
      | some (.ok (tmp, rest)) =>
        (pieces sw n rest).map fun r => r.map (fun ps => .expanded tmp :: ps)
    else if ch = '\\' then
      match rest with
      | [] => some (.ok [])
      | ch :: rest => (pieces sw n rest).map fun r => r.map (fun ps => .escaped ch :: ps)
    else (pieces sw n rest).map fun r => r.map (fun ps => .text ch :: ps)

/-- What a piece adds to the accumulators. -/
def Acc.take (acc : Acc) : Piece → Acc
  | .text c => ⟨acc.result ++ [c], acc.words.addChar c⟩
  | .escaped c => ⟨acc.result ++ [c], acc.words.addRawChar c⟩
  | .quoted s => ⟨acc.result ++ s, acc.words.addRawString s⟩
  | .expanded s => ⟨acc.result ++ s, acc.words.addString s⟩

section Scan

variable (sw : Shell)

theorem processName_length (u : Unicode) (s : Str) : ∀ name : Str,
    (processName u name s).2.length ≤ s.length := by
  induction s with
  | nil => exact fun _ => Nat.le_refl 0
  | cons ch rest ih =>
    intro name
    unfold processName
    split
    · exact le_succ _
    · split
      · exact Nat.le_refl _
      · exact le_succ_of_le (ih _)

theorem processSingleQuote_length (s : Str) : ∀ result : Str,
    (processSingleQuote result s).2.length ≤ s.length := by
  induction s with
  | nil => exact fun _ => Nat.le_refl 0
  | cons ch rest ih =>
    intro result
    unfold processSingleQuote
    split
    · exact le_succ _
    · exact le_succ_of_le (ih _)

theorem scan_length (s : Str) : (scan s).length ≤ s.length := by
  rcases s with _ | ⟨c, s⟩
  · exact Nat.le_refl 0
  rw [scan]
  split
  · exact le_succ _
  · exact Nat.le_refl _

/-- A scan that has a result and leaves no more than it was given. -/
def Returns {α : Type} (r : Option (Except WordError (α × Str))) (input : Str) : Prop :=
  ∃ out, r = some out ∧ ∀ a rest, out = .ok (a, rest) → rest.length ≤ input.length

theorem returns_mono {α : Type} {r : Option (Except WordError (α × Str))} {input input' : Str}
    (h : Returns r input) (hle : input.length ≤ input'.length) : Returns r input' := by
  rcases h with ⟨out, hr, hout⟩
  exact ⟨out, hr, fun a rest ha => Nat.le_trans (hout a rest ha) hle⟩

theorem returns_ok {α : Type} {a : α} {rest input : Str} (hle : rest.length ≤ input.length) :
    Returns (some (.ok (a, rest))) input :=
  ⟨_, rfl, fun a' rest' h => by
    cases h
    exact hle⟩

theorem returns_error {α : Type} (e : WordError) (input : Str) :
    Returns (some (.error e) : Option (Except WordError (α × Str))) input :=
  ⟨_, rfl, nofun⟩

theorem scan_returns (n : Nat) :
    (∀ stopChar acc input, input.length < n →
      Returns (processStopOn sw n stopChar acc input) input) ∧
    (∀ result input, input.length < n → Returns (processDoubleQuote sw n result input) input) ∧
    ∀ input, input.length < n → Returns (processDollar sw n input) input := by
  induction n with
  | zero =>
    exact ⟨fun _ _ _ h => absurd h (not_lt_zero _), fun _ _ h => absurd h (not_lt_zero _),
      fun _ h => absurd h (not_lt_zero _)⟩
  | succ n ih =>
    rcases ih with ⟨hstop, hquote, hdollar⟩
    -- Each of the three calls the others on what is left of the input.
    refine ⟨fun stopChar acc input h => ?_, fun result input h => ?_, fun input h => ?_⟩
    · cases input with
      | nil => exact returns_ok (Nat.le_refl 0)
      | cons ch rest =>
        have hrest : rest.length < n := lt_of_succ_lt_succ h
        have hnext : ∀ acc' rest', rest'.length ≤ rest.length →
            Returns (processStopOn sw n stopChar acc' rest') (ch :: rest) := fun acc' rest' hle =>
          returns_mono (hstop stopChar acc' rest' (Nat.lt_of_le_of_lt hle hrest))
            (le_succ_of_le hle)
        unfold processStopOn
        split
        · exact returns_ok (le_succ _)
        split
        · exact hnext _ _ (processSingleQuote_length rest [])
        split
        · rcases hquote [] rest hrest with ⟨out, hout, hle⟩
          rw [hout]
          rcases out with e | ⟨tmp, rest'⟩
          · exact returns_error e _
          · exact hnext _ _ (hle tmp rest' rfl)
        · split
          · rcases hdollar rest hrest with ⟨out, hout, hle⟩
            rw [hout]
            rcases out with e | ⟨tmp, rest'⟩
            · exact returns_error e _
            · exact hnext _ _ (hle tmp rest' rfl)
          · split
            · cases rest with
              | nil => exact returns_ok (zero_le _)
              | cons => exact hnext _ _ (le_succ _)
            · exact hnext _ _ (Nat.le_refl _)
    · cases input with
      | nil => exact returns_ok (Nat.le_refl 0)
      | cons ch rest =>
        have hrest : rest.length < n := lt_of_succ_lt_succ h
        have hnext : ∀ result' rest', rest'.length ≤ rest.length →
            Returns (processDoubleQuote sw n result' rest') (ch :: rest) := fun result' rest' hle =>
          returns_mono (hquote result' rest' (Nat.lt_of_le_of_lt hle hrest)) (le_succ_of_le hle)
        unfold processDoubleQuote
        split
        · exact returns_ok (le_succ _)
        split
        · rcases hdollar rest hrest with ⟨out, hout, hle⟩
          rw [hout]
          rcases out with e | ⟨tmp, rest'⟩
          · exact returns_error e _
          · exact hnext _ _ (hle tmp rest' rfl)
        · split
          · cases rest with
            | nil => exact returns_ok (zero_le _)
            | cons =>
              simp only
              split
              · exact hnext _ _ (le_succ _)
              · exact hnext _ _ (Nat.le_refl _)
          · exact hnext _ _ (Nat.le_refl _)
    · unfold processDollar
      split
      · have hname := processName_length sw.tables input.tail []
        have htail : input.tail.length ≤ input.length := by
          rw [length_tail]
          exact sub_le _ _
        generalize processName sw.tables [] input.tail = out at hname ⊢
        rcases out with ⟨name, _ | ⟨ch, rest⟩⟩
        · exact returns_error _ _
        have hrest : rest.length < input.length :=
          Nat.lt_of_lt_of_le (lt_of_succ_le hname) htail
        simp only
        split
        · exact returns_ok (Nat.le_of_lt hrest)
        split
        · have hle : rest.tail.length ≤ rest.length := by
            rw [length_tail]
            exact sub_le _ _
          rcases hstop (some '}') .empty rest.tail (by omega) with ⟨out, hout, hleft⟩
          rw [hout]
          rcases out with e | ⟨acc, rest'⟩
          · exact returns_error e _
          simp only
          generalize modified sw rest.head? (getEnv name sw.envs) acc.result = value
          cases value with
          | error e => exact returns_error e _
          | ok v =>
            have hleft := hleft acc rest' rfl
            exact returns_ok (by omega)
        · exact returns_error _ _
      · have hname := processName_length sw.tables input []
        exact returns_ok hname

theorem processStopOn_pieces (n : Nat) : ∀ (acc : Acc) (input : Str),
    processStopOn sw n none acc input =
      (pieces sw n input).map (fun r => r.map (fun ps => (ps.foldl Acc.take acc, []))) := by
  induction n with
  | zero => exact fun _ _ => rfl
  | succ n ih =>
    intro acc input
    -- A piece in front is taken before the others.
    have hcons : ∀ (p : Piece) (rest : Str), processStopOn sw n none (acc.take p) rest =
        ((pieces sw n rest).map fun r => r.map (fun ps => p :: ps)).map
          (fun r => r.map fun ps => (ps.foldl Acc.take acc, [])) := by
      intro p rest
      rw [ih (acc.take p) rest]
      rcases pieces sw n rest with _ | r
      · rfl
      cases r with
      | error e => rfl
      | ok ps => rfl
    rcases input with _ | ⟨ch, rest⟩
    · rfl
    unfold processStopOn pieces
    rw [if_neg nofun]
    split
    · exact hcons (.quoted (processSingleQuote [] rest).1) (processSingleQuote [] rest).2
    split
    · cases processDoubleQuote sw n [] rest with
      | none => rfl
      | some out =>
        rcases out with e | ⟨tmp, rest'⟩
        · rfl
        · exact hcons (.quoted tmp) rest'
    · split
      · cases processDollar sw n rest with
        | none => rfl
        | some out =>
          rcases out with e | ⟨tmp, rest'⟩
          · rfl
          · exact hcons (.expanded tmp) rest'
      · split
        · cases rest with
          | nil => rfl
          | cons ch' rest' => exact hcons (.escaped ch') rest'
        · exact hcons (.text ch) rest

end Scan

section Words

theorem foldl_take_result (ps : List Piece) : ∀ acc : Acc,
    (ps.foldl Acc.take acc).result = acc.result ++ (tagged ps).map Prod.fst := by
  induction ps with
  | nil => exact fun acc => (append_nil _).symm
  | cons p ps ih =>
    intro acc
    have htake : (acc.take p).result = acc.result ++ p.tagged.map Prod.fst := by
      cases p with
      | text c => rfl
      | escaped c => rfl
      | quoted s | expanded s =>
        simp only [Acc.take, Piece.tagged, map_map, Function.comp_def, map_id']
    rw [foldl_cons, ih, htake, append_assoc, tagged, tagged, flatMap_cons, map_append]

/-- Whether a character stays in the words: it is no space, or it was quoted. -/
def stays (t : Char × Bool) : Bool := !isSpace t.1 || t.2

/-- What the accumulator of the words stands for: the words that are complete, and the
    one that is not, are what stays of the characters so far. -/
structure Splits (w : WordsStruct) (ts : List (Char × Bool)) : Prop where
  inWord : w.inWord = false → w.word = []
  words : ∃ (ws : List (List (Char × Bool))) (cur : List (Char × Bool)),
    w.words = ws.map (List.map Prod.fst) ∧ w.word = cur.map Prod.fst ∧
    ws.flatten ++ cur = ts.filter stays ∧ ∀ v ∈ ws, v ≠ []

theorem splits_empty : Splits .empty [] := ⟨fun _ => rfl, [], [], rfl, rfl, rfl, nofun⟩

variable {w : WordsStruct} {ts : List (Char × Bool)}

theorem splits_addRawChar (h : Splits w ts) (c : Char) (q : Bool) (hstays : stays (c, q) = true) :
    Splits (w.addRawChar c) (ts ++ [(c, q)]) := by
  rcases h.words with ⟨ws, cur, hws, hcur, hall, hne⟩
  refine ⟨nofun, ws, cur ++ [(c, q)], hws, ?_, ?_, hne⟩
  · rw [map_append, ← hcur]
    rfl
  · rw [filter_append, ← hall, append_assoc, filter_cons_of_pos hstays, filter_nil]

theorem splits_addChar (h : Splits w ts) (c : Char) :
    Splits (w.addChar c) (ts ++ [(c, false)]) := by
  by_cases hc : isSpace c = true
  -- A space ends the word, if there is one, and stays in none.
  · have hfilter : (ts ++ [(c, false)]).filter stays = ts.filter stays := by
      have hgone : ¬ stays (c, false) = true := by
        rw [stays, hc]
        exact Bool.noConfusion
      rw [filter_append, filter_cons_of_neg hgone, filter_nil, append_nil]
    rcases h.words with ⟨ws, cur, hws, hcur, hall, hne⟩
    unfold WordsStruct.addChar
    rw [hc, Bool.true_and, Bool.not_true]
    split
    · split
      · next hword =>
        refine ⟨fun _ => rfl, ws ++ [cur], [], ?_, rfl, ?_, ?_⟩
        · rw [map_append, ← hws, map_singleton, ← hcur]
        · rw [flatten_append, flatten_singleton, append_nil, hfilter, hall]
        · intro v hv
          rcases mem_append.mp hv with hv | hv
          · exact hne v hv
          rw [mem_singleton.mp hv]
          intro hnil
          rw [hcur, hnil] at hword
          exact hword rfl
      · exact ⟨h.inWord, ws, cur, hws, hcur, by rw [hfilter, hall], hne⟩
    · exact ⟨h.inWord, ws, cur, hws, hcur, by rw [hfilter, hall], hne⟩
  · have hraw : w.addChar c = w.addRawChar c := by
      unfold WordsStruct.addChar
      rw [Bool.not_eq_true] at hc
      rw [hc]
      rfl
    rw [hraw]
    refine splits_addRawChar h c false ?_
    rw [Bool.not_eq_true] at hc
    rw [stays, hc]
    rfl

theorem splits_addRawString (h : Splits w ts) (s : Str) :
    Splits (w.addRawString s) (ts ++ s.map (fun c => (c, true))) := by
  rcases h.words with ⟨ws, cur, hws, hcur, hall, hne⟩
  have hstay : (s.map fun c => (c, true)).filter stays = s.map (fun c => (c, true)) := by
    rw [filter_eq_self]
    intro t ht
    rcases mem_map.mp ht with ⟨c, _, rfl⟩
    exact Bool.or_true _
  refine ⟨nofun, ws, cur ++ s.map (fun c => (c, true)), hws, ?_, ?_, hne⟩
  · rw [map_append, ← hcur, map_map]
    simp only [WordsStruct.addRawString, Function.comp_def, map_id']
  · rw [filter_append, ← hall, hstay, append_assoc]

theorem splits_foldl_addChar (s : Str) : ∀ (w : WordsStruct) (ts : List (Char × Bool)),
    Splits w ts →
    Splits (s.foldl WordsStruct.addChar w) (ts ++ s.map (fun c => (c, false))) := by
  induction s with
  | nil =>
    intro w ts h
    rw [map_nil, append_nil]
    exact h
  | cons c s ih =>
    intro w ts h
    rw [map_cons, append_cons]
    exact ih _ _ (splits_addChar h c)

/-- A scanner reads all of a string that does not begin with a byte order mark. -/
theorem scan_eq_self {s : Str} (h : s.head? ≠ some byteOrderMark) : scan s = s := by
  cases s with
  | nil => rfl
  | cons c s => exact if_neg fun hc => h (by rw [hc]; rfl)

/-- A value that begins with a byte order mark. -/
def Piece.isMarked : Piece → Bool
  | .expanded s => s.head? = some byteOrderMark
  | _ => false

/-- What a scanner reads of the characters of a piece, if it is a value. -/
def Piece.scanned : Piece → List (Char × Bool)
  | .expanded s => (scan s).map fun c => (c, false)
  | p => p.tagged

theorem scanned_eq_tagged {p : Piece} (h : p.isMarked = false) : p.scanned = p.tagged := by
  cases p with
  | expanded s => rw [Piece.scanned, scan_eq_self (of_decide_eq_false h), Piece.tagged]
  | _ => rfl

theorem scanned_length (p : Piece) :
    (p.scanned.filter stays).length + p.isMarked.toNat = (p.tagged.filter stays).length := by
  cases hp : p.isMarked with
  | false => rw [scanned_eq_tagged hp, Bool.toNat_false, Nat.add_zero]
  | true =>
    cases p with
    | expanded s =>
      obtain ⟨rest, rfl⟩ := head?_eq_some_iff.mp (of_decide_eq_true hp)
      -- The mark is no space.
      have hstays : stays (byteOrderMark, false) = true := by decide
      rw [Piece.scanned, scan, if_pos rfl, Piece.tagged, map_cons, filter_cons_of_pos hstays]
      rfl
    | _ => nomatch hp

theorem splits_take {acc : Acc} (h : Splits acc.words ts) (p : Piece) :
    Splits (acc.take p).words (ts ++ p.scanned) := by
  cases p with
  | text c => exact splits_addChar h c
  | escaped c => exact splits_addRawChar h c true (Bool.or_true _)
  | quoted s => exact splits_addRawString h s
  | expanded s => exact splits_foldl_addChar (scan s) acc.words ts h

theorem splits_foldl_take (ps : List Piece) : ∀ (acc : Acc) (ts : List (Char × Bool)),
    Splits acc.words ts →
      Splits (ps.foldl Acc.take acc).words (ts ++ ps.flatMap Piece.scanned) := by
  induction ps with
  | nil =>
    intro acc ts h
    rw [flatMap_nil, append_nil]
    exact h
  | cons p ps ih =>
    intro acc ts h
    rw [flatMap_cons, ← append_assoc]
    exact ih _ _ (splits_take h p)

/-- Every mark that is lost makes the words shorter. -/
theorem scanned_length_all (ps : List Piece) : ((ps.flatMap Piece.scanned).filter stays).length +
    ps.countP Piece.isMarked = ((tagged ps).filter stays).length := by
  induction ps with
  | nil => rfl
  | cons p ps ih =>
    have hp := scanned_length p
    rw [tagged] at ih ⊢
    rw [flatMap_cons, flatMap_cons, filter_append, filter_append, length_append, length_append,
      countP_cons]
    cases hmark : p.isMarked <;> rw [hmark] at hp <;> simp at hp ⊢ <;> omega

theorem getWords_of_splits (h : Splits w ts) :
    ∃ ws : List (List (Char × Bool)), w.getWords = ws.map (List.map Prod.fst) ∧
      ws.flatten = ts.filter stays ∧ ∀ v ∈ ws, v ≠ [] := by
  rcases h.words with ⟨ws, cur, hws, hcur, hall, hne⟩
  unfold WordsStruct.getWords
  split
  · next hword =>
    refine ⟨ws ++ [cur], ?_, ?_, fun v hv => ?_⟩
    · rw [map_append, ← hws, map_singleton, ← hcur]
    · rw [flatten_append, flatten_singleton, hall]
    · rcases mem_append.mp hv with hv | hv
      · exact hne v hv
      rw [mem_singleton.mp hv]
      intro hnil
      rw [hcur, hnil] at hword
      exact hword rfl
  · next hword =>
    have hnil : cur = [] := by
      rw [hcur, not_not, map_eq_nil_iff] at hword
      exact hword
    refine ⟨ws, hws, ?_, hne⟩
    rw [← hall, hnil, append_nil]

end Words

/-- The pieces of a whole word. -/
def wordPieces (u : Unicode) (word : Str) (env : List Str) :
    Option (Except WordError (List Piece)) :=
  pieces ⟨u, word, env⟩ (word.length + 1) (scan word)

/-- A reference outside of quotes has a result that begins with a byte order mark. -/
def marked (sw : Shell) : Nat → Str → Bool
  | 0, _ | _, [] => false
  | n + 1, ch :: rest =>
    if ch = singleQuote then marked sw n (processSingleQuote [] rest).2
    else if ch = doubleQuote then
      match processDoubleQuote sw n [] rest with
      | some (.ok (_, rest)) => marked sw n rest
      | _ => false
    else if ch = '$' then
      match processDollar sw n rest with
      | some (.ok (tmp, rest)) => tmp.head? = some byteOrderMark || marked sw n rest
      | _ => false
    else if ch = '\\' then marked sw n rest.tail
    else marked sw n rest

theorem marked_pieces (sw : Shell) (n : Nat) : ∀ {input : Str} {ps : List Piece},
    pieces sw n input = some (.ok ps) → marked sw n input = ps.any Piece.isMarked := by
  induction n with
  | zero => exact nofun
  | succ n ih =>
    intro input ps h
    -- Each branch puts one piece in front of those of what is left.
    have hcons : ∀ {rest : Str} {p : Piece}, ((pieces sw n rest).map fun r => r.map (p :: ·)) =
        some (.ok ps) → (p.isMarked || marked sw n rest) = ps.any Piece.isMarked := by
      intro rest p hps
      rcases hrest : pieces sw n rest with _ | e | ps'
      · simp [hrest] at hps
      · simp [hrest, Except.map] at hps
      · simp only [hrest, Option.map_some, Except.map, Option.some.injEq, Except.ok.injEq] at hps
        rw [← hps, any_cons, ih hrest]
    rcases input with _ | ⟨ch, rest⟩
    · cases h
      rfl
    unfold pieces at h
    unfold marked
    split_ifs at h ⊢
    · exact hcons h
    · cases hquote : processDoubleQuote sw n [] rest with
      | none => simp [hquote] at h
      | some out =>
        rcases out with e | ⟨tmp, rest'⟩
        · simp [hquote] at h
        · rw [hquote] at h
          exact hcons h
    · cases hdollar : processDollar sw n rest with
      | none => simp [hdollar] at h
      | some out =>
        rcases out with e | ⟨tmp, rest'⟩
        · simp [hdollar] at h
        · rw [hdollar] at h
          exact hcons h
    · cases rest with
      | nil =>
        cases h
        cases n <;> rfl
      | cons ch' rest' => exact hcons h
    · exact hcons h

/-- `ProcessWord` and `ProcessWords` fail together. Otherwise the text is the characters
    of the pieces, and the words are what stays of them, split: the words are not empty
    and have only spaces that were quoted or escaped. -/
def Agree (u : Unicode) (word : Str) (env : List Str) : Prop :=
  (∃ e, processWord u word env = some (.error e) ∧ processWords u word env = some (.error e)) ∨
  ∃ (ps : List Piece) (ws : List (List (Char × Bool))), wordPieces u word env = some (.ok ps) ∧
    processWord u word env = some (.ok ((tagged ps).map Prod.fst)) ∧
    processWords u word env = some (.ok (ws.map (List.map Prod.fst))) ∧
    ws.flatten = (tagged ps).filter (fun t => !isSpace t.1 || t.2) ∧
    ∀ v ∈ ws, v ≠ [] ∧ ∀ t ∈ v, isSpace t.1 = true → t.2 = true

/-- The two agree unless the word is expanded and a reference outside of quotes has a
    result that begins with a byte order mark. -/
theorem processWords_agree (u : Unicode) (word : Str) (env : List Str) : Agree u word env ↔
    (∃ e, processWord u word env = some (.error e)) ∨
      marked ⟨u, word, env⟩ (word.length + 1) (scan word) = false := by
  have hlength : (scan word).length < word.length + 1 := lt_succ_of_le (scan_length word)
  rcases (scan_returns ⟨u, word, env⟩ (word.length + 1)).1 none .empty (scan word) hlength
    with ⟨out, hout, -⟩
  have hfold := processStopOn_pieces ⟨u, word, env⟩ (word.length + 1) .empty (scan word)
  unfold Agree processWord processWords process wordPieces at *
  rw [hfold] at hout ⊢
  rcases hps : pieces ⟨u, word, env⟩ (word.length + 1) (scan word) with _ | e | ps
  · simp [hps] at hout
  · exact iff_of_true (.inl ⟨e, rfl, rfl⟩) (.inl ⟨e, rfl⟩)
  have hresult := foldl_take_result ps .empty
  obtain ⟨ws, hws, hflat, hne⟩ := getWords_of_splits (splits_foldl_take ps .empty [] splits_empty)
  rw [nil_append] at hflat
  have hcount := scanned_length_all ps
  rw [marked_pieces _ _ hps]
  simp only [Option.map_some, Except.map, hresult, hws]
  constructor
  · rintro (⟨e, he, -⟩ | ⟨ps', ws', hps', -, hws', hflat', -⟩)
    · nomatch he
    -- The words are shorter by the marks that are lost.
    cases hps'
    have hwords : ws.map (List.map Prod.fst) = ws'.map (List.map Prod.fst) := by simpa using hws'
    have hlen := congrArg (fun l => (List.flatten l).length) hwords
    simp only [← map_flatten, length_map, hflat, hflat'] at hlen
    change _ = ((tagged ps).filter stays).length at hlen
    refine .inr (any_eq_false.mpr fun p hp hmark => ?_)
    have hpos : 0 < ps.countP Piece.isMarked := countP_pos_iff.mpr ⟨p, hp, hmark⟩
    omega
  · rintro (⟨e, he⟩ | hmark)
    · nomatch he
    have hsame : ps.flatMap Piece.scanned = tagged ps := flatMap_congr fun p hp =>
      scanned_eq_tagged (by simpa using any_eq_false.mp hmark p hp)
    rw [hsame] at hflat
    refine .inr ⟨ps, ws, rfl, rfl, rfl, hflat, fun v hv => ⟨hne v hv, fun t ht hspace => ?_⟩⟩
    have hin : t ∈ ws.flatten := mem_flatten.mpr ⟨v, hv, ht⟩
    rw [hflat, mem_filter, stays, hspace] at hin
    exact hin.2

/-- The text keeps a byte order mark in front of a value, and the words lose it. -/
theorem byte_order_mark_lost : processWord ascii "$x".toList ["x=".toList ++ [byteOrderMark, 'a']] =
        some (.ok [byteOrderMark, 'a']) ∧
      processWords ascii "$x".toList ["x=".toList ++ [byteOrderMark, 'a']] =
        some (.ok ["a".toList]) ∧
      isSpace byteOrderMark = false := by
  decide

end Dao.ShellWord
