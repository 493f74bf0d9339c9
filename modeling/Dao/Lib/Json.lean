import Dao.Lib.Utf8

/-!
# Reading JSON

A reader for the strings and the objects of JSON, over bytes, without the white
space that may stand between the tokens. A string literal is valid UTF-8 in
which neither a control character nor a quote stands as itself.

The reader takes a value off the beginning of a text and returns what is left.
What follows the value does not change how it is read (`value_append`), so a
text that has been written from parts is read part by part.
-/

namespace Lib

open Utf8 Option List

inductive Json where
  | str (s : List UInt8)
  | obj (ms : List (List UInt8 × Json))

namespace Json

def quote : UInt8 := 34

def backslash : UInt8 := 92

/-- The value of a hexadecimal digit. -/
def hexVal (b : UInt8) : Option Nat :=
  if 48 ≤ b.toNat ∧ b.toNat ≤ 57 then some (b.toNat - 48)
  else if 97 ≤ b.toNat ∧ b.toNat ≤ 102 then some (b.toNat - 87)
  else if 65 ≤ b.toNat ∧ b.toNat ≤ 70 then some (b.toNat - 55)
  else none

/-- The value of four hexadecimal digits, and what follows them. -/
def hex4 : List UInt8 → Option (Nat × List UInt8)
  | a :: b :: c :: d :: rest =>
    match hexVal a, hexVal b, hexVal c, hexVal d with
    | some a, some b, some c, some d => some (((a * 16 + b) * 16 + c) * 16 + d, rest)
    | _, _, _, _ => none
  | _ => none

/-- What the letter after a backslash stands for. -/
def escaped (b : UInt8) : Option UInt8 :=
  if b = 34 ∨ b = 92 ∨ b = 47 then some b
  else if b = 98 then some 8
  else if b = 102 then some 12
  else if b = 110 then some 10
  else if b = 114 then some 13
  else if b = 116 then some 9
  else none

/-- What stands after `\u`: a character of the first plane, or the first half of
    a pair. A half without the other is replaced. -/
def unicode (s : List UInt8) : Option (List UInt8 × List UInt8) :=
  match hex4 s with
  | none => none
  | some (r, rest) =>
    if 0xD800 ≤ r ∧ r < 0xDC00 then
      match rest with
      | [] => none
      | b :: rest₁ =>
        if b = backslash then
          match rest₁ with
          | [] => none
          | u :: rest₂ =>
            if u = 117 then
              match hex4 rest₂ with
              | none => none
              | some (r', rest₃) =>
                if 0xDC00 ≤ r' ∧ r' < 0xE000 then
                  some (encodeRune ((r - 0xD800) * 1024 + (r' - 0xDC00) + 0x10000), rest₃)
                else some (encodeRune runeError, rest)
            else some (encodeRune runeError, rest)
        else some (encodeRune runeError, rest)
    else some (encodeRune r, rest)

/-- The first character of a literal, not being a quote, and what follows. -/
def character : List UInt8 → Option (List UInt8 × List UInt8)
  | [] => none
  | b :: s =>
    if b = backslash then
      match s with
      | [] => none
      | e :: s =>
        if e = 117 then unicode s
        else (escaped e).map fun c => ([c], s)
    else if b.toNat < 0x20 ∨ b = quote then none
    else
      let x := decodeRune (b :: s)
      if Invalid x then none else some ((b :: s).take x.2, (b :: s).drop x.2)

/-- The value of a literal after its first quote, and what follows it. -/
def literal : Nat → List UInt8 → Option (List UInt8 × List UInt8)
  | 0, _ => none
  | _ + 1, [] => none
  | fuel + 1, b :: s =>
    if b = quote then some ([], s)
    else match character (b :: s) with
      | none => none
      | some (c, rest) =>
        match literal fuel rest with
        | none => none
        | some (cs, rest) => some (c ++ cs, rest)

/-- The byte at the beginning, taken off. -/
def token (t : UInt8) : List UInt8 → Option (List UInt8)
  | [] => none
  | b :: s => if b = t then some s else none

mutual

/-- A value, and what follows it. -/
def value : Nat → List UInt8 → Option (Json × List UInt8)
  | 0, _ => none
  | _ + 1, [] => none
  | fuel + 1, b :: s =>
    if b = quote then
      match literal fuel s with
      | none => none
      | some (x, rest) => some (.str x, rest)
    else if b = 123 then
      match token 125 s with
      | some rest => some (.obj [], rest)
      | none =>
        match members fuel s with
        | none => none
        | some (ms, rest) => some (.obj ms, rest)
    else none

/-- The members of an object up to the closing brace, and what follows it. -/
def members : Nat → List UInt8 → Option (List (List UInt8 × Json) × List UInt8)
  | 0, _ => none
  | fuel + 1, s =>
    match (token quote s).bind (literal fuel) with
    | none => none
    | some (key, s) =>
      match (token 58 s).bind (value fuel) with
      | none => none
      | some (_, []) => none
      | some (v, b :: s) =>
        if b = 125 then some ([(key, v)], s)
        else if b = 44 then
          match members fuel s with
          | none => none
          | some (ms, rest) => some ((key, v) :: ms, rest)
        else none

end

/-- A text that is one value. -/
def decode (s : List UInt8) : Option Json :=
  match value (s.length + 1) s with
  | some (v, []) => some v
  | _ => none

/-! ### Longer texts -/

variable {s rest c : List UInt8} {fuel fuel' : Nat} {b : UInt8} {v : Json}

theorem hex4_append {r : Nat} (h : hex4 s = some (r, rest)) (t : List UInt8) :
    hex4 (s ++ t) = some (r, rest ++ t) := by
  match s, h with
  | a :: b :: c :: d :: s, h =>
    simp only [hex4, cons_append] at h ⊢
    split at h
    · simp only [some.injEq, Prod.mk.injEq] at h
      rw [← h.1, ← h.2]
    · nomatch h

theorem unicode_append (h : unicode s = some (c, rest)) (t : List UInt8) :
    unicode (s ++ t) = some (c, rest ++ t) := by
  unfold unicode at h ⊢
  rcases hhex : hex4 s with _ | x
  · simp [hhex] at h
  rcases x with ⟨r, rest0⟩
  rw [hhex] at h
  rw [hex4_append hhex t]
  simp only [] at h ⊢
  by_cases hpair : 0xD800 ≤ r ∧ r < 0xDC00
  · rw [if_pos hpair] at h ⊢
    -- The reader looks at what follows the first half, so that must be there.
    rcases rest0 with _ | ⟨b, rest1⟩
    · cases h
    simp only [cons_append] at h ⊢
    by_cases hb : b = backslash
    · rw [if_pos hb] at h ⊢
      rcases rest1 with _ | ⟨u, rest2⟩
      · cases h
      simp only [cons_append] at h ⊢
      by_cases hu : u = 117
      · rw [if_pos hu] at h ⊢
        rcases hhex' : hex4 rest2 with _ | y
        · simp [hhex'] at h
        rw [hhex'] at h
        rw [hex4_append hhex' t]
        simp only [] at h ⊢
        split at h
        · next hlow =>
          rw [if_pos hlow]
          simp only [some.injEq, Prod.mk.injEq] at h
          rw [← h.1, ← h.2]
        · next hlow =>
          rw [if_neg hlow]
          cases h
          rfl
      · rw [if_neg hu] at h ⊢
        cases h
        rfl
    · rw [if_neg hb] at h ⊢
      cases h
      rfl
  · rw [if_neg hpair] at h ⊢
    simp only [some.injEq, Prod.mk.injEq] at h
    rw [← h.1, ← h.2]

theorem character_isChar {c : Nat} {bs : List UInt8} (h : IsChar c bs)
    (hraw : ∀ b ∈ bs, 0x20 ≤ b.toNat ∧ b ≠ quote ∧ b ≠ backslash) (rest : List UInt8) :
    character (bs ++ rest) = some (bs, rest) := by
  have hdecode := h.decode rest
  have hpos := h.nonempty
  have hnot := h.not_invalid
  have htake : (bs ++ rest).take bs.length = bs := take_left' rfl
  have hdrop : (bs ++ rest).drop bs.length = rest := drop_left' rfl
  rcases bs with _ | ⟨b, bs⟩
  · exact absurd hpos (Nat.lt_irrefl 0)
  rcases hraw b mem_cons_self with ⟨hctl, hquote, hback⟩
  have hplain : ¬(b.toNat < 0x20 ∨ b = quote) := by
    rintro (hlt | heq)
    · omega
    · exact hquote heq
  rw [cons_append] at hdecode htake hdrop ⊢
  simp only [character, if_neg hback, if_neg hplain, hdecode, if_neg hnot, htake, hdrop]

theorem character_append (h : character s = some (c, rest)) (t : List UInt8) :
    character (s ++ t) = some (c, rest ++ t) := by
  rcases s with _ | ⟨b, s⟩
  · cases h
  by_cases hback : b = backslash
  · simp only [character, cons_append, if_pos hback] at h ⊢
    rcases s with _ | ⟨e, s⟩
    · cases h
    simp only [cons_append] at h ⊢
    by_cases hu : e = 117
    · rw [if_pos hu] at h ⊢
      exact unicode_append h t
    rw [if_neg hu] at h ⊢
    rcases map_eq_some_iff.mp h with ⟨x, hx, heq⟩
    rw [hx, map_some, some.injEq]
    simp only [Prod.mk.injEq] at heq ⊢
    exact ⟨heq.1, by rw [heq.2]⟩
  · by_cases hraw : b.toNat < 0x20 ∨ b = quote
    · simp only [character, if_neg hback, if_pos hraw] at h
      cases h
    simp only [character, if_neg hback, if_neg hraw] at h
    -- The longer string is decoded to the same character, which ends before `t`.
    rcases decodeRune_cases b s with ⟨hinvalid, _⟩ | ⟨c', bs, s', hs, hchar⟩
    · simp [hinvalid, if_pos (show Invalid (runeError, 1) from ⟨rfl, rfl⟩)] at h
    have hlong : b :: s ++ t = bs ++ (s' ++ t) := by rw [hs, append_assoc]
    have hdecode := hchar.decode (s' ++ t)
    have htake : (bs ++ (s' ++ t)).take bs.length = bs := take_left' rfl
    have hdrop : (bs ++ (s' ++ t)).drop bs.length = s' ++ t := drop_left' rfl
    rw [hs, hchar.decode s', if_neg hchar.not_invalid, take_left' rfl,
      drop_left' rfl, some.injEq, Prod.mk.injEq] at h
    rw [← hlong, cons_append] at hdecode htake hdrop
    rw [cons_append, ← h.1, ← h.2]
    simp [character, if_neg hback, if_neg hraw, hdecode, if_neg hchar.not_invalid, htake, hdrop]

theorem literal_quote (fuel : Nat) (s : List UInt8) :
    literal (fuel + 1) (quote :: s) = some ([], s) := by
  rw [literal, if_pos rfl]

theorem literal_character (hchar : character s = some (c, rest)) (hquote : s.head? ≠ some quote)
    (fuel : Nat) :
    literal (fuel + 1) s = (literal fuel rest).map (fun x => (c ++ x.1, x.2)) := by
  rcases s with _ | ⟨b, s⟩
  · nomatch hchar
  have hb : b ≠ quote := fun heq => hquote (by rw [heq, List.head?_cons])
  rw [literal, if_neg hb, hchar]
  cases hlit : literal fuel rest with
  | none | some x => simp [hlit]

theorem literal_append {s x rest : List UInt8} (h : literal fuel s = some (x, rest))
    (hle : fuel ≤ fuel') (t : List UInt8) :
    literal fuel' (s ++ t) = some (x, rest ++ t) := by
  induction fuel generalizing fuel' s x with
  | zero => nomatch h
  | succ fuel ih =>
    obtain ⟨fuel'', rfl⟩ : ∃ k, fuel' = k + 1 := ⟨fuel' - 1, by omega⟩
    rcases s with _ | ⟨b, s⟩
    · nomatch h
    by_cases hb : b = quote
    · rw [hb, literal_quote] at h
      cases h
      rw [hb, cons_append, literal_quote]
    have hhead : ∀ u, (b :: u).head? ≠ some quote := fun u heq =>
      hb (some.inj heq)
    rcases hchar : character (b :: s) with _ | y
    · simp [literal, if_neg hb, hchar] at h
    rw [literal_character hchar (hhead s)] at h
    rcases map_eq_some_iff.mp h with ⟨⟨cs, r⟩, hlit, heq⟩
    simp only [Prod.mk.injEq] at heq
    rw [literal_character (character_append hchar t) (hhead (s ++ t)),
      ih (by rw [hlit, heq.2]) (Nat.le_of_succ_le_succ hle), map_some, heq.1]

theorem token_self (b : UInt8) (s : List UInt8) : token b (b :: s) = some s := by
  rw [token, if_pos rfl]

theorem token_other {b c : UInt8} (h : ¬c = b) (s : List UInt8) : token b (c :: s) = none := by
  rw [token, if_neg h]

theorem token_append (h : token b s = some rest) (t : List UInt8) :
    token b (s ++ t) = some (rest ++ t) := by
  rcases s with _ | ⟨c, s⟩
  · cases h
  simp only [token, cons_append] at h ⊢
  split at h
  · next hc => rw [if_pos hc, some.inj h]
  · cases h

/-- Reading with this fuel, a longer text, and more fuel. -/
def Local {α : Type} (read : Nat → List UInt8 → Option (α × List UInt8)) (fuel : Nat) : Prop :=
  ∀ {fuel' s x rest}, read fuel s = some (x, rest) → fuel ≤ fuel' →
    ∀ t, read fuel' (s ++ t) = some (x, rest ++ t)

theorem local_token {α : Type} {read : Nat → List UInt8 → Option (α × List UInt8)}
    (hlocal : Local read fuel) (hle : fuel ≤ fuel') {x : α}
    (h : (token b s).bind (read fuel) = some (x, rest)) (t : List UInt8) :
    (token b (s ++ t)).bind (read fuel') = some (x, rest ++ t) := by
  rcases bind_eq_some_iff.mp h with ⟨s', htoken, hread⟩
  rw [token_append htoken t, bind_some]
  exact hlocal hread hle t

theorem object_append (hmembers : Local members fuel) (hle : fuel ≤ fuel')
    (h : (match token 125 s with
      | some rest => some (.obj [], rest)
      | none =>
        match members fuel s with
        | none => none
        | some (ms, rest) => some (.obj ms, rest)) = some (v, rest)) (t : List UInt8) :
    (match token 125 (s ++ t) with
      | some rest => some (.obj [], rest)
      | none =>
        match members fuel' (s ++ t) with
        | none => none
        | some (ms, rest) => some (.obj ms, rest)) = some (v, rest ++ t) := by
  cases htoken : token 125 s with
  | some s' =>
    simp only [htoken, some.injEq, Prod.mk.injEq] at h
    simp only [token_append htoken t, h.1, h.2]
  | none =>
    rw [htoken] at h
    cases hms : members fuel s with
    | none =>
      simp [hms] at h
    | some x =>
      simp only [hms, some.injEq, Prod.mk.injEq] at h
      -- The text is not empty, and so the next byte is no other in the longer text.
      have hnone : token 125 (s ++ t) = none := by
        cases s with
        | nil =>
          cases fuel with
          | zero | succ fuel => nomatch hms
        | cons b s =>
          by_cases hb : b = 125
          · simp [hb, token_self] at htoken
          · exact token_other hb _
      simp only [hnone, hmembers hms hle t, h.1, h.2]

theorem members_step_append (hvalue : Local value fuel) (hmembers : Local members fuel)
    (hle : fuel ≤ fuel') {ms : List (List UInt8 × Json)}
    (h : members (fuel + 1) s = some (ms, rest)) (t : List UInt8) :
    members (fuel' + 1) (s ++ t) = some (ms, rest ++ t) := by
  have hliteral : Local literal fuel := fun h hle t => literal_append h hle t
  unfold members at h ⊢
  rcases hkey : (token quote s).bind (literal fuel) with _ | x
  · simp [hkey] at h
  rcases x with ⟨key, s1⟩
  rw [hkey] at h
  rw [local_token hliteral hle hkey t]
  simp only [] at h ⊢
  rcases hval : (token 58 s1).bind (value fuel) with _ | y
  · simp [hval] at h
  rcases y with ⟨v, s2⟩
  rw [hval] at h
  rw [local_token hvalue hle hval t]
  -- After a member comes the end of the object or another member.
  match s2, h with
  | b :: s2, h =>
    simp only [cons_append] at h ⊢
    by_cases hclose : b = 125
    · rw [if_pos hclose] at h ⊢
      simp only [some.injEq, Prod.mk.injEq] at h
      rw [h.1, h.2]
    rw [if_neg hclose] at h ⊢
    by_cases hcomma : b = 44
    · rw [if_pos hcomma] at h ⊢
      rcases hms : members fuel s2 with _ | z
      · simp [hms] at h
      rw [hms] at h
      cases h
      rw [hmembers hms hle t]
    · simp [if_neg hcomma] at h

theorem value_members_append (fuel : Nat) : Local value fuel ∧ Local members fuel := by
  induction fuel with
  | zero =>
    constructor
    · intro fuel' s v rest h
      nomatch h
    · intro fuel' s ms rest h
      nomatch h
  | succ fuel ih =>
    rcases ih with ⟨ihValue, ihMembers⟩
    constructor
    -- Values and members call each other with less fuel, so they go together.
    · intro fuel' s v rest h hle t
      obtain ⟨k, rfl⟩ : ∃ k, fuel' = k + 1 := ⟨fuel' - 1, by omega⟩
      have hk : fuel ≤ k := Nat.le_of_succ_le_succ hle
      match s, h with
      | b :: s, h =>
        rw [cons_append]
        unfold value at h ⊢
        by_cases hquote : b = quote
        · rw [if_pos hquote] at h ⊢
          rcases hlit : literal fuel s with _ | x
          · simp [hlit] at h
          rw [hlit] at h
          cases h
          rw [literal_append hlit hk t]
        · rw [if_neg hquote] at h ⊢
          by_cases hbrace : b = 123
          · rw [if_pos hbrace] at h ⊢
            exact object_append ihMembers hk h t
          · simp [if_neg hbrace] at h
    · intro fuel' s ms rest h hle t
      obtain ⟨k, rfl⟩ : ∃ k, fuel' = k + 1 := ⟨fuel' - 1, by omega⟩
      exact members_step_append ihValue ihMembers (Nat.le_of_succ_le_succ hle) h t

theorem value_append : Local value fuel := (value_members_append fuel).1

/-! ### Texts written from parts -/

/-- A character that a literal holds as itself. -/
def Plain (b : UInt8) : Prop := 0x20 ≤ b.toNat ∧ b.toNat < 0x80 ∧ b ≠ quote ∧ b ≠ backslash

theorem character_plain (h : Plain b) (rest : List UInt8) :
    character (b :: rest) = some ([b], rest) := by
  refine character_isChar (isChar_ascii h.2.1) ?_ rest
  intro x hx
  rw [mem_singleton.mp hx]
  exact ⟨h.1, h.2.2⟩

theorem literal_plain (h : ∀ b ∈ s, Plain b) (hfuel : s.length < fuel) (rest : List UInt8) :
    literal fuel (s ++ quote :: rest) = some (s, rest) := by
  induction s generalizing fuel with
  | nil =>
    obtain ⟨k, rfl⟩ : ∃ k, fuel = k + 1 := ⟨fuel - 1, by omega⟩
    exact literal_quote k rest
  | cons b s ih =>
    obtain ⟨k, rfl⟩ : ∃ k, fuel = k + 1 := ⟨fuel - 1, by omega⟩
    have hb := h b mem_cons_self
    rw [cons_append, literal_character (character_plain hb _) fun heq => hb.2.2.1 (some.inj heq),
      ih (forall_mem_cons.mp h).2 (Nat.lt_of_succ_lt_succ hfuel)]
    rfl

theorem decode_spec : decode s = some v ↔ value (s.length + 1) s = some (v, []) := by
  unfold decode
  rcases value (s.length + 1) s with _ | x
  · simp
  rcases x with ⟨w, rest⟩
  cases rest with
  | nil => simp
  | cons => simp

theorem value_decode (h : decode s = some v) (hfuel : s.length < fuel) (rest : List UInt8) :
    value fuel (s ++ rest) = some (v, rest) :=
  value_append (decode_spec.mp h) hfuel rest

/-- The text of a member. -/
def memberText (m : List UInt8 × List UInt8) : List UInt8 := quote :: m.1 ++ quote :: 58 :: m.2

/-- The text of the members, with commas between them. -/
def membersText : List (List UInt8 × List UInt8) → List UInt8
  | [] => []
  | [m] => memberText m
  | m :: ms => memberText m ++ 44 :: membersText ms

/-- The texts of the members of the values. -/
def Texts : List (List UInt8 × List UInt8) → List (List UInt8 × Json) → Prop :=
  List.Forall₂ fun m x => m.1 = x.1 ∧ (∀ b ∈ m.1, Plain b) ∧ decode m.2 = some x.2

theorem member_step {m : List UInt8 × List UInt8} (hkey : ∀ b ∈ m.1, Plain b)
    (hval : decode m.2 = some v) (hfuel : (memberText m).length ≤ fuel) (b : UInt8)
    (rest : List UInt8) :
    (token quote (memberText m ++ b :: rest)).bind (literal fuel) =
        some (m.1, 58 :: (m.2 ++ b :: rest)) ∧
      (token 58 (58 :: (m.2 ++ b :: rest))).bind (value fuel) = some (v, b :: rest) := by
  have hlen : m.1.length < fuel ∧ m.2.length < fuel := by
    simp only [memberText, cons_append, length_cons, length_append] at hfuel
    omega
  constructor
  · rw [memberText, cons_append, cons_append, token_self, bind_some,
      append_assoc, cons_append, cons_append]
    exact literal_plain hkey hlen.1 _
  · rw [token_self, bind_some]
    exact value_decode hval hlen.2 _

variable {ms : List (List UInt8 × List UInt8)}

theorem members_text {xs : List (List UInt8 × Json)}
    (h : Texts ms xs) (hne : ms ≠ []) (hfuel : (membersText ms).length < fuel) (rest : List UInt8) :
    members fuel (membersText ms ++ 125 :: rest) = some (xs, rest) := by
  induction h generalizing fuel with
  | nil => exact absurd rfl hne
  | @cons m x ms xs hm hms ih =>
    rcases hm with ⟨hkey, hplain, hval⟩
    obtain ⟨k, rfl⟩ : ∃ k, fuel = k + 1 := ⟨fuel - 1, by omega⟩
    have hpair : (m.1, x.2) = x := by rw [hkey]
    cases ms with
    | nil =>
      cases hms
      rw [membersText] at hfuel ⊢
      rcases member_step hplain hval (Nat.le_of_lt_succ hfuel) 125 rest with ⟨hlit, hvalue⟩
      unfold members
      simp [hlit, hvalue, hpair]
    | cons m' ms =>
      -- A comma behind the member: the rest of the object is the hypothesis.
      rw [membersText] at hfuel ⊢
      · rw [length_append, length_cons] at hfuel
        rcases member_step hplain hval (show (memberText m).length ≤ k by omega) 44
          (membersText (m' :: ms) ++ 125 :: rest) with ⟨hlit, hvalue⟩
        unfold members
        simp [hlit, hvalue, hpair,
          ih (cons_ne_nil _ _) (show (membersText (m' :: ms)).length < k by omega)]
      · exact nofun
      · exact nofun

theorem decode_object {xs : List (List UInt8 × Json)} (h : Texts ms xs) (hne : ms ≠ []) :
    decode (123 :: membersText ms ++ [125]) = some (.obj xs) := by
  rw [decode_spec, cons_append, length_cons, value, if_neg (by decide), if_pos rfl]
  have htoken : token 125 (membersText ms ++ [125]) = none := by
    have hquote : ¬quote = 125 := by decide
    cases ms with
    | nil => exact absurd rfl hne
    | cons m ms =>
      cases ms with
      | nil | cons => exact token_other hquote _
  have hfuel : (membersText ms).length < (membersText ms ++ [125]).length + 1 := by
    rw [length_append]
    omega
  simp only [htoken, members_text h hne hfuel]

end Json

end Lib
