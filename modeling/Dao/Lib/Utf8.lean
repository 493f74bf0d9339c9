import Mathlib

/-!
# Decoding UTF-8

The decoder that takes one character after another off a list of bytes, and
answers an invalid byte with the replacement character and the size one. Every
list of bytes is so decoded to the end.

A decoder that works inside a longer text needs to know that it does not look
beyond the character it returns. `IsChar` puts this into the definition of an
encoded character: its bytes decode to it whatever follows them.
-/

namespace Lib

open List

namespace Utf8

/-- The replacement character. -/
def runeError : Nat := 0xFFFD

/-- A byte that continues a character. -/
def cont (b : UInt8) : Bool := 0x80 ≤ b.toNat && b.toNat < 0xC0

/-- The value of two bytes. -/
def rune2 (b₀ b₁ : UInt8) : Nat := b₀.toNat % 32 * 64 + b₁.toNat % 64

/-- The value of three bytes. -/
def rune3 (b₀ b₁ b₂ : UInt8) : Nat := b₀.toNat % 16 * 4096 + b₁.toNat % 64 * 64 + b₂.toNat % 64

/-- The value of four bytes. -/
def rune4 (b₀ b₁ b₂ b₃ : UInt8) : Nat :=
  b₀.toNat % 8 * 262144 + b₁.toNat % 64 * 4096 + b₂.toNat % 64 * 64 + b₃.toNat % 64

/-- The first character and the number of its bytes. -/
def decodeRune : List UInt8 → Nat × Nat
  | [] => (runeError, 0)
  | b₀ :: rest =>
    if b₀.toNat < 0x80 then (b₀.toNat, 1)
    else if b₀.toNat < 0xC0 then (runeError, 1)
    else match rest with
      | [] => (runeError, 1)
      | b₁ :: rest =>
        if cont b₁ = false then (runeError, 1)
        else if b₀.toNat < 0xE0 then
          let r := rune2 b₀ b₁
          if r ≤ 0x7F then (runeError, 1) else (r, 2)
        else match rest with
          | [] => (runeError, 1)
          | b₂ :: rest =>
            if cont b₂ = false then (runeError, 1)
            else if b₀.toNat < 0xF0 then
              let r := rune3 b₀ b₁ b₂
              if r ≤ 0x7FF ∨ 0xD800 ≤ r ∧ r ≤ 0xDFFF then (runeError, 1) else (r, 3)
            else match rest with
              | [] => (runeError, 1)
              | b₃ :: _ =>
                if cont b₃ = false then (runeError, 1)
                else if b₀.toNat < 0xF8 then
                  let r := rune4 b₀ b₁ b₂ b₃
                  if r ≤ 0xFFFF ∨ 0x10FFFF < r then (runeError, 1) else (r, 4)
                else (runeError, 1)

/-- The bytes of a character. What is not a character is replaced. -/
def encodeRune (r : Nat) : List UInt8 :=
  if r ≤ 0x7F then [UInt8.ofNat r]
  else if r ≤ 0x7FF then [UInt8.ofNat (0xC0 + r / 64), UInt8.ofNat (0x80 + r % 64)]
  else if 0x10FFFF < r ∨ 0xD800 ≤ r ∧ r ≤ 0xDFFF then [0xEF, 0xBF, 0xBD]
  else if r ≤ 0xFFFF then
    [UInt8.ofNat (0xE0 + r / 4096), UInt8.ofNat (0x80 + r / 64 % 64), UInt8.ofNat (0x80 + r % 64)]
  else
    [UInt8.ofNat (0xF0 + r / 262144), UInt8.ofNat (0x80 + r / 4096 % 64),
      UInt8.ofNat (0x80 + r / 64 % 64), UInt8.ofNat (0x80 + r % 64)]

/-- The decoder has met an invalid byte. A replacement character that stands in
    the text has three bytes. -/
def Invalid (x : Nat × Nat) : Prop := x.1 = runeError ∧ x.2 = 1

instance (x : Nat × Nat) : Decidable (Invalid x) := inferInstanceAs (Decidable (_ ∧ _))

/-- The bytes of the character, whatever follows. -/
structure IsChar (c : Nat) (bs : List UInt8) : Prop where
  encode : encodeRune c = bs
  decode : ∀ rest, decodeRune (bs ++ rest) = (c, bs.length)
  ascii : bs.length = 1 → ∃ b : UInt8, b.toNat < 0x80 ∧ bs = [b]
  high : 2 ≤ bs.length → ∀ b ∈ bs, 0x80 ≤ b.toNat
  nonempty : 0 < bs.length

variable {b b₁ : UInt8} {c : Nat} {bs : List UInt8}

theorem decodeRune_ascii (h : b.toNat < 0x80) (rest : List UInt8) :
    decodeRune (b :: rest) = (b.toNat, 1) := by
  exact if_pos h

theorem encodeRune_ascii (h : b.toNat < 0x80) : encodeRune b.toNat = [b] := by
  rw [encodeRune, if_pos (by omega), UInt8.ofNat_toNat]

theorem isChar_ascii (h : b.toNat < 0x80) : IsChar b.toNat [b] where
  encode := encodeRune_ascii h
  decode := fun rest => decodeRune_ascii h rest
  ascii := fun _ => ⟨b, h, rfl⟩
  high := fun hlen => absurd hlen (show ¬2 ≤ 1 by decide)
  nonempty := Nat.zero_lt_one

theorem cont_range (h : ¬cont b = false) : 0x80 ≤ b.toNat ∧ b.toNat < 0xC0 := by
  rw [Bool.not_eq_false, cont, Bool.and_eq_true, decide_eq_true_iff, decide_eq_true_iff] at h
  exact h

theorem ofNat_eq {n : Nat} (h : n = b.toNat) : UInt8.ofNat n = b := by
  rw [h, UInt8.ofNat_toNat]

theorem encodeRune_two (hb : 0xC0 ≤ b.toNat ∧ b.toNat < 0xE0)
    (h1 : 0x80 ≤ b₁.toNat ∧ b₁.toNat < 0xC0) (hr : ¬rune2 b b₁ ≤ 0x7F) :
    encodeRune (rune2 b b₁) = [b, b₁] := by
  have hmax : rune2 b b₁ ≤ 0x7FF := by
    unfold rune2
    omega
  rw [encodeRune, if_neg hr, if_pos hmax, ofNat_eq (b := b), ofNat_eq (b := b₁)]
  · unfold rune2
    omega
  · unfold rune2
    omega

theorem encodeRune_three {b b₁ b2 : UInt8} (hb : 0xE0 ≤ b.toNat ∧ b.toNat < 0xF0)
    (h1 : 0x80 ≤ b₁.toNat ∧ b₁.toNat < 0xC0) (h2 : 0x80 ≤ b2.toNat ∧ b2.toNat < 0xC0)
    (hr : ¬(rune3 b b₁ b2 ≤ 0x7FF ∨ 0xD800 ≤ rune3 b b₁ b2 ∧ rune3 b b₁ b2 ≤ 0xDFFF)) :
    encodeRune (rune3 b b₁ b2) = [b, b₁, b2] := by
  have hmax : rune3 b b₁ b2 ≤ 0xFFFF := by
    unfold rune3
    omega
  rw [encodeRune, if_neg (by omega), if_neg (by omega), if_neg (by omega), if_pos hmax,
    ofNat_eq (b := b), ofNat_eq (b := b₁), ofNat_eq (b := b2)]
  · unfold rune3
    omega
  · unfold rune3
    omega
  · unfold rune3
    omega

theorem encodeRune_four {b b₁ b2 b3 : UInt8} (hb : 0xF0 ≤ b.toNat ∧ b.toNat < 0xF8)
    (h1 : 0x80 ≤ b₁.toNat ∧ b₁.toNat < 0xC0) (h2 : 0x80 ≤ b2.toNat ∧ b2.toNat < 0xC0)
    (h3 : 0x80 ≤ b3.toNat ∧ b3.toNat < 0xC0)
    (hr : ¬(rune4 b b₁ b2 b3 ≤ 0xFFFF ∨ 0x10FFFF < rune4 b b₁ b2 b3)) :
    encodeRune (rune4 b b₁ b2 b3) = [b, b₁, b2, b3] := by
  rw [encodeRune, if_neg (by omega), if_neg (by omega), if_neg (by omega), if_neg (by omega),
    ofNat_eq (b := b), ofNat_eq (b := b₁), ofNat_eq (b := b2), ofNat_eq (b := b3)]
  · unfold rune4
    omega
  · unfold rune4
    omega
  · unfold rune4
    omega
  · unfold rune4
    omega

theorem isChar_long (hb : 0x80 ≤ b.toNat) (hb1 : 0x80 ≤ b₁.toNat) (hbs : ∀ x ∈ bs, 0x80 ≤ x.toNat)
    (hencode : encodeRune c = b :: b₁ :: bs)
    (hdecode : ∀ rest, decodeRune (b :: b₁ :: (bs ++ rest)) = (c, bs.length + 2)) :
    IsChar c (b :: b₁ :: bs) where
  encode := hencode
  decode := hdecode
  ascii := fun hlen => by
    simp only [length_cons] at hlen
    omega
  high := fun _ x hx => by
    rcases mem_cons.mp hx with rfl | hx
    · exact hb
    rcases mem_cons.mp hx with rfl | hx
    · exact hb1
    · exact hbs x hx
  nonempty := Nat.succ_pos _

theorem decodeRune_cases (b : UInt8) (s : List UInt8) :
    decodeRune (b :: s) = (runeError, 1) ∧ 0x80 ≤ b.toNat ∨
      ∃ c bs rest, b :: s = bs ++ rest ∧ IsChar c bs := by
  by_cases h0 : b.toNat < 0x80
  · exact .inr ⟨b.toNat, [b], s, rfl, isChar_ascii h0⟩
  by_cases hc0 : b.toNat < 0xC0
  · exact .inl ⟨by simp [decodeRune, *], by omega⟩
  cases s with
  | nil => exact .inl ⟨by simp [decodeRune, *], by omega⟩
  | cons b₁ s =>
  by_cases h1 : cont b₁ = false
  · exact .inl ⟨by simp [decodeRune, *], by omega⟩
  have hb1 := cont_range h1
  -- A sequence of two bytes, unless it is overlong. Three and four go the same way.
  by_cases he0 : b.toNat < 0xE0
  · by_cases hr : rune2 b b₁ ≤ 0x7F
    · exact .inl ⟨by simp [decodeRune, *], by omega⟩
    · refine .inr ⟨rune2 b b₁, [b, b₁], s, rfl, isChar_long (by omega) hb1.1
        (by simp) (encodeRune_two ⟨by omega, he0⟩ hb1 hr) fun rest => ?_⟩
      simp [decodeRune, *]
  cases s with
  | nil => exact .inl ⟨by simp [decodeRune, *],
      by omega⟩
  | cons b2 s =>
  by_cases h2 : cont b2 = false
  · exact .inl ⟨by simp [decodeRune, *], by omega⟩
  have hb2 := cont_range h2
  by_cases hf0 : b.toNat < 0xF0
  · by_cases hr : rune3 b b₁ b2 ≤ 0x7FF ∨ 0xD800 ≤ rune3 b b₁ b2 ∧ rune3 b b₁ b2 ≤ 0xDFFF
    · exact .inl ⟨by simp [decodeRune, *], by omega⟩
    · refine .inr ⟨rune3 b b₁ b2, [b, b₁, b2], s, rfl, isChar_long (by omega)
        hb1.1 (by simpa using hb2.1) (encodeRune_three ⟨by omega, hf0⟩ hb1 hb2 hr) fun rest => ?_⟩
      simp [decodeRune, *]
  cases s with
  | nil => exact .inl ⟨by simp [decodeRune, *], by omega⟩
  | cons b3 s =>
  by_cases h3 : cont b3 = false
  · exact .inl ⟨by simp [decodeRune, *], by omega⟩
  have hb3 := cont_range h3
  by_cases hf8 : b.toNat < 0xF8
  · by_cases hr : rune4 b b₁ b2 b3 ≤ 0xFFFF ∨ 0x10FFFF < rune4 b b₁ b2 b3
    · exact .inl ⟨by simp [decodeRune, *], by omega⟩
    refine .inr ⟨rune4 b b₁ b2 b3, [b, b₁, b2, b3], s, rfl, isChar_long
      (by omega) hb1.1 (by simpa using ⟨hb2.1, hb3.1⟩)
      (encodeRune_four ⟨by omega, hf8⟩ hb1 hb2 hb3 hr) fun rest => ?_⟩
    simp [decodeRune, *]
  · exact .inl ⟨by simp [decodeRune, *], by omega⟩

theorem IsChar.not_invalid (h : IsChar c bs) : ¬Invalid (c, bs.length) := by
  rintro ⟨hc, hlen⟩
  rcases h.ascii hlen with ⟨b, hb, rfl⟩
  have hdecode := h.decode []
  rw [append_nil, decodeRune_ascii hb] at hdecode
  have hval : b.toNat = c := congrArg Prod.fst hdecode
  simp only [runeError] at hc
  omega

theorem decode_induction {P : List UInt8 → Prop} (nil : P [])
    (invalid : ∀ b s, decodeRune (b :: s) = (runeError, 1) → 0x80 ≤ b.toNat → P s → P (b :: s))
    (char : ∀ c bs rest, IsChar c bs → P rest → P (bs ++ rest)) (s : List UInt8) : P s := by
  induction hn : s.length using Nat.strongRecOn generalizing s with
  | _ n ih =>
    rcases s with _ | ⟨b, s⟩
    · exact nil
    rcases decodeRune_cases b s with ⟨hinvalid, hb⟩ | ⟨c, bs, rest, hs, hchar⟩
    · exact invalid b s hinvalid hb (ih s.length (by rw [← hn]; exact Nat.lt_succ_self _) s rfl)
    have hlen : rest.length < n := by
      have hpos := hchar.nonempty
      rw [← hn, hs, length_append]
      omega
    rw [hs]
    exact char c bs rest hchar (ih rest.length hlen rest rfl)

/-- The bytes with each invalid byte replaced by the replacement character. -/
def toValid : List UInt8 → List UInt8
  | [] => []
  | b :: s =>
    let x := decodeRune (b :: s)
    if Invalid x then 0xEF :: 0xBF :: 0xBD :: toValid s
    else (b :: s).take x.2 ++ toValid (s.drop (x.2 - 1))
  termination_by s => s.length
  decreasing_by
    · exact Nat.lt_succ_self _
    · rw [List.length_drop, List.length_cons]
      omega

@[simp] theorem toValid_nil : toValid [] = [] := by
  rw [toValid]

theorem toValid_invalid {s : List UInt8} (h : decodeRune (b :: s) = (runeError, 1)) :
    toValid (b :: s) = 0xEF :: 0xBF :: 0xBD :: toValid s := by
  rw [toValid, h, if_pos (show Invalid (runeError, 1) from ⟨rfl, rfl⟩)]

theorem toValid_char (h : IsChar c bs) (rest : List UInt8) :
    toValid (bs ++ rest) = bs ++ toValid rest := by
  have hdecode := h.decode rest
  have hpos := h.nonempty
  have hnot := h.not_invalid
  rcases bs with _ | ⟨b, bs⟩
  · exact absurd hpos (Nat.lt_irrefl 0)
  have htake : (b :: bs ++ rest).take (bs.length + 1) = b :: bs := take_left' rfl
  have hdrop : (bs ++ rest).drop (bs.length + 1 - 1) = rest := drop_left' rfl
  rw [cons_append] at hdecode ⊢
  rw [toValid, hdecode, if_neg hnot]
  simp only [length_cons]
  rw [← cons_append, htake, hdrop]

end Utf8

end Lib
