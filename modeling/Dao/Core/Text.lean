import Mathlib

/-!
# Strings

The strings of the modelled code and the functions of the `strings` and
`strconv` packages it calls. A string is its list of characters, so that what is proved about a
string is proved by induction on a list.
-/

namespace Dao

/-- A string, as the list of its characters. -/
abbrev Str : Type := List Char

instance : LawfulBEq Str := inferInstance

/-- A byte slice. -/
abbrev Bytes : Type := List UInt8

/-- The conversion `[]byte(s)`. -/
def utf8 (s : Str) : Bytes := s.flatMap String.utf8EncodeChar

/-- The conversion `string(b)`. Bytes that are not UTF-8 become a string that
    holds the replacement character and nothing else. -/
def ofUtf8 (b : Bytes) : Str :=
  match String.fromUTF8? b.toByteArray with
  | some s => s.toList
  | none => ['\uFFFD']

/-- What stands before and after the first occurrence of the character, as
    `strings.Index` finds it. -/
def cut (c : Char) : Str → Option (Str × Str)
  | [] => none
  | d :: s =>
    if d = c then some ([], s)
    else match cut c s with
      | none => none
      | some (front, back) => some (d :: front, back)

def isSpace (c : Char) : Bool :=
  let n := c.toNat
  n == 0x20 || (Nat.ble 0x09 n && Nat.ble n 0x0d) || n == 0x85 || n == 0xa0 || n == 0x1680 ||
    (Nat.ble 0x2000 n && Nat.ble n 0x200a) || n == 0x2028 || n == 0x2029 || n == 0x202f ||
    n == 0x205f || n == 0x3000

def trimSpace (s : Str) : Str := ((s.dropWhile isSpace).reverse.dropWhile isSpace).reverse

/-- `fmt.Sprintf("%d", n)` of an `int64`. -/
def formatInt (n : Int64) : Str :=
  match n.toInt with
  | .ofNat k => Nat.toDigits 10 k
  | .negSucc k => '-' :: Nat.toDigits 10 (k + 1)

/-- The number of a string of digits, which may not be empty. -/
def parseDigits (s : Str) : Option Nat :=
  if s ≠ [] ∧ s.all Char.isDigit then some (Nat.ofDigitChars 10 s 0) else none

/-- `strconv.ParseInt(s, 10, 64)`. Nothing stands for its errors. -/
def parseInt (s : Str) : Option Int64 :=
  match s with
  | '-' :: ds => (parseDigits ds).bind (fun k =>
    if k ≤ 2 ^ 63 then some (Int64.ofInt (-(k : Int))) else none)
  | '+' :: ds => (parseDigits ds).bind (fun k =>
    if k < 2 ^ 63 then some (Int64.ofInt k) else none)
  | ds => (parseDigits ds).bind (fun k =>
    if k < 2 ^ 63 then some (Int64.ofInt k) else none)

theorem utf8_injective {s t : Str} (h : utf8 s = utf8 t) : s = t := by
  have hbytes : s.utf8Encode = t.utf8Encode := congrArg List.toByteArray h
  refine String.ofList_inj.mp ?_
  simp [String.ofList, hbytes]

theorem ofUtf8_utf8 (s : Str) : ofUtf8 (utf8 s) = s := by
  have hbytes : (utf8 s).toByteArray = (String.ofList s).toByteArray := rfl
  have hvalid : (utf8 s).toByteArray.IsValidUTF8 := by
    rw [hbytes]
    exact (String.ofList s).isValidUTF8
  have hread : String.fromUTF8? (utf8 s).toByteArray = some (String.ofList s) := by
    rw [String.fromUTF8?, dif_pos hvalid]
    rfl
  rw [ofUtf8, hread]
  exact String.toList_ofList

theorem cut_append (c : Char) (front back : Str) (h : c ∉ front) :
    cut c (front ++ c :: back) = some (front, back) := by
  induction front with
  | nil => simp [cut]
  | cons d front ih =>
    have hd : d ≠ c := fun hc => h (by rw [hc]; exact List.mem_cons_self)
    have hrest : c ∉ front := fun hc => h (List.mem_cons_of_mem _ hc)
    simp [cut, if_neg hd, ih hrest]

theorem cut_eq_none (c : Char) (s : Str) : cut c s = none ↔ c ∉ s := by
  induction s with
  | nil => simp [cut]
  | cons d s ih =>
    by_cases hd : d = c
    · rw [hd]
      simp [cut]
    · have hne : ¬ c = d := fun hc => hd hc.symm
      simp only [cut, if_neg hd, List.mem_cons, hne, false_or, ← ih]
      cases cut c s with
      | none => simp
      | some p => simp

theorem cut_eq_some (c : Char) (s front back : Str) (h : cut c s = some (front, back)) :
    s = front ++ c :: back ∧ c ∉ front := by
  induction s generalizing front with
  | nil => simp [cut] at h
  | cons d s ih =>
    by_cases hd : d = c
    · simp only [cut, if_pos hd] at h
      cases h
      rw [hd]
      exact ⟨rfl, List.not_mem_nil⟩
    · simp only [cut, if_neg hd] at h
      cases hrest : cut c s with
      | none =>
        simp [hrest] at h
      | some p =>
        rcases p with ⟨f, b⟩
        rw [hrest] at h
        simp only [Option.some.injEq, Prod.mk.injEq] at h
        rcases ih f (by rw [hrest, h.2]) with ⟨hs, hf⟩
        rw [← h.1, hs]
        refine ⟨rfl, fun hc => ?_⟩
        rcases List.mem_cons.mp hc with hc | hc
        · exact hd hc.symm
        · exact hf hc

theorem dropWhile_eq_self (s : Str) (h : ∀ c ∈ s, isSpace c = false) :
    s.dropWhile isSpace = s := by
  cases s with
  | nil => rfl
  | cons c s => rw [List.dropWhile_cons, h c List.mem_cons_self, if_neg (by decide)]

theorem trimSpace_eq_self (s : Str) (h : ∀ c ∈ s, isSpace c = false) : trimSpace s = s := by
  rw [trimSpace, dropWhile_eq_self s h, dropWhile_eq_self s.reverse, List.reverse_reverse]
  intro c hc
  exact h c (List.mem_reverse.mp hc)

theorem parseDigits_toDigits (k : Nat) : parseDigits (Nat.toDigits 10 k) = some k := by
  have hall : (Nat.toDigits 10 k).all Char.isDigit = true :=
    List.all_eq_true.mpr (fun c hc => Nat.isDigit_of_mem_toDigits (by omega) (by omega) hc)
  rw [parseDigits, if_pos ⟨Nat.toDigits_ne_nil, hall⟩, Nat.ofDigitChars_ten_toDigits]

/-- A string of digits has no sign, so it is read by the last case. -/
theorem parseInt_digits (s : Str) (hne : s ≠ []) (h : s.all Char.isDigit = true) :
    parseInt s = (parseDigits s).bind (fun k =>
      if k < 2 ^ 63 then some (Int64.ofInt k) else none) := by
  cases s with
  | nil => exact absurd rfl hne
  | cons c s =>
    have hc : c.isDigit = true := List.all_eq_true.mp h c List.mem_cons_self
    unfold parseInt
    split
    · next heq =>
      rw [(List.cons.inj heq).1] at hc
      exact absurd hc (by decide)
    · next heq =>
      rw [(List.cons.inj heq).1] at hc
      exact absurd hc (by decide)
    · rfl

theorem parseInt_formatInt (n : Int64) : parseInt (formatInt n) = some n := by
  have hlt := n.toInt_lt
  have hle := n.le_toInt
  have hback := n.ofInt_toInt
  unfold formatInt
  cases hn : n.toInt with
  | ofNat k =>
    have hall : (Nat.toDigits 10 k).all Char.isDigit = true :=
      List.all_eq_true.mpr (fun c hc => Nat.isDigit_of_mem_toDigits (by omega) (by omega) hc)
    rw [hn] at hlt hback
    have hk : k < 2 ^ 63 := by
      simp only [Int.ofNat_eq_natCast] at hlt
      omega
    rw [parseInt_digits _ Nat.toDigits_ne_nil hall, parseDigits_toDigits, Option.bind_some,
      if_pos hk]
    exact congrArg some hback
  | negSucc k =>
    rw [hn] at hle hback
    have hk : k + 1 ≤ 2 ^ 63 := by
      rw [Int.negSucc_eq] at hle
      omega
    simp only [parseInt, parseDigits_toDigits, Option.bind_some, if_pos hk]
    rw [Int.negSucc_eq] at hback
    exact congrArg some hback

end Dao
