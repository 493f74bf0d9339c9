import Mathlib

/-!
# SHA-256

The hash function as FIPS 180-4 states it, on words held as numbers below
`2 ^ 32`, with the digest rendered in lower-case hexadecimal.

The definitions are written to be evaluated by the kernel. Its evaluation is
lazy, so a round that hands an unevaluated word to the next one builds a term
that doubles at every step. `force` evaluates a word before it is used, and
the word operations are the bare `Nat` functions the kernel computes with.
-/

namespace Lib

namespace Sha256

/-- Evaluate the number, then continue with it. -/
def force {α : Type} (n : Nat) (k : Nat → α) : α :=
  match n with
  | 0 => k 0
  | m + 1 => k (Nat.succ m)

theorem force_eq {α : Type} (n : Nat) (k : Nat → α) : force n k = k n := by
  cases n <;> rfl

/-- `2 ^ 32`. -/
def wordSize : Nat := 4294967296

def rotr (n x : Nat) : Nat :=
  Nat.lor (Nat.shiftRight x n) (Nat.mod (Nat.shiftLeft x (Nat.sub 32 n)) wordSize)

def smallSigma0 (x : Nat) : Nat :=
  Nat.xor (Nat.xor (rotr 7 x) (rotr 18 x)) (Nat.shiftRight x 3)

def smallSigma1 (x : Nat) : Nat :=
  Nat.xor (Nat.xor (rotr 17 x) (rotr 19 x)) (Nat.shiftRight x 10)

def bigSigma0 (x : Nat) : Nat := Nat.xor (Nat.xor (rotr 2 x) (rotr 13 x)) (rotr 22 x)

def bigSigma1 (x : Nat) : Nat := Nat.xor (Nat.xor (rotr 6 x) (rotr 11 x)) (rotr 25 x)

def ch (x y z : Nat) : Nat := Nat.xor (Nat.land x y) (Nat.land (Nat.sub 4294967295 x) z)

def maj (x y z : Nat) : Nat :=
  Nat.xor (Nat.xor (Nat.land x y) (Nat.land x z)) (Nat.land y z)

/-- The round constants. -/
def roundConstants : List Nat :=
  [0x428a2f98, 0x71374491, 0xb5c0fbcf, 0xe9b5dba5, 0x3956c25b, 0x59f111f1, 0x923f82a4, 0xab1c5ed5,
   0xd807aa98, 0x12835b01, 0x243185be, 0x550c7dc3, 0x72be5d74, 0x80deb1fe, 0x9bdc06a7, 0xc19bf174,
   0xe49b69c1, 0xefbe4786, 0x0fc19dc6, 0x240ca1cc, 0x2de92c6f, 0x4a7484aa, 0x5cb0a9dc, 0x76f988da,
   0x983e5152, 0xa831c66d, 0xb00327c8, 0xbf597fc7, 0xc6e00bf3, 0xd5a79147, 0x06ca6351, 0x14292967,
   0x27b70a85, 0x2e1b2138, 0x4d2c6dfc, 0x53380d13, 0x650a7354, 0x766a0abb, 0x81c2c92e, 0x92722c85,
   0xa2bfe8a1, 0xa81a664b, 0xc24b8b70, 0xc76c51a3, 0xd192e819, 0xd6990624, 0xf40e3585, 0x106aa070,
   0x19a4c116, 0x1e376c08, 0x2748774c, 0x34b0bcb5, 0x391c0cb3, 0x4ed8aa4a, 0x5b9cca4f, 0x682e6ff3,
   0x748f82ee, 0x78a5636f, 0x84c87814, 0x8cc70208, 0x90befffa, 0xa4506ceb, 0xbef9a3f7, 0xc67178f2]

/-- The eight working words. -/
structure Words where
  (a b c d e f g h : Nat)

def initial : Words :=
  ⟨0x6a09e667, 0xbb67ae85, 0x3c6ef372, 0xa54ff53a, 0x510e527f, 0x9b05688c, 0x1f83d9ab, 0x5be0cd19⟩

/-- Word-wise addition, closing a block. -/
def addWords : Words → Words → Words
  | ⟨a, b, c, d, e, f, g, h⟩, ⟨a', b', c', d', e', f', g', h'⟩ =>
    force (Nat.mod (Nat.add a a') wordSize) fun a =>
    force (Nat.mod (Nat.add b b') wordSize) fun b =>
    force (Nat.mod (Nat.add c c') wordSize) fun c =>
    force (Nat.mod (Nat.add d d') wordSize) fun d =>
    force (Nat.mod (Nat.add e e') wordSize) fun e =>
    force (Nat.mod (Nat.add f f') wordSize) fun f =>
    force (Nat.mod (Nat.add g g') wordSize) fun g =>
    force (Nat.mod (Nat.add h h') wordSize) fun h => ⟨a, b, c, d, e, f, g, h⟩

/-- The sixteen schedule words that the next round and its successors still
    need, oldest first. -/
structure Window where
  (w0 w1 w2 w3 w4 w5 w6 w7 w8 w9 w10 w11 w12 w13 w14 w15 : Nat)

/-- The rounds for the given constants. -/
def rounds : List Nat → Window → Words → Words
  | [], _, v => v
  | k :: ks, ⟨w0, w1, w2, w3, w4, w5, w6, w7, w8, w9, w10, w11, w12, w13, w14, w15⟩,
      ⟨a, b, c, d, e, f, g, h⟩ =>
    force (Nat.add (Nat.add (Nat.add (Nat.add h (bigSigma1 e)) (ch e f g)) k) w0) fun t =>
    force (Nat.mod (Nat.add t (Nat.add (bigSigma0 a) (maj a b c))) wordSize) fun a' =>
    force (Nat.mod (Nat.add d t) wordSize) fun e' =>
    force (Nat.mod (Nat.add (Nat.add (smallSigma1 w14) w9) (Nat.add (smallSigma0 w1) w0))
      wordSize) fun w =>
    rounds ks ⟨w1, w2, w3, w4, w5, w6, w7, w8, w9, w10, w11, w12, w13, w14, w15, w⟩
      ⟨a', a, b, c, e', e, f, g⟩

/-- One block after another, each read as sixteen words. -/
def compressAll : List Nat → Words → Words
  | w0 :: w1 :: w2 :: w3 :: w4 :: w5 :: w6 :: w7 :: w8 :: w9 :: w10 :: w11 :: w12 :: w13 ::
      w14 :: w15 :: rest, v =>
    compressAll rest (addWords v (rounds roundConstants
      ⟨w0, w1, w2, w3, w4, w5, w6, w7, w8, w9, w10, w11, w12, w13, w14, w15⟩ v))
  | _, v => v

/-- The `n` big-endian bytes of a number. -/
def bytesOf : Nat → Nat → List Nat
  | 0, _ => []
  | n + 1, x => Nat.mod (Nat.shiftRight x (Nat.mul 8 n)) 256 :: bytesOf n x

/-- The message, a one bit, zeros up to the length field, and the length. -/
def pad (msg : List Nat) : List Nat :=
  msg ++ 0x80 :: List.replicate ((119 - msg.length % 64) % 64) 0 ++ bytesOf 8 (8 * msg.length)

/-- Big-endian words of a byte string. -/
def words : List Nat → List Nat
  | a :: b :: c :: d :: rest =>
    force (Nat.add (Nat.mul (Nat.add (Nat.mul (Nat.add (Nat.mul a 256) b) 256) c) 256) d)
      fun w => w :: words rest
  | _ => []

def hexAlphabet : List Char :=
  ['0', '1', '2', '3', '4', '5', '6', '7', '8', '9', 'a', 'b', 'c', 'd', 'e', 'f']

/-- The digit of a number below sixteen. -/
def hexDigit (n : Nat) : Char :=
  Char.ofNat (cond (Nat.ble 10 n) (Nat.add n 87) (Nat.add n 48))

/-- The `n` low hexadecimal digits of a number. -/
def hexDigits : Nat → Nat → List Char
  | 0, _ => []
  | n + 1, x =>
    force (Nat.mod (Nat.shiftRight x (Nat.mul 4 n)) 16) fun d => hexDigit d :: hexDigits n x

/-- The eight words in hexadecimal, one after another. -/
def Words.hex : Words → List Char
  | ⟨a, b, c, d, e, f, g, h⟩ =>
    hexDigits 8 a ++ (hexDigits 8 b ++ (hexDigits 8 c ++ (hexDigits 8 d ++
      (hexDigits 8 e ++ (hexDigits 8 f ++ (hexDigits 8 g ++ hexDigits 8 h))))))

/-- The bytes as numbers. -/
def toNats : List UInt8 → List Nat
  | [] => []
  | b :: bs => force b.toNat fun n => n :: toNats bs

/-- The digest of a byte string, in hexadecimal. -/
def hexDigest (msg : List UInt8) : List Char :=
  (compressAll (words (pad (toNats msg))) initial).hex

theorem hexDigits_length (n x : Nat) : (hexDigits n x).length = n := by
  induction n with
  | zero => rfl
  | succ n ih => rw [hexDigits, force_eq, List.length_cons, ih]

theorem hexDigest_length (msg : List UInt8) : (hexDigest msg).length = 64 := by
  simp [hexDigest, Words.hex, hexDigits_length]

theorem hexDigit_mem : ∀ n < 16, hexDigit n ∈ hexAlphabet := by decide

theorem hexDigits_mem (n x : Nat) : ∀ c ∈ hexDigits n x, c ∈ hexAlphabet := by
  induction n with
  | zero => intro c hc; nomatch hc
  | succ n ih =>
    intro c hc
    rw [hexDigits, force_eq] at hc
    rcases List.mem_cons.mp hc with hc | hc
    · rw [hc]
      exact hexDigit_mem _ (Nat.mod_lt _ (by omega))
    · exact ih c hc

theorem hexDigest_digit (msg : List UInt8) : ∀ c ∈ hexDigest msg, c ∈ hexAlphabet := by
  intro c hc
  simp only [hexDigest, Words.hex, List.mem_append] at hc
  rcases hc with hc | hc | hc | hc | hc | hc | hc | hc <;> exact hexDigits_mem _ _ c hc

example : hexDigest ("abc".toList.map fun c => c.toNat.toUInt8) =
    "ba7816bf8f01cfea414140de5dae2223b00361a396177a9cb410ff61f20015ad".toList := by
  decide

end Sha256

end Lib
