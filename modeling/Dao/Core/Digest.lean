import Dao.Core.Text
import Dao.Lib.Regex
import Dao.Lib.Sha256

/-!
# Digests

The vendored `digest` package: a digest is a string `algorithm:hex`, and
`FromBytes` computes the canonical one, SHA-256.

`Validate` is the check every digest read back from a file goes through. It
is a regular expression followed by a length check for each of the three
algorithms known to the package. `Algorithm` panics on a string without a colon;
here it returns nothing on it.
-/

namespace Dao

open Lib

/-- A digest, `algorithm:hex`. -/
abbrev Digest : Type := Str

namespace Digest

/-- The name of the canonical algorithm. -/
def sha256 : Str := ['s', 'h', 'a', '2', '5', '6']

def sha384 : Str := ['s', 'h', 'a', '3', '8', '4']

def sha512 : Str := ['s', 'h', 'a', '5', '1', '2']

def newDigestFromHex (alg hex : Str) : Digest := alg ++ ':' :: hex

/-- `FromBytes`: the canonical digest of the bytes. -/
def fromBytes (p : Bytes) : Digest := newDigestFromHex sha256 (Sha256.hexDigest p)

/-- `Algorithm`, which panics when there is no colon. -/
def algorithm (d : Digest) : Option Str := (cut ':' d).map Prod.fst

/-- `DigestRegexp`, anchored: `^[a-zA-Z0-9-_+.]+:[a-fA-F0-9]+$`. -/
def digestRegexp : Regex :=
  .seq (.plus (.cls [('a', 'z'), ('A', 'Z'), ('0', '9'), ('-', '-'), ('_', '_'), ('+', '+'),
      ('.', '.')]))
    (.seq (.literal [':']) (.plus (.cls [('a', 'f'), ('A', 'F'), ('0', '9')])))

/-- Why a digest is refused. -/
inductive DigestError where
  | invalidFormat
  | invalidLength
  | unsupported
  deriving DecidableEq

/-- The number of hex digits of an algorithm, twice its size in bytes. -/
def hexSize (alg : Str) : Option Nat :=
  if alg = sha256 then some 64
  else if alg = sha384 then some 96
  else if alg = sha512 then some 128
  else none

def validate (d : Digest) : Except DigestError Unit :=
  if digestRegexp.accepts d then
    match cut ':' d with
    | none => .error .invalidFormat
    | some (alg, hx) =>
      if hx = [] then .error .invalidFormat
      else match hexSize alg with
        | none => .error .unsupported
        | some n => if n = hx.length then .ok () else .error .invalidLength
  else .error .invalidFormat

def parseDigest (s : Str) : Except DigestError Digest :=
  match validate s with
  | .error e => .error e
  | .ok _ => .ok s

/-- A SHA-256 digest with 64 lower-case digits, as `FromBytes` makes them. -/
def IsCanonical (d : Digest) : Prop :=
  ∃ hx, d = newDigestFromHex sha256 hx ∧ hx.length = 64 ∧ ∀ c ∈ hx, c ∈ Sha256.hexAlphabet

theorem fromBytes_canonical (p : Bytes) : IsCanonical (fromBytes p) :=
  ⟨Sha256.hexDigest p, rfl, Sha256.hexDigest_length p, Sha256.hexDigest_digit p⟩

theorem cut_newDigestFromHex (hx : Str) :
    cut ':' (newDigestFromHex sha256 hx) = some (sha256, hx) :=
  cut_append ':' sha256 hx (by decide)

theorem newDigestFromHex_inj {hx hx' : Str}
    (h : newDigestFromHex sha256 hx = newDigestFromHex sha256 hx') : hx = hx' :=
  (List.cons.inj (List.append_cancel_left h)).2

/-- The digest that a listing makes of a name, if it is valid. -/
theorem listed_eq_some {n : Str} {d : Digest} :
    (match validate (newDigestFromHex sha256 n) with
      | .error _ => none
      | .ok _ => some (newDigestFromHex sha256 n)) = some d ↔
      newDigestFromHex sha256 n = d ∧ validate d = .ok () := by
  cases hv : validate (newDigestFromHex sha256 n) with
  | error e =>
    refine iff_of_false (by simp) ?_
    rintro ⟨rfl, hok⟩
    simp [hv] at hok
  | ok u =>
    simp only [Option.some.injEq]
    exact ⟨fun hd => ⟨hd, by rw [← hd, hv]⟩, And.left⟩

theorem mem_plus_cls (ranges : List (Char × Char)) (s : Str) (hne : s ≠ [])
    (h : ∀ c ∈ s, Regex.inClass ranges c = true) : s ∈ (Regex.plus (.cls ranges)).lang := by
  cases s with
  | nil => exact absurd rfl hne
  | cons c s =>
    refine (Regex.mem_seq _ _ _).mpr
      ⟨[c], ⟨c, rfl, h c List.mem_cons_self⟩, s, ?_, rfl⟩
    refine Language.mem_kstar.mpr ⟨s.map (fun d => [d]), ?_, ?_⟩
    · rw [← List.flatMap_def, List.flatMap_singleton']
    · intro y hy
      rcases List.mem_map.mp hy with ⟨d, hd, hdy⟩
      exact ⟨d, hdy.symm, h d (List.mem_cons_of_mem _ hd)⟩

theorem validate_canonical (d : Digest) (h : IsCanonical d) : validate d = .ok () := by
  rcases h with ⟨hx, hd, hlen, hall⟩
  have hne : hx ≠ [] := by
    intro hc
    rw [hc] at hlen
    exact absurd hlen (by decide)
  have hlower : ∀ c ∈ Sha256.hexAlphabet,
      Regex.inClass [('a', 'f'), ('A', 'F'), ('0', '9')] c = true :=
    List.all_iff_forall_prop.mp (by decide)
  have hmatch : digestRegexp.accepts d = true := by
    rw [Regex.accepts_iff, hd]
    refine (Regex.mem_seq _ _ _).mpr ⟨sha256, mem_plus_cls _ _ (by decide)
      (List.all_iff_forall_prop.mp (by decide)), ':' :: hx, ?_, rfl⟩
    refine (Regex.mem_seq _ _ _).mpr ⟨[':'], (Regex.mem_literal _ _).mpr rfl, hx, ?_, rfl⟩
    exact mem_plus_cls _ _ hne (fun c hc => hlower c (hall c hc))
  rw [validate, if_pos hmatch, hd, cut_newDigestFromHex]
  simp [if_neg hne, hexSize, hlen]

theorem parseDigest_canonical (d : Digest) (h : IsCanonical d) : parseDigest d = .ok d := by
  rw [parseDigest, validate_canonical d h]

theorem canonical_no_space (d : Digest) (h : IsCanonical d) : ∀ c ∈ d, isSpace c = false := by
  rcases h with ⟨hx, hd, _, hall⟩
  have hfront : ∀ c ∈ sha256 ++ [':'], isSpace c = false := List.all_iff_forall_prop.mp (by decide)
  have hback : ∀ c ∈ Sha256.hexAlphabet, isSpace c = false :=
    List.all_iff_forall_prop.mp (by decide)
  intro c hc
  rw [hd, newDigestFromHex, ← List.singleton_append, ← List.append_assoc,
    List.mem_append] at hc
  rcases hc with hc | hc
  · exact hfront c hc
  · exact hback c (hall c hc)

/-- A digest of the canonical algorithm that passes the format check. Its
    digits may be of either case. -/
def IsSha256 (d : Digest) : Prop := ∃ hx, d = newDigestFromHex sha256 hx ∧ validate d = .ok ()

theorem isSha256_of_canonical {d : Digest} (h : IsCanonical d) : IsSha256 d := by
  rcases h with ⟨hx, hd, hrest⟩
  exact ⟨hx, hd, validate_canonical d ⟨hx, hd, hrest⟩⟩

/-- What the format check says about the characters of a digest. -/
theorem uses_of_validate {d : Digest} (h : validate d = .ok ()) :
    ∀ c ∈ d, digestRegexp.uses c = true := by
  unfold validate at h
  by_cases hmatch : digestRegexp.accepts d = true
  · exact Regex.uses_of_mem _ _ ((Regex.accepts_iff _ _).mp hmatch)
  · simp [if_neg hmatch] at h

theorem validate_no_space {d : Digest} (h : validate d = .ok ()) :
    ∀ c ∈ d, isSpace c = false := by
  intro c hc
  have huses := uses_of_validate h c hc
  simp only [digestRegexp, Regex.uses, Regex.plus, Regex.literal, Regex.inClass, List.any_cons,
    List.any_nil, Bool.or_eq_true, Bool.and_eq_true, Nat.ble_eq, Char.reduceToNat,
    Bool.false_eq_true, or_false] at huses
  have hrange : 43 ≤ c.toNat ∧ c.toNat ≤ 122 := by omega
  rw [← Bool.not_eq_true]
  simp only [isSpace, Bool.or_eq_true, Bool.and_eq_true, Nat.ble_eq, beq_iff_eq]
  omega

theorem validate_hex_length {hx : Str} (h : validate (newDigestFromHex sha256 hx) = .ok ()) :
    hx.length = 64 := by
  unfold validate at h
  split at h
  · rw [cut_newDigestFromHex] at h
    simp only [hexSize, if_true] at h
    split at h
    · exact nomatch h
    · split at h
      · omega
      · exact nomatch h
  · exact nomatch h

theorem ne_nil_of_validate {d : Digest} (h : validate d = .ok ()) : d ≠ [] := by
  intro hd
  rw [hd] at h
  exact absurd h (by decide)

theorem canonical_ne_nil (d : Digest) (h : IsCanonical d) : d ≠ [] := by
  rcases h with ⟨hx, hd, _⟩
  rw [hd, newDigestFromHex]
  exact List.append_ne_nil_of_right_ne_nil _ (List.cons_ne_nil _ _)

end Digest

end Dao
