import Mathlib

/-!
# Regular Expressions

Regular expressions over characters with classes, their language, and a
matcher that runs.

The language is Mathlib's `Language`, so what an expression means is read off
its constructors with the lemmas that exist there. The matcher is Antimirov's:
`pderiv c r` lists the expressions that can remain after reading `c`, and
`accepts` carries such a list along the text. Duplicates are dropped at every
character. That is what keeps the list short, an expression having only
finitely many remainders, and it is why the classes are lists of ranges and
not functions: two remainders have to be compared.

`uses` bounds the characters a text of the language can hold. An expression
that does not use a separator cannot reach across one, and this is how two
ways of cutting a text into parts are shown to be the same.
-/

namespace Lib

open List

/-- Regular expressions. A class is a list of closed ranges. -/
inductive Regex where
  | void
  | eps
  | cls (ranges : List (Char × Char))
  | seq (a b : Regex)
  | alt (a b : Regex)
  | star (a : Regex)
  deriving DecidableEq

namespace Regex

/-- The character lies in one of the ranges. -/
def inClass (ranges : List (Char × Char)) (c : Char) : Bool :=
  ranges.any fun r => Nat.ble r.1.toNat c.toNat && Nat.ble c.toNat r.2.toNat

/-- The texts an expression matches. -/
def lang : Regex → Language Char
  | void => 0
  | eps => 1
  | cls ranges => {s | ∃ c, s = [c] ∧ inClass ranges c = true}
  | seq a b => lang a * lang b
  | alt a b => lang a + lang b
  | star a => KStar.kstar (lang a)

/-- The expression matches the empty text. -/
def nullable : Regex → Bool
  | void => false
  | eps => true
  | cls _ => false
  | seq a b => nullable a && nullable b
  | alt a b => nullable a || nullable b
  | star _ => true

/-- Sequencing that drops a leading empty match, so that the remainders of a
    repetition come back to the repetition itself. -/
def join : Regex → Regex → Regex
  | eps, b => b
  | a, b => seq a b

/-- What can remain of the expression after reading the character. -/
def pderiv (c : Char) : Regex → List Regex
  | void => []
  | eps => []
  | cls ranges => if inClass ranges c then [eps] else []
  | seq a b =>
    (pderiv c a).map (fun r => join r b) ++ if nullable a then pderiv c b else []
  | alt a b => pderiv c a ++ pderiv c b
  | star a => (pderiv c a).map fun r => join r (star a)

/-- Read the text, carrying every expression that can still remain. -/
def acceptsFrom : List Regex → List Char → Bool
  | rs, [] => rs.any nullable
  | rs, c :: s => acceptsFrom (rs.flatMap (pderiv c)).dedup s

/-- The expression matches the whole text. -/
def accepts (r : Regex) (s : List Char) : Bool := acceptsFrom [r] s

/-- The character can occur in a text of the expression. -/
def uses (c : Char) : Regex → Bool
  | void => false
  | eps => false
  | cls ranges => inClass ranges c
  | seq a b => uses c a || uses c b
  | alt a b => uses c a || uses c b
  | star a => uses c a

/-- The ways of cutting a text in two, the longest front first. -/
def cuts (s : List Char) : List (List Char × List Char) :=
  ((List.range (s.length + 1)).map fun n => (s.take n, s.drop n)).reverse

/-- The ways of cutting a text into parts that match the expressions one after
    another. -/
def submatches : List Regex → List Char → List (List (List Char))
  | [], s => if s = [] then [[]] else []
  | r :: rs, s => (cuts s).flatMap (fun p =>
    if accepts r p.1 then (submatches rs p.2).map (fun parts => p.1 :: parts) else [])

/-- One or more. -/
def plus (r : Regex) : Regex := seq r (star r)

/-- None or one. -/
def opt (r : Regex) : Regex := alt r eps

/-- Exactly `n`, as a sequence. -/
def times : Nat → Regex → Regex
  | 0, _ => eps
  | n + 1, r => seq r (times n r)

/-- At most `n`, as nested optional parts. -/
def upTo : Nat → Regex → Regex
  | 0, _ => eps
  | n + 1, r => opt (seq r (upTo n r))

/-- The characters of a text, one after another. -/
def literal : List Char → Regex
  | [] => eps
  | c :: s => seq (cls [(c, c)]) (literal s)

theorem mem_cls (ranges : List (Char × Char)) (s : List Char) :
    s ∈ lang (cls ranges) ↔ ∃ c, s = [c] ∧ inClass ranges c = true := Iff.rfl

theorem mem_seq (a b : Regex) (s : List Char) :
    s ∈ lang (seq a b) ↔ ∃ x ∈ lang a, ∃ y ∈ lang b, x ++ y = s := Language.mem_mul

theorem mem_alt (a b : Regex) (s : List Char) :
    s ∈ lang (alt a b) ↔ s ∈ lang a ∨ s ∈ lang b := Language.mem_add _ _ _

theorem mem_opt (r : Regex) (s : List Char) : s ∈ lang (opt r) ↔ s ∈ lang r ∨ s = [] := by
  exact Iff.rfl

theorem inClass_singleton (c d : Char) : inClass [(c, c)] d = true ↔ d = c := by
  simp only [inClass, any_cons, any_nil, Bool.or_false, Bool.and_eq_true, Nat.ble_eq]
  constructor
  · intro h
    exact Char.toNat_inj.mp (by omega)
  · intro h
    rw [h]
    exact ⟨le_refl _, le_refl _⟩

theorem mem_literal (t s : List Char) : s ∈ lang (literal t) ↔ s = t := by
  induction t generalizing s with
  | nil => exact Iff.rfl
  | cons c t ih =>
    constructor
    · rintro ⟨x, ⟨d, hx, hd⟩, y, hy, hxy⟩
      rw [← hxy, hx, (inClass_singleton c d).mp hd, (ih y).mp hy]
      rfl
    · intro h
      exact ⟨[c], ⟨c, rfl, (inClass_singleton c c).mpr rfl⟩, t, (ih t).mpr rfl, h.symm⟩

theorem nullable_iff (r : Regex) : nullable r = true ↔ [] ∈ lang r := by
  induction r with
  | void | eps => simp [nullable, lang]
  | cls =>
    simp [nullable, mem_cls]
  | seq a b iha ihb =>
    rw [nullable, Bool.and_eq_true, iha, ihb, mem_seq]
    constructor
    · rintro ⟨ha, hb⟩
      exact ⟨[], ha, [], hb, rfl⟩
    rintro ⟨x, hx, y, hy, hxy⟩
    rcases append_eq_nil_iff.mp hxy with ⟨hx0, hy0⟩
    rw [hx0] at hx
    rw [hy0] at hy
    exact ⟨hx, hy⟩
  | alt a b iha ihb => rw [nullable, Bool.or_eq_true, iha, ihb, mem_alt]
  | star a _ => simp only [nullable, lang, Language.nil_mem_kstar]

theorem mem_join (a b : Regex) (s : List Char) :
    s ∈ lang (join a b) ↔ ∃ x ∈ lang a, ∃ y ∈ lang b, x ++ y = s := by
  cases a with
  | eps =>
    simp [join, lang]
  | void | cls | seq c d | alt c d | star c => exact mem_seq ..

/-- A repetition that reads a character reads it in its first non-empty
    round. -/
theorem cons_mem_star (a : Regex) (c : Char) (s : List Char) :
    c :: s ∈ lang (star a) ↔ ∃ x y, c :: x ∈ lang a ∧ y ∈ lang (star a) ∧ x ++ y = s := by
  constructor
  · intro h
    rcases Language.mem_kstar_iff_exists_nonempty.mp h with ⟨parts, hs, hparts⟩
    rcases parts with _ | ⟨p, ps⟩
    · simp at hs
    rcases hparts p mem_cons_self with ⟨hp, hne⟩
    rcases p with _ | ⟨d, x⟩
    · exact absurd rfl hne
    rw [flatten_cons, cons_append, cons.injEq] at hs
    refine ⟨x, ps.flatten, ?_, ?_, hs.2.symm⟩
    · rw [hs.1]
      exact hp
    · exact Language.join_mem_kstar fun y hy => (hparts y (mem_cons_of_mem _ hy)).1
  · rintro ⟨x, y, hx, hy, hxy⟩
    rcases Language.mem_kstar.mp hy with ⟨parts, hys, hparts⟩
    refine Language.mem_kstar.mpr ⟨(c :: x) :: parts, ?_, ?_⟩
    · rw [flatten_cons, ← hys, cons_append, hxy]
    intro z hz
    rcases mem_cons.mp hz with hz | hz
    · rw [hz]
      exact hx
    · exact hparts z hz

/-- Matching a sequence that starts with a character: the first part takes
    it, or it is empty and the second part does. -/
theorem cons_mem_seq (a b : Regex) (c : Char) (s : List Char) :
    c :: s ∈ lang (seq a b) ↔
      (∃ x y, c :: x ∈ lang a ∧ y ∈ lang b ∧ x ++ y = s) ∨ ([] ∈ lang a ∧ c :: s ∈ lang b) := by
  rw [mem_seq]
  constructor
  · rintro ⟨x, hx, y, hy, hxy⟩
    cases x with
    | nil =>
      rw [nil_append] at hxy
      rw [hxy] at hy
      exact .inr ⟨hx, hy⟩
    | cons d x =>
      rw [cons_append, cons.injEq] at hxy
      rw [hxy.1] at hx
      exact .inl ⟨x, y, hx, hy, hxy.2⟩
  · rintro (⟨x, y, hx, hy, hxy⟩ | ⟨ha, hb⟩)
    · exact ⟨c :: x, hx, y, hy, by rw [cons_append, hxy]⟩
    · exact ⟨[], ha, c :: s, hb, rfl⟩

theorem mem_pderiv_iff (c : Char) (r : Regex) (s : List Char) :
    (∃ q ∈ pderiv c r, s ∈ lang q) ↔ c :: s ∈ lang r := by
  induction r generalizing s with
  | void =>
    simp [pderiv, lang]
  | eps =>
    simp [pderiv, lang]
  | cls ranges =>
    rw [mem_cls, pderiv]
    by_cases hc : inClass ranges c = true
    · rw [if_pos hc]
      constructor
      · rintro ⟨q, hq, hs⟩
        rw [mem_singleton.mp hq] at hs
        rw [show s = [] from hs]
        exact ⟨c, rfl, hc⟩
      · rintro ⟨d, hd, _⟩
        rw [cons.injEq] at hd
        exact ⟨eps, mem_singleton.mpr rfl, hd.2⟩
    · rw [if_neg hc]
      constructor
      · rintro ⟨q, hq, _⟩
        nomatch hq
      rintro ⟨d, hd, hin⟩
      rw [cons.injEq] at hd
      rw [hd.1] at hc
      exact absurd hin hc
  | seq a b iha ihb =>
    rw [cons_mem_seq, pderiv]
    constructor
    · rintro ⟨q, hq, hs⟩
      rcases mem_append.mp hq with hq | hq
      · rcases mem_map.mp hq with ⟨r, hr, hrq⟩
        rw [← hrq, mem_join] at hs
        rcases hs with ⟨x, hx, y, hy, hxy⟩
        exact .inl ⟨x, y, (iha x).mp ⟨r, hr, hx⟩, hy, hxy⟩
      -- The second part can only begin the text if the first one may be empty.
      · by_cases hn : nullable a = true
        · rw [if_pos hn] at hq
          exact .inr ⟨(nullable_iff a).mp hn, (ihb s).mp ⟨q, hq, hs⟩⟩
        · simp [if_neg hn] at hq
    · rintro (⟨x, y, hx, hy, hxy⟩ | ⟨ha, hb⟩)
      · rcases (iha x).mpr hx with ⟨r, hr, hrx⟩
        refine ⟨join r b, mem_append_left _ (mem_map.mpr ⟨r, hr, rfl⟩), ?_⟩
        exact (mem_join r b s).mpr ⟨x, hrx, y, hy, hxy⟩
      · rcases (ihb s).mpr hb with ⟨r, hr, hrs⟩
        refine ⟨r, mem_append_right _ ?_, hrs⟩
        rw [if_pos ((nullable_iff a).mpr ha)]
        exact hr
  | alt a b iha ihb =>
    rw [mem_alt, pderiv, ← iha, ← ihb]
    constructor
    · rintro ⟨q, hq, hs⟩
      rcases mem_append.mp hq with hq | hq
      · exact .inl ⟨q, hq, hs⟩
      · exact .inr ⟨q, hq, hs⟩
    · rintro (⟨q, hq, hs⟩ | ⟨q, hq, hs⟩)
      · exact ⟨q, mem_append_left _ hq, hs⟩
      · exact ⟨q, mem_append_right _ hq, hs⟩
  | star a ih =>
    rw [cons_mem_star, pderiv]
    constructor
    · rintro ⟨q, hq, hs⟩
      rcases mem_map.mp hq with ⟨r, hr, hrq⟩
      rw [← hrq, mem_join] at hs
      rcases hs with ⟨x, hx, y, hy, hxy⟩
      exact ⟨x, y, (ih x).mp ⟨r, hr, hx⟩, hy, hxy⟩
    · rintro ⟨x, y, hx, hy, hxy⟩
      rcases (ih x).mpr hx with ⟨r, hr, hrx⟩
      exact ⟨join r (star a), mem_map.mpr ⟨r, hr, rfl⟩,
        (mem_join r (star a) s).mpr ⟨x, hrx, y, hy, hxy⟩⟩

theorem acceptsFrom_iff (rs : List Regex) (s : List Char) :
    acceptsFrom rs s = true ↔ ∃ r ∈ rs, s ∈ lang r := by
  induction s generalizing rs with
  | nil =>
    rw [acceptsFrom, any_eq_true]
    simp [nullable_iff]
  | cons c s ih =>
    rw [acceptsFrom, ih]
    constructor
    · rintro ⟨q, hq, hs⟩
      rcases mem_flatMap.mp (mem_dedup.mp hq) with ⟨r, hr, hqr⟩
      exact ⟨r, hr, (mem_pderiv_iff c r s).mp ⟨q, hqr, hs⟩⟩
    · rintro ⟨r, hr, hs⟩
      rcases (mem_pderiv_iff c r s).mpr hs with ⟨q, hq, hqs⟩
      exact ⟨q, mem_dedup.mpr (mem_flatMap.mpr ⟨r, hr, hq⟩), hqs⟩

theorem accepts_iff (r : Regex) (s : List Char) : accepts r s = true ↔ s ∈ lang r := by
  rw [accepts, acceptsFrom_iff]
  simp

theorem mem_cuts (s x y : List Char) : (x, y) ∈ cuts s ↔ x ++ y = s := by
  rw [cuts, mem_reverse, mem_map]
  constructor
  · rintro ⟨n, _, h⟩
    cases h
    rw [take_append_drop]
  · intro h
    refine ⟨x.length, mem_range.mpr ?_, ?_⟩
    · rw [← h, length_append]
      omega
    · rw [← h, take_left, drop_left]

theorem mem_submatches (rs : List Regex) (s : List Char) (parts : List (List Char)) :
    parts ∈ submatches rs s ↔ Forall₂ (fun r x => x ∈ lang r) rs parts ∧ parts.flatten = s := by
  induction rs generalizing s parts with
  | nil =>
    rw [submatches, forall₂_nil_left_iff]
    by_cases hs : s = []
    · rw [if_pos hs, mem_singleton, hs]
      exact ⟨fun h => ⟨h, by rw [h, flatten_nil]⟩, And.left⟩
    rw [if_neg hs]
    refine ⟨nofun, fun h => ?_⟩
    rw [h.1, flatten_nil] at h
    exact absurd h.2.symm hs
  | cons r rs ih =>
    rw [submatches, mem_flatMap]
    constructor
    · rintro ⟨⟨x, y⟩, hp, h⟩
      -- Each cut of the text gives the first part, and the others cut the rest.
      by_cases hx : accepts r x = true
      · rw [if_pos hx, mem_map] at h
        rcases h with ⟨tl, htl, heq⟩
        rcases (ih y tl).mp htl with ⟨hall, hflat⟩
        rw [← heq]
        refine ⟨Forall₂.cons ((accepts_iff r x).mp hx) hall, ?_⟩
        rw [flatten_cons, hflat, (mem_cuts s x y).mp hp]
      · simp [if_neg hx] at h
    · rintro ⟨hall, hflat⟩
      cases hall with
      | @cons _ x _ tl hx hrest =>
        refine ⟨(x, tl.flatten), (mem_cuts s _ _).mpr hflat, ?_⟩
        rw [if_pos ((accepts_iff r x).mpr hx)]
        exact mem_map.mpr ⟨tl, (ih tl.flatten tl).mpr ⟨hrest, rfl⟩, rfl⟩

theorem uses_of_mem (r : Regex) (s : List Char) (h : s ∈ lang r) : ∀ c ∈ s, uses c r = true := by
  induction r generalizing s with
  | void => exact absurd h (Language.notMem_zero s)
  | eps =>
    intro c hc
    simp [show s = [] from h] at hc
  | cls =>
    intro c hc
    rcases h with ⟨d, hs, hd⟩
    rw [hs, mem_singleton] at hc
    rw [hc]
    exact hd
  | seq a b iha ihb =>
    intro c hc
    rcases (mem_seq a b s).mp h with ⟨x, hx, y, hy, hxy⟩
    rw [← hxy] at hc
    rw [uses, Bool.or_eq_true]
    rcases mem_append.mp hc with hc | hc
    · exact .inl (iha x hx c hc)
    · exact .inr (ihb y hy c hc)
  | alt a b iha ihb =>
    intro c hc
    rw [uses, Bool.or_eq_true]
    rcases (mem_alt a b s).mp h with h | h
    · exact .inl (iha s h c hc)
    · exact .inr (ihb s h c hc)
  | star a ih =>
    intro c hc
    -- A character of a repetition is in one of its rounds.
    rcases Language.mem_kstar.mp h with ⟨parts, hs, hparts⟩
    rw [hs] at hc
    rcases mem_flatten.mp hc with ⟨p, hp, hcp⟩
    exact ih p (hparts p hp) c hcp

theorem uses_upTo {c : Char} {r : Regex} (h : uses c r = false) (n : Nat) :
    uses c (upTo n r) = false := by
  induction n with
  | zero => rfl
  | succ n ih => simp [upTo, opt, uses, h, ih]

theorem mem_cls_times (ranges : List (Char × Char)) (n : Nat) (s : List Char) :
    s ∈ lang (times n (cls ranges)) ↔ s.length = n ∧ ∀ c ∈ s, inClass ranges c = true := by
  induction n generalizing s with
  | zero =>
    rw [times, length_eq_zero_iff]
    constructor
    · intro h
      rw [show s = [] from h]
      exact ⟨rfl, nofun⟩
    · intro h
      exact h.1
  | succ n ih =>
    rw [times, mem_seq]
    constructor
    -- The first character is of the class, and the others are the rest of the power.
    · rintro ⟨x, ⟨d, hx, hd⟩, y, hy, hxy⟩
      rcases (ih y).mp hy with ⟨hlen, hall⟩
      rw [← hxy, hx]
      refine ⟨by rw [singleton_append, length_cons, hlen], ?_⟩
      intro c hc
      rcases mem_cons.mp hc with hc | hc
      · rw [hc]
        exact hd
      · exact hall c hc
    · rintro ⟨hlen, hall⟩
      rcases s with _ | ⟨d, y⟩
      · exact absurd hlen (by simp only [length_nil]; omega)
      refine ⟨[d], ⟨d, rfl, hall d mem_cons_self⟩, y, (ih y).mpr ⟨?_, ?_⟩, rfl⟩
      · simpa only [length_cons, Nat.add_right_cancel_iff] using hlen
      · exact fun c hc => hall c (mem_cons_of_mem _ hc)

end Regex

end Lib
