import Dao.Core.Digest

/-!
# The Grammar of References

The regular expressions of the vendored `distribution/reference` package and
the submatches of `ReferenceRegexp`: the name, the tag and the digest of a
reference.

`FindStringSubmatch` returns one way of cutting the text into the three parts.
Which one it prefers does not have to be modelled: there is never more than
one. An `@` can only stand in front of the digest. A colon inside a name
belongs to the port of its hostname, so a slash follows it, and a tag holds
neither slash nor colon. `findStringSubmatch_iff` is the result, and it is the
only thing later proofs know about the expressions.
-/

namespace Dao.Reference

open Lib Regex List

/-- `alphaNumericRegexp`: `[a-z0-9]+`. -/
def alphaNumericRegexp : Regex := plus (cls [('a', 'z'), ('0', '9')])

/-- `separatorRegexp`: `(?:[._]|__|[-]*)`. -/
def separatorRegexp : Regex :=
  alt (cls [('.', '.'), ('_', '_')]) (alt (literal ['_', '_']) (star (cls [('-', '-')])))

def nameComponentRegexp : Regex :=
  seq alphaNumericRegexp (opt (plus (seq separatorRegexp alphaNumericRegexp)))

/-- `hostnameComponentRegexp`:
    `(?:[a-zA-Z0-9]|[a-zA-Z0-9][a-zA-Z0-9-]*[a-zA-Z0-9])`. -/
def hostnameComponentRegexp : Regex :=
  alt (cls [('a', 'z'), ('A', 'Z'), ('0', '9')])
    (seq (cls [('a', 'z'), ('A', 'Z'), ('0', '9')])
      (seq (star (cls [('a', 'z'), ('A', 'Z'), ('0', '9'), ('-', '-')]))
        (cls [('a', 'z'), ('A', 'Z'), ('0', '9')])))

def hostnameRegexp : Regex :=
  seq hostnameComponentRegexp
    (seq (opt (plus (seq (literal ['.']) hostnameComponentRegexp)))
      (opt (seq (literal [':']) (plus (cls [('0', '9')])))))

/-- `NameRegexp`. Without its groups `anchoredNameRegexp` is the same
    expression. -/
def nameRegexp : Regex :=
  seq (opt (seq hostnameRegexp (literal ['/'])))
    (seq nameComponentRegexp (opt (plus (seq (literal ['/']) nameComponentRegexp))))

/-- `TagRegexp`: `[\w][\w.-]{0,127}`. -/
def tagRegexp : Regex :=
  seq (cls [('0', '9'), ('A', 'Z'), ('a', 'z'), ('_', '_')])
    (upTo 127 (cls [('0', '9'), ('A', 'Z'), ('a', 'z'), ('_', '_'), ('.', '.'), ('-', '-')]))

/-- What a tag holds. The repetition is too long to be unfolded. -/
theorem uses_tagRegexp {c : Char}
    (h : inClass [('0', '9'), ('A', 'Z'), ('a', 'z'), ('_', '_'), ('.', '.'),
      ('-', '-')] c = false) :
    uses c tagRegexp = false := by
  have hfirst : inClass [('0', '9'), ('A', 'Z'), ('a', 'z'), ('_', '_')] c = false := by
    rw [← Bool.not_eq_true] at h ⊢
    intro hc
    rw [inClass, any_eq_true] at hc
    rcases hc with ⟨r, hr, hin⟩
    exact h (any_eq_true.mpr ⟨r, mem_append_left [('.', '.'), ('-', '-')] hr, hin⟩)
  rw [tagRegexp, uses, uses, hfirst, Bool.false_or]
  exact uses_upTo (show uses c (cls _) = false from h) 127

/-- `[A-Za-z][A-Za-z0-9]*`, a component of the name of an algorithm. -/
def algorithmComponentRegexp : Regex :=
  seq (cls [('A', 'Z'), ('a', 'z')]) (star (cls [('A', 'Z'), ('a', 'z'), ('0', '9')]))

/-- `[[:xdigit:]]`. -/
def xdigit : Regex := cls [('0', '9'), ('A', 'F'), ('a', 'f')]

/-- `DigestRegexp`: `[A-Za-z][A-Za-z0-9]*(?:[-_+.][A-Za-z][A-Za-z0-9]*)*[:][[:xdigit:]]{32,}`.
    It is not the `DigestRegexp` of the `digest` package. -/
def digestRegexp : Regex :=
  seq algorithmComponentRegexp
    (seq (star (seq (cls [('-', '-'), ('_', '_'), ('+', '+'), ('.', '.')])
        algorithmComponentRegexp))
      (seq (literal [':']) (seq (times 32 xdigit) (star xdigit))))

/-- `ReferenceRegexp`, cut at its groups. -/
def referenceRegexp : List Regex :=
  [nameRegexp, opt (seq (literal [':']) tagRegexp), opt (seq (literal ['@']) digestRegexp)]

/-- `ReferenceRegexp.FindStringSubmatch`: the name, the tag and the digest,
    the last two empty when they are missing. -/
def findStringSubmatch (s : Str) : Option (Str × Str × Str) :=
  match submatches referenceRegexp s with
  | [name, tag, digest] :: _ => some (name, tag.drop 1, digest.drop 1)
  | _ => none

/-- A part behind its separator, or nothing when the part is empty. -/
def marked (c : Char) : Str → Str
  | [] => []
  | part => c :: part

theorem marked_of_ne_nil (c : Char) {part : Str} (h : part ≠ []) :
    marked c part = c :: part := by
  cases part with
  | nil => exact absurd rfl h
  | cons => rfl

theorem drop_marked (c : Char) (part : Str) : (marked c part).drop 1 = part := by
  cases part with
  | nil => rfl
  | cons => rfl

/-- An optional part behind its separator. The part is not empty when it is
    there. -/
theorem mem_opt_marked (c : Char) (r : Regex) (hr : nullable r = false) (s : Str) :
    s ∈ (opt (seq (literal [c]) r)).lang ↔
      ∃ part, s = marked c part ∧ (part = [] ∨ part ∈ r.lang) := by
  rw [mem_opt, mem_seq]
  constructor
  · rintro (⟨x, hx, y, hy, hxy⟩ | hs)
    · have hne : y ≠ [] := by
        intro hc
        rw [hc, ← nullable_iff, hr] at hy
        exact Bool.false_ne_true hy
      refine ⟨y, ?_, .inr hy⟩
      rw [← hxy, (mem_literal _ _).mp hx, marked_of_ne_nil c hne, singleton_append]
    · exact ⟨[], hs, .inl rfl⟩
  · rintro ⟨part, hs, hpart⟩
    by_cases hne : part = []
    · rw [hne] at hs
      exact .inr hs
    · rw [marked_of_ne_nil c hne] at hs
      exact .inl ⟨[c], (mem_literal _ _).mpr rfl, part, hpart.resolve_left hne, hs.symm⟩

theorem not_mem_of_uses {r : Regex} {c : Char} (hr : uses c r = false) {s : Str}
    (hs : s ∈ r.lang) : c ∉ s := by
  intro hc
  have huses := uses_of_mem r s hs c hc
  rw [hr] at huses
  exact Bool.false_ne_true huses

theorem not_mem_part {r : Regex} {c : Char} (hr : uses c r = false) {part : Str}
    (h : part = [] ∨ part ∈ r.lang) : c ∉ part := by
  rcases h with h | h
  · rw [h]
    exact not_mem_nil
  · exact not_mem_of_uses hr h

theorem not_mem_marked {c d : Char} (hcd : d ≠ c) {part : Str} (h : d ∉ part) :
    d ∉ marked c part := by
  cases part with
  | nil => exact not_mem_nil
  | cons =>
    intro hd
    rcases mem_cons.mp hd with hd | hd
    · exact hcd hd
    · exact h hd

/-- In a name a slash follows every colon: the colon can only belong to the
    port, and the hostname ends in a slash. -/
theorem slash_after_colon {n x y : Str} (hn : n ∈ nameRegexp.lang) (h : n = x ++ ':' :: y) :
    '/' ∈ y := by
  rcases (mem_seq _ _ _).mp hn with ⟨host, hhost, rest, hrest, hcat⟩
  have hcolon : ':' ∉ rest := not_mem_of_uses (by decide) hrest
  rw [← hcat] at h
  rcases append_eq_append_iff.mp h with ⟨mid, _, hy⟩ | ⟨mid, hx, hy⟩
  · -- The colon would lie past the hostname.
    exact absurd (by rw [hy]; exact mem_append_right _ mem_cons_self) hcolon
  · cases mid with
    | nil =>
      rw [nil_append] at hy
      exact absurd (by rw [← hy]; exact mem_cons_self) hcolon
    | cons c mid =>
      rw [cons_append, cons.injEq] at hy
      rcases (mem_opt _ _).mp hhost with hhost | hhost
      · rcases (mem_seq _ _ _).mp hhost with ⟨name, _, slash, hslash, hh⟩
        rw [(mem_literal _ _).mp hslash] at hh
        have hlast : '/' ∈ mid := by
          have hl : (x ++ ':' :: mid).getLast? = some '/' := by
            rw [hy.1, ← hx, ← hh, getLast?_append, getLast?_singleton,
              Option.some_or]
          cases mid with
          | nil =>
            rw [getLast?_append, getLast?_singleton, Option.some_or] at hl
            exact absurd hl (by decide)
          | cons d mid =>
            rw [getLast?_append, getLast?_cons_cons] at hl
            rw [getLast?_eq_getLast_of_ne_nil (cons_ne_nil d mid),
              Option.some_or, Option.some.injEq] at hl
            rw [← hl]
            exact getLast_mem _
        rw [hy.2]
        exact mem_append_left _ hlast
      · rw [hhost] at hx
        exact absurd hx.symm (append_ne_nil_of_right_ne_nil _ (cons_ne_nil _ _))

/-- A text is a reference with the given parts. -/
structure IsSubmatch (s name tag digest : Str) : Prop where
  text : s = name ++ marked ':' tag ++ marked '@' digest
  name_mem : name ∈ nameRegexp.lang
  tag_mem : tag = [] ∨ tag ∈ tagRegexp.lang
  digest_mem : digest = [] ∨ digest ∈ digestRegexp.lang

/-- What stands before the digest is cut into name and tag in one way. -/
theorem name_tag_unique {n n' t t' : Str} (hn : n ∈ nameRegexp.lang)
    (hn' : n' ∈ nameRegexp.lang) (ht : t = [] ∨ t ∈ tagRegexp.lang)
    (ht' : t' = [] ∨ t' ∈ tagRegexp.lang) (h : n ++ marked ':' t = n' ++ marked ':' t') :
    n = n' ∧ t = t' := by
  have hslash : '/' ∉ t := not_mem_part (uses_tagRegexp (by decide)) ht
  have hslash' : '/' ∉ t' := not_mem_part (uses_tagRegexp (by decide)) ht'
  have hcolon : ':' ∉ t := not_mem_part (uses_tagRegexp (by decide)) ht
  have hcolon' : ':' ∉ t' := not_mem_part (uses_tagRegexp (by decide)) ht'
  by_cases hte : t = []
  · by_cases hte' : t' = []
    · rw [hte, hte'] at h
      exact ⟨append_cancel_right h, by rw [hte, hte']⟩
    · rw [hte, marked_of_ne_nil _ hte'] at h
      exact absurd (slash_after_colon hn (by rw [← h]; exact (append_nil n).symm)) hslash'
  · by_cases hte' : t' = []
    · rw [hte', marked_of_ne_nil _ hte] at h
      exact absurd (slash_after_colon hn' (by rw [h]; exact (append_nil n').symm)) hslash
    · -- Both have a tag: its colon is the last one of the text.
      rw [marked_of_ne_nil _ hte, marked_of_ne_nil _ hte'] at h
      rcases append_eq_append_iff.mp h with ⟨mid, hmid, heq⟩ | ⟨mid, hmid, heq⟩
      · cases mid with
        | nil =>
          rw [nil_append, cons.injEq] at heq
          exact ⟨by rw [hmid, append_nil], heq.2⟩
        | cons =>
          rw [cons_append, cons.injEq] at heq
          exact absurd (by rw [heq.2]; exact mem_append_right _ mem_cons_self) hcolon
      · cases mid with
        | nil =>
          rw [nil_append, cons.injEq] at heq
          exact ⟨by rw [hmid, append_nil], heq.2.symm⟩
        | cons =>
          rw [cons_append, cons.injEq] at heq
          exact absurd (by rw [heq.2]; exact mem_append_right _ mem_cons_self) hcolon'

theorem submatch_unique {s n t d n' t' d' : Str} (h : IsSubmatch s n t d)
    (h' : IsSubmatch s n' t' d') : n = n' ∧ t = t' ∧ d = d' := by
  have hat : '@' ∉ n ++ marked ':' t := by
    rw [mem_append, not_or]
    exact ⟨not_mem_of_uses (by decide) h.name_mem,
      not_mem_marked (by decide) (not_mem_part (uses_tagRegexp (by decide)) h.tag_mem)⟩
  have hat' : '@' ∉ n' ++ marked ':' t' := by
    rw [mem_append, not_or]
    exact ⟨not_mem_of_uses (by decide) h'.name_mem,
      not_mem_marked (by decide) (not_mem_part (uses_tagRegexp (by decide)) h'.tag_mem)⟩
  -- No `@` stands in front of the digest, so the text can be cut at its first one.
  have hcat := h.text.symm.trans h'.text
  have hfront : n ++ marked ':' t = n' ++ marked ':' t' ∧ d = d' := by
    by_cases hd : d = []
    · rw [hd, show marked '@' [] = [] from rfl, append_nil] at hcat
      by_cases hd' : d' = []
      · rw [hd', show marked '@' [] = [] from rfl, append_nil] at hcat
        exact ⟨hcat, by rw [hd, hd']⟩
      · rw [hcat, marked_of_ne_nil _ hd'] at hat
        exact absurd (mem_append_right _ mem_cons_self) hat
    · rw [marked_of_ne_nil _ hd] at hcat
      by_cases hd' : d' = []
      · rw [hd', show marked '@' [] = [] from rfl, append_nil] at hcat
        rw [← hcat] at hat'
        exact absurd (mem_append_right _ mem_cons_self) hat'
      · rw [marked_of_ne_nil _ hd'] at hcat
        have hcut := cut_append '@' _ d hat
        rw [hcat, cut_append '@' _ d' hat', Option.some.injEq, Prod.mk.injEq] at hcut
        exact ⟨hcut.1.symm, hcut.2.symm⟩
  rcases name_tag_unique h.name_mem h'.name_mem h.tag_mem h'.tag_mem hfront.1 with ⟨hn, ht⟩
  exact ⟨hn, ht, hfront.2⟩

theorem mem_submatches_iff (s : Str) (parts : List Str) :
    parts ∈ submatches referenceRegexp s ↔
      ∃ n t d, parts = [n, marked ':' t, marked '@' d] ∧ IsSubmatch s n t d := by
  rw [mem_submatches]
  constructor
  · rintro ⟨hall, hflat⟩
    rcases forall₂_cons_left_iff.mp hall with ⟨n, _, hn, hall, hparts⟩
    rcases forall₂_cons_left_iff.mp hall with ⟨t', _, ht, hall, htl⟩
    rcases forall₂_cons_left_iff.mp hall with ⟨d', _, hd, hall, htl'⟩
    rw [forall₂_nil_left_iff] at hall
    rcases (mem_opt_marked ':' tagRegexp (by decide) t').mp ht with ⟨t, hte, ht⟩
    rcases (mem_opt_marked '@' digestRegexp (by decide) d').mp hd with ⟨d, hde, hd⟩
    rw [htl', hall, hde] at htl
    rw [htl, hte] at hparts
    refine ⟨n, t, d, hparts, ?_, hn, ht, hd⟩
    rw [← hflat, hparts]
    simp
  · rintro ⟨n, t, d, hparts, hmatch⟩
    rw [hparts]
    refine ⟨.cons hmatch.name_mem (.cons ?_ (.cons ?_ .nil)), ?_⟩
    · exact (mem_opt_marked ':' tagRegexp (by decide) _).mpr ⟨t, rfl, hmatch.tag_mem⟩
    · exact (mem_opt_marked '@' digestRegexp (by decide) _).mpr ⟨d, rfl, hmatch.digest_mem⟩
    · rw [hmatch.text]
      simp

theorem findStringSubmatch_iff (s n t d : Str) :
    findStringSubmatch s = some (n, t, d) ↔ IsSubmatch s n t d := by
  have hmem := mem_submatches_iff s
  unfold findStringSubmatch
  cases hall : submatches referenceRegexp s with
  | nil =>
    rw [hall] at hmem
    refine ⟨fun h => (nomatch h), fun h => ?_⟩
    exact absurd ((hmem _).mpr ⟨n, t, d, rfl, h⟩) not_mem_nil
  | cons parts =>
    rw [hall] at hmem
    rcases (hmem parts).mp mem_cons_self with ⟨n', t', d', hparts, hmatch⟩
    rw [hparts]
    simp only [drop_marked, Option.some.injEq, Prod.mk.injEq]
    constructor
    · rintro ⟨hn, ht, hd⟩
      rw [← hn, ← ht, ← hd]
      exact hmatch
    · intro h
      exact submatch_unique hmatch h

end Dao.Reference
