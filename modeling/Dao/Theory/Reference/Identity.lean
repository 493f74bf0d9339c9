import Dao.Core.Reference.Named

/-!
# The Identity of a Reference

What `ParseNamed` accepts, and when the reference it returns still names the
repository the user named.

`parseNamed_iff` takes the two layers of parsing apart once. A text is
accepted when it is cut into a name, a tag and a digest, and the normalised
name passes the checks the name itself has passed. The reference then holds
the normalised name, and its own text is cut into that name and what follows
it, so parsing it again comes down to normalising the normalised name.

Normalisation strips the default hostname and `library/`, and what is left is
read by `splitHostname` as if the user had written it. `keepsIdentity` says
when that reading is the one before: it asks, for a repository on the default
host, that nothing is left that looks like a hostname or like another
`library/`. `splitHostname_normalize_iff` shows that this is exact, and both
halves of the identity follow from it.

## Theorems

* `identity_iff`: When a parsed reference names what the user named.
* `default_host_escape`: A repository of the default host that becomes one of
  another host.
-/

namespace Dao.Reference

open Lib Except Digest Regex List

/-! ### What is accepted -/

/-- The reference of a normalised name, with what the text had besides. -/
def assemble (name tag : Str) (digest : Digest) : Named :=
  if digest ≠ [] then .canonicalRef name digest
  else if tag ≠ [] then .taggedRef name tag
  else .namedRef name

theorem name_assemble (n t d : Str) : (assemble n t d).name = n := by
  unfold assemble
  split
  · rfl
  · split
    · rfl
    · rfl

theorem withName_iff (n : Str) (r : Named) :
    withName n = .ok r ↔ ∃ N, r = .namedRef N ∧ normalize n = .ok N ∧ validateID N = false ∧
      (utf8 N).length ≤ nameTotalLengthMax ∧ N ∈ nameRegexp.lang := by
  unfold withName
  rcases hN : normalize n with e | N
  · simp [bind, Except.bind]
  simp only [bind, Except.bind, validateName]
  -- Hexadecimal names, long ones and those outside of the grammar are refused in turn.
  by_cases hhex : validateID N = true
  · simp only [hhex, if_true, reduceCtorEq, ok.injEq, false_iff, not_exists]
    rintro M ⟨_, hM, hhex', _⟩
    rw [← hM, hhex] at hhex'
    exact absurd hhex' (by decide)
  simp only [if_neg hhex, distWithName]
  by_cases hlen : nameTotalLengthMax < (utf8 N).length
  · simp only [if_pos hlen, reduceCtorEq, ok.injEq, false_iff, not_exists]
    rintro M ⟨_, hM, _, hle, _⟩
    rw [← hM] at hle
    omega
  rw [if_neg hlen]
  by_cases hacc : nameRegexp.accepts N = true
  · simp only [if_pos hacc, pure, Except.pure, ok.injEq]
    constructor
    · intro h
      exact ⟨N, h.symm, rfl, by rw [← Bool.not_eq_true]; exact hhex, by omega,
        (accepts_iff _ _).mp hacc⟩
    · rintro ⟨M, hr, hM, _⟩
      rw [hr, hM]
  · simp only [if_neg hacc, reduceCtorEq, ok.injEq, false_iff, not_exists]
    rintro M ⟨_, hM, _, _, hmem⟩
    rw [← hM, ← accepts_iff] at hmem
    exact hacc hmem

/-- The parts of a text the vendored package accepts. -/
structure Accepted (s n t d : Str) : Prop where
  submatch : IsSubmatch s n t d
  length_le : (utf8 n).length ≤ nameTotalLengthMax
  digest_ok : d ≠ [] → Digest.parseDigest d = .ok d

theorem name_ne_nil {n : Str} (h : n ∈ nameRegexp.lang) : n ≠ [] := by
  intro hn
  rw [hn, ← nullable_iff] at h
  exact absurd h (by decide)

theorem parseDigest_eq {d e : Str} (h : parseDigest d = .ok e) : e = d := by
  unfold parseDigest at h
  split at h
  · nomatch h
  · exact (ok.inj h).symm

/-- What the vendored package makes of the parts: the best type for them. -/
def bestReference (n t d : Str) : DistReference :=
  if t = [] then if d ≠ [] then .canonicalReference n d else .repository n
  else if d = [] then .taggedReference n t else .reference n t d

theorem name_bestReference (n t d : Str) : (bestReference n t d).name = some n := by
  unfold bestReference
  split
  · split
    · rfl
    · rfl
  · split
    · rfl
    · rfl

theorem distParseNamed_iff (s name : Str) (ref : DistReference) :
    distParseNamed s = .ok (name, ref) ↔
      ∃ t d, Accepted s name t d ∧ ref = bestReference name t d := by
  have hiff := findStringSubmatch_iff s
  unfold distParseNamed distParse
  cases hsub : findStringSubmatch s with
  | none =>
    rw [hsub] at hiff
    have hleft : ∀ x, (if s = [] then (error .nameEmpty : Except RefError DistReference)
        else .error .invalidFormat) ≠ .ok x := by
      split
      · simp
      · simp
    constructor
    · intro h
      split at h
      · nomatch h
      · next heq => exact absurd heq (hleft _)
    · rintro ⟨t, d, hacc, _⟩
      exact absurd ((hiff name t d).mpr hacc.submatch)
        (by simp)
  | some p =>
    rcases p with ⟨n, t, d⟩
    have hmatch : IsSubmatch s n t d := (hiff n t d).mp hsub
    have hne := name_ne_nil hmatch.name_mem
    simp only []
    by_cases hlen : nameTotalLengthMax < (utf8 n).length
    · rw [if_pos hlen]
      refine ⟨nofun, ?_⟩
      rintro ⟨t', d', hacc, _⟩
      rw [← (submatch_unique hmatch hacc.submatch).1] at hacc
      exact absurd hacc.length_le (by omega)
    rw [if_neg hlen]
    -- The digest is checked once more, by the function that parses digests.
    by_cases hdig : d ≠ [] → parseDigest d = .ok d
    · have hread : (if d ≠ [] then parseDigest d else .ok []) = .ok d := by
        by_cases hd : d = []
        · rw [if_neg (not_not_intro hd), hd]
        · rw [if_pos hd, hdig hd]
      have hbest : getBestReferenceType n t d = some (bestReference n t d) := by
        unfold getBestReferenceType bestReference
        rw [if_neg hne]
        split
        · split
          · rfl
          · rfl
        · split
          · rfl
          · rfl
      rw [hread]
      simp only [hbest, name_bestReference, ok.injEq, Prod.mk.injEq]
      constructor
      · rintro ⟨hn, href⟩
        rw [← hn]
        exact ⟨t, d, ⟨hmatch, by omega, hdig⟩, href.symm⟩
      · rintro ⟨t', d', hacc, href⟩
        rcases submatch_unique hmatch hacc.submatch with ⟨hn, ht, hd⟩
        rw [href, hn, ht, hd]
        exact ⟨rfl, rfl⟩
    · have hd : d ≠ [] := fun hc => hdig (absurd hc)
      rw [if_pos hd]
      constructor
      · intro h
        cases hparse : parseDigest d with
        | error e =>
          simp [hparse] at h
        | ok e =>
          rw [parseDigest_eq hparse] at hparse
          exact absurd (fun _ => hparse) hdig
      · rintro ⟨t', d', hacc, _⟩
        rcases submatch_unique hmatch hacc.submatch with ⟨_, _, hdd⟩
        rw [← hdd] at hacc
        exact absurd hacc.digest_ok hdig

theorem withTag_mem {r : Named} {t : Str} (h : t ∈ tagRegexp.lang) :
    withTag r t = .ok (.taggedRef r.name t) := by
  rw [withTag, if_pos ((accepts_iff _ _).mpr h)]

theorem withDigest_mem {r : Named} {d : Str} (h : d ∈ digestRegexp.lang) :
    withDigest r d = .ok (.canonicalRef r.name d) := by
  rw [withDigest, if_pos ((accepts_iff _ _).mpr h)]

theorem withRest_bestReference {s n t d : Str} (h : IsSubmatch s n t d) (N : Str) :
    withRest (bestReference n t d) (.namedRef N) = .ok (assemble N t d) := by
  unfold withRest bestReference assemble
  by_cases ht : t = []
  · rw [if_pos ht]
    by_cases hd : d = []
    · rw [if_neg (not_not_intro hd), if_neg (not_not_intro hd), if_neg (not_not_intro ht)]
      rfl
    · rw [if_pos hd, if_pos hd]
      exact withDigest_mem (h.digest_mem.resolve_left hd)
  · rw [if_neg ht]
    by_cases hd : d = []
    · rw [if_pos hd, if_neg (not_not_intro hd), if_pos ht]
      exact withTag_mem (h.tag_mem.resolve_left ht)
    · rw [if_neg hd, if_pos hd]
      exact withDigest_mem (h.digest_mem.resolve_left hd)

theorem parseNamed_iff (s : Str) (r : Named) : parseNamed s = .ok r ↔ ∃ n t d N, Accepted s n t d ∧
      withName n = .ok (.namedRef N) ∧ r = assemble N t d := by
  unfold parseNamed
  rcases hdist : distParseNamed s with e | p
  · refine ⟨nofun, ?_⟩
    rintro ⟨n, t, d, N, hacc, _⟩
    simp [(distParseNamed_iff s n _).mpr ⟨t, d, hacc, rfl⟩] at hdist
  rcases p with ⟨n, ref⟩
  rcases (distParseNamed_iff s n ref).mp hdist with ⟨t, d, hacc, href⟩
  have hmatch := hacc.submatch
  have hfinish : ∀ N, withRest ref (.namedRef N) = .ok (assemble N t d) :=
    fun N => by rw [href, withRest_bestReference hmatch N]
  simp only []
  cases hname : withName n with
  | error e =>
    refine ⟨nofun, ?_⟩
    rintro ⟨n', t', d', N, hacc', hname', _⟩
    rw [← (submatch_unique hmatch hacc'.submatch).1, hname] at hname'
    nomatch hname'
  | ok q =>
    rcases (withName_iff n q).mp hname with ⟨N, hq, _⟩
    rw [hq] at hname ⊢
    simp only []
    rw [hfinish N]
    -- The parts of an accepted text are its only ones, so the reference is as well.
    constructor
    · intro h
      exact ⟨n, t, d, N, hacc, hname, (ok.inj h).symm⟩
    rintro ⟨n', t', d', N', hacc', hname', hr⟩
    rcases submatch_unique hmatch hacc'.submatch with ⟨hn, ht, hd⟩
    rw [← hn, hname, ok.injEq, Named.namedRef.injEq] at hname'
    rw [hr, ht, hd, hname']

/-! ### Reading a name -/

theorem currentHostname_default : currentHostname defaultHostname = defaultHostname := by decide

theorem splitHostname_of_no_slash {n : Str} (h : '/' ∉ n) :
    splitHostname n = (defaultHostname, defaultRepoPrefix ++ n) := by
  rw [splitHostname, splitFront, (cut_eq_none '/' n).mpr h]
  simp only [currentHostname_default, withLibrary]
  rw [if_pos ⟨trivial, h⟩]

theorem splitHostname_of_plain {n front back : Str} (hcut : cut '/' n = some (front, back))
    (hfront : isHostname front = false) : splitHostname n = (defaultHostname, n) := by
  have hslash : '/' ∈ n := by
    rw [(cut_eq_some '/' n front back hcut).1]
    exact mem_append_right _ mem_cons_self
  rw [splitHostname, splitFront, hcut]
  simp only [hfront, Bool.false_eq_true, if_false, currentHostname_default, withLibrary]
  rw [if_neg (fun h => h.2 hslash)]

/-- With a hostname the rest of the name is the repository, except that
    `library/` is put in front of a single component on the default host. -/
theorem splitHostname_of_hostname {n front back : Str} (hcut : cut '/' n = some (front, back))
    (hfront : isHostname front = true) :
    (splitHostname n).2 = back ∨ (splitHostname n).2 = defaultRepoPrefix ++ back := by
  rw [splitHostname, splitFront, hcut]
  simp only [hfront, if_true, withLibrary]
  split
  · exact .inr rfl
  · exact .inl rfl

/-- On the default host the name of a repository has two components or
    more. -/
theorem slash_mem_remote {n : Str} (h : (splitHostname n).1 = defaultHostname) :
    '/' ∈ (splitHostname n).2 := by
  have hlib : '/' ∈ defaultRepoPrefix := by decide
  simp only [splitHostname, withLibrary] at h ⊢
  by_cases hslash : '/' ∈ (splitFront n).2
  · rw [if_neg (fun hc => hc.2 hslash)]
    exact hslash
  · rw [if_pos ⟨h, hslash⟩]
    exact mem_append_left _ hlib

theorem no_slash_hostname (n : Str) : '/' ∉ (splitHostname n).1 := by
  have hdefault : '/' ∉ defaultHostname := by decide
  have hfront : '/' ∉ (splitFront n).1 := by
    unfold splitFront
    rcases hcut : cut '/' n with _ | p
    · exact hdefault
    simp only []
    split
    · exact (cut_eq_some '/' n p.1 p.2 hcut).2
    · exact hdefault
  simp only [splitHostname, currentHostname]
  split
  · exact hdefault
  · exact hfront

/-- The text `host/remote` gives both halves back. -/
theorem fullName_inj {n m : Str} (h : (splitHostname n).1 ++ '/' :: (splitHostname n).2 =
      (splitHostname m).1 ++ '/' :: (splitHostname m).2) : splitHostname n = splitHostname m := by
  have hcut := cut_append '/' _ (splitHostname n).2 (no_slash_hostname n)
  rw [h, cut_append '/' _ _ (no_slash_hostname m), Option.some.injEq, Prod.mk.injEq] at hcut
  exact Prod.ext hcut.1.symm hcut.2.symm

/-! ### Normalisation -/

/-- A repository on the default host is named by what is left of it when its
    own name does not start with something that is read as a hostname, and
    when after `library/` a single component follows. -/
def keepsIdentity (name : Str) : Bool :=
  let (host, remoteName) := splitHostname name
  decide (host ≠ defaultHostname) ||
    match cut '/' remoteName with
    | none => true
    | some (front, back) =>
      if front = library then decide ('/' ∉ back) else !isHostname front

/-- The three ways a name is normalised. -/
inductive Normalized (n N : Str) : Prop where
  | other (host : (splitHostname n).1 ≠ defaultHostname) (eq : N = n)
  | official (host : (splitHostname n).1 = defaultHostname)
      (cut_eq : cut '/' (splitHostname n).2 = some (library, N))
  | default (front back : Str) (host : (splitHostname n).1 = defaultHostname)
      (cut_eq : cut '/' (splitHostname n).2 = some (front, back)) (ne : front ≠ library)
      (eq : N = (splitHostname n).2)

theorem library_no_slash : '/' ∉ library := by decide

theorem normalize_cases {n N : Str} (h : normalize n = .ok N) :
    toLower (splitHostname n).2 = (splitHostname n).2 ∧ Normalized n N := by
  unfold normalize at h
  simp only [] at h
  by_cases hlow : toLower (splitHostname n).2 = (splitHostname n).2
  · refine ⟨hlow, ?_⟩
    rw [if_neg (not_not_intro hlow)] at h
    by_cases hhost : (splitHostname n).1 = defaultHostname
    · rw [if_pos hhost] at h
      have hslash := slash_mem_remote hhost
      -- `library/` is taken off on the default host, where the name is never a single component.
      by_cases hpre : defaultRepoPrefix.isPrefixOf (splitHostname n).2 = true
      · rw [if_pos hpre, ok.injEq] at h
        rcases List.isPrefixOf_iff_prefix.mp hpre with ⟨rest, hrest⟩
        rw [← hrest, drop_left] at h
        refine .official hhost ?_
        rw [← hrest, h, defaultRepoPrefix, append_assoc, singleton_append]
        exact cut_append '/' library N library_no_slash
      · rw [if_neg hpre, ok.injEq] at h
        rcases hcut : cut '/' (splitHostname n).2 with _ | p
        · exact absurd hslash ((cut_eq_none _ _).mp hcut)
        refine .default p.1 p.2 hhost hcut ?_ h.symm
        intro hlib
        refine hpre (List.isPrefixOf_iff_prefix.mpr ⟨p.2, ?_⟩)
        rw [(cut_eq_some _ _ _ _ hcut).1, hlib, defaultRepoPrefix, append_assoc, singleton_append]
    · rw [if_neg hhost, ok.injEq] at h
      exact .other hhost h.symm
  · simp [if_pos hlow] at h

/-- The normalised name is read as the name was exactly when nothing in it is
    taken for a hostname or for `library/` again. -/
theorem splitHostname_normalize_iff {n N : Str} (h : normalize n = .ok N) :
    splitHostname N = splitHostname n ↔ keepsIdentity n = true := by
  unfold keepsIdentity
  simp only [Bool.or_eq_true, decide_eq_true_eq]
  rcases (normalize_cases h).2 with
    ⟨hhost, hN⟩ | ⟨hhost, hcut⟩ | ⟨front, back, hhost, hcut, hne, hN⟩
  · rw [hN]
    exact ⟨fun _ => .inl hhost, fun _ => rfl⟩
  · -- An official image: `library/` is stripped.
    have hremote := (cut_eq_some _ _ _ _ hcut).1
    rw [hcut]
    simp only [if_true, decide_eq_true_eq, hhost, ne_eq, not_true_eq_false, false_or]
    constructor
    · intro heq hslash
      -- What is left is too short to be read as the name was.
      rcases hcutN : cut '/' N with _ | p
      · exact (cut_eq_none _ _).mp hcutN hslash
      have hlenN := congrArg List.length (cut_eq_some _ _ _ _ hcutN).1
      have hlenR := congrArg List.length hremote
      rw [← heq] at hlenR
      have hpl : defaultRepoPrefix.length = 8 := rfl
      have hll : library.length = 7 := rfl
      simp only [length_append, length_cons, hll] at hlenN hlenR
      by_cases hfront : isHostname p.1 = true
      · rcases splitHostname_of_hostname hcutN hfront with hb | hb
        · rw [hb] at hlenR
          omega
        · rw [hb, length_append, hpl] at hlenR
          omega
      · rw [Bool.not_eq_true] at hfront
        rw [splitHostname_of_plain hcutN hfront] at hlenR
        simp only [] at hlenR
        omega
    · intro hslash
      rw [splitHostname_of_no_slash hslash]
      refine Prod.ext hhost.symm ?_
      rw [hremote, defaultRepoPrefix, append_assoc, singleton_append]
  · -- Another repository of the default host: only the hostname is stripped.
    have hremote := (cut_eq_some _ _ _ _ hcut).1
    rw [hcut]
    simp only [if_neg hne, Bool.not_eq_true', hhost, ne_eq, not_true_eq_false, false_or]
    rw [← hN] at hcut hremote
    constructor
    · intro heq
      rw [← Bool.not_eq_true]
      intro hfront
      have hsnd : (splitHostname N).2 = N := by
        rw [heq]
        exact hN.symm
      rcases splitHostname_of_hostname hcut hfront with hb | hb
      · rw [hsnd] at hb
        have hlen := congrArg List.length hremote
        rw [hb, length_append, length_cons] at hlen
        omega
      · rw [hsnd, hremote, defaultRepoPrefix, append_assoc, singleton_append] at hb
        exact hne (append_cancel_right hb)
    · intro hfront
      rw [splitHostname_of_plain hcut hfront]
      exact Prod.ext hhost.symm hN

theorem normalize_fixed {n N : Str} (h : normalize n = .ok N)
    (hsplit : splitHostname N = splitHostname n) : normalize N = .ok N := by
  unfold normalize at h ⊢
  rw [hsplit]
  by_cases hhost : (splitHostname n).1 = defaultHostname
  · simp only [if_pos hhost] at h ⊢
    exact h
  simp only [if_neg hhost] at h ⊢
  split
  · next hlow =>
    rw [if_pos hlow] at h
    exact h
  · rfl

/-! ### The identity -/

theorem submatch_string {N t d : Str} (hN : N ∈ nameRegexp.lang)
    (ht : t = [] ∨ t ∈ tagRegexp.lang) (hd : d = [] ∨ d ∈ digestRegexp.lang) :
    IsSubmatch (assemble N t d).string N (if d = [] then t else []) d := by
  unfold assemble
  by_cases hde : d = []
  · rw [if_neg (not_not_intro hde), if_pos hde]
    by_cases hte : t = []
    · rw [if_neg (not_not_intro hte), hte, hde]
      exact ⟨by rw [Named.string]; exact (by rw [marked, marked, append_nil, append_nil]),
        hN, .inl rfl, .inl rfl⟩
    · rw [if_pos hte, hde]
      refine ⟨?_, hN, ht, .inl rfl⟩
      rw [Named.string, marked_of_ne_nil _ hte, marked, append_nil]
  · rw [if_pos hde, if_neg hde]
    refine ⟨?_, hN, .inl rfl, hd⟩
    rw [Named.string, marked, append_nil, marked_of_ne_nil _ hde]

theorem assemble_drop_tag (N t d : Str) :
    assemble N (if d = [] then t else []) d = assemble N t d := by
  unfold assemble
  by_cases hde : d = []
  · rw [if_pos hde]
  · rw [if_pos hde, if_pos hde]

/-- A reference of the parts of an accepted text is read back as soon as its
    name is normalised. -/
theorem parseNamed_string {s n t d N : Str} (hacc : Accepted s n t d)
    (hname : withName N = .ok (.namedRef N)) :
    parseNamed (assemble N t d).string = .ok (assemble N t d) := by
  rcases (withName_iff N _).mp hname with ⟨M, hM, _, _, hlen, hmem⟩
  rw [← Named.namedRef.inj hM] at hlen hmem
  have hmatch := submatch_string hmem hacc.submatch.tag_mem hacc.submatch.digest_mem
  exact (parseNamed_iff _ _).mpr ⟨N, _, d, N, ⟨hmatch, hlen, hacc.digest_ok⟩, hname,
    (assemble_drop_tag N t d).symm⟩

/-- A reference names the repository the user named, and is read back from its
    text, exactly when stripping the name uncovers nothing else. -/
theorem identity_iff (s n t d : Str) (r : Named)
    (hsub : findStringSubmatch s = some (n, t, d)) (hparse : parseNamed s = .ok r) :
    (r.fullName = (splitHostname n).1 ++ '/' :: (splitHostname n).2 ∧
      parseNamed r.string = .ok r) ↔ keepsIdentity n = true := by
  rcases (parseNamed_iff s r).mp hparse with ⟨n', t', d', N, hacc, hname, hr⟩
  rcases submatch_unique ((findStringSubmatch_iff s n t d).mp hsub) hacc.submatch with ⟨hn, _, _⟩
  rcases (withName_iff n' _).mp hname with ⟨M, hM, hnorm, hhex, hlen, hmem⟩
  rw [← Named.namedRef.inj hM] at hnorm hhex hlen hmem
  rw [hn, ← splitHostname_normalize_iff hnorm]
  have hfull : r.fullName = (splitHostname N).1 ++ '/' :: (splitHostname N).2 := by
    rw [Named.fullName, hr, name_assemble]
  rw [hfull]
  constructor
  · rintro ⟨h, _⟩
    exact fullName_inj h
  intro hsplit
  refine ⟨by rw [hsplit], ?_⟩
  rw [hr]
  exact parseNamed_string hacc
    ((withName_iff N _).mpr ⟨N, rfl, normalize_fixed hnorm hsplit, hhex, hlen, hmem⟩)

/-- `foo.example/bar`. -/
def otherHostName : Str :=
  ['f', 'o', 'o', '.', 'e', 'x', 'a', 'm', 'p', 'l', 'e', '/', 'b', 'a', 'r']

/-- `docker.io/library/bar:latest` is the official image `bar`. -/
theorem identity_official : ((Named.taggedRef ['b', 'a', 'r'] defaultTag).fullName =
        defaultHostname ++ '/' :: (defaultRepoPrefix ++ ['b', 'a', 'r']) ∧
      parseNamed (Named.taggedRef ['b', 'a', 'r'] defaultTag).string =
        .ok (.taggedRef ['b', 'a', 'r'] defaultTag)) :=
  (identity_iff
    (defaultHostname ++ '/' :: (defaultRepoPrefix ++ ['b', 'a', 'r'] ++ ':' :: defaultTag))
    (defaultHostname ++ '/' :: (defaultRepoPrefix ++ ['b', 'a', 'r'])) defaultTag [] _
    (by decide +kernel) (by decide +kernel)).mpr (by decide +kernel)

/-- The repository `foo.example/bar` of the default host becomes the repository
    `bar` of the host `foo.example`, and the image `library/bar` among the
    official ones becomes `bar` when its text is read again. -/
theorem default_host_escape : (∃ r, parseNamed (defaultHostname ++ '/' :: otherHostName) = .ok r ∧
      r.fullName = otherHostName ∧
      splitHostname (defaultHostname ++ '/' :: otherHostName) = (defaultHostname, otherHostName)) ∧
    ∃ r r', parseNamed (defaultHostname ++ '/' ::
        (defaultRepoPrefix ++ defaultRepoPrefix ++ ['b', 'a', 'r'])) = .ok r ∧
      parseNamed r.string = .ok r' ∧ r'.name ≠ r.name :=
  ⟨⟨.namedRef otherHostName, by decide⟩,
    .namedRef (defaultRepoPrefix ++ ['b', 'a', 'r']), .namedRef ['b', 'a', 'r'],
    by decide⟩

/-! ### References that are read back -/

/-- A reference is read back from its text. -/
def RoundTrips (r : Named) : Prop := parseNamed r.string = .ok r

instance (r : Named) : Decidable (RoundTrips r) :=
  inferInstanceAs (Decidable (parseNamed r.string = .ok r))

theorem roundTrips_withDefaultTag {r : Named} (h : RoundTrips r) :
    RoundTrips (withDefaultTag r) := by
  have htag : defaultTag ∈ tagRegexp.lang := (accepts_iff _ _).mp (by decide)
  cases r with
  | taggedRef => exact h
  | canonicalRef => exact h
  | namedRef name =>
    rcases (parseNamed_iff _ _).mp h with ⟨n, t, d, N, hacc, hname, hr⟩
    -- There is neither tag nor digest, so the text is the name.
    have hempty : t = [] ∧ d = [] ∧ name = N := by
      unfold assemble at hr
      split at hr
      · nomatch hr
      next hd =>
      split at hr
      · nomatch hr
      · next ht =>
        exact ⟨not_not.mp ht, not_not.mp hd, Named.namedRef.inj hr⟩
    rcases hempty with ⟨ht, hd, hN⟩
    have htext := hacc.submatch.text
    rw [ht, hd, Named.string, marked, marked, append_nil, append_nil] at htext
    rw [← htext, ← hN] at hname
    have hacc' : Accepted (name ++ ':' :: defaultTag) name defaultTag [] := by
      refine ⟨⟨?_, ?_, .inr htag, .inl rfl⟩, ?_, fun hc => absurd rfl hc⟩
      · rw [marked_of_ne_nil ':' (by decide), marked, append_nil]
      · rw [htext]
        exact hacc.submatch.name_mem
      · rw [htext]
        exact hacc.length_le
    exact parseNamed_string hacc' hname

end Dao.Reference
