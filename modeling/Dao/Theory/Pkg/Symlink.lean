import Dao.Core.Pkg.Symlink

/-!
# Resolution in a Scope

What `FollowSymlinkInScope` returns.

`Resolves` is the resolution of components in a file system whose root is the
root of the scope: `..` at the root stays there, a link is replaced by the
components of its target, and a component that does not exist is kept. It is
strict if nothing can be walked from a file. The function is strict except for
`.`, `..` and an empty component: these it accepts after a file, and so it has a
result for `f/../x` where a system in that root has an error.

The proof follows the loop. The buffer stands for a path without links
(`Unlinked`), and one round is one step of the resolution.

## Theorems

* `Resolves.unique`: There is one resolution at most.
* `evalLoop_resolves`: The loop.
* `followSymlinkInScope_resolves`: The function.
* `followSymlinkInScope_through_file`: The result for `f/../x`.
-/

namespace Dao.Symlink

open Lib PathName FileSys FileTree List

variable {α : Type}

/-- The path is a directory or nothing. -/
def Walkable (fs : FileSys α) (p : Path) : Prop := fs.look p = none ∨ fs.isDir p = true

/-- The resolution of components from a path of the scope. If it is strict, no
    component can be walked from a file; otherwise `.`, `..` and the empty one
    can. -/
inductive Resolves (fs : FileSys α) (r : Path) (strict : Bool) :
  Path → List Name → Path → Prop where
  | done (cur : Path) : Resolves fs r strict cur [] cur
  | stay {cur p : Path} {n : Name} {rest : List Name} (h : n = [] ∨ n = ['.'])
      (hw : strict = true → Walkable fs (r ++ cur)) (hrest : Resolves fs r strict cur rest p) :
      Resolves fs r strict cur (n :: rest) p
  | up {cur p : Path} {rest : List Name} (hw : strict = true → Walkable fs (r ++ cur))
      (hrest : Resolves fs r strict cur.dropLast rest p) :
        Resolves fs r strict cur (dotdot :: rest) p
  | step {cur p : Path} {n : Name} {rest : List Name} (hn : Plain n) (hw : Walkable fs (r ++ cur))
      (hlink : fs.linkAt (r ++ (cur ++ [n])) = none)
      (hrest : Resolves fs r strict (cur ++ [n]) rest p) :
      Resolves fs r strict cur (n :: rest) p
  | follow {cur p : Path} {n : Name} {rest : List Name} {t : List Char} (hn : Plain n)
      (hlink : fs.linkAt (r ++ (cur ++ [n])) = some t)
      (hrest : Resolves fs r strict (if isAbs t then [] else cur) (splitSlash t ++ rest) p) :
      Resolves fs r strict cur (n :: rest) p

variable {fs : FileSys α} {r cur p q : Path} {n : Name} {b : Str} {strict : Bool} {rest : List Name}

theorem Resolves.of_trailing {ns : List Name} (h : Resolves fs r false cur (ns ++ [[]]) p) :
    Resolves fs r false cur ns p := by
  generalize hms : ns ++ [[]] = ms at h
  induction h generalizing ns with
  | done cur => exact absurd hms (append_ne_nil_of_right_ne_nil ns (cons_ne_nil _ _))
  | @stay cur p n rest h hw hrest ih =>
    cases ns with
    | nil =>
      rw [nil_append, cons.injEq] at hms
      rw [← hms.2] at hrest
      cases hrest with
      | done => exact .done _
    | cons m ns =>
      rw [cons_append, cons.injEq] at hms
      exact hms.1 ▸ .stay h hw (ih hms.2)
  | up hw hrest ih =>
    cases ns with
    | nil => exact absurd (cons.inj hms).1 (by decide)
    | cons m ns =>
      rw [cons_append, cons.injEq] at hms
      exact hms.1 ▸ .up hw (ih hms.2)
  | step hn hw hlink hrest ih =>
    cases ns with
    | nil => exact absurd (cons.inj hms).1.symm hn.1
    | cons m ns =>
      rw [cons_append, cons.injEq] at hms
      exact hms.1 ▸ .step hn hw hlink (ih hms.2)
  -- A link puts its target in front, and the empty component stays at the end.
  | follow hn hlink hrest ih =>
    rcases ns with _ | ⟨m, ns⟩
    · exact absurd (cons.inj hms).1.symm hn.1
    rw [cons_append, cons.injEq] at hms
    refine hms.1 ▸ .follow hn hlink (ih ?_)
    rw [← hms.2, append_assoc]

/-! ### Names below the root -/

/-- The name of the root leads to a directory. -/
structure Scope (fs : FileSys α) (root r : Path) : Prop where
  proper : Proper root
  leads : fs.locate true (render root) = .ok (.found r)
  isDir : fs.isDir r = true

/-- No path on the way from the root is a link, nor the last one. -/
def Unlinked (fs : FileSys α) (r q : Path) : Prop :=
  ∀ p, p <+: q → p ≠ [] → fs.linkAt (r ++ p) = none

theorem lstat_in_scope {root r q : Path} (hs : Scope fs root r) (hq : Proper (q ++ [n]))
    (hun : Unlinked fs r q) :
    (∃ e, fs.look (r ++ (q ++ [n])) = some e ∧
      lstat (render (root ++ (q ++ [n]))) fs = (.ok e, fs)) ∨
    (fs.look (r ++ (q ++ [n])) = none ∧ Walkable fs (r ++ q) ∧
      lstat (render (root ++ (q ++ [n]))) fs = (.error .noEntry, fs)) ∨
    lstat (render (root ++ (q ++ [n]))) fs = (.error .notDirectory, fs) := by
  have hne : q ++ [n] ≠ [] := concat_ne_nil n q
  have hleads := hs.leads
  rw [locate_render fs true hs.proper] at hleads
  rcases locateFrom_append false hleads hne with ⟨links, hlinks⟩
  have hlook : fs.look r ≠ none := by
    rcases isDir_iff.mp hs.isDir with ⟨a, ha⟩
    rw [ha]
    exact nofun
  -- The last component is not followed, and above it there are no links.
  have hreal : ∀ p, p <+: q ++ [n] → p ≠ [] → p ≠ q ++ [n] ∨ false = true →
      fs.linkAt (r ++ p) = none := by
    intro p hp hpne hor
    refine hun p ?_ hpne
    rcases prefix_concat_iff.mp hp with heq | hpre
    · exact absurd heq (hor.resolve_right Bool.false_ne_true)
    · exact hpre
  have hlstat : ∀ x, fs.locateFrom false links r (q ++ [n]) = x →
      fs.locate false (render (root ++ (q ++ [n]))) = x := by
    intro x hx
    rw [locate_render fs false (hs.proper.append hq), hlinks, hx]
  rcases @locateFrom_cases α fs _ r false links hq hlook hreal with
    ⟨hloc, hsome⟩ | ⟨p, m, hpm, hdir, hnone, hloc⟩ | ⟨p, m, rest, hpm, hrest, hdir, hnone, hloc⟩ |
    ⟨p, m, rest, hpm, _, _, hloc⟩
  · cases he : fs.look (r ++ (q ++ [n])) with
    | none => exact absurd he hsome
    | some e =>
      refine .inl ⟨e, rfl, ?_⟩
      rw [lstat, statAt, hlstat _ hloc]
      simp only []
      rw [he]
  · refine .inr (.inl ⟨hnone, .inr ?_, ?_⟩)
    · rw [(append_inj' hpm rfl).1]
      exact hdir
    · rw [lstat, statAt, hlstat _ hloc]
  · have hq' : q = p ++ m :: rest.dropLast := by
      have hdrop := congrArg dropLast hpm
      rw [dropLast_concat, dropLast_append_of_ne_nil (cons_ne_nil m rest),
        dropLast_cons_of_ne_nil hrest] at hdrop
      exact hdrop
    have hgone : fs.look (r ++ q) = none := by
      rw [hq', append_cons, ← append_assoc]
      exact look_append_of_none hnone
    refine .inr (.inl ⟨?_, .inl hgone, ?_⟩)
    · rw [← append_assoc]
      exact look_append_of_none hgone
    · rw [lstat, statAt, hlstat _ hloc]
  · refine .inr (.inr ?_)
    rw [lstat, statAt, hlstat _ hloc]

/-! ### The loop -/

/-- The buffer is empty or ends with a separator. -/
def Buffer (b : Str) : Prop := b = [] ∨ ∃ c, b = c ++ ['/']

/-- The path the buffer stands for. -/
def current (b : Str) : Path := comps ('/' :: b)

theorem comps_buffer (hb : Buffer b) {p : Str} (hp : '/' ∉ p) :
    comps ('/' :: b ++ p) = walk (current b) p := by
  rcases hb with rfl | ⟨c, rfl⟩
  · have hsplit := comps_slash [] p
    rw [splitSlash_plain p hp] at hsplit
    exact hsplit
  · have hfront : '/' :: (c ++ ['/']) ++ p = ('/' :: c) ++ '/' :: p := by
      rw [cons_append, append_assoc, singleton_append, cons_append]
    have hcur : current (c ++ ['/']) = comps ('/' :: c) := comps_slash ('/' :: c) []
    rw [hfront, comps_slash, splitSlash_plain p hp, hcur]
    rfl

theorem current_append (hb : Buffer b) {p : Str} (hp : '/' ∉ p) :
    current (b ++ p ++ ['/']) = walk (current b) p := by
  rw [← comps_buffer hb hp]
  have hfront : '/' :: (b ++ p ++ ['/']) = ('/' :: b ++ p) ++ '/' :: [] := by
    rw [cons_append, cons_append]
  rw [current, hfront, comps_slash]
  rfl

/-- The first component and the rest make the components of a path, up to an empty one
    at the end. -/
theorem nextComponent_spec (path : Str) : '/' ∉ (nextComponent path).1 ∧
    (splitSlash path = (nextComponent path).1 :: splitSlash (nextComponent path).2 ∨
      splitSlash path ++ [[]] = (nextComponent path).1 :: splitSlash (nextComponent path).2) := by
  unfold nextComponent
  cases hcut : cut '/' path with
  | none =>
    have hslash := (cut_eq_none '/' path).mp hcut
    refine ⟨hslash, .inr ?_⟩
    rw [splitSlash_plain path hslash]
    rfl
  | some x =>
    rcases x with ⟨front, back⟩
    rcases cut_eq_some '/' path front back hcut with ⟨hpath, hslash⟩
    refine ⟨hslash, .inl ?_⟩
    rw [hpath, splitSlash_append, splitSlash_plain front hslash]
    rfl

theorem linkAt_eq {e : Entry α} (h : fs.look p = some e) :
    fs.linkAt p = match e.kind with | .symlink t => some t | _ => none := by
  rcases e with ⟨kind, a⟩
  rw [linkAt, h]
  cases kind with
  | dir => rfl
  | file => rfl
  | symlink t => rfl
  | special => rfl

theorem proper_walk (b : Str) {p : Str} (hp : '/' ∉ p) : Proper (walk (current b) p) :=
  walk_proper (comps_proper _) hp

theorem unlinked_concat (h : Unlinked fs r q) (hlink : fs.linkAt (r ++ (q ++ [n])) = none) :
    Unlinked fs r (q ++ [n]) := by
  intro x hx hne
  rcases prefix_concat_iff.mp hx with rfl | hpre
  · exact hlink
  · exact h x hpre hne

theorem unlinked_above (h : Unlinked fs r q) (hp : p <+: q) :
    Unlinked fs r p := fun x hx hne => h x (hx.trans hp) hne

theorem evalLoop_resolves {root r : Path} (hs : Scope fs root r) {original : Str} (fuel : Nat)
    {path b b' : Str} (hb : Buffer b) (hun : Unlinked fs r (current b))
    (h : evalLoop fs (render root) original fuel path b = .ok b') :
    Resolves fs r false (current b) (splitSlash path) (current b') ∧
      Unlinked fs r (current b') := by
  have hend : ∀ c : Str, Resolves fs r false (current c) (splitSlash []) (current c) :=
    fun c => .stay (.inl rfl) nofun (.done _)
  induction fuel generalizing path b with
  | zero =>
    rw [evalLoop] at h
    split at h
    · next hnil =>
      rw [hnil, ← Except.ok.inj h]
      exact ⟨hend b, hun⟩
    · nomatch h
  | succ fuel ih =>
    rw [evalLoop] at h
    split at h
    · next hnil =>
      rw [hnil, ← Except.ok.inj h]
      exact ⟨hend b, hun⟩
    rcases nextComponent_spec path with ⟨hslash, hsplit⟩
    generalize (nextComponent path).1 = p at h hslash hsplit
    generalize (nextComponent path).2 = rest at h hsplit
    -- It is enough to resolve the first component and the rest.
    suffices hgoal : Resolves fs r false (current b) (p :: splitSlash rest) (current b') ∧
        Unlinked fs r (current b') by
      refine ⟨?_, hgoal.2⟩
      rcases hsplit with hsplit | hsplit
      · rw [hsplit]
        exact hgoal.1
      · rw [← hsplit] at hgoal
        exact hgoal.1.of_trailing
    have hfree : false = true → Walkable fs (r ++ current b) :=
      nofun
    simp only [] at h
    split at h
    · next hempty =>
      rcases ih hb hun h with ⟨hres, hun'⟩
      exact ⟨.stay (.inl hempty) hfree hres, hun'⟩
    next hne =>
    have hclean : clean ('/' :: b ++ p) = render (walk (current b) p) := by
      rw [clean_of_abs rfl, comps_buffer hb hslash]
    rw [hclean] at h
    -- The three kinds of components.
    have hkind : p = ['.'] ∨ p = dotdot ∨ Plain p := by
      by_cases hdot : p = ['.']
      · exact .inl hdot
      · by_cases hup : p = dotdot
        · exact .inr (.inl hup)
        · exact .inr (.inr ⟨hne, hdot, hup, hslash⟩)
    have hkeep : ∀ p', Resolves fs r false (walk (current b) p) (splitSlash rest) p' →
        (Plain p → Walkable fs (r ++ current b) ∧ fs.linkAt (r ++ (current b ++ [p])) = none) →
        Resolves fs r false (current b) (p :: splitSlash rest) p' := by
      intro p' hres hplain
      rcases hkind with hdot | hup | hp
      · rw [hdot] at hres ⊢
        exact .stay (.inr rfl) hfree hres
      · rw [hup] at hres ⊢
        exact .up hfree hres
      · rw [walk_plain _ hp] at hres
        exact .step hp (hplain hp).1 (hplain hp).2 hres
    split at h
    · next hroot =>
      have hnil : walk (current b) p = [] :=
        render_injective (proper_walk b hslash) proper_nil hroot
      have hun' : Unlinked fs r (current []) :=
        fun x hx hxne => absurd (prefix_nil.mp hx) hxne
      rcases ih (.inl rfl) hun' h with ⟨hres, hun''⟩
      refine ⟨hkeep _ (by rw [hnil]; exact hres) fun hp => ?_, hun''⟩
      rw [walk_plain _ hp] at hnil
      exact absurd hnil (concat_ne_nil p _)
    next hroot =>
    have hne' : walk (current b) p ≠ [] := by
      intro hnil
      exact hroot (by rw [hnil]; rfl)
    have hproper := proper_walk b hslash
    have hfull : clean (render root ++ render (walk (current b) p)) =
        render (root ++ walk (current b) p) := by
      rw [clean_of_abs (isAbs_append (isAbs_render root) _), comps_append_render hs.proper hproper]
    rw [hfull] at h
    rcases (eq_nil_or_concat' (walk (current b) p)).resolve_left hne' with ⟨q, n, hq⟩
    have hfront : Unlinked fs r q ∧ (Plain p → q = current b ∧ n = p) ∧
        (¬Plain p → fs.linkAt (r ++ (q ++ [n])) = none) := by
      have hbelow : q ++ [n] <+: current b → Unlinked fs r q ∧
        fs.linkAt (r ++ (q ++ [n])) = none := by
        intro hpre
        exact ⟨unlinked_above hun ((prefix_append q [n]).trans hpre), hun _ hpre (hq ▸ hne')⟩
      rcases hkind with hdot | hup | hp
      · have hbelow' := hbelow (by rw [← hq, hdot]; exact prefix_refl _)
        exact ⟨hbelow'.1, fun hp => absurd hdot hp.2.1, fun _ => hbelow'.2⟩
      · have hbelow' := hbelow (by rw [← hq, hup]; exact dropLast_prefix _)
        exact ⟨hbelow'.1, fun hp => absurd hup (plain_ne_dotdot hp), fun _ => hbelow'.2⟩
      · rw [walk_plain _ hp] at hq
        rcases append_inj' hq rfl with ⟨hqb, hnp⟩
        rw [singleton_inj] at hnp
        exact ⟨hqb ▸ hun, fun _ => ⟨hqb.symm, hnp.symm⟩, fun hnot => absurd hp hnot⟩
    rcases hfront with ⟨hunq, hplain, hother⟩
    -- A component that is no link goes to the buffer.
    have hcont : fs.linkAt (r ++ (q ++ [n])) = none → (Plain p → Walkable fs (r ++ q)) →
        evalLoop fs (render root) original fuel rest (b ++ p ++ ['/']) = .ok b' →
        Resolves fs r false (current b) (p :: splitSlash rest) (current b') ∧
          Unlinked fs r (current b') := by
      intro hlink hwalk hloop
      have hcur : current (b ++ p ++ ['/']) = q ++ [n] := by rw [current_append hb hslash, hq]
      have hun' : Unlinked fs r (current (b ++ p ++ ['/'])) := by
        rw [hcur]
        exact unlinked_concat hunq hlink
      rcases ih (.inr ⟨b ++ p, rfl⟩) hun' hloop with ⟨hres, hun''⟩
      rw [hcur, ← hq] at hres
      refine ⟨hkeep _ hres fun hp => ?_, hun''⟩
      rcases hplain hp with ⟨hqb, hnp⟩
      rw [hqb, hnp] at hlink
      exact ⟨hqb ▸ hwalk hp, hlink⟩
    rw [hq] at h hproper
    rcases lstat_in_scope hs hproper hunq with
      ⟨e, hlook, hlstat⟩ | ⟨hlook, hwalk, hlstat⟩ | hlstat
    · have hlink := linkAt_eq hlook
      have hwalk : Plain p → Walkable fs (r ++ q) := by
        rw [← append_assoc] at hlook
        exact fun _ => .inr (isDir_of_look hlook)
      rw [hlstat] at h
      rcases e with ⟨kind, a⟩
      cases kind with
      | dir | file | special => exact hcont hlink hwalk h
      | symlink t =>
        have hp : Plain p := by
          by_contra hnot
          simp [hother hnot] at hlink
        have hread : readlink (render (root ++ (q ++ [n]))) fs = (.ok t, fs) := by
          rw [readlink, Call.bind_apply, hlstat]
          rfl
        simp only [hread] at h
        rcases hplain hp with ⟨hqb, hnp⟩
        rw [hqb, hnp] at hlink
        have hun' : Unlinked fs r (current (if isAbs t then [] else b)) := by
          split
          · exact fun x hx hxne => absurd (prefix_nil.mp hx) hxne
          · exact hun
        have hb' : Buffer (if isAbs t then [] else b) := by
          split
          · exact .inl rfl
          · exact hb
        rcases ih hb' hun' h with ⟨hres, hun''⟩
        refine ⟨.follow hp hlink ?_, hun''⟩
        rw [splitSlash_append] at hres
        split
        · next habs =>
          rw [if_pos habs] at hres
          exact hres
        · next habs =>
          rw [if_neg habs] at hres
          exact hres
    · have hlink : fs.linkAt (r ++ (q ++ [n])) = none := by rw [linkAt, hlook]
      rw [hlstat] at h
      exact hcont hlink (fun _ => hwalk) h
    · simp [hlstat] at h

/-! ### The function -/

/-- A plain component is a step or a link. -/
theorem Resolves.plain_inv (hn : Plain n) (h : Resolves fs r strict cur (n :: rest) p) :
    (fs.linkAt (r ++ (cur ++ [n])) = none ∧ Resolves fs r strict (cur ++ [n]) rest p) ∨
    ∃ t, fs.linkAt (r ++ (cur ++ [n])) = some t ∧
      Resolves fs r strict (if isAbs t then [] else cur) (splitSlash t ++ rest) p := by
  cases h with
  | stay h _ _ => exact absurd h (not_or.mpr ⟨hn.1, hn.2.1⟩)
  | up _ _ => exact absurd rfl (plain_ne_dotdot hn)
  | step _ _ hlink hrest => exact .inl ⟨hlink, hrest⟩
  | follow _ hlink hrest => exact .inr ⟨_, hlink, hrest⟩

theorem Resolves.up_inv (h : Resolves fs r strict cur (dotdot :: rest) p) :
    strict = true → Walkable fs (r ++ cur) := by
  cases h with
  | stay h _ _ => exact absurd h (by decide)
  | up hw _ => exact hw
  | step hn | follow hn _ _ => exact absurd rfl (plain_ne_dotdot hn)

theorem Resolves.empty_inv (h : Resolves fs r strict cur ([] :: rest) p) :
    Resolves fs r strict cur rest p := by
  cases h with
  | stay _ _ hrest => exact hrest
  | step hn | follow hn _ _ => exact absurd rfl hn.1

theorem Resolves.unique {ns : List Name} (h : Resolves fs r strict cur ns p)
    (h' : Resolves fs r strict cur ns q) : p = q := by
  induction h with
  | done =>
    cases h' with
    | done => rfl
  | stay hn _ _ ih =>
    cases h' with
    | stay _ _ hrest' => exact ih hrest'
    | up => exact absurd hn (by decide)
    | step hplain | follow hplain => exact absurd hn (not_or.mpr ⟨hplain.1, hplain.2.1⟩)
  | up _ _ ih =>
    cases h' with
    | stay hn => exact absurd hn (by decide)
    | up _ hrest' => exact ih hrest'
    | step hplain | follow hplain => exact absurd rfl (plain_ne_dotdot hplain)
  -- A plain component is a link or it is none.
  | step hplain _ hlink _ ih =>
    rcases h'.plain_inv hplain with ⟨_, hrest'⟩ | ⟨t', hlink', _⟩
    · exact ih hrest'
    · simp [hlink] at hlink'
  | follow hplain hlink _ ih =>
    rcases h'.plain_inv hplain with ⟨hlink', _⟩ | ⟨t', hlink', hrest'⟩
    · simp [hlink] at hlink'
    · rw [hlink, Option.some.injEq] at hlink'
      exact ih (hlink' ▸ hrest')

theorem abs_eq_render (fs : FileSys α) (path : Str) :
    render (comps (abs fs path)) = abs fs path := by
  unfold abs
  split
  · next habs => rw [clean_of_abs habs, comps_render (comps_proper path)]
  · rw [joinTwo_of_abs (isAbs_render _), comps_render (foldl_walk_split_proper (comps_proper _) _)]

/-- The rest of a clean name behind another one. -/
theorem rest_of_prefix (hp : Proper p) (hq : Proper q) (hne : p ≠ []) {s : Str}
    (h : render p = (if q = [] then [] else render q) ++ '/' :: s) :
    p = q ++ comps ('/' :: s) ∧ Proper (comps ('/' :: s)) ∧ comps ('/' :: s) ≠ [] := by
  have hsplit : p = q ++ splitSlash s := by
    have hcut := congrArg splitSlash h
    rw [splitSlash_append, splitSlash_render hp hne] at hcut
    by_cases hnil : q = []
    · rw [if_pos hnil] at hcut
      rw [hnil, nil_append]
      exact (cons.inj hcut).2
    · rw [if_neg hnil, splitSlash_render hq hnil, cons_append] at hcut
      exact (cons.inj hcut).2
  have hcomps : comps ('/' :: s) = splitSlash s := by
    rw [hsplit] at hp
    exact (comps_slash [] s).trans (foldl_walk_proper _ hp.right)
  exact ⟨hcomps.symm ▸ hsplit, comps_proper _, hcomps.symm ▸ splitSlash_ne_nil s⟩

/-- The part of the path below the root, as the function cuts it off. -/
theorem rest_below {p q : Path} (hp : Proper p) (hq : Proper q) (hne : render p ≠ render q)
    (hpre : (render q).isPrefixOf (render p) = true)
    (habs : isAbs
      ((if render q = ['/'] then ['/'] else []) ++ (render p).drop (render q).length) = true) :
    ∃ x, p = q ++ x ∧ Proper x ∧ x ≠ [] ∧
      clean ((if render q = ['/'] then ['/'] else []) ++ (render p).drop (render q).length) =
        render x := by
  have hpne : p ≠ [] := by
    rintro rfl
    rw [ isPrefixOf_iff_prefix] at hpre
    rcases eq_nil_or_concat' q with rfl | ⟨q', n, rfl⟩
    · exact hne rfl
    · rcases render_append_prefix hq hp hpre with ⟨m, r, hnil⟩
      exact absurd hnil.symm (append_ne_nil_of_right_ne_nil q' (cons_ne_nil _ r))
  rw [ isPrefixOf_iff_prefix] at hpre
  rcases hpre with ⟨t, ht⟩
  rw [← ht, drop_left] at habs ⊢
  have hroot : render q = ['/'] ↔ q = [] := by
    constructor
    · intro heq
      exact render_injective hq proper_nil heq
    · rintro rfl
      rfl
  generalize hrest : (if render q = ['/'] then ['/'] else []) ++ t = rest at habs ⊢
  rcases rest with _ | ⟨c, s⟩
  · nomatch habs
  have hc : c = '/' := Option.some.inj (of_decide_eq_true habs)
  subst hc
  -- The slash that is put back for the root is the one the cut took away.
  have hfront : render p = (if q = [] then [] else render q) ++ '/' :: s := by
    rw [← ht, ← hrest]
    by_cases hnil : q = []
    · rw [if_pos hnil, if_pos (hroot.mpr hnil), hroot.mpr hnil]
      rfl
    · rw [if_neg hnil, if_neg (fun heq => hnil (hroot.mp heq))]
      rfl
  rcases rest_of_prefix hp hq hpne hfront with ⟨hpq, hproper, hxne⟩
  exact ⟨_, hpq, hproper, hxne, clean_of_abs rfl⟩

/-- What `FollowSymlinkInScope` returns is the root followed by the resolution of the
    path in the scope of the root, and has no link below the root. -/
theorem followSymlinkInScope_resolves (fs : FileSys α) (path root res : Str) (r : Path)
    (hroot : fs.locate true (abs fs root) = .ok (.found r)) (hdir : fs.isDir r = true)
    (h : followSymlinkInScope fs path root = .ok res) :
    ∃ p q, comps (abs fs path) = comps (abs fs root) ++ p ∧
      res = render (comps (abs fs root) ++ q) ∧
      (∀ x, x <+: q → x ≠ [] → ∀ e, (lstat (render (comps (abs fs root) ++ x)) fs).1 = .ok e →
        ∀ t, e.kind ≠ .symlink t) ∧
      Resolves fs r false [] p q := by
  have hproot := abs_eq_render fs root
  have hppath := abs_eq_render fs path
  have hrp := comps_proper (abs fs root)
  have hpp := comps_proper (abs fs path)
  rw [followSymlinkInScope, ← hproot, ← hppath] at h
  rw [← hproot] at hroot
  generalize comps (abs fs root) = R at hroot h hrp ⊢
  generalize comps (abs fs path) = P at h hpp ⊢
  have hs : Scope fs R r := ⟨hrp, hroot, hdir⟩
  rw [evalSymlinksInScope] at h
  simp only [] at h
  rw [clean_render hrp] at h
  split at h
  · next heq =>
    refine ⟨[], [], ?_, ?_, fun x hx hne => absurd (prefix_nil.mp hx) hne, .done []⟩
    · rw [append_nil]
      exact render_injective hpp hrp heq
    · rw [append_nil, ← heq]
      exact (Except.ok.inj h).symm
  next hne =>
  split at h
  · nomatch h
  next hpre =>
  -- What is left is a path below the root, which the loop goes through.
  have hrest := rest_below hpp hrp hne (Bool.not_eq_false _ ▸ hpre)
  generalize (if render R = ['/'] then ['/'] else []) ++ (render P).drop (render R).length = rest
    at h hrest
  split at h
  · nomatch h
  next habs =>
  rcases hrest (Bool.not_eq_false _ ▸ habs) with ⟨p, hP, hproper, hpne, hclean⟩
  rw [hclean] at h
  rcases hloop : evalLoop fs (render R) (render P) (maxIter + 1) (render p) [] with e | b
  · simp [hloop] at h
  rw [hloop] at h
  have hun : Unlinked fs r (current []) := fun x hx hxne => absurd (prefix_nil.mp hx) hxne
  rcases evalLoop_resolves hs (maxIter + 1) (.inl rfl) hun hloop with ⟨hres, hun'⟩
  rw [splitSlash_render hproper hpne] at hres
  refine ⟨p, current b, hP, ?_, ?_, hres.empty_inv⟩
  · rw [← Except.ok.inj h, clean_of_abs (isAbs_append (isAbs_render R) _), clean_of_abs rfl,
      comps_append_render hrp (comps_proper _)]
    rfl
  -- `lstat` of a path without links above finds its own entry.
  intro x hx hxne e he t
  rcases (eq_nil_or_concat' x).resolve_left hxne with ⟨y, n, rfl⟩
  have hyn : Proper (y ++ [n]) := fun m hm => comps_proper _ m (hx.subset hm)
  rcases lstat_in_scope hs hyn (unlinked_above hun' ((prefix_append y [n]).trans hx)) with
    ⟨e', hlook, hlstat⟩ | ⟨_, _, hlstat⟩ | hlstat
  · rw [hlstat] at he
    rw [← Except.ok.inj he]
    intro hkind
    have hlink := linkAt_eq hlook
    simp [hkind, hun' _ hx hxne] at hlink
  · simp [hlstat] at he
  · simp [hlstat] at he

/-- A directory `/r` with a file and two links, one of them absolute and one that goes
    through the file. -/
def sampleScope : FileSys Unit :=
  .ofList () [([], ['r'], ⟨.dir, ()⟩), ([['r']], ['f'], ⟨.file [], ()⟩),
    ([['r']], ['a'], ⟨.symlink "/../d/x".toList, ()⟩),
    ([['r']], ['l'], ⟨.symlink "f/../x".toList, ()⟩)]

theorem followSymlinkInScope_resolves_sample :
    ∃ p q, comps (abs sampleScope "/r/a/y".toList) = comps (abs sampleScope "/r".toList) ++ p ∧
      "/r/d/x/y".toList = render (comps (abs sampleScope "/r".toList) ++ q) ∧
      (∀ x, x <+: q → x ≠ [] → ∀ e,
        (lstat (render (comps (abs sampleScope "/r".toList) ++ x)) sampleScope).1 = .ok e →
        ∀ t, e.kind ≠ .symlink t) ∧
      Resolves sampleScope [['r']] false [] p q :=
  followSymlinkInScope_resolves sampleScope "/r/a/y".toList "/r".toList "/r/d/x/y".toList [['r']]
    (by decide) (by decide) (by decide)

/-- A link to `f/../x` is resolved to `x`, although `f` is a file. -/
theorem followSymlinkInScope_through_file :
    followSymlinkInScope sampleScope "/r/l".toList "/r".toList = .ok "/r/x".toList ∧
      ¬∃ q, Resolves sampleScope [['r']] true [] [['l']] q := by
  refine ⟨by decide, ?_⟩
  rintro ⟨q, h⟩
  have hlink : sampleScope.linkAt ([['r']] ++ ([] ++ [['l']])) = some "f/../x".toList := by
    decide
  rcases h.plain_inv (by decide) with ⟨hnone, _⟩ | ⟨t, ht, h⟩
  · rw [hlink] at hnone
    nomatch hnone
  rw [hlink, Option.some.injEq] at ht
  rw [← ht] at h
  have hfile : sampleScope.linkAt ([['r']] ++ ([] ++ [['f']])) = none := by decide
  rcases Resolves.plain_inv (n := ['f']) (by decide) h with ⟨_, h⟩ | ⟨t', ht', _⟩
  · rcases Resolves.up_inv h rfl with hnone | hisDir
    · exact absurd hnone (by decide)
    · exact absurd hisDir (by decide)
  · have hnone : sampleScope.linkAt ([['r']] ++ ([] ++ [['f']])) = some t' := ht'
    rw [hfile] at hnone
    nomatch hnone

end Dao.Symlink
