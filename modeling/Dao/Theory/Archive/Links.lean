import Dao.Core.Archive.Entry

/-!
# Links of an Archive

Where the links lead that `createTarFile` makes.

It looks at the target of a link before it makes one, and refuses a target whose
name does not begin with the name of the directory it extracts to. The names are
compared as strings, so `/a/bc` passes for something below `/a/b` (`Sibling`), and
the absolute target of a symbolic link is taken as one relative to the directory
of the link, which it is not for the system.

## Theorems

* `render_prefix_iff`: What the comparison of the names says.
* `not_refused_iff`: A link is refused exactly if the comparison fails.
* `createTarFile_link_below`: The links for which a link that is not refused leads
  below the directory.
* `createTarFile_link_sibling`: One that does not.
-/

namespace Dao.Archive

open Lib PathName Call List

/-- The error says that the entry breaks out. -/
def Err.isBreakout : Err → Bool
  | .invalidHardlink _ _ => true
  | .invalidSymlink _ _ => true
  | .outside _ _ => true
  | _ => false

/-- The path that is looked at before a link is made. -/
def checkedTarget (path extractDir : Str) (hdr : Header) : Path :=
  comps ((if hdr.typeflag = .link then extractDir else dir path) ++ '/' :: hdr.linkname)

/-- The link is symbolic, with an absolute target. -/
def absolute (hdr : Header) : Bool := hdr.typeflag = .symlink && isAbs hdr.linkname

/-- The path a link leads to, by its name. -/
def linkTarget (path extractDir : Str) (hdr : Header) : Path :=
  if absolute hdr then comps hdr.linkname else checkedTarget path extractDir hdr

/-- A path beside the directory whose name begins with the directory's. -/
def Sibling (d q : Path) : Prop := ∃ p n m r, d = p ++ [n] ∧ m ≠ [] ∧ q = p ++ (n ++ m) :: r

theorem not_sibling_of_below {d q : Path} (h : d <+: q) : ¬Sibling d q := by
  rintro ⟨p, n, m, r, rfl, hm, rfl⟩
  rcases h with ⟨t, ht⟩
  rw [append_assoc, append_cancel_left_eq, singleton_append, cons.injEq] at ht
  exact hm (self_eq_append_right.mp ht.1)

theorem render_prefix (p : Path) (n m : Name) (r : Path) :
    render (p ++ [n]) <+: render (p ++ (n ++ m) :: r) := by
  rw [render, if_neg (by simp), render, if_neg (by simp), flatMap_append, flatMap_append,
    prefix_append_right_inj, flatMap_singleton, flatMap_cons, cons_append, append_assoc]
  exact ⟨m ++ r.flatMap fun n => '/' :: n, rfl⟩

/-- A name that begins with the name of the directory is the name of something below
    it or of a sibling. -/
theorem render_prefix_iff {d q : Path} (hd : Proper d) (hq : Proper q) :
    render d <+: render q ↔ d <+: q ∨ Sibling d q := by
  rcases eq_nil_or_concat' d with rfl | ⟨p, n, rfl⟩
  · obtain ⟨s, hs⟩ : ∃ s, render q = '/' :: s := by
      cases q with
      | nil | cons n p => exact ⟨_, rfl⟩
    rw [hs]
    exact iff_of_true ⟨s, rfl⟩ (.inl nil_prefix)
  constructor
  · intro h
    obtain ⟨m, r, rfl⟩ := render_append_prefix hd hq h
    by_cases hm : m = []
    · rw [hm, append_nil]
      exact .inl ⟨r, append_assoc p [n] r⟩
    · exact .inr ⟨p, n, m, r, rfl, hm, rfl⟩
  · rintro (⟨r, rfl⟩ | ⟨p', n', m, r, heq, -, rfl⟩)
    · have h := render_prefix p n [] r
      rwa [List.append_nil n, append_cons p n r] at h
    · obtain ⟨rfl, hn⟩ := append_inj' heq rfl
      obtain rfl := singleton_inj.mp hn
      exact render_prefix p n m r

section Refusal

variable {path extractDir : Str} {hdr : Header} {lchown : Bool} {chownOpts : Option (Int × Int)}
  {fs : Files} {β γ : Type}

/-- What fails here does not say that the entry breaks out. -/
def Quiet (c : Op β) : Prop := ∀ fs e, (c fs).1 = .error e → e.isBreakout = false

theorem quiet_pure (x : β) : Quiet (pure x : Op β) := fun _ _ h => absurd h nofun

theorem quiet_sys (c : Call Errno Files β) : Quiet (sys c) := by
  intro fs e h
  rw [sys] at h
  rcases hc : c fs with ⟨_ | _, fs'⟩ <;> rw [hc] at h <;> cases h
  rfl

theorem quiet_bind {x : Op β} {f : β → Op γ} (hx : Quiet x) (hf : ∀ b, Quiet (f b)) :
    Quiet (x >>= f) := by
  intro fs e h
  rw [bind_apply] at h
  rcases hxs : x fs with ⟨e' | b, fs'⟩ <;> rw [hxs] at h
  · cases h
    exact hx fs e (by rw [hxs])
  · exact hf b fs' e h

theorem quiet_observe (c : Call Errno Files β) : Quiet (observe c : Op (Except Errno β)) :=
  fun _ _ h => absurd h nofun

theorem quiet_setXattrs (xs : List (Str × Bytes)) : Quiet (setXattrs path xs) := by
  induction xs with
  | nil => exact quiet_pure ()
  | cons x xs ih => exact quiet_bind (quiet_sys _) fun _ => ih

theorem quiet_follows : Quiet (follows hdr) := by
  rw [follows]
  split
  · refine quiet_bind (quiet_observe _) fun fi => ?_
    split <;> exact quiet_pure _
  · exact quiet_pure _
  · exact quiet_pure _

theorem quiet_setAttrs : Quiet (setAttrs path hdr lchown chownOpts) := by
  have hif : ∀ {c : Bool} {x : Op Unit}, Quiet x → Quiet (if c then x else pure ()) := by
    intro c x hx
    split
    · exact hx
    · exact quiet_pure ()
  refine quiet_bind ?_ fun _ => quiet_bind (quiet_setXattrs _) fun _ => quiet_bind ?_ fun _ => ?_
  · rw [onlyIf]
    exact hif (quiet_sys _)
  · exact quiet_bind quiet_follows fun _ => hif (quiet_sys _)
  · rw [setTimes]
    split
    · exact quiet_sys _
    · exact quiet_bind quiet_follows fun _ => hif (quiet_sys _)

theorem makeEntry_refused {e : Err} (h : makeEntry path extractDir hdr = raise e) :
    (createTarFile path extractDir hdr lchown chownOpts fs).1 = .error e := by
  rw [createTarFile, h]
  rfl

/-- A link is refused exactly if its target does not pass the check. -/
theorem not_refused_iff (htype : hdr.typeflag = .link ∨ hdr.typeflag = .symlink) :
    (∀ e, (createTarFile path extractDir hdr lchown chownOpts fs).1 = .error e →
      e.isBreakout = false) ↔ isPrefix extractDir
      (joinTwo (if hdr.typeflag = .link then extractDir else dir path) hdr.linkname) = true := by
  -- The check decides between a call of the system and a breakout.
  obtain ⟨call, err, herr, hmake⟩ : ∃ (call : Call Errno Files Unit) (err : Err),
      err.isBreakout = true ∧ makeEntry path extractDir hdr = if isPrefix extractDir
        (joinTwo (if hdr.typeflag = .link then extractDir else dir path) hdr.linkname) = true
        then sys call else raise err := by
    rcases htype with htype | htype
    · exact ⟨_, .invalidHardlink _ _, rfl, by simp only [makeEntry, htype]; rfl⟩
    · exact ⟨_, .invalidSymlink _ _, rfl, by simp only [makeEntry, htype]; rfl⟩
  constructor
  · intro h
    by_contra hcheck
    rw [if_neg hcheck] at hmake
    exact Bool.false_ne_true ((h err (makeEntry_refused hmake)).symm.trans herr)
  · intro hcheck
    rw [if_pos hcheck] at hmake
    have hquiet : Quiet (createTarFile path extractDir hdr lchown chownOpts) := by
      rw [createTarFile, hmake]
      refine quiet_bind (quiet_sys _) fun _ => ?_
      split
      · exact quiet_pure ()
      · exact quiet_setAttrs
    exact hquiet fs

end Refusal

theorem checked_iff {path extractDir : Str} (hdr : Header) (habs : isAbs extractDir = true)
    (hclean : clean extractDir = extractDir) (hpath : isAbs path = true ∧ clean path = path) :
    isPrefix extractDir
        (joinTwo (if hdr.typeflag = .link then extractDir else dir path) hdr.linkname) = true ↔
      comps extractDir <+: checkedTarget path extractDir hdr ∨
        Sibling (comps extractDir) (checkedTarget path extractDir hdr) := by
  have hdirAbs : isAbs (dir path) = true := by
    rw [← hpath.2, clean_of_abs hpath.1]
    rcases List.eq_nil_or_concat' (comps path) with hnil | ⟨p, n, hp⟩
    · rw [hnil, dir_root]
      exact isAbs_render []
    have hproper := comps_proper path
    rw [hp] at hproper ⊢
    rw [dir_render hproper]
    exact isAbs_render p
  -- Both names are cleaned, so the check can be told on their components.
  have hjoin : joinTwo (if hdr.typeflag = .link then extractDir else dir path) hdr.linkname =
      render (checkedTarget path extractDir hdr) := by
    have hfrom : isAbs (if hdr.typeflag = .link then extractDir else dir path) = true := by
      split
      · exact habs
      · exact hdirAbs
    rw [joinTwo, if_neg (fun h => by rw [h] at hfrom; exact Bool.false_ne_true hfrom),
      clean_of_abs (isAbs_append hfrom _)]
    rfl
  have hroot : render (comps extractDir) = extractDir := by rw [← clean_of_abs habs, hclean]
  have hproper : Proper (checkedTarget path extractDir hdr) := comps_proper _
  rw [← render_prefix_iff (comps_proper extractDir) hproper, hroot, hjoin, isPrefix,
    isPrefixOf_iff_prefix]

/-- A link that is not refused leads to the directory or below it exactly if it does
    not lead to a sibling; an absolute symbolic link, if what stands in the header
    does so or does not pass the check. -/
theorem createTarFile_link_below (path extractDir : Str) (hdr : Header) (lchown : Bool)
    (chownOpts : Option (Int × Int)) (fs : Files)
    (habs : isAbs extractDir = true) (hclean : clean extractDir = extractDir)
    (hpath : isAbs path = true ∧ clean path = path)
    (htype : hdr.typeflag = .link ∨ hdr.typeflag = .symlink) :
    ((∀ e, (createTarFile path extractDir hdr lchown chownOpts fs).1 = .error e →
      e.isBreakout = false) → comps extractDir <+: linkTarget path extractDir hdr) ↔
      if absolute hdr then comps extractDir <+: comps hdr.linkname ∨
        ¬(comps extractDir <+: checkedTarget path extractDir hdr ∨
          Sibling (comps extractDir) (checkedTarget path extractDir hdr))
      else ¬Sibling (comps extractDir) (checkedTarget path extractDir hdr) := by
  rw [not_refused_iff htype, checked_iff hdr habs hclean hpath, linkTarget]
  split_ifs
  · exact imp_iff_not_or.trans or_comm
  · constructor
    · exact fun h hsib => not_sibling_of_below (h (.inr hsib)) hsib
    · exact fun hsib h => h.resolve_right hsib

/-- A hard link with the name `link`. -/
def hardlink (linkname : Str) : Header :=
  { name := "link".toList, mode := 0o644, uid := 0, gid := 0, size := 0, modTime := ⟨0, 0⟩,
    accessTime := ⟨0, 0⟩, typeflag := .link, linkname := linkname, devmajor := 0, devminor := 0,
    xattrs := [], body := [], broken := false }

/-- The directories `/a/b` and `/a/bc` with a file in each. -/
def siblings : Files := .ofList (.new 0o755)
  [([], ['a'], ⟨.dir, .new 0o755⟩), ([['a']], ['b'], ⟨.dir, .new 0o755⟩),
    ([['a'], ['b']], ['t'], ⟨.file [5], .new 0o600⟩), ([['a']], ['b', 'c'], ⟨.dir, .new 0o755⟩),
    ([['a'], ['b', 'c']], ['x'], ⟨.file [7], .new 0o600⟩)]

theorem createTarFile_link_below_inside :
    let r := createTarFile "/a/b/link".toList "/a/b".toList (hardlink "t".toList) true none siblings
    r.1 = .ok () ∧ (r.2.look [['a'], ['b'], "link".toList]).map Entry.kind = some (.file [5]) ∧
      comps "/a/b".toList <+:
        linkTarget "/a/b/link".toList "/a/b".toList (hardlink "t".toList) := by
  have hmade : (createTarFile "/a/b/link".toList "/a/b".toList (hardlink "t".toList) true none
      siblings).1 = .ok () := by decide +kernel
  refine ⟨hmade, by decide +kernel, (createTarFile_link_below "/a/b/link".toList "/a/b".toList
    (hardlink "t".toList) true none siblings (by decide) (by decide) (by decide) (.inl rfl)).mpr
    (not_sibling_of_below (by decide)) ?_⟩
  intro e he
  rw [hmade] at he
  cases he

/-- A hard link to `/a/bc/x` is made from below `/a/b`. -/
theorem createTarFile_link_sibling :
    let hdr := hardlink "../bc/x".toList
    let r := createTarFile "/a/b/link".toList "/a/b".toList hdr true none siblings
    r.1 = .ok () ∧ (r.2.look [['a'], ['b'], "link".toList]).map Entry.kind = some (.file [7]) ∧
      ¬[['a'], ['b']] <+: linkTarget "/a/b/link".toList "/a/b".toList hdr := by
  decide +kernel

end Dao.Archive
