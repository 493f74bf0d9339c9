import Dao.Core.GraphDriver.Overlay2

/-!
# The Chain of Lower Directories

A layer's `lower` file lists the links of its ancestors, and each link leads to
the layer it was made for. `Create` uses a directory that is already there, so it
can give a layer another parent and leave the old `lower` behind; created anew,
the chain of every layer is the one of its parent with the parent in front.

## Theorems

* `lowerDirs_ancestors`: `getLowerDirs` gives the ancestors.
* `createFailing_clean`, `failed_create_clean`: When a failed `Create` leaves the home as it was.
-/

namespace Dao.Overlay2

open Lib List Option Function

variable {h h' : Home} {id a p : Str} {as : List Str}

/-- The ancestors of a layer, nearest first. -/
inductive Ancestors (parents : Str → Option Str) : Str → List Str → Prop
  | base {id : Str} : parents id = some [] → Ancestors parents id []
  | child {id p : Str} {as : List Str} : parents id = some p → p ≠ [] → Ancestors parents p as →
      Ancestors parents id (p :: as)

/-- The link id of a layer. -/
def linkOf (h : Home) (id : Str) : Str := ((h.dirs id).bind Dir.link).getD []

/-- The `lower` file of a layer with these ancestors. -/
def lowerOf (h : Home) (as : List Str) : Option Str :=
  if as = [] then none else some ([':'].intercalate (as.map fun a => linkPath (linkOf h a)))

/-- The files of a layer. -/
structure Files (h : Home) (id : Str) (as : List Str) : Prop where
  ancestors : Ancestors h.parents id as
  short : as.length ≤ maxDepth
  dir : h.dirs id = some ⟨some (linkOf h id), lowerOf h as⟩
  link : h.links (linkOf h id) = some id
  plain : ':' ∉ linkOf h id

/-- The layers are those with a directory, and each has its files. -/
structure Chained (h : Home) : Prop where
  known : ∀ id, h.parents id = none → h.dirs id = none
  files : ∀ id p, h.parents id = some p → ∃ as, Files h id as

/-- A layer is created once and not as its own parent, and it is removed when no
    layer has it as its parent. -/
def Anew (h : Home) : Request → Prop
  | .create id parent _ => id ≠ [] ∧ h.parents id = none ∧ id ≠ parent
  | .remove id => ∀ a, h.parents a ≠ some id

theorem lowerOf_congr (hsame : ∀ b ∈ as, h'.dirs b = h.dirs b) : lowerOf h' as = lowerOf h as := by
  unfold lowerOf linkOf
  rw [map_congr_left (fun b hb => by rw [hsame b hb])]

theorem Ancestors.mem (hanc : Ancestors h.parents a as) : ∀ b ∈ as, b ≠ [] ∧
    (∃ c, h.parents c = some b) ∧ ∃ q, h.parents b = some q := by
  induction hanc with
  | base _ => exact nofun
  | child hp hne hrest ih =>
    refine forall_mem_cons.mpr ⟨⟨hne, ⟨_, hp⟩, ?_⟩, ih⟩
    cases hrest with
    | base hq | child hq _ _ => exact ⟨_, hq⟩

theorem Ancestors.congr {parents : Str → Option Str} (hanc : Ancestors h.parents a as)
    (hsame : ∀ b ∈ a :: as, parents b = h.parents b) : Ancestors parents a as := by
  induction hanc with
  | base hp => exact .base ((hsame _ mem_cons_self).trans hp)
  | child hp hne _ ih =>
    refine .child ((hsame _ mem_cons_self).trans hp) hne (ih fun b hb => ?_)
    exact hsame b (mem_cons_of_mem _ hb)

theorem files_frame (hfiles : Files h a as) (ha : a ≠ id)
    (hdirs : ∀ b, b ≠ id → h'.dirs b = h.dirs b)
    (hparents : ∀ b, b ≠ id → h'.parents b = h.parents b)
    (hno : ∀ b, h.parents b ≠ some id) (hlink : h'.links (linkOf h a) = h.links (linkOf h a)) :
    Files h' a as := by
  have hlinkOf : ∀ b, b ≠ id → linkOf h' b = linkOf h b :=
    fun b hb => by rw [linkOf, hdirs b hb, linkOf]
  have hother : ∀ b ∈ as, b ≠ id := by
    rintro b hb rfl
    rcases (hfiles.ancestors.mem b hb).2.1 with ⟨c, hc⟩
    exact hno c hc
  refine ⟨hfiles.ancestors.congr fun b hb => hparents b ?_, hfiles.short, ?_, ?_, ?_⟩
  · rcases mem_cons.mp hb with rfl | hb
    · exact ha
    · exact hother b hb
  · rw [hdirs a ha, hlinkOf a ha, lowerOf_congr (fun b hb => hdirs b (hother b hb))]
    exact hfiles.dir
  · rw [hlinkOf a ha, hlink]
    exact hfiles.link
  · rw [hlinkOf a ha]
    exact hfiles.plain

theorem chained_frame (hC : Chained h) (hdirs : ∀ b, b ≠ id → h'.dirs b = h.dirs b)
    (hparents : ∀ b, b ≠ id → h'.parents b = h.parents b) (hno : ∀ b, h.parents b ≠ some id)
    (hlinks : ∀ lid b, h.links lid = some b → b ≠ id → h'.links lid = some b)
    (hnone : h'.parents id = none → h'.dirs id = none)
    (hsome : ∀ p, h'.parents id = some p → ∃ as, Files h' id as) : Chained h' := by
  refine ⟨fun b hb => ?_, fun b p hb => ?_⟩ <;> by_cases heq : b = id
  · exact heq ▸ hnone (heq ▸ hb)
  · rw [hdirs b heq]
    exact hC.known b ((hparents b heq).symm.trans hb)
  · rw [heq] at hb ⊢
    exact hsome p hb
  · rcases hC.files b p ((hparents b heq).symm.trans hb) with ⟨as, hfiles⟩
    refine ⟨as, files_frame hfiles heq hdirs hparents hno ?_⟩
    rw [hlinks _ b hfiles.link heq, hfiles.link]

/-- The `lower` file of a layer can be taken apart again. -/
theorem splitLower_lowerOf (hC : Chained h) (hanc : Ancestors h.parents p as) :
    splitLower (lowerOf h as) = as.map (fun a => linkPath (linkOf h a)) := by
  unfold lowerOf
  by_cases has : as = []
  · rw [if_pos has, has]
    rfl
  rw [if_neg has]
  refine splitOn_intercalate ':' (fun l hl => ?_) (by simpa using has)
  rcases mem_map.mp hl with ⟨b, hb, rfl⟩
  rcases (hanc.mem b hb).2.2 with ⟨q, hq⟩
  rcases hC.files b q hq with ⟨_, hfiles⟩
  simpa [linkPath] using hfiles.plain

/-- What `getLower` gives for a layer: its own link before those of its ancestors. -/
theorem getLower_files {lower : Str} (hC : Chained h) (hfiles : Files h p as)
    (hlower : getLower h p = .ok lower) :
    lowerOf h (p :: as) = some lower ∧ as.length < maxDepth := by
  unfold getLower at hlower
  rw [hfiles.dir] at hlower
  simp only [bind_some, splitLower_lowerOf hC hfiles.ancestors] at hlower
  split_ifs at hlower with hlong
  rw [length_cons, length_map] at hlong
  refine ⟨?_, by omega⟩
  rw [← Except.ok.inj hlower, lowerOf, if_neg (cons_ne_nil _ _), map_cons]

/-- The parent of a layer is one, so what is none has no children. -/
theorem childless (hC : Chained h) (hid : id ≠ []) (hnew : h.parents id = none) (b : Str) :
    h.parents b ≠ some id := by
  intro hb
  rcases hC.files b id hb with ⟨as, hfiles⟩
  rcases hfiles.ancestors with hp | ⟨hp, hne, hrest⟩
  · exact hid (some.inj (hb.symm.trans hp))
  have hmem := (Ancestors.child hp hne hrest).mem _ mem_cons_self
  rw [some.inj (hp.symm.trans hb), hnew] at hmem
  rcases hmem.2.2 with ⟨q, hq⟩
  nomatch hq

theorem create_chained (hC : Chained h) (parent : Str) (lid : LinkID) (hid : id ≠ [])
    (hnew : h.parents id = none) (hne : id ≠ parent) : Chained (create id parent lid h).2 := by
  have hno := childless hC hid hnew
  have hplain : ':' ∉ lid.text := by
    intro hmem
    exact absurd (all_eq_true.mp lid.base32 _ hmem) (by decide)
  have hdirs : h.dirs id = none := hC.known id hnew
  unfold create
  by_cases hlink : (h.links lid.text).isSome = true
  · rw [if_pos hlink]
    exact chained_frame hC (fun b hb => update_of_ne hb _ _)
      (fun b hb => update_of_ne hb _ _) hno (fun _ _ hb _ => hb)
      (fun _ => update_self _ _ _) (fun p hp => by simp [Home.removeDir] at hp)
  rw [if_neg hlink]
  have hfree : h.links lid.text = none := not_isSome_iff_eq_none.mp hlink
  -- A link that leads somewhere is not the new one.
  have hlinks : ∀ l b, h.links l = some b → b ≠ id →
      update h.links lid.text (some id) l = some b := by
    intro l b hb _
    rw [update_of_ne (fun heq => by rw [heq, hfree] at hb; nomatch hb)]
    exact hb
  by_cases hparent : parent = []
  · rw [if_pos hparent]
    refine chained_frame hC (fun b hb => update_of_ne hb _ _)
      (fun b hb => update_of_ne hb _ _) hno hlinks (fun hp => by simp at hp)
      (fun p _ => ⟨[], .base (update_self _ _ _), Nat.zero_le _, ?_, ?_, ?_⟩)
    all_goals simp [linkOf, lowerOf, hdirs, hplain]
  rw [if_neg hparent]
  generalize hlower : getLower _ parent = out
  rcases out with e | lower
  · exact chained_frame hC (fun b hb => by simp [Home.removeDir, update_of_ne hb])
      (fun b hb => update_of_ne hb _ _) hno hlinks
      (fun _ => update_self _ _ _) (fun p hp => by simp [Home.removeDir] at hp)
  unfold getLower at hlower
  simp only [update_of_ne hne.symm] at hlower
  have hlive : ∃ q, h.parents parent = some q := by
    by_contra hdead
    have hnone := hC.known parent (eq_none_iff_forall_ne_some.mpr (not_exists.mp hdead))
    simp [hnone] at hlower
  rcases hlive with ⟨q, hq⟩
  rcases hC.files parent q hq with ⟨as, hfiles⟩
  rcases getLower_files hC hfiles hlower with ⟨hlist, hshort⟩
  -- The new layer is not among the ancestors of its parent.
  have hother : ∀ b ∈ parent :: as, b ≠ id := by
    rintro b hb rfl
    rcases mem_cons.mp hb with heq | hmem
    · exact hne heq
    · rcases (hfiles.ancestors.mem b hmem).2.1 with ⟨c, hc⟩
      exact hno c hc
  refine chained_frame hC (fun b hb => by simp [update_of_ne hb])
    (fun b hb => update_of_ne hb _ _) hno hlinks (fun hp => by simp at hp)
    (fun p _ => ⟨parent :: as, .child (update_self _ _ _) hparent
      (hfiles.ancestors.congr (fun b hb => update_of_ne (hother b hb) _ _)),
      hshort, ?_, ?_, ?_⟩)
  · refine (update_self _ _ _).trans (congrArg some (congrArg₂ Dir.mk ?_ ?_))
    · simp [linkOf]
    · exact hlist.symm.trans (lowerOf_congr (fun b hb => by
        simp [update_of_ne (hother b hb)])).symm
  · simp [linkOf]
  · simpa [linkOf] using hplain

theorem remove_chained (hC : Chained h) (hno : ∀ b, h.parents b ≠ some id) :
    Chained (remove id h) := by
  unfold remove
  rcases hlid : (h.dirs id).bind Dir.link with _ | lid
  · exact chained_frame hC (fun b hb => update_of_ne hb _ _)
      (fun b hb => update_of_ne hb _ _) hno (fun _ _ hb _ => hb)
      (fun _ => update_self _ _ _) (fun p hp => by simp [Home.removeDir] at hp)
  refine chained_frame hC (fun b hb => update_of_ne hb _ _)
    (fun b hb => update_of_ne hb _ _) hno (fun l b hb hne => ?_)
    (fun _ => update_self _ _ _) (fun p hp => by simp [Home.removeDir] at hp)
  -- The link that goes leads to the layer that goes.
  have hlive : h.parents id ≠ none := by
    intro hnone
    simp [hC.known id hnone] at hlid
  rcases ne_none_iff_exists'.mp hlive with ⟨p, hp⟩
  rcases hC.files id p hp with ⟨as, hfiles⟩
  have hown : linkOf h id = lid := by rw [linkOf, hlid, getD_some]
  have hgone := hfiles.link
  rw [hown] at hgone
  refine (update_of_ne (fun heq => hne ?_) _ _).trans hb
  rw [heq, hgone] at hb
  exact (some.inj hb).symm

theorem serve_chained (req : Request) (h : Home) (r : Except DriverError Unit) (h' : Home)
    (hC : Chained h) (hanew : Anew h req) (hserve : serve req h = .ok (r, h')) : Chained h' := by
  cases req with
  | create id parent lid =>
    rw [serve, Except.ok.injEq] at hserve
    rw [show h' = (create id parent lid h).2 from (congrArg Prod.snd hserve).symm]
    exact create_chained hC parent lid hanew.1 hanew.2.1 hanew.2.2
  | remove id =>
    cases hserve
    exact remove_chained hC hanew

theorem getLowerDirs_files (hC : Chained h) (hfiles : Files h id as) :
    getLowerDirs h id = .ok as := by
  rw [getLowerDirs, hfiles.dir, bind_some, splitLower_lowerOf hC hfiles.ancestors]
  have hlinks : ∀ b ∈ as, h.links (linkOf h b) = some b := by
    intro b hb
    rcases (hfiles.ancestors.mem b hb).2.2 with ⟨q, hq⟩
    rcases hC.files b q hq with ⟨_, hb⟩
    exact hb.link
  clear hfiles
  induction as with
  | nil => rfl
  | cons b as ih =>
    rw [map_cons, mapM_cons, ih (forall_mem_cons.mp hlinks).2]
    simp only [readlink, linkPath, hlinks b mem_cons_self]
    rfl

/-- In every state the layers have their ancestors as lower directories, no chain is
    too long, and no two layers have the same link id. -/
theorem lowerDirs_ancestors (reqs : List Request) (rs : List (Except DriverError Unit)) (h : Home)
    (hmeets : Meets serve Anew reqs Home.empty) (hrun : run serve reqs Home.empty = .ok (rs, h)) :
    (∀ id p, h.parents id = some p → ∃ as, Ancestors h.parents id as ∧
      getLowerDirs h id = .ok as ∧ as.length ≤ maxDepth) ∧
    ∀ id id' p p', h.parents id = some p → h.parents id' = some p' → linkOf h id = linkOf h id' →
      id = id' := by
  have hC : Chained h := run_invariant_of_meets Anew Chained serve_chained reqs _ h rs
    ⟨fun _ _ => rfl, fun _ _ hp => by simp [Home.empty] at hp⟩ hmeets hrun
  refine ⟨fun id p hp => ?_, fun id id' p p' hp hp' heq => ?_⟩
  · rcases hC.files id p hp with ⟨as, hfiles⟩
    exact ⟨as, hfiles.ancestors, getLowerDirs_files hC hfiles, hfiles.short⟩
  rcases hC.files id p hp with ⟨_, hfiles⟩
  rcases hC.files id' p' hp' with ⟨_, hfiles'⟩
  have hlink := hfiles.link
  rw [heq, hfiles'.link] at hlink
  exact (Option.some.inj hlink).symm

/-- Two layers, the second on the first. -/
def twoLayers : List Request :=
  [.create ['a'] [] ⟨['A'], rfl⟩, .create ['b'] ['a'] ⟨['B'], rfl⟩]

theorem lowerDirs_ancestors_child : ∃ h : Home, h.parents ['b'] = some ['a'] ∧
    ∃ as, Ancestors h.parents ['b'] as ∧ getLowerDirs h ['b'] = .ok as ∧ as.length ≤ maxDepth :=
  ⟨_, rfl, (lowerDirs_ancestors twoLayers _ _ ⟨⟨by decide, rfl, by decide⟩, fun _ _ h₁ => by
      cases h₁
      exact ⟨⟨by decide, rfl, by decide⟩, fun _ _ _ => trivial⟩⟩ rfl).1 ['b'] ['a'] rfl⟩

/-- A layer is created again without a parent and keeps its `lower` file. -/
theorem created_again : ∃ rs h,
    run serve (twoLayers ++ [.create ['b'] [] ⟨['C'], rfl⟩]) Home.empty = .ok (rs, h) ∧
    h.parents ['b'] = some [] ∧ getLowerDirs h ['b'] = .ok [['a']] :=
  ⟨_, _, rfl, rfl, rfl⟩

section Failures

open Call

variable {fails : CreateStep → Bool} {id parent : Str} {lid : LinkID} {s : CreateStep} {h h' : Home}

/-- The same directories and links. -/
def Home.Same (h h' : Home) : Prop := h'.dirs = h.dirs ∧ h'.links = h.links

/-- The link cannot be made, or the step before it fails. -/
def NoLink (fails : CreateStep → Bool) (lid : LinkID) (h : Home) : Prop :=
  fails .diff = true ∨ fails .symlink = true ∨ (h.links lid.text).isSome = true

/-- A step fails before the directory is there, or before anything was changed in a
    directory that was there; or the directory is new and is removed again, and no link
    was made. -/
def Untouched (fails : CreateStep → Bool) (id : Str) (lid : LinkID) (h : Home) : Prop :=
  (fails .storageOpt = true ∨ fails .rootIDs = true ∨ fails .home = true ∨ fails .mkdir = true) ∨
    if (h.dirs id).isSome = true then fails .chown = true
    else fails .chown = false ∧ NoLink fails lid h

variable {C : Home → Prop} {R : Except CreateStep Unit → Home → Prop}

theorem ends_does {f : Home → Option Home} (hfail : fails s = true ∨ f h = none → R (.error s) h)
    (hok : ∀ h', fails s = false → f h = some h' → R (.ok ()) h') :
    Ends C (s.does fails f) h R := by
  unfold Ends CreateStep.does
  cases hs : fails s with
  | true => exact hfail (.inl hs)
  | false =>
    cases hf : f h with
    | none => exact hfail (.inr hf)
    | some h' => exact hok h' hs hf

theorem ends_does_bind {f : Home → Option Home} {g : Unit → Call (Stop CreateStep) Home Unit}
    (hfail : fails s = true ∨ f h = none → R (.error s) h)
    (hok : ∀ h', fails s = false → f h = some h' → Ends C (g ()) h' R) :
    Ends C (s.does fails f >>= g) h R :=
  ends_bind (Q := fun r h' => Except.casesOn (motive := fun _ => Prop) r
      (fun e => R (.error e) h') fun _ => Ends C (g ()) h' R)
    (ends_does hfail hok) (fun _ _ he => he) fun _ _ hg => hg

theorem ends_does_some {g : Unit → Call (Stop CreateStep) Home Unit}
    (hfail : fails s = true → R (.error s) h) (hok : fails s = false → Ends C (g ()) h R) :
    Ends C (s.does fails some >>= g) h R :=
  ends_does_bind (fun hs => hfail (hs.resolve_right nofun)) fun _ hs hh => by
    cases hh
    exact hok hs

theorem createFiles_links :
    Ends C (createFiles fails id parent lid) h (fun r h' => ∀ s, r = .error s →
    NoLink fails lid h ∧ h' = h ∨
    ¬NoLink fails lid h ∧ h.links lid.text = none ∧ h'.links lid.text = some id) := by
  refine ends_does_some (fun hs _ _ => .inl ⟨.inl hs, rfl⟩) fun hdiff => ?_
  refine ends_does_bind (fun hs _ _ => .inl ⟨.inr (hs.imp_right fun hnone => ?_), rfl⟩)
    fun h1 hsymlink hlink => ?_
  · by_contra hfree
    rw [if_neg hfree] at hnone
    nomatch hnone
  split_ifs at hlink with hfree
  have hnolink : ¬NoLink fails lid h := by
    rintro (hs | hs | hs)
    · exact Bool.false_ne_true (hdiff.symm.trans hs)
    · exact Bool.false_ne_true (hsymlink.symm.trans hs)
    · exact hfree hs
  rw [Option.not_isSome_iff_eq_none] at hfree
  cases hlink
  -- From here on nothing touches the links.
  have hlink : update h.links lid.text (some id) lid.text = some id := update_self ..
  refine ends_does_bind (fun _ _ _ => .inr ⟨hnolink, hfree, hlink⟩) ?_
  rintro _ - ⟨⟩
  split_ifs
  · exact ends_pure nofun
  refine ends_does_some (fun _ _ _ => .inr ⟨hnolink, hfree, hlink⟩) fun _ => ?_
  refine ends_does_some (fun _ _ _ => .inr ⟨hnolink, hfree, hlink⟩) fun _ => ?_
  exact ends_does (fun _ _ _ => .inr ⟨hnolink, hfree, hlink⟩) fun _ _ _ => nofun

theorem createFailing_clean : Ends C (createFailing fails id parent lid) h
    (fun r h' => ∀ s, r = .error s → (h.Same h' ↔ Untouched fails id lid h)) := by
  have hsame : h.Same h := ⟨rfl, rfl⟩
  refine ends_does_some (fun hs _ _ => iff_of_true hsame (.inl (.inl hs))) fun hopt => ?_
  refine ends_does_some (fun hs _ _ => iff_of_true hsame (.inl (.inr (.inl hs)))) fun hroot => ?_
  refine ends_does_some (fun hs _ _ => iff_of_true hsame (.inl (.inr (.inr (.inl hs)))))
    fun hhome => ?_
  refine ends_does_bind (fun hs _ _ => iff_of_true hsame
    (.inl (.inr (.inr (.inr (hs.resolve_right nofun)))))) ?_
  rintro _ hmkdir ⟨⟩
  -- What is left of the condition depends on whether the directory was there.
  have hcond : Untouched fails id lid h ↔ if (h.dirs id).isSome = true then fails .chown = true
      else fails .chown = false ∧ NoLink fails lid h := by
    simp [Untouched, hopt, hroot, hhome, hmkdir]
  cases hdir : h.dirs id with
  | none =>
    rw [hdir, if_neg (by simp)] at hcond
    refine ends_does_some (fun hs _ _ => ?_) fun hchown => ?_
    · -- The new directory is there, and nothing removes it.
      refine iff_of_false (fun hs => ?_) fun hu =>
        Bool.false_ne_true ((hcond.mp hu).1.symm.trans hs)
      have hnew := congrFun hs.1 id
      simp [Home.setDir, hdir] at hnew
    refine ends_attempt_bind (ends_mono createFiles_links ?_)
    intro r h₁ hlinks
    cases r with
    | ok u => exact ends_pure nofun
    | error s =>
      rintro _ ⟨⟩
      rcases hlinks s rfl with ⟨hno, rfl⟩ | ⟨hno, hfree, hlink⟩
      · exact iff_of_true ⟨by simp [Home.removeDir, Home.setDir, ← hdir], rfl⟩
          (hcond.mpr ⟨hchown, hno⟩)
      · refine iff_of_false (fun hsame => ?_) fun hu => hno (hcond.mp hu).2
        nomatch hlink.symm.trans ((congrFun hsame.2 _).trans hfree)
  | some dir =>
    rw [hdir, if_pos (Option.isSome_some)] at hcond
    have hset : h.setDir id (fun dir => dir) = h := by
      rw [Home.setDir, hdir, getD_some, ← hdir, update_eq_self]
    rw [hset]
    refine ends_does_some (fun hs _ _ => iff_of_true hsame (hcond.mpr hs)) fun hchown => ?_
    refine ends_attempt_bind (ends_mono createFiles_links ?_)
    intro r h₁ hlinks
    cases r with
    | ok u => exact ends_pure nofun
    | error s =>
      -- The directory that was there is removed.
      rintro _ ⟨⟩
      refine iff_of_false (fun hsame => ?_) fun hu =>
        Bool.false_ne_true (hchown.symm.trans (hcond.mp hu))
      have hgone := congrFun hsame.1 id
      simp [Home.removeDir, hdir] at hgone

/-- A failed `Create` leaves the home as it was exactly in the cases of `Untouched`. -/
theorem failed_create_clean (fails : CreateStep → Bool) (id parent : Str) (lid : LinkID)
    (h h' : Home)
    (s : CreateStep) (hfail : createFailing fails id parent lid h = (.error (.error s), h')) :
    h.Same h' ↔ Untouched fails id lid h := by
  have hends : Ends (fun _ => True) (createFailing fails id parent lid) h _ := createFailing_clean
  unfold Ends at hends
  rw [hfail] at hends
  exact hends s rfl

theorem failed_create_clean_diff : ∃ h',
    createFailing (fun s => s = .diff) ['a'] [] ⟨['A'], rfl⟩ Home.empty =
    (.error (.error .diff), h') ∧
    Home.empty.Same h' :=
  ⟨_, rfl, (failed_create_clean (fun s => s = .diff) _ [] ⟨['A'], rfl⟩ _ _ .diff rfl).mpr
    (.inr ⟨rfl, .inl rfl⟩)⟩

/-- The parent is missing, and the link stays. -/
theorem parent_missing_linked : ∃ h',
    createFailing (fun _ => false) ['a'] ['b'] ⟨['A'], rfl⟩ Home.empty =
    (.error (.error .lower), h') ∧
    h'.dirs ['a'] = none ∧ h'.links ['A'] = some ['a'] :=
  ⟨_, rfl, rfl, rfl⟩

/-- Where nothing fails, this is `create`. -/
theorem create_same : (create id parent lid h).2.Same
    (createFailing (fun _ => false) id parent lid h).2 := by
  by_cases hlink : (h.links lid.text).isSome = true <;> by_cases hparent : parent = [] <;>
    cases hlower : getLower { h with
      links := update h.links lid.text (some id)
      dirs := update h.dirs id (some { (h.dirs id).getD ⟨none, none⟩ with link := some lid.text }) }
      parent <;>
    simp [create, createFailing, createFiles, Call.bind_apply, CreateStep.does, attempt, hlink,
      hparent,
      hlower, Except.toOption, Home.Same, Home.setDir, Home.removeDir]

end Failures
end Dao.Overlay2
