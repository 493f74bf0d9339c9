import Dao.Lib.AMap
import Dao.Lib.Call
import Dao.Lib.PathName

/-!
# File Systems with Links

A file system as the calls of a program see it: a tree of directories, files,
symbolic links and special files, reached by names. A name is resolved component
by component, and a symbolic link on the way is put in front of what is left.

The entries are a finite map from paths to entries. The paths are those of the
tree itself, so a path never goes through a link. That the entries are a tree is a
field, and `add`, `alter` and `write` are the three ways to change one.

What an entry holds besides its kind is a parameter. The times a system sets by
itself are not part of the model, and a file has one name: a second one made by
`link` is a file of its own.
-/

namespace Lib

open FileTree PathName List AList

inductive Special where
  | block
  | char
  | fifo
  | socket
  deriving DecidableEq

inductive Kind where
  | dir
  | file (content : List UInt8)
  | symlink (target : List Char)
  | special (type : Special) (device : Int × Int)
  deriving DecidableEq

structure Entry (α : Type) where
  kind : Kind
  attr : α
  deriving DecidableEq

/-- The errors of the calls. -/
inductive Errno where
  | noEntry
  | notDirectory
  | isDirectory
  | exist
  | tooManyLinks
  | invalid
  | busy
  | notPermitted
  deriving DecidableEq

/-- The entries, every one of them in a directory, and the directory that relative
    names begin in. -/
structure FileSys (α : Type) where
  entries : AMap Path (Entry α)
  cwd : Path
  root : ∃ a, entries.lookup [] = some ⟨.dir, a⟩
  tree : ∀ p n e, entries.lookup (p ++ [n]) = some e → ∃ a, entries.lookup p = some ⟨.dir, a⟩
  proper : ∀ p e, entries.lookup p = some e → Proper p

namespace FileSys

variable {α : Type}

def look (fs : FileSys α) (p : Path) : Option (Entry α) := fs.entries.lookup p

def isDir (fs : FileSys α) (p : Path) : Bool := (fs.look p).any (fun e => e.kind = .dir)

variable {fs : FileSys α} {p q cur : Path} {n : Name} {e : Entry α} {follow : Bool} {ns : List Name}

theorem isDir_iff : fs.isDir p = true ↔ ∃ a, fs.look p = some ⟨.dir, a⟩ := by
  rw [isDir, Option.any_eq_true]
  constructor
  · rintro ⟨⟨kind, a⟩, he, hk⟩
    have hk' : kind = .dir := of_decide_eq_true hk
    exact ⟨a, by rw [he, hk']⟩
  · rintro ⟨a, ha⟩
    exact ⟨_, ha, decide_eq_true rfl⟩

theorem look_nil (fs : FileSys α) : ∃ a, fs.look [] = some ⟨.dir, a⟩ := fs.root

theorem isDir_of_look (h : fs.look (p ++ [n]) = some e) : fs.isDir p = true :=
  isDir_iff.mpr (fs.tree p n e h)

theorem proper_of_look (h : fs.look p = some e) : Proper p :=
  fs.proper p e h

theorem isDir_of_append (hq : q ≠ []) (h : fs.look (p ++ q) = some e) : fs.isDir p = true := by
  induction q using reverseRecOn generalizing e with
  | nil => exact absurd rfl hq
  | append_singleton q n ih =>
    rw [← append_assoc] at h
    have hdir := isDir_of_look h
    by_cases hnil : q = []
    · rw [hnil, append_nil] at hdir
      exact hdir
    · rcases isDir_iff.mp hdir with ⟨a, ha⟩
      exact ih hnil ha

theorem look_append_of_none (h : fs.look p = none) : fs.look (p ++ q) = none := by
  rcases q with _ | ⟨n, q⟩
  · rw [append_nil, h]
  cases hlook : fs.look (p ++ n :: q) with
  | none => rfl
  | some e =>
    rcases isDir_iff.mp (isDir_of_append (cons_ne_nil n q) hlook) with ⟨a, ha⟩
    simp [h] at ha

/-! ### Changes -/

/-- A new file system with nothing but its root. -/
def init (a : α) : FileSys α where
  entries := singleton [] ⟨.dir, a⟩
  cwd := []
  root := ⟨a, rfl⟩
  tree := by
    intro p n e h
    have hne : p ++ [n] ≠ [] := concat_ne_nil n p
    have hmem : p ++ [n] ∈ (singleton ([] : Path) ⟨.dir, a⟩ : AMap Path (Entry α)) :=
      lookup_isSome.mp (by rw [h]; rfl)
    exact absurd (mem_singleton.mp hmem) hne
  proper := by
    intro p e h
    have hmem : p ∈ (singleton ([] : Path) ⟨.dir, a⟩ : AMap Path (Entry α)) :=
      lookup_isSome.mp (by rw [h]; rfl)
    rw [mem_singleton.mp hmem]
    exact proper_nil

theorem look_init (a : α) (p : Path) :
    (init a).look p = if p = [] then some ⟨.dir, a⟩ else none := by
  by_cases hp : p = []
  · rw [if_pos hp, hp]
    rfl
  · rw [if_neg hp]
    refine lookup_eq_none.mpr fun hmem => hp ?_
    exact mem_singleton.mp hmem

/-- A name is free in a directory. -/
def Free (fs : FileSys α) (p : Path) (n : Name) : Prop :=
  fs.isDir p = true ∧ Plain n ∧ fs.look (p ++ [n]) = none

theorem look_entry_of_free (h : Free fs p n) (q : Path) (m : Name) (e : Entry α)
    (hq : fs.look (q ++ [m]) = some e) : q ≠ p ++ [n] := by
  rintro rfl
  rcases isDir_iff.mp (isDir_of_look hq) with ⟨a, ha⟩
  simp [h.2.2] at ha

/-- A new entry under a free name. -/
def add (fs : FileSys α) (p : Path) (n : Name) (e : Entry α) (h : Free fs p n) : FileSys α where
  entries := fs.entries.insert (p ++ [n]) e
  cwd := fs.cwd
  root := by
    rcases fs.root with ⟨a, ha⟩
    refine ⟨a, ?_⟩
    rw [lookup_insert_ne (concat_ne_nil n p).symm]
    exact ha
  tree := by
    intro q m x hx
    by_cases heq : q ++ [m] = p ++ [n]
    · have hqp : q = p := (append_inj' heq rfl).1
      rcases isDir_iff.mp h.1 with ⟨a, ha⟩
      refine ⟨a, ?_⟩
      rw [lookup_insert_ne, hqp]
      · exact ha
      · rw [hqp]
        exact fun hlen => absurd (congrArg List.length hlen)
          (by rw [length_append]; exact Nat.ne_of_lt (Nat.lt_succ_self _))
    · rw [lookup_insert_ne heq] at hx
      rcases fs.tree q m x hx with ⟨a, ha⟩
      exact ⟨a, by rw [lookup_insert_ne (look_entry_of_free h q m x hx)]; exact ha⟩
  proper := by
    intro q x hx
    by_cases heq : q = p ++ [n]
    · rcases isDir_iff.mp h.1 with ⟨a, ha⟩
      rw [heq]
      refine (proper_of_look ha).append fun m hm => ?_
      rw [mem_singleton] at hm
      exact hm ▸ h.2.1
    · rw [lookup_insert_ne heq] at hx
      exact fs.proper q x hx

theorem look_add (fs : FileSys α) (p : Path) (n : Name) (e : Entry α) (h : Free fs p n) (q : Path) :
    (fs.add p n e h).look q = if q = p ++ [n] then some e else fs.look q := by
  by_cases heq : q = p ++ [n]
  · rw [if_pos heq, heq]
    exact lookup_insert _
  · rw [if_neg heq]
    exact lookup_insert_ne heq

/-- The file system of a list of entries, each given by its directory and its name. -/
def ofList (a : α) (es : List (Path × Name × Entry α)) : FileSys α :=
  es.foldl (fun (fs : FileSys α) (e : Path × Name × Entry α) =>
      if h : fs.isDir e.1 = true ∧ Plain e.2.1 ∧ fs.look (e.1 ++ [e.2.1]) = none then
        fs.add e.1 e.2.1 e.2.2 h
      else fs) (init a)

/-- Replace an entry by one that is a directory exactly if it was one. -/
def replace (fs : FileSys α) (p : Path) (f : Entry α → Entry α)
    (hf : ∀ e, (f e).kind = .dir ↔ e.kind = .dir) : FileSys α where
  entries :=
    match fs.entries.lookup p with
    | none => fs.entries
    | some e => fs.entries.insert p (f e)
  cwd := fs.cwd
  root := by
    rcases fs.root with ⟨a, ha⟩
    rcases hp : fs.entries.lookup p with _ | e
    · exact ⟨a, ha⟩
    by_cases hnil : p = []
    · rw [hnil, ha, Option.some.injEq] at hp
      refine ⟨(f e).attr, ?_⟩
      simp only []
      rw [hnil, lookup_insert, ← (hf e).mpr (by rw [← hp])]
    · refine ⟨a, ?_⟩
      simp only []
      rw [lookup_insert_ne (Ne.symm hnil)]
      exact ha
  tree := by
    intro q m x hx
    rcases hp : fs.entries.lookup p with _ | e
    · rw [hp] at hx
      exact fs.tree q m x hx
    rw [hp] at hx
    simp only [] at hx ⊢
    have hold : ∃ y, fs.entries.lookup (q ++ [m]) = some y := by
      by_cases heq : q ++ [m] = p
      · exact ⟨e, heq ▸ hp⟩
      · rw [lookup_insert_ne heq] at hx
        exact ⟨x, hx⟩
    rcases hold with ⟨y, hy⟩
    rcases fs.tree q m y hy with ⟨a, ha⟩
    by_cases hqp : q = p
    · -- The parent is what is replaced, and stays a directory.
      rw [hqp] at ha ⊢
      rw [ha, Option.some.injEq] at hp
      exact ⟨(f e).attr, by rw [lookup_insert, ← (hf e).mpr (by rw [← hp])]⟩
    · exact ⟨a, by rw [lookup_insert_ne hqp]; exact ha⟩
  proper := by
    intro q x hx
    rcases hp : fs.entries.lookup p with _ | e
    · rw [hp] at hx
      exact fs.proper q x hx
    rw [hp] at hx
    simp only [] at hx
    by_cases hqp : q = p
    · exact hqp ▸ fs.proper p e hp
    · rw [lookup_insert_ne hqp] at hx
      exact fs.proper q x hx

/-- Change what an entry holds besides its kind. -/
def alter (fs : FileSys α) (p : Path) (f : α → α) : FileSys α :=
  fs.replace p (fun e => { e with attr := f e.attr }) fun _ => Iff.rfl

/-- Write to the beginning of a file. -/
def write (fs : FileSys α) (p : Path) (content : List UInt8) : FileSys α :=
  fs.replace p (fun e =>
      match e.kind with
      | .file old => { e with kind := .file (content ++ old.drop content.length) }
      | _ => e)
    (fun e => by
      rcases e with ⟨kind, a⟩
      cases kind with
      | dir => exact Iff.rfl
      | file old => exact iff_of_false nofun nofun
      | symlink t => exact Iff.rfl
      | special s d => exact Iff.rfl)

/-! ### Names -/

/-- The target of the link at a path. -/
def linkAt (fs : FileSys α) (p : Path) : Option (List Char) :=
  match fs.look p with
  | some ⟨.symlink t, _⟩ => some t
  | _ => none

/-- How far the components of a name lead without following a link. -/
inductive Reached where
  | arrived (p : Path)
  | missing (p : Path) (rest : List Name)
  | notDir
  | onLink (cur : Path) (target : List Char) (rest : List Name)

/-- Follow the components of a name up to a link. One at the end is followed only
    if that is asked for. -/
def reach (fs : FileSys α) (follow : Bool) (cur : Path) : List Name → Reached
  | [] => .arrived cur
  | n :: rest =>
    if fs.isDir cur = false then .notDir
    else if n = [] ∨ n = ['.'] then reach fs follow cur rest
    else if n = dotdot then reach fs follow cur.dropLast rest
    else if fs.look (cur ++ [n]) = none then .missing (cur ++ [n]) rest
    else
      match fs.linkAt (cur ++ [n]) with
      | none => reach fs follow (cur ++ [n]) rest
      | some t =>
        if rest = [] ∧ follow = false then .arrived (cur ++ [n]) else .onLink cur t rest

/-- What a name leads to: an entry, or a place for one in a directory. -/
inductive Place where
  | found (p : Path)
  | absent (p : Path)
  deriving DecidableEq

/-- Follow the components of a name, with a bound on the links. -/
def locateFrom (fs : FileSys α) (follow : Bool) : Nat → Path → List Name → Except Errno Place
  | links, cur, rest =>
    match reach fs follow cur rest with
    | .arrived p => .ok (.found p)
    | .missing p [] => .ok (.absent p)
    | .missing _ (_ :: _) => .error .noEntry
    | .notDir => .error .notDirectory
    | .onLink cur t rest =>
      match links with
      | 0 => .error .tooManyLinks
      | links + 1 => locateFrom fs follow links (if isAbs t then [] else cur) (splitSlash t ++ rest)

/-- Where a name leads. -/
def locate (fs : FileSys α) (follow : Bool) (s : List Char) : Except Errno Place :=
  if s = [] then .error .noEntry
  else locateFrom fs follow 40 (if isAbs s then [] else fs.cwd) (splitSlash s)

/-! ### Calls -/

/-- The entry a name leads to. -/
def statAt (follow : Bool) (s : List Char) : Call Errno (FileSys α) (Entry α) := fun fs =>
  match fs.locate follow s with
  | .error e => (.error e, fs)
  | .ok (.absent _) => (.error .noEntry, fs)
  | .ok (.found p) =>
    match fs.look p with
    | none => (.error .noEntry, fs)
    | some e => (.ok e, fs)

def lstat (s : List Char) : Call Errno (FileSys α) (Entry α) := statAt false s

def readlink (s : List Char) : Call Errno (FileSys α) (List Char) := do
  let e ← lstat s
  match e.kind with
  | .symlink t => pure t
  | _ => Call.raise .invalid

/-- The entry under a name that must be free. -/
def makeAt (s : List Char) (e : Entry α) : Call Errno (FileSys α) Unit := fun fs =>
  match fs.locate false s with
  | .error e => (.error e, fs)
  | .ok (.found _) => (.error .exist, fs)
  | .ok (.absent p) =>
    match p.getLast? with
    | none => (.error .exist, fs)
    | some n =>
      if h : fs.isDir p.dropLast = true ∧ Plain n ∧ fs.look (p.dropLast ++ [n]) = none then
        (.ok (), fs.add p.dropLast n e h)
      else (.error .invalid, fs)

def mkdir (s : List Char) (a : α) : Call Errno (FileSys α) Unit := makeAt s ⟨.dir, a⟩

def symlink (target s : List Char) (a : α) : Call Errno (FileSys α) Unit :=
  if target = [] then Call.raise .noEntry else makeAt s ⟨.symlink target, a⟩

def mknod (s : List Char) (type : Special) (device : Int × Int) (a : α) :
    Call Errno (FileSys α) Unit :=
  makeAt s ⟨.special type device, a⟩

/-- `Link`. A link is not followed, and a directory has one name only. -/
def link (old s : List Char) : Call Errno (FileSys α) Unit := do
  let e ← lstat old
  if e.kind = .dir then Call.raise .notPermitted else makeAt s e

/-- Open a file for writing, making it if there is none, and write to its beginning.
    A link at the end is followed. -/
def writeFile (s : List Char) (a : α) (content : List UInt8) : Call Errno (FileSys α) Unit :=
  fun fs =>
  match fs.locate true s with
  | .error e => (.error e, fs)
  | .ok (.found p) =>
    match fs.look p with
    | none => (.error .noEntry, fs)
    | some ⟨.dir, _⟩ => (.error .isDirectory, fs)
    | some ⟨.file _, _⟩ => (.ok (), fs.write p content)
    | some ⟨_, _⟩ => (.ok (), fs)
  | .ok (.absent p) => makeAt (render p) ⟨.file content, a⟩ fs

/-- Change what an entry holds besides its kind. -/
def change (follow : Bool) (s : List Char) (f : α → α) : Call Errno (FileSys α) Unit := fun fs =>
  match fs.locate follow s with
  | .error e => (.error e, fs)
  | .ok (.absent _) => (.error .noEntry, fs)
  | .ok (.found p) => (.ok (), fs.alter p f)

/-- The names in the directory at a path. -/
def children (fs : FileSys α) (p : Path) : List Name :=
  ((fs.entries.keys.filter fun q =>
    !q.isEmpty && q.dropLast == p).filterMap List.getLast?).insertionSort
    (fun n m => nameLe n m = true)

theorem mem_children : n ∈ fs.children p ↔ fs.look (p ++ [n]) ≠ none := by
  rw [children, mem_insertionSort, mem_filterMap]
  constructor
  · rintro ⟨q, hq, hlast⟩
    rw [mem_filter, Bool.and_eq_true, beq_iff_eq] at hq
    have hpath : q = p ++ [n] := by
      rw [← hq.2.2]
      exact (dropLast_append_getLast? n hlast).symm
    intro hnone
    have hmem : p ++ [n] ∈ fs.entries := hpath ▸ mem_keys.mpr hq.1
    exact lookup_eq_none.mp hnone hmem
  · intro hne
    refine ⟨p ++ [n], ?_, getLast?_concat⟩
    rw [mem_filter, Bool.and_eq_true, beq_iff_eq, dropLast_concat]
    refine ⟨?_, ?_, rfl⟩
    · by_contra hmem
      exact hne (lookup_eq_none.mpr hmem)
    · cases p with
      | nil => rfl
      | cons x p => rfl

theorem children_nodup (fs : FileSys α) (p : Path) : (fs.children p).Nodup := by
  rw [children, (perm_insertionSort _ _).nodup_iff]
  have hkeys : (fs.entries.keys.filter fun q => !q.isEmpty && q.dropLast == p).Nodup :=
    fs.entries.nodupKeys.filter _
  rw [Nodup, pairwise_filterMap]
  refine hkeys.imp_of_mem fun {q r} hq hr hne n hn m hm heq => hne ?_
  rw [mem_filter, Bool.and_eq_true, beq_iff_eq] at hq hr
  rw [← dropLast_append_getLast? n hn, ← dropLast_append_getLast? m hm, hq.2.2, hr.2.2, heq]

theorem children_sorted (fs : FileSys α) (p : Path) :
    (fs.children p).Pairwise (fun n m => nameLe n m = true ∧ n ≠ m) :=
  Pairwise.and (pairwise_insertionSort _ _) (fs.children_nodup p)

/-! ### Names without links -/

/-- The three ways to follow plain components without a link. -/
theorem reach_proper (hq : Proper q) (hcur : fs.look cur ≠ none)
    (hreal : ∀ r, r <+: q → r ≠ [] → r ≠ q ∨ follow = true → fs.linkAt (cur ++ r) = none) :
    (fs.reach follow cur q = .arrived (cur ++ q) ∧ fs.look (cur ++ q) ≠ none) ∨
    (∃ r n rest, q = r ++ n :: rest ∧ fs.isDir (cur ++ r) = true ∧
      fs.look (cur ++ (r ++ [n])) = none ∧
        fs.reach follow cur q = .missing (cur ++ (r ++ [n])) rest) ∨
    (∃ r n rest, q = r ++ n :: rest ∧ fs.look (cur ++ r) ≠ none ∧ fs.isDir (cur ++ r) = false ∧
      fs.reach follow cur q = .notDir) := by
  induction q generalizing cur with
  | nil => exact .inl ⟨by rw [reach, append_nil], by rw [append_nil]; exact hcur⟩
  | cons n q ih =>
    have hn := hq n mem_cons_self
    by_cases hdir : fs.isDir cur = false
    · refine .inr (.inr ⟨[], n, q, rfl, ?_, ?_, by rw [reach, if_pos hdir]⟩)
      · rw [append_nil]
        exact hcur
      · rw [append_nil]
        exact hdir
    rw [reach, if_neg hdir, if_neg (not_or.mpr ⟨hn.1, hn.2.1⟩), if_neg (plain_ne_dotdot hn)]
    rw [Bool.not_eq_false] at hdir
    by_cases hnone : fs.look (cur ++ [n]) = none
    · refine .inr (.inl ⟨[], n, q, rfl, ?_, hnone, ?_⟩)
      · rw [append_nil]
        exact hdir
      · rw [if_pos hnone]
        rfl
    rw [if_neg hnone]
    by_cases hend : q = [] ∧ follow = false
    · -- The last component, where a link may stand.
      refine .inl ⟨?_, by rw [hend.1]; exact hnone⟩
      cases hlink : fs.linkAt (cur ++ [n]) with
      | none =>
        rw [hend.1, reach]
      | some t =>
        simp only []
        rw [if_pos hend, hend.1]
    · have hnolink : fs.linkAt (cur ++ [n]) = none := by
        refine hreal [n] ⟨q, rfl⟩ (cons_ne_nil n []) ?_
        by_cases hnil : q = []
        · right
          rw [← Bool.not_eq_false]
          exact fun hfollow => hend ⟨hnil, hfollow⟩
        · left
          exact fun heq => hnil (cons.inj heq).2.symm
      rw [hnolink]
      have hrest : ∀ r, r <+: q → r ≠ [] → r ≠ q ∨ follow = true →
          fs.linkAt (cur ++ [n] ++ r) = none := by
        intro r hr hne hor
        rw [append_assoc]
        refine hreal (n :: r) (cons_prefix_cons.mpr ⟨rfl, hr⟩) (cons_ne_nil n r) ?_
        exact hor.imp_left fun hrq heq => hrq (cons.inj heq).2
      rcases ih (forall_mem_cons.mp hq).2 hnone hrest with
        ⟨hreach, hlook⟩ | ⟨r, m, rest, hqr, hrdir, hrnone, hreach⟩ |
        ⟨r, m, rest, hqr, hrlook, hrdir, hreach⟩
      · rw [append_assoc] at hreach hlook
        exact .inl ⟨hreach, hlook⟩
      · rw [append_assoc] at hrdir hrnone hreach
        exact .inr (.inl ⟨n :: r, m, rest, by rw [hqr]; rfl, hrdir, hrnone, hreach⟩)
      · rw [append_assoc] at hrdir hrlook
        exact .inr (.inr ⟨n :: r, m, rest, by rw [hqr]; rfl, hrlook, hrdir, hreach⟩)

theorem isDir_nil (fs : FileSys α) : fs.isDir [] = true := isDir_iff.mpr fs.look_nil

theorem locateFrom_congr {cur cur' : Path} {ns ns' : List Name}
    (h : fs.reach follow cur ns = fs.reach follow cur' ns') (links : Nat) :
    fs.locateFrom follow links cur ns = fs.locateFrom follow links cur' ns' := by
  cases links with
  | zero => rw [locateFrom, locateFrom, h]
  | succ => rw [locateFrom, locateFrom, h]

theorem locate_render (fs : FileSys α) (follow : Bool) (hp : Proper p) :
    fs.locate follow (render p) = fs.locateFrom follow 40 [] p := by
  have hskip : ∀ rest, fs.reach follow [] ([] :: rest) = fs.reach follow [] rest := by
    intro rest
    rw [reach, if_neg (by rw [isDir_nil]; exact Bool.true_eq_false_eq_False), if_pos (.inl rfl)]
  rw [locate, if_neg (render_ne_nil p), if_pos (isAbs_render p)]
  cases p with
  | nil =>
    exact locateFrom_congr ((hskip [[]]).trans (hskip [])) 40
  | cons n p =>
    rw [splitSlash_render hp (cons_ne_nil n p)]
    exact locateFrom_congr (hskip (n :: p)) 40

/-- Where plain components lead from a path without links: to an entry, to a place in
    a directory, or nowhere, because one is missing or is no directory. -/
theorem locateFrom_cases {links : Nat} (hq : Proper q) (hcur : fs.look cur ≠ none)
    (hreal : ∀ r, r <+: q → r ≠ [] → r ≠ q ∨ follow = true → fs.linkAt (cur ++ r) = none) :
    (fs.locateFrom follow links cur q = .ok (.found (cur ++ q)) ∧ fs.look (cur ++ q) ≠ none) ∨
    (∃ r n, q = r ++ [n] ∧ fs.isDir (cur ++ r) = true ∧ fs.look (cur ++ q) = none ∧
      fs.locateFrom follow links cur q = .ok (.absent (cur ++ q))) ∨
    (∃ r n rest, q = r ++ n :: rest ∧ rest ≠ [] ∧ fs.isDir (cur ++ r) = true ∧
      fs.look (cur ++ (r ++ [n])) = none ∧ fs.locateFrom follow links cur q = .error .noEntry) ∨
    (∃ r n rest, q = r ++ n :: rest ∧ fs.look (cur ++ r) ≠ none ∧ fs.isDir (cur ++ r) = false ∧
      fs.locateFrom follow links cur q = .error .notDirectory) := by
  rcases reach_proper hq hcur hreal with
    ⟨hreach, hlook⟩ | ⟨r, n, rest, hqr, hdir, hnone, hreach⟩ |
    ⟨r, n, rest, hqr, hlook, hdir, hreach⟩
  · rw [locateFrom, hreach]
    exact .inl ⟨rfl, hlook⟩
  · rw [locateFrom, hreach]
    cases rest with
    | nil =>
      rw [← hqr] at hnone ⊢
      exact .inr (.inl ⟨r, n, hqr, hdir, hnone, rfl⟩)
    | cons m rest =>
      exact .inr (.inr (.inl ⟨r, n, m :: rest, hqr, cons_ne_nil m rest, hdir, hnone, rfl⟩))
  · rw [locateFrom, hreach]
    exact .inr (.inr (.inr ⟨r, n, rest, hqr, hlook, hdir, rfl⟩))

/-! ### Names in two halves -/

/-- How far a name leads with more components behind it. -/
theorem reach_append (follow : Bool) {q : List Name} (hq : q ≠ []) :
    fs.reach follow cur (ns ++ q) = match fs.reach true cur ns with
      | .arrived p => fs.reach follow p q
      | .missing p rest => .missing p (rest ++ q)
      | .notDir => .notDir
      | .onLink c t rest => .onLink c t (rest ++ q) := by
  induction ns generalizing cur with
  | nil => rfl
  | cons n ns ih =>
    rw [cons_append, reach, reach]
    by_cases hdir : fs.isDir cur = false
    · rw [if_pos hdir, if_pos hdir]
    rw [if_neg hdir, if_neg hdir]
    by_cases hdot : n = [] ∨ n = ['.']
    · rw [if_pos hdot, if_pos hdot]
      exact ih
    rw [if_neg hdot, if_neg hdot]
    by_cases hup : n = dotdot
    · rw [if_pos hup, if_pos hup]
      exact ih
    rw [if_neg hup, if_neg hup]
    by_cases hlook : fs.look (cur ++ [n]) = none
    · rw [if_pos hlook, if_pos hlook]
    rw [if_neg hlook, if_neg hlook]
    rcases fs.linkAt (cur ++ [n]) with _ | t
    · exact ih
    -- With `q` behind it, a link at the end of `ns` is followed like any other.
    have hne : ¬(ns ++ q = [] ∧ follow = false) :=
      fun hnil => hq (append_eq_nil_iff.mp hnil.1).2
    simp only [if_neg hne, Bool.true_eq_false, and_false, if_false]

theorem locateFrom_append (follow : Bool) {links : Nat}
    (h : fs.locateFrom true links cur ns = .ok (.found p)) {q : List Name} (hq : q ≠ []) :
    ∃ links', fs.locateFrom follow links cur (ns ++ q) = fs.locateFrom follow links' p q := by
  induction links generalizing cur ns with
  | zero =>
    rw [locateFrom] at h
    cases hreach : fs.reach true cur ns with
    | arrived p' =>
      rw [hreach] at h
      simp only [Except.ok.injEq, Place.found.injEq] at h
      exact ⟨0, locateFrom_congr (by rw [reach_append follow hq, hreach, h]) 0⟩
    | missing p' rest =>
      rw [hreach] at h
      cases rest with
      | nil | cons => nomatch h
    | notDir =>
      simp [hreach] at h
    | onLink =>
      simp [hreach] at h
  | succ links ih =>
    rw [locateFrom] at h
    cases hreach : fs.reach true cur ns with
    | arrived p' =>
      rw [hreach] at h
      simp only [Except.ok.injEq, Place.found.injEq] at h
      exact ⟨links + 1, locateFrom_congr (by rw [reach_append follow hq, hreach, h]) (links + 1)⟩
    | missing p' rest =>
      rw [hreach] at h
      cases rest with
      | nil | cons => nomatch h
    | notDir =>
      simp [hreach] at h
    -- A link is followed with the components behind it, and costs one of the links.
    | onLink =>
      rw [hreach] at h
      rcases ih h with ⟨links', hlinks'⟩
      refine ⟨links', ?_⟩
      rw [locateFrom, reach_append follow hq, hreach]
      simp only []
      rw [← append_assoc]
      exact hlinks'

end FileSys

end Lib
