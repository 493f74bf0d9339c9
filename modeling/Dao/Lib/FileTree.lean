import Mathlib

/-!
# File Trees

A file system as a tree of directories and files, with the calls a program
makes on it: reading and writing a file, making directories, listing one,
renaming and removing whole subtrees. There are no links and no permissions.

A path is the list of its components from the root, so `..` and repeated
separators do not occur in it; `join` is what removes them from the strings a
program builds paths from.

Every call is described by what `get` answers afterwards. The components of
the path a call works on either lead through the path one asks about, or
branch off it. If they branch off, the answer is the one from before, errors
included. That is the frame rule of the module, and it has one proof for each
call, by induction on the two paths.
-/

namespace Lib

open List Except Nat

/-- The name of a directory entry. -/
abbrev Name : Type := List Char

/-- The components of an absolute path. -/
abbrev Path : Type := List Name

/-- A file with a content of some type, or a directory. -/
inductive Node (κ : Type) where
  | file (content : κ)
  | dir (entries : List (Name × Node κ))

/-- The errors a program tells apart. -/
inductive FsError where
  | notExist
  | notDirectory
  | isDirectory
  | notEmpty
  | alreadyExists
  | invalid
  deriving DecidableEq

namespace FileTree

variable {κ : Type}

/-- The components of a string, cut at every slash. -/
def splitSlash : List Char → List Name
  | [] => [[]]
  | c :: s =>
    match splitSlash s with
    | [] => [[]]
    | n :: ns => if c = '/' then [] :: n :: ns else (c :: n) :: ns

/-- Walk one component from a path, as a clean-up of the path would. -/
def walk (p : Path) (n : Name) : Path :=
  if n = [] ∨ n = ['.'] then p
  else if n = ['.', '.'] then p.dropLast
  else p ++ [n]

/-- The path of a list of strings under a path. -/
def join (p : Path) (elems : List (List Char)) : Path :=
  elems.foldl (fun q e => (splitSlash e).foldl walk q) p

/-- A string that is a path component as it stands. -/
def Plain (n : Name) : Prop := n ≠ [] ∧ n ≠ ['.'] ∧ n ≠ ['.', '.'] ∧ '/' ∉ n

instance (n : Name) : Decidable (Plain n) := inferInstanceAs (Decidable (_ ∧ _))

/-- The entry of a name. -/
def find (n : Name) : List (Name × Node κ) → Option (Node κ)
  | [] => none
  | (m, t) :: es => if n = m then some t else find n es

/-- Set the entry of a name, or clear it. -/
def assign (n : Name) (x : Option (Node κ)) (es : List (Name × Node κ)) : List (Name × Node κ) :=
  match x with
  | none => es.filter fun e => decide (e.1 ≠ n)
  | some t => (n, t) :: es.filter fun e => decide (e.1 ≠ n)

/-- The node at a path. -/
def get : Path → Node κ → Except FsError (Node κ)
  | [], t => .ok t
  | _ :: _, .file _ => .error .notDirectory
  | n :: p, .dir es =>
    match find n es with
    | none => .error .notExist
    | some t => get p t

/-- The content of a file. -/
def readFile (p : Path) (t : Node κ) : Except FsError κ :=
  match get p t with
  | .error e => .error e
  | .ok (.dir _) => .error .isDirectory
  | .ok (.file content) => .ok content

/-- Change the entry at a path, its parent being there. -/
def update (f : Option (Node κ) → Except FsError (Option (Node κ))) :
    Path → Node κ → Except FsError (Node κ)
  | [], _ => .error .invalid
  | _ :: _, .file _ => .error .notDirectory
  | [n], .dir es =>
    match f (find n es) with
    | .error e => .error e
    | .ok x => .ok (.dir (assign n x es))
  | n :: m :: p, .dir es =>
    match find n es with
    | none => .error .notExist
    | some t =>
      match update f (m :: p) t with
      | .error e => .error e
      | .ok t' => .ok (.dir (assign n (some t') es))

/-- Write a file, replacing the one that is there. -/
def writeFile (p : Path) (content : κ) : Node κ → Except FsError (Node κ) :=
  update (fun x =>
    match x with
    | some (.dir _) => .error .isDirectory
    | _ => .ok (some (.file content))) p

/-- Make one directory. -/
def mkdir (p : Path) : Node κ → Except FsError (Node κ) :=
  update (fun x =>
    match x with
    | some _ => .error .alreadyExists
    | none => .ok (some (.dir []))) p

/-- Make a directory and those that lead to it. -/
def mkdirAll : Path → Node κ → Except FsError (Node κ)
  | _, .file _ => .error .notDirectory
  | [], .dir es => .ok (.dir es)
  | n :: p, .dir es =>
    match mkdirAll p ((find n es).getD (.dir [])) with
    | .error e => .error e
    | .ok t => .ok (.dir (assign n (some t) es))

/-- Remove whatever is at a path. It is not an error for nothing to be
    there. -/
def removeAll : Path → Node κ → Node κ
  | _, .file content => .file content
  | [], .dir _ => .dir []
  | [n], .dir es => .dir (assign n none es)
  | n :: m :: p, .dir es =>
    match find n es with
    | none => .dir es
    | some t => .dir (assign n (some (removeAll (m :: p) t)) es)

/-- Remove a file or an empty directory. -/
def remove (p : Path) : Node κ → Except FsError (Node κ) :=
  update (fun x =>
    match x with
    | none => .error .notExist
    | some (.dir (_ :: _)) => .error .notEmpty
    | some _ => .ok none) p

/-- Move a directory. The target may be an empty directory. -/
def rename (src dst : Path) (t : Node κ) : Except FsError (Node κ) :=
  match get src t with
  | .error e => .error e
  | .ok (.file _) => .error .notDirectory
  | .ok (.dir es) =>
    if src = dst then .ok t
    else if src.isPrefixOf dst then .error .invalid
    else if dst.isPrefixOf src then .error .notEmpty
    else
      update (fun x =>
        match x with
        | none => .ok (some (.dir es))
        | some (.dir []) => .ok (some (.dir es))
        | some (.dir _) => .error .notEmpty
        | some (.file _) => .error .notDirectory) dst (removeAll src t)

/-- The order of names, by the code points of their characters. -/
def nameLe : Name → Name → Bool
  | [], _ => true
  | _ :: _, [] => false
  | c :: n, d :: m => if c = d then nameLe n m else Nat.ble c.toNat d.toNat

theorem nameLe_total (n m : Name) : nameLe n m = true ∨ nameLe m n = true := by
  induction n generalizing m with
  | nil => exact .inl rfl
  | cons c n ih =>
    rcases m with _ | ⟨d, m⟩
    · exact .inr rfl
    rw [nameLe, nameLe]
    by_cases hcd : c = d
    · rw [if_pos hcd, if_pos hcd.symm]
      exact ih m
    · rw [if_neg hcd, if_neg (Ne.symm hcd), ble_eq, ble_eq]
      exact le_total _ _

variable {n m : Name} {p q : Path} {t t' : Node κ}
  {f : Option (Node κ) → Except FsError (Option (Node κ))}

theorem nameLe_antisymm (hnm : nameLe n m = true) (hmn : nameLe m n = true) : n = m := by
  induction n generalizing m with
  | nil =>
    cases m with
    | nil => rfl
    | cons d m => nomatch hmn
  | cons c n ih =>
    rcases m with _ | ⟨d, m⟩
    · nomatch hnm
    rw [nameLe] at hnm hmn
    by_cases hcd : c = d
    · rw [if_pos hcd] at hnm
      rw [if_pos hcd.symm] at hmn
      rw [hcd, ih hnm hmn]
    · rw [if_neg hcd, ble_eq] at hnm
      rw [if_neg (Ne.symm hcd), ble_eq] at hmn
      exact absurd (Char.toNat_inj.mp (le_antisymm hnm hmn)) hcd

theorem nameLe_trans {n m k : Name} (hnm : nameLe n m = true) (hmk : nameLe m k = true) :
    nameLe n k = true := by
  induction n generalizing m k with
  | nil => rfl
  | cons c n ih =>
    rcases m with _ | ⟨d, m⟩
    · nomatch hnm
    rcases k with _ | ⟨e, k⟩
    · nomatch hmk
    rw [nameLe] at hnm hmk ⊢
    -- The comparison is decided at the first character where two of them differ.
    by_cases hcd : c = d
    · subst hcd
      rw [if_pos rfl] at hnm
      by_cases hce : c = e
      · rw [if_pos hce] at hmk ⊢
        exact ih hnm hmk
      · rw [if_neg hce] at hmk ⊢
        exact hmk
    · rw [if_neg hcd, ble_eq] at hnm
      by_cases hde : d = e
      · rw [← hde, if_neg hcd, ble_eq]
        exact hnm
      rw [if_neg hde, ble_eq] at hmk
      by_cases hce : c = e
      · rw [← hce] at hmk
        exact absurd (Char.toNat_inj.mp (le_antisymm hnm hmk)) hcd
      · rw [if_neg hce, ble_eq]
        exact le_trans hnm hmk

instance : Std.Total (fun n m : Name => nameLe n m = true) := ⟨nameLe_total⟩

instance : IsTrans Name (fun n m => nameLe n m = true) := ⟨fun _ _ _ => nameLe_trans⟩

/-- The names of the entries of a directory, each once and in order. -/
def names (es : List (Name × Node κ)) : List Name :=
  ((es.map Prod.fst).dedup).insertionSort fun n m => nameLe n m = true

/-- The entries of the directory at a path: the names, and whether each is a
    directory. -/
def readDir (p : Path) (t : Node κ) : Except FsError (List (Name × Bool)) :=
  match get p t with
  | .error e => .error e
  | .ok (.file _) => .error .notDirectory
  | .ok (.dir es) =>
    .ok ((names es).map (fun n =>
      (n, match find n es with
        | some (.dir _) => true
        | _ => false)))

/-- Neither path leads through the other. -/
def Apart (p q : Path) : Prop := ¬ p <+: q ∧ ¬ q <+: p

theorem apart_symm (h : Apart p q) : Apart q p := ⟨h.2, h.1⟩

/-- Paths that differ in one component under a common front are apart, however
    they go on. -/
theorem apart_of_ne (p : Path) (hne : n ≠ m) (q r : Path) : Apart (p ++ n :: q) (p ++ m :: r) := by
  constructor
  · rw [prefix_append_right_inj, cons_prefix_cons]
    exact fun hc => hne hc.1
  · rw [prefix_append_right_inj, cons_prefix_cons]
    exact fun hc => hne hc.1.symm

theorem apart_append (h : Apart p q) (r : Path) : Apart (p ++ r) q := by
  constructor
  · intro hc
    exact h.1 ((prefix_append p r).trans hc)
  intro hc
  rcases prefix_or_prefix_of_prefix hc (prefix_append p r) with hqp | hpq
  · exact h.2 hqp
  · exact h.1 hpq

theorem apart_cons (h : Apart (n :: p) (n :: q)) : Apart p q := by
  simp only [Apart, cons_prefix_cons, true_and] at h
  exact h

theorem not_apart_nil (q : Path) : ¬ Apart [] q := fun h => h.1 List.nil_prefix

theorem find_filter_ne (n m : Name) (es : List (Name × Node κ)) (h : m ≠ n) :
    find m (es.filter (fun e => decide (e.1 ≠ n))) = find m es := by
  induction es with
  | nil => rfl
  | cons e es ih =>
    rcases e with ⟨k, t⟩
    by_cases hk : k = n
    · have hmk : ¬ m = k := by rw [hk]; exact h
      rw [filter_cons_of_neg (by simp [hk]), ih, find, if_neg hmk]
    · rw [filter_cons_of_pos (by simp [hk]), find, find, ih]

theorem find_filter_self (n : Name) (es : List (Name × Node κ)) :
    find n (es.filter (fun e => decide (e.1 ≠ n))) = none := by
  induction es with
  | nil => rfl
  | cons e es ih =>
    rcases e with ⟨k, t⟩
    by_cases hk : k = n
    · rw [filter_cons_of_neg (by simp [hk]), ih]
    · have hnk : ¬ n = k := fun hc => hk hc.symm
      rw [filter_cons_of_pos (by simp [hk]), find, if_neg hnk, ih]

theorem find_assign_self (n : Name) (x : Option (Node κ)) (es : List (Name × Node κ)) :
    find n (assign n x es) = x := by
  cases x with
  | none => exact find_filter_self n es
  | some t => simp [assign, find]

theorem find_assign_ne (n m : Name) (x : Option (Node κ)) (es : List (Name × Node κ)) (h : m ≠ n) :
    find m (assign n x es) = find m es := by
  cases x with
  | none => exact find_filter_ne n m es h
  | some t =>
    rw [assign, find, if_neg h]
    exact find_filter_ne n m es h

theorem get_append (p q : Path) (t : Node κ) : get (p ++ q) t = match get p t with
      | .error e => .error e
      | .ok t' => get q t' := by
  induction p generalizing t with
  | nil => rfl
  | cons n p ih =>
    rcases t with _ | es
    · rfl
    simp only [cons_append, get]
    cases find n es with
    | none => rfl
    | some t' => exact ih t'

theorem get_entry {es : List (Name × Node κ)} (h : get p t = .ok (.dir es)) (n : Name) :
    get (p ++ [n]) t = match find n es with
      | none => .error .notExist
      | some x => .ok x := by
  rw [get_append, h]
  simp [get]

theorem update_cases (h : update f (n :: p) t = .ok t') : ∃ es x, t = .dir es ∧
    t' = .dir (assign n x es) ∧ ((p = [] ∧ f (find n es) = .ok x) ∨
      ∃ t0 t1, x = some t1 ∧ find n es = some t0 ∧ update f p t0 = .ok t1) := by
  rcases t with _ | es
  · simp [update] at h
  cases p with
  | nil =>
    simp only [update] at h
    cases hf : f (find n es) with
    | error e => simp [hf] at h
    | ok x =>
      rw [hf] at h
      exact ⟨es, x, rfl, (ok.inj h).symm, .inl ⟨rfl, hf⟩⟩
  | cons m p =>
    simp only [update] at h
    rcases hn : find n es with _ | t0
    · simp [hn] at h
    rw [hn] at h
    simp only at h
    cases hu : update f (m :: p) t0 with
    | error e => simp [hu] at h
    | ok t1 =>
      rw [hu] at h
      exact ⟨es, some t1, rfl, (ok.inj h).symm, .inr ⟨t0, t1, rfl, hn, hu⟩⟩

theorem get_update (h : update f p t = .ok t') :
    ∃ old new, f old = .ok new ∧ (∀ x, old = some x ↔ get p t = .ok x) ∧
      ∀ q, get (p ++ q) t' = match new with
        | none => .error .notExist
        | some x => get q x := by
  induction p generalizing t t' with
  | nil => simp [update] at h
  | cons n p ih =>
    rcases update_cases h with ⟨es, x, rfl, rfl, ⟨rfl, hf⟩ | ⟨t0, t1, rfl, hn, hu⟩⟩
    · refine ⟨find n es, x, hf, fun y => ?_, fun q => ?_⟩
      · simp only [get]
        cases find n es with
        | none => simp
        | some z => simp
      · simp [get, find_assign_self]
    · rcases ih hu with ⟨old, new, hf, hold, hnew⟩
      refine ⟨old, new, hf, fun x => ?_, fun q => ?_⟩
      · rw [hold x]
        simp [get, hn]
      · rw [← hnew q]
        simp [get, find_assign_self]

theorem get_update_apart (hpq : Apart p q) (h : update f p t = .ok t') : get q t' = get q t := by
  induction p generalizing q t t' with
  | nil => exact absurd hpq (not_apart_nil q)
  | cons n p ih =>
    rcases q with _ | ⟨m, q⟩
    · exact absurd (apart_symm hpq) (not_apart_nil _)
    -- Only the entry of the first component is touched.
    rcases update_cases h with ⟨es, x, rfl, rfl, hentry⟩
    by_cases hmn : m = n
    · rw [hmn] at hpq
      rcases hentry with ⟨hp, _⟩ | ⟨t0, t1, rfl, hn, hu⟩
      · rw [hp] at hpq
        exact absurd (apart_cons hpq) (not_apart_nil q)
      · rw [hmn]
        simp only [get, find_assign_self, hn]
        exact ih (apart_cons hpq) hu
    · simp [get, find_assign_ne n m x es hmn]

theorem get_writeFile {content : κ} (h : writeFile p content t = .ok t') :
    get p t' = .ok (.file content) := by
  rcases get_update h with ⟨old, new, hf, _, hnew⟩
  have hget := hnew []
  rw [append_nil] at hget
  have hnewfile : new = some (.file content) := by
    rcases old with _ | x
    · cases hf
      exact rfl
    cases x with
    | file c =>
      cases hf
      exact rfl
    | dir es => nomatch hf
  rw [hget, hnewfile]
  rfl

theorem mkdirAll_cases (h : mkdirAll (n :: p) t = .ok t') : ∃ es t1, t = .dir es ∧
    mkdirAll p ((find n es).getD (.dir [])) = .ok t1 ∧ t' = .dir (assign n (some t1) es) := by
  rcases t with _ | es
  · simp [mkdirAll] at h
  simp only [mkdirAll] at h
  cases hm : mkdirAll p ((find n es).getD (.dir [])) with
  | error e => simp [hm] at h
  | ok t1 =>
    rw [hm] at h
    exact ⟨es, t1, rfl, hm, (ok.inj h).symm⟩

theorem get_mkdirAll (h : mkdirAll p t = .ok t') : ∃ es, get p t' = .ok (.dir es) := by
  induction p generalizing t t' with
  | nil =>
    cases t with
    | file => simp [mkdirAll] at h
    | dir es =>
      simp only [mkdirAll, ok.injEq] at h
      exact ⟨es, by rw [← h]; rfl⟩
  | cons n p ih =>
    rcases mkdirAll_cases h with ⟨es, t1, _, hm, rfl⟩
    rcases ih hm with ⟨es1, hes⟩
    refine ⟨es1, ?_⟩
    simp [get, find_assign_self, hes]

theorem get_mkdirAll_frame (hqp : ¬ q <+: p) (h : mkdirAll p t = .ok t') : get q t' = get q t := by
  induction p generalizing q t t' with
  | nil =>
    cases t with
    | file => simp [mkdirAll] at h
    | dir es =>
      simp only [mkdirAll, ok.injEq] at h
      rw [h]
  | cons n p ih =>
    rcases q with _ | ⟨m, q⟩
    · exact absurd List.nil_prefix hqp
    rcases mkdirAll_cases h with ⟨es, t1, rfl, hm, rfl⟩
    by_cases hmn : m = n
    · have hq : ¬ q <+: p := by
        intro hc
        exact hqp (by rw [hmn]; exact cons_prefix_cons.mpr ⟨rfl, hc⟩)
      rw [hmn]
      simp only [get, find_assign_self, ih hq hm]
      cases find n es with
      | some t0 => rfl
      | none =>
        -- A directory that was not there is entered empty.
        cases q with
        | nil => exact absurd List.nil_prefix hq
        | cons k q => rfl
    · simp [get, find_assign_ne n m _ es hmn]

theorem get_removeAll (hp : p ≠ []) (t : Node κ) (q : Path) :
    ∃ e, get (p ++ q) (removeAll p t) = .error e := by
  induction p generalizing t with
  | nil => exact absurd rfl hp
  | cons n p ih =>
    rcases t with _ | es
    · exact ⟨.notDirectory, rfl⟩
    rcases p with _ | ⟨m, p⟩
    · refine ⟨.notExist, ?_⟩
      simp [removeAll, get, find_assign_self]
    simp only [removeAll]
    cases hn : find n es with
    | none =>
      refine ⟨.notExist, ?_⟩
      simp [get, hn]
    | some t0 =>
      rcases ih (cons_ne_nil m p) t0 with ⟨e, he⟩
      refine ⟨e, ?_⟩
      rw [← he]
      simp [get, find_assign_self]

theorem get_removeAll_apart (hpq : Apart p q) (t : Node κ) : get q (removeAll p t) = get q t := by
  induction p generalizing q t with
  | nil => exact absurd hpq (not_apart_nil q)
  | cons n p ih =>
    rcases q with _ | ⟨m, q⟩
    · exact absurd (apart_symm hpq) (not_apart_nil _)
    rcases t with _ | es
    · rfl
    cases p with
    | nil =>
      have hmn : m ≠ n := by
        intro hc
        rw [hc] at hpq
        exact not_apart_nil q (apart_cons hpq)
      simp [removeAll, get, find_assign_ne n m none es hmn]
    | cons k p =>
      simp only [removeAll]
      rcases hn : find n es with _ | t0
      · rfl
      -- The paths part at the first component, or later below the same entry.
      by_cases hmn : m = n
      · rw [hmn] at hpq
        rw [hmn]
        simp only [get, find_assign_self, hn]
        exact ih (apart_cons hpq) t0
      · simp [get, find_assign_ne n m _ es hmn]

theorem dir_of_get_append {t x : Node κ} (h : get (p ++ [n]) t = .ok x) :
    ∃ es, get p t = .ok (.dir es) := by
  rw [get_append] at h
  rcases hp : get p t with e | y
  · simp [hp] at h
  rw [hp] at h
  cases y with
  | file => simp [get] at h
  | dir es => exact ⟨es, rfl⟩

theorem get_update_parent (p : Path) (n : Name) (h : update f (p ++ [n]) t = .ok t') :
    ∃ es, get p t' = .ok (.dir es) := by
  induction p generalizing t t' with
  | nil =>
    rcases update_cases h with ⟨es, x, _, rfl, _⟩
    exact ⟨_, rfl⟩
  | cons m p ih =>
    rcases update_cases h with ⟨es, x, _, rfl, ⟨hp, _⟩ | ⟨t0, t1, rfl, _, hu⟩⟩
    · exact absurd hp (concat_ne_nil n p)
    · rcases ih hu with ⟨es', hes'⟩
      refine ⟨es', ?_⟩
      simp [get, find_assign_self, hes']

/-- A file or a directory above what is removed stays one, and what was not
    there does not come up. -/
theorem get_removeAll_above (p : Path) (n : Name) (r : Path) (t : Node κ) :
    (∃ es es', get p t = .ok (.dir es) ∧ get p (removeAll (p ++ n :: r) t) = .ok (.dir es')) ∨
      get p (removeAll (p ++ n :: r) t) = get p t := by
  induction p generalizing t with
  | nil =>
    rcases t with _ | es
    · right
      cases r <;> rfl
    rcases r with _ | ⟨m, r⟩
    · exact .inl ⟨es, _, rfl, rfl⟩
    simp only [nil_append, removeAll]
    cases hn : find n es with
    | none => exact .inr rfl
    | some t0 => exact .inl ⟨es, _, rfl, rfl⟩
  | cons m p ih =>
    rcases t with _ | es
    · right
      cases p <;> rfl
    -- A removal below `m` goes into its entry, whatever is left of the path.
    have hremove : removeAll (m :: p ++ n :: r) (.dir es) = match find m es with
        | none => .dir es
        | some t0 => .dir (assign m (some (removeAll (p ++ n :: r) t0)) es) := by
      cases p <;> rfl
    rw [hremove]
    cases hm : find m es with
    | none => exact .inr rfl
    | some t0 =>
      simp only [get, find_assign_self, hm]
      exact ih t0

/-- The directory something is removed from stays one, and one that is not
    there does not come up. -/
theorem get_removeAll_parent (p : Path) (n : Name) (t : Node κ) :
    (∃ es es', get p t = .ok (.dir es) ∧ get p (removeAll (p ++ [n]) t) = .ok (.dir es')) ∨
      get p (removeAll (p ++ [n]) t) = get p t := get_removeAll_above p n [] t

theorem get_removeAll_entry {t x : Node κ} (h : get (p ++ [n]) t = .ok x) :
    get (p ++ [n]) (removeAll (p ++ [n]) t) = .error .notExist := by
  have hdir : ∃ es', get p (removeAll (p ++ [n]) t) = .ok (.dir es') := by
    rcases get_removeAll_parent p n t with ⟨_, es', _, hget⟩ | hsame
    · exact ⟨es', hget⟩
    · rw [hsame]
      exact dir_of_get_append h
  rcases hdir with ⟨es', hdir⟩
  rcases get_removeAll (concat_ne_nil n p) t [] with
    ⟨e, he⟩
  rw [append_nil, get_entry hdir] at he
  rw [get_entry hdir]
  cases hfind : find n es' with
  | none => rfl
  | some y =>
    simp [hfind] at he

/-- What a successful rename has done. -/
structure Renamed (src dst : Path) (es : List (Name × Node κ)) (t t' : Node κ) : Prop where
  source : get src t = .ok (.dir es)
  target : ∀ x, get dst t = .ok x → x = .dir []
  moved : ∀ q, get (dst ++ q) t' = get q (.dir es)
  gone : ∀ q, ∃ e, get (src ++ q) t' = .error e
  frame : ∀ q, Apart src q → Apart dst q → get q t' = get q t

theorem renamed_of_ok {src dst : Path} (hne : src ≠ dst) (h : rename src dst t = .ok t') :
    ∃ es, Renamed src dst es t t' := by
  unfold rename at h
  rcases hsrc : get src t with e | x
  · simp [hsrc] at h
  rcases x with _ | es
  · simp [hsrc] at h
  rw [hsrc] at h
  simp only [if_neg hne] at h
  by_cases h1 : src.isPrefixOf dst = true
  · rw [if_pos h1] at h
    nomatch h
  rw [if_neg h1] at h
  by_cases h2 : dst.isPrefixOf src = true
  · rw [if_pos h2] at h
    nomatch h
  rw [if_neg h2] at h
  have hapart : Apart src dst :=
    ⟨fun hc => h1 (List.isPrefixOf_iff_prefix.mpr hc),
      fun hc => h2 (List.isPrefixOf_iff_prefix.mpr hc)⟩
  have hsrcne : src ≠ [] := by
    intro hc
    rw [hc] at hapart
    exact not_apart_nil dst hapart
  rcases get_update h with ⟨old, new, hf, hold, hnew⟩
  -- What stood at the target stood there before the source went.
  have hdst : ∀ x, old = some x ↔ get dst t = .ok x := by
    intro x
    rw [hold x, get_removeAll_apart hapart]
  have hfound : new = some (.dir es) ∧ ∀ x, old = some x → x = .dir [] := by
    rcases old with _ | y
    · cases hf
      exact ⟨rfl, fun x hx => by simp at hx⟩
    rcases y with _ | fs
    · nomatch hf
    cases fs with
    | nil =>
      cases hf
      refine ⟨rfl, fun x hx => ?_⟩
      cases hx
      exact rfl
    | cons e fs => nomatch hf
  refine ⟨es, hsrc, fun x hx => hfound.2 x ((hdst x).mpr hx), fun q => ?_,
    fun q => ?_, fun q h3 h4 => ?_⟩
  · rw [hnew q, hfound.1]
  · rcases get_removeAll hsrcne t q with ⟨e, he⟩
    refine ⟨e, ?_⟩
    rw [← he]
    exact get_update_apart (apart_symm (apart_append hapart q)) h
  · rw [get_update_apart h4 h, get_removeAll_apart h3]

theorem mem_names (n : Name) (es : List (Name × Node κ)) :
    n ∈ names es ↔ ∃ t, find n es = some t := by
  rw [names, mem_insertionSort, mem_dedup]
  induction es with
  | nil => simp [find]
  | cons e es ih =>
    rcases e with ⟨m, t⟩
    rw [map_cons, mem_cons, ih, find]
    by_cases hn : n = m
    · rw [if_pos hn]
      exact ⟨fun _ => ⟨t, rfl⟩, fun _ => .inl hn⟩
    · rw [if_neg hn]
      exact ⟨fun h => h.resolve_left hn, .inr⟩

/-- The names of the subdirectories of a directory, each once. -/
def subdirs (l : List (Name × Bool)) : List Name := (l.filter (fun e => e.2)).map Prod.fst

theorem readDir_ok {l : List (Name × Bool)} (h : readDir p t = .ok l) :
    (subdirs l).Nodup ∧ ∀ n, n ∈ subdirs l ↔ ∃ es, get (p ++ [n]) t = .ok (.dir es) := by
  unfold readDir at h
  rcases hget : get p t with e | x
  · simp [hget] at h
  rcases x with _ | es
  · simp [hget] at h
  rw [hget] at h
  simp only [ok.injEq] at h
  -- What is listed as a directory is looked up as one.
  have hl : subdirs l = (names es).filter (fun n =>
      match find n es with
      | some (.dir _) => true
      | _ => false) := by
    rw [subdirs, ← h, filter_map, map_map]
    simp only [Function.comp_def, map_id']
  rw [hl]
  have hnodup : (names es).Nodup :=
    (perm_insertionSort _ _).nodup_iff.mpr (nodup_dedup _)
  refine ⟨hnodup.filter _, fun n => ?_⟩
  rw [mem_filter, mem_names, get_entry hget]
  rcases find n es with _ | y
  · simp
  cases y with
  | file => simp
  | dir fs => exact ⟨fun _ => ⟨fs, rfl⟩, fun _ => ⟨⟨_, rfl⟩, rfl⟩⟩

/-- A directory, or nothing at all: what `readDir` can be asked about. -/
def Listable : Except FsError (Node κ) → Prop
  | .ok (.dir _) => True
  | .error .notExist => True
  | _ => False

theorem listable_of_dir {r : Except FsError (Node κ)} {es : List (Name × Node κ)}
    (h : r = .ok (.dir es)) : Listable r := by
  rw [h]
  exact trivial

theorem readDir_listable (h : Listable (get p t)) :
    (get p t = .error .notExist ∧ readDir p t = .error .notExist) ∨
      ∃ es infos, get p t = .ok (.dir es) ∧ readDir p t = .ok infos := by
  unfold readDir
  cases hget : get p t with
  | error e =>
    rw [hget] at h
    cases e <;> first | exact .inl ⟨rfl, rfl⟩ | exact absurd h not_false
  | ok x =>
    rw [hget] at h
    cases x with
    | file => exact absurd h not_false
    | dir es => exact .inr ⟨es, _, rfl, rfl⟩

theorem splitSlash_plain (n : Name) (h : '/' ∉ n) : splitSlash n = [n] := by
  induction n with
  | nil => rfl
  | cons c n ih =>
    have hc : ¬ c = '/' := fun hc => h (by rw [hc]; exact mem_cons_self)
    have hn : '/' ∉ n := fun hn => h (mem_cons_of_mem _ hn)
    simp [splitSlash, ih hn, if_neg hc]

theorem join_plain (p : Path) (n : Name) (ns : List (List Char)) (h : Plain n) :
    join p (n :: ns) = join (p ++ [n]) ns := by
  rcases h with ⟨h1, h2, h3, h4⟩
  have hwalk : walk p n = p ++ [n] := by
    rw [walk, if_neg (by simp [h1, h2]), if_neg h3]
  simp [join, splitSlash_plain n h4, hwalk]

theorem join_nil (p : Path) : join p [] = p := rfl

end FileTree

end Lib
