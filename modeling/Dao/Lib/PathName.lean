import Dao.Lib.FileTree

/-!
# Path Names

The functions on path names a program works with: cleaning a name, joining two,
taking one apart. The separator is the slash.

Names are strings, and programs compare them as strings. What a name means is the
list of its components. `render` is the name of a list of components, and every
clean absolute name is one, so the lemmas say what each function does to the
lists.
-/

namespace Lib

namespace PathName

open FileTree List

/-- The parent directory. -/
def dotdot : Name := ['.', '.']

def isAbs (s : List Char) : Bool := s.head? = some '/'

/-- The components of the absolute name. -/
def comps (s : List Char) : Path := (splitSlash s).foldl walk []

/-- Walk one component of a relative name. A name that climbs above its beginning
    keeps the climb. -/
def walkRel (p : Path) (n : Name) : Path :=
  if n = [] ∨ n = ['.'] then p
  else if n = dotdot then
    if p = [] ∨ p.getLast? = some dotdot then p ++ [dotdot] else p.dropLast
  else p ++ [n]

/-- The components of the relative name. -/
def relComps (s : List Char) : Path := (splitSlash s).foldl walkRel []

def render (p : Path) : List Char := if p = [] then ['/'] else p.flatMap (fun n => '/' :: n)

def joinSlash : Path → List Char
  | [] => []
  | [n] => n
  | n :: m :: p => n ++ '/' :: joinSlash (m :: p)

/-- The relative name of a list of components. -/
def renderRel (p : Path) : List Char := if p = [] then ['.'] else joinSlash p

def clean (s : List Char) : List Char :=
  if isAbs s then render (comps s) else renderRel (relComps s)

/-- `Join` of two names. -/
def joinTwo (a b : List Char) : List Char :=
  if a = [] then (if b = [] then [] else clean b) else clean (a ++ '/' :: b)

/-- The part of a name up to its last slash. -/
def frontPart (s : List Char) : List Char := (s.reverse.dropWhile (fun c => c ≠ '/')).reverse

def dir (s : List Char) : List Char := clean (frontPart s)

/-- A list of plain components. -/
def Proper (p : Path) : Prop := ∀ n ∈ p, Plain n

instance (p : Path) : Decidable (Proper p) := inferInstanceAs (Decidable (∀ n ∈ p, Plain n))

/-! ### Cutting at the slashes -/

theorem splitSlash_ne_nil (s : List Char) : splitSlash s ≠ [] := by
  rcases s with _ | ⟨c, s⟩
  · exact cons_ne_nil _ _
  rw [splitSlash]
  split
  · exact cons_ne_nil _ _
  · split
    · exact cons_ne_nil _ _
    · exact cons_ne_nil _ _

theorem splitSlash_slash (s : List Char) : splitSlash ('/' :: s) = [] :: splitSlash s := by
  rw [splitSlash]
  cases h : splitSlash s with
  | nil => exact absurd h (splitSlash_ne_nil s)
  | cons n ns => rfl

variable {n : Name} {q p : Path} {a : List Char} {k : Nat}

theorem splitSlash_cons {c : Char} (hc : c ≠ '/') {s : List Char} {ns : Path}
    (h : splitSlash s = n :: ns) : splitSlash (c :: s) = (c :: n) :: ns := by
  rw [splitSlash, h]
  exact if_neg hc

theorem splitSlash_append (a b : List Char) :
    splitSlash (a ++ '/' :: b) = splitSlash a ++ splitSlash b := by
  induction a with
  | nil => exact splitSlash_slash b
  | cons c a ih =>
    by_cases hc : c = '/'
    · rw [hc, cons_append, splitSlash_slash, splitSlash_slash, ih, cons_append]
    cases h : splitSlash a with
    | nil => exact absurd h (splitSlash_ne_nil a)
    | cons n ns =>
      rw [h, cons_append] at ih
      rw [cons_append, splitSlash_cons hc ih, splitSlash_cons hc h, cons_append]

/-- The last component of one string and the first of another make one. -/
theorem splitSlash_append_join {a b : List Char} {ns ms : Path} {n m : Name}
    (ha : splitSlash a = ns ++ [n]) (hb : splitSlash b = m :: ms) :
    splitSlash (a ++ b) = ns ++ (n ++ m) :: ms := by
  induction a generalizing ns n with
  | nil =>
    rw [splitSlash] at ha
    cases ns with
    | nil =>
      rw [nil_append, singleton_inj] at ha
      rw [← ha, nil_append, hb]
      rfl
    | cons x ns =>
      rw [cons_append, cons.injEq] at ha
      exact absurd ha.2.symm (concat_ne_nil n ns)
  | cons c a ih =>
    by_cases hc : c = '/'
    · rw [hc, splitSlash_slash] at ha
      cases ns with
      | nil =>
        rw [nil_append, cons.injEq] at ha
        exact absurd ha.2 (splitSlash_ne_nil a)
      | cons x ns =>
        rw [cons_append, cons.injEq] at ha
        rw [hc, cons_append, splitSlash_slash, ih ha.2, ← ha.1, cons_append]
    -- A plain character goes to the front of the first component of both.
    · cases h : splitSlash a with
      | nil => exact absurd h (splitSlash_ne_nil a)
      | cons x xs =>
        rw [splitSlash_cons hc h] at ha
        cases ns with
        | nil =>
          rw [nil_append, cons.injEq] at ha
          rw [ha.2] at h
          have hjoin : splitSlash (a ++ b) = (x ++ m) :: ms := @ih [] x h
          rw [cons_append, splitSlash_cons hc hjoin, ← ha.1]
          rfl
        | cons y ns =>
          rw [cons_append, cons.injEq] at ha
          rw [ha.2] at h
          have hjoin : splitSlash (a ++ b) = x :: (ns ++ (n ++ m) :: ms) := @ih (x :: ns) n h
          rw [cons_append, splitSlash_cons hc hjoin, ← ha.1]
          rfl

theorem slash_not_mem_splitSlash (s : List Char) : ∀ n ∈ splitSlash s, '/' ∉ n := by
  induction s with
  | nil =>
    intro n hn
    rw [splitSlash, mem_singleton] at hn
    rw [hn]
    exact not_mem_nil
  | cons c s ih =>
    intro n hn
    by_cases hc : c = '/'
    · rw [hc, splitSlash_slash, mem_cons] at hn
      rcases hn with rfl | hn
      · exact not_mem_nil
      · exact ih n hn
    · cases h : splitSlash s with
      | nil => exact absurd h (splitSlash_ne_nil s)
      | cons m ms =>
        rw [splitSlash_cons hc h, mem_cons] at hn
        rw [h] at ih
        rcases hn with rfl | hn
        · rw [mem_cons, not_or]
          exact ⟨fun heq => hc heq.symm, ih m mem_cons_self⟩
        · exact ih n (mem_cons_of_mem m hn)

/-! ### Walking -/

theorem walk_plain (p : Path) (h : Plain n) : walk p n = p ++ [n] := by
  rw [walk, if_neg (not_or.mpr ⟨h.1, h.2.1⟩), if_neg h.2.2.1]

theorem foldl_walk_proper (p : Path) (h : Proper q) : q.foldl walk p = p ++ q := by
  induction q generalizing p with
  | nil => exact (append_nil p).symm
  | cons n q ih =>
    rw [foldl_cons, walk_plain p (h n mem_cons_self),
      ih _ (forall_mem_cons.mp h).2, append_assoc, singleton_append]

theorem walk_proper (hp : Proper p) (hn : '/' ∉ n) : Proper (walk p n) := by
  unfold walk
  split
  · exact hp
  next hdot =>
  rw [not_or] at hdot
  split
  · intro m hm
    exact hp m (mem_of_mem_dropLast hm)
  next hdd =>
  intro m hm
  rw [mem_append, mem_singleton] at hm
  rcases hm with hm | rfl
  · exact hp m hm
  · exact ⟨hdot.1, hdot.2, hdd, hn⟩

theorem foldl_walk_split_proper (hp : Proper p) (s : List Char) :
    Proper ((splitSlash s).foldl walk p) := by
  have hgen : ∀ ns : Path, (∀ n ∈ ns, '/' ∉ n) →
      ∀ q : Path, Proper q → Proper (ns.foldl walk q) := by
    intro ns
    induction ns with
    | nil => exact fun _ q hq => hq
    | cons n ns ih =>
      intro hns q hq
      exact ih (forall_mem_cons.mp hns).2 _ (walk_proper hq (hns n mem_cons_self))
  exact hgen _ (slash_not_mem_splitSlash s) p hp

theorem proper_nil : Proper [] := nofun

theorem comps_proper (s : List Char) : Proper (comps s) := foldl_walk_split_proper proper_nil s

theorem Proper.append (hp : Proper p) (hq : Proper q) : Proper (p ++ q) := by
  intro n hn
  rcases mem_append.mp hn with hn | hn
  · exact hp n hn
  · exact hq n hn

theorem Proper.left (h : Proper (p ++ q)) : Proper p :=
  fun n hn => h n (mem_append_left q hn)

theorem Proper.right (h : Proper (p ++ q)) : Proper q :=
  fun n hn => h n (mem_append_right p hn)

/-! ### Names of lists -/

theorem render_cons (n : Name) (p : Path) :
    render (n :: p) = (n :: p).flatMap (fun n => '/' :: n) :=
  if_neg (cons_ne_nil n p)

theorem isAbs_render (p : Path) : isAbs (render p) = true := by
  cases p with
  | nil => rfl
  | cons n p => rfl

theorem splitSlash_flatMap (h : Proper p) (s : List Char) :
    splitSlash (s ++ p.flatMap (fun n => '/' :: n)) = splitSlash s ++ p := by
  induction p generalizing s with
  | nil => rw [flatMap_nil, append_nil, append_nil]
  | cons n p ih =>
    have hn := h n mem_cons_self
    have hrest : Proper p := fun m hm => h m (mem_cons_of_mem n hm)
    have hfront : s ++ (n :: p).flatMap (fun n => '/' :: n) =
        s ++ '/' :: n ++ p.flatMap (fun n => '/' :: n) := by
      rw [flatMap_cons, append_assoc]
    rw [hfront, ih hrest, splitSlash_append, splitSlash_plain n hn.2.2.2, append_assoc,
      singleton_append]

theorem splitSlash_render (hp : Proper p) (hne : p ≠ []) : splitSlash (render p) = [] :: p := by
  have hsplit := splitSlash_flatMap hp []
  rw [render, if_neg hne]
  exact hsplit

theorem foldl_walk_render (hp : Proper p) (q : Path) :
    (splitSlash (render p)).foldl walk q = q ++ p := by
  cases p with
  | nil => exact (append_nil q).symm
  | cons n p =>
    rw [splitSlash_render hp (cons_ne_nil n p), foldl_cons]
    exact foldl_walk_proper q hp

theorem comps_render (hp : Proper p) : comps (render p) = p := by
  rw [comps, foldl_walk_render hp, nil_append]

theorem render_injective (hp : Proper p) (hq : Proper q) (h : render p = render q) : p = q := by
  rw [← comps_render hp, h, comps_render hq]

theorem clean_of_abs {s : List Char} (h : isAbs s = true) : clean s = render (comps s) := if_pos h

theorem clean_render (hp : Proper p) : clean (render p) = render p := by
  rw [clean_of_abs (isAbs_render p), comps_render hp]

theorem render_ne_nil (p : Path) : render p ≠ [] := by
  intro h
  have habs := isAbs_render p
  rw [h] at habs
  exact Bool.false_ne_true habs

theorem isAbs_append (h : isAbs a = true) (b : List Char) : isAbs (a ++ b) = true := by
  cases a with
  | nil => nomatch h
  | cons c a => exact h

theorem comps_slash (a b : List Char) :
    comps (a ++ '/' :: b) = (splitSlash b).foldl walk (comps a) := by
  rw [comps, splitSlash_append, foldl_append]
  rfl

theorem comps_append_render (hp : Proper p) (hq : Proper q) :
    comps (render p ++ render q) = p ++ q := by
  rcases hr : render q with _ | ⟨c, s⟩
  · exact absurd hr (render_ne_nil q)
  have hc : c = '/' := by
    have habs := isAbs_render q
    rw [hr] at habs
    exact Option.some.inj (of_decide_eq_true habs)
  have hwalk := foldl_walk_render hq p
  rw [hr, hc, splitSlash_slash] at hwalk
  rw [hc, comps_slash, comps_render hp]
  exact hwalk

theorem joinTwo_of_abs (ha : isAbs a = true) (b : List Char) :
    joinTwo a b = render ((splitSlash b).foldl walk (comps a)) := by
  have hne : a ≠ [] := by
    rintro rfl
    exact Bool.false_ne_true ha
  rw [joinTwo, if_neg hne, clean_of_abs (isAbs_append ha _), comps_slash]

theorem render_snoc (p : Path) (n : Name) :
    render (p ++ [n]) = (if p = [] then [] else render p) ++ '/' :: n := by
  rcases p with _ | ⟨m, p⟩
  · exact append_nil _
  rw [if_neg (cons_ne_nil m p), cons_append, render_cons, render_cons,
    ← cons_append, flatMap_append]
  congr 1
  exact append_nil _

/-! ### Taking a name apart -/

theorem frontPart_append (a : List Char) {n : List Char} (h : '/' ∉ n) :
    frontPart (a ++ '/' :: n) = a ++ ['/'] := by
  have hdrop : (n.reverse ++ '/' :: a.reverse).dropWhile (fun c => decide (c ≠ '/')) =
      '/' :: a.reverse := by
    rw [dropWhile_append_of_pos, dropWhile_cons_of_neg]
    · exact fun hc => absurd (of_decide_eq_true hc) (not_not.mpr rfl)
    intro c hc
    rw [decide_eq_true_iff]
    rintro rfl
    exact h (mem_reverse.mp hc)
  rw [frontPart, reverse_append, reverse_cons, append_assoc, singleton_append, hdrop,
    reverse_cons, reverse_reverse]

theorem dir_render (h : Proper (p ++ [n])) : dir (render (p ++ [n])) = render p := by
  have hn : '/' ∉ n := (h n (mem_append_right p mem_cons_self)).2.2.2
  rw [dir, render_snoc, frontPart_append _ hn]
  rcases p with _ | ⟨m, p⟩
  · rfl
  rw [if_neg (cons_ne_nil m p), clean_of_abs (isAbs_append (isAbs_render _) _), comps,
    splitSlash_append, foldl_append, foldl_walk_render h.left, nil_append]
  rfl

theorem dir_root : dir (render []) = render [] := by decide

theorem plain_ne_dotdot (h : Plain n) : n ≠ dotdot := h.2.2.1

/-! ### Names as strings -/

theorem render_append_prefix (hp : Proper (p ++ [n])) (hq : Proper q)
    (h : render (p ++ [n]) <+: render q) : ∃ m r, q = p ++ (n ++ m) :: r := by
  rcases h with ⟨t, ht⟩
  have hsplit : splitSlash (render (p ++ [n])) = ([] :: p) ++ [n] :=
    splitSlash_render hp (concat_ne_nil n p)
  rcases hst : splitSlash t with _ | ⟨m, r⟩
  · exact absurd hst (splitSlash_ne_nil t)
  have hjoin := splitSlash_append_join hsplit hst
  rw [ht] at hjoin
  cases q with
  | nil =>
    -- The root has no component that could hold the last one.
    have hroot : splitSlash (render []) = [[], []] := rfl
    rw [hroot, cons_append, cons.injEq] at hjoin
    have hplain := hp n (mem_append_right p mem_cons_self)
    cases p with
    | nil =>
      rw [nil_append, cons.injEq] at hjoin
      exact absurd (append_eq_nil_iff.mp hjoin.2.1.symm).1 hplain.1
    | cons x p =>
      rw [cons_append, cons.injEq] at hjoin
      exact absurd hjoin.2.2.symm (append_ne_nil_of_right_ne_nil p (cons_ne_nil _ _))
  | cons x q =>
    rw [splitSlash_render hq (cons_ne_nil x q), cons_append, cons.injEq] at hjoin
    exact ⟨m, r, hjoin.2⟩

end PathName

end Lib
