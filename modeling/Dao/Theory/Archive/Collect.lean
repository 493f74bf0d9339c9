import Dao.Core.Archive.Collect
import Dao.Theory.Archive.Changes

/-!
# Trees of Directories

What the two collectors put into their trees, and that `Changes` gives the same for
both.

`Filled` says what a walk does to a tree: at the paths it is responsible for the tree
has what the directory has there, and elsewhere nothing changes. One call of a walk is
a node and a loop over names, and `Filled` composes over both.

The walk of Linux hides a path if a directory above it lists the same inode number for
it in both trees and the two directories are on one device. It looks at no device below
them, so at a mount point it compares the inodes that are covered.

## Theorems

* `collectWalk_filled`, `walk_filled`: What the two walks put into their trees.
* `listed_pruned`, `untouched_of_listed`: Hiding paths leaves the changes just if none
  of them is changed.
* `walker_changes`: When the two collectors give the same changes.
* `walker_mount`: A mount that the walk of Linux does not see.
-/

namespace Dao.Archive

open Lib FileTree FileSys Nat List

/-! ### Trees and walks -/

/-- A walk has changed a tree at some paths only, to what it found there. -/
structure Filled (t t' : FileInfo) (S : Path → Prop) (V : Path → Option Info) : Prop where
  distinct : t'.Distinct
  val : t'.val = t.val
  inside : ∀ q, S q → t'.data q = V q
  outside : ∀ q, ¬S q → t'.data q = t.data q

variable {t t' t'' : FileInfo} {S : Path → Prop} {V : Path → Option Info} {path p : Path} {n : Name}
  {x : Name × Nat} {names names1 names2 : List (Name × Nat)} {same : Bool} {dir : FileSys Inode}
  {w : Walker}

/-- The node of a walk, which has none at the root. -/
def Node (path q : Path) : Prop := q = path ∧ q ≠ []

/-- All that a walk is responsible for. -/
def Under (path q : Path) : Prop := path <+: q ∧ q ≠ []

/-- What the walks of some names are responsible for. -/
def Among (path : Path) (names : List Name) (q : Path) : Prop := ∃ m ∈ names, path ++ [m] <+: q

theorem under_of_among {names : List Name} {q : Path} (h : Among path names q) : Under path q := by
  rcases h with ⟨m, _, hq⟩
  refine ⟨(prefix_append path [m]).trans hq, ?_⟩
  rintro rfl
  exact concat_ne_nil m path (prefix_nil.mp hq)

theorem Filled.refl (ht : t.Distinct) (h : ∀ q, S q → t.data q = V q) : Filled t t S V :=
  ⟨ht, rfl, h, fun _ _ => rfl⟩

theorem Filled.trans {S S' : Path → Prop} (h : Filled t t' S V) (h' : Filled t' t'' S' V) :
    Filled t t'' (fun q => S q ∨ S' q) V where
  distinct := h'.distinct
  val := h'.val.trans h.val
  inside := by
    intro q hq
    by_cases hS' : S' q
    · exact h'.inside q hS'
    · rw [h'.outside q hS']
      exact h.inside q (hq.resolve_right hS')
  outside := by
    intro q hq
    rw [h'.outside q fun hS' => hq (.inr hS'), h.outside q (fun hS => hq (.inl hS))]

/-- The walk may be said to be responsible for more, if there is nothing to change. -/
theorem Filled.extend {S S' : Path → Prop} (h : Filled t t' S V) (hS : ∀ q, S q → S' q)
    (hS' : ∀ q, S' q → ¬S q → t.data q = V q) : Filled t t' S' V where
  distinct := h.distinct
  val := h.val
  inside := by
    intro q hq
    by_cases hSq : S q
    · exact h.inside q hSq
    · rw [h.outside q hSq]
      exact hS' q hq hSq
  outside := fun q hq => h.outside q fun hSq => hq (hS q hSq)

/-- A tree before the walk of a path: the parent is there and nothing below it. -/
structure Ready (t : FileInfo) (path : Path) (here : Prop) : Prop where
  distinct : t.Distinct
  parent : here → path ≠ [] → t.data path.dropLast ≠ none
  empty : ∀ q, path <+: q → q ≠ [] → t.data q = none

theorem register_filled {info : Info} (hready : Ready t path True) (hpath : path ≠ [])
    (hV : V path = some info) :
    ∃ t', register path info t = .ok t' ∧ Filled t t' (Node path) V := by
  rcases (eq_nil_or_concat' path).resolve_left hpath with ⟨p, n, rfl⟩
  have hfind : t.find p ≠ none := by
    intro hnone
    have hparent := hready.parent trivial hpath
    rw [dropLast_concat, Trie.data, hnone] at hparent
    exact hparent rfl
  rcases Trie.insert_of_find (k := n) (c := .node info []) hfind with ⟨t', ht'⟩
  refine ⟨t', ?_, ?_⟩
  · rw [register, getLast?_concat, dropLast_concat]
    simp [ht']
  have hleaf : (Trie.node info [] : FileInfo).Distinct :=
    Trie.distinct_node nodup_nil (by simp)
  refine ⟨Trie.distinct_insert hleaf hready.distinct ht', Trie.val_insert ht', ?_, ?_⟩
  · rintro q ⟨rfl, _⟩
    rw [Trie.data_insert ht', if_pos rfl, hV]
  intro q hq
  have hne : q ≠ p ++ [n] := fun heq => hq ⟨heq, heq ▸ hpath⟩
  rw [Trie.data_insert ht', if_neg hne]
  -- Nothing was below the place of the new leaf, which therefore hides nothing.
  by_cases hpre : p ++ [n] <+: q
  · have hqne : q ≠ [] := by
      rintro rfl
      exact hpath (prefix_nil.mp hpre)
    rw [if_pos hpre, hready.empty q hpre hqne]
  · rw [if_neg hpre]

theorem node_filled {here : Prop} {made : Except CollectErr FileInfo} (hready : Ready t path here)
    (h : path ≠ [] → ∃ t', made = .ok t' ∧ Filled t t' (Node path) V) :
    ∃ t', (if path = [] then pure t else made) = .ok t' ∧ Filled t t' (Node path) V := by
  by_cases hnil : path = []
  · rw [if_pos hnil]
    exact ⟨t, rfl, .refl hready.distinct fun q hq => absurd (hq.1.trans hnil) hq.2⟩
  · rw [if_neg hnil]
    exact h hnil

/-- What a node leaves for the walks of its children. -/
theorem ready_below {here : Prop} (hready : Ready t path here) (hV : here → V path ≠ none)
    (hfill : Filled t t' (Node path) V) :
    (∀ q, path <+: q → q ≠ path → t'.data q = none) ∧ (here → t'.data path ≠ none) := by
  constructor
  · intro q hq hne
    have hqne : q ≠ [] := by
      rintro rfl
      exact hne (prefix_nil.mp hq).symm
    rw [hfill.outside q fun h => hne h.1, hready.empty q hq hqne]
  · intro hhere
    by_cases hnil : path = []
    · rw [hnil, Trie.data_nil]
      exact nofun
    · rw [hfill.inside path ⟨rfl, hnil⟩]
      exact hV hhere

/-- The tree before the walk of a child, in the middle of the loop over the names. -/
theorem ready_child {done : List Name} {here : Prop} (hfill : Filled t t' (Among path done) V)
    (hempty : ∀ q, path <+: q → q ≠ path → t.data q = none) (hhere : here → t.data path ≠ none)
    (hn : n ∉ done) : Ready t' (path ++ [n]) here where
  distinct := hfill.distinct
  parent := by
    intro h _
    rw [dropLast_concat, hfill.outside path]
    · exact hhere h
    · rintro ⟨m, _, hm⟩
      exact not_prefix_of_longer (cons_ne_nil m []) hm
  empty := by
    intro q hq _
    rw [hfill.outside q]
    · refine hempty q ((prefix_append path [n]).trans hq) ?_
      rintro rfl
      exact not_prefix_of_longer (cons_ne_nil n []) hq
    · rintro ⟨m, hm, hmq⟩
      have hne : m ≠ n := fun heq => hn (heq ▸ hm)
      exact not_prefix_of_names hne hmq hq (prefix_refl q)

theorem Filled.snoc {done : List Name} (h : Filled t t' (Among path done) V)
    (h' : Filled t' t'' (Under (path ++ [n])) V) : Filled t t'' (Among path (done ++ [n])) V := by
  refine (h.trans h').extend ?_ ?_
  · rintro q (⟨m, hm, hq⟩ | ⟨hq, _⟩)
    · exact ⟨m, mem_append_left _ hm, hq⟩
    · exact ⟨n, mem_append_right done mem_cons_self, hq⟩
  · rintro q ⟨m, hm, hq⟩ hnot
    rcases mem_append.mp hm with hm | hm
    · exact absurd (.inl ⟨m, hm, hq⟩) hnot
    · have hne := (under_of_among ⟨m, hm, hq⟩).2
      exact absurd (.inr ⟨mem_singleton.mp hm ▸ hq, hne⟩) hnot

theorem Filled.node {names : List Name} (hready : ∀ q, path <+: q → q ≠ [] → t.data q = none)
    (h : Filled t t' (Node path) V) (h' : Filled t' t'' (Among path names) V)
    (hrest : ∀ n r, n ∉ names → V (path ++ n :: r) = none) : Filled t t'' (Under path) V := by
  refine (h.trans h').extend ?_ ?_
  · rintro q (⟨rfl, hne⟩ | hq)
    · exact ⟨prefix_refl q, hne⟩
    · exact under_of_among hq
  rintro q ⟨⟨r, rfl⟩, hne⟩ hnot
  rw [hready _ (prefix_append path r) hne]
  rcases r with _ | ⟨n, r⟩
  · exact absurd (.inl ⟨append_nil path, hne⟩) hnot
  refine (hrest n r fun hn => hnot (.inr ⟨n, hn, r, ?_⟩)).symm
  rw [append_assoc]
  rfl

theorem length_lt_depthBound {α : Type} {dir : FileSys α} {e : Entry α} (h : dir.look p = some e) :
    p.length < depthBound dir := by
  have hmem : p ∈ dir.entries.keys := by
    by_contra hnot
    simp [FileSys.look, AList.lookup_eq_none.mpr hnot] at h
  exact lt_succ_of_le (le_sum_of_mem (mem_map_of_mem hmem))

/-! ### One directory -/

/-- What a directory has at a path. -/
def viewAt {α : Type} (view : Entry α → Info) (dir : FileSys α) (p : Path) : Option Info :=
  (dir.look p).map view

theorem collectWalk_filled {α : Type} {view : Entry α → Info} {dir : FileSys α} (fuel : Nat)
    {e : Entry α} (he : dir.look path = some e) (hfuel : depthBound dir ≤ path.length + fuel)
    (hready : Ready t path True) :
    ∃ t', collectWalk view dir fuel path e t = .ok t' ∧
      Filled t t' (Under path) (viewAt view dir) := by
  induction fuel generalizing path e t with
  | zero => exact absurd (length_lt_depthBound he) (not_lt.mpr hfuel)
  | succ fuel ih =>
    have hV : viewAt view dir path = some (view e) := by rw [viewAt, he]; rfl
    rcases node_filled hready (fun hnil => register_filled hready hnil hV) with ⟨t1, ht1, hfill1⟩
    rcases ready_below hready (fun _ hnone => by simp [hV] at hnone) hfill1 with ⟨hempty, hhere⟩
    -- Only a directory has children.
    have hleaf : ¬e.kind = .dir → dir.children path = [] := by
      refine fun hdir => eq_nil_iff_forall_not_mem.mpr fun n hn => hdir ?_
      rcases Option.ne_none_iff_exists'.mp (mem_children.mp hn) with ⟨x, hx⟩
      rcases isDir_iff.mp (isDir_of_look hx) with ⟨a, ha⟩
      rw [he, Option.some.injEq] at ha
      rw [ha]
    rw [collectWalk, ht1]
    simp only [Except.bind, bind]
    rw [ite_eq_left_iff.mpr fun hdir => by rw [hleaf hdir]; rfl]
    refine (foldlM_ok (P := fun done t' => Filled t1 t' (Among path done) (viewAt view dir))
      (dir.children_nodup path) ?_ ?_).imp fun t2 h => ⟨h.1, .node hready.empty hfill1 h.2 ?_⟩
    · refine .refl hfill1.distinct ?_
      rintro q ⟨m, hm, _⟩
      cases hm
    · intro done n t' hmem hnew hfill
      rcases Option.ne_none_iff_exists'.mp (mem_children.mp hmem) with ⟨x, hx⟩
      simp only [hx]
      have hlen : depthBound dir ≤ (path ++ [n]).length + fuel := by
        rw [length_append, length_singleton]
        omega
      rcases ih hx hlen (ready_child hfill hempty hhere hnew) with ⟨t'', ht'', hfill''⟩
      exact ⟨t'', ht'', hfill.snoc hfill''⟩
    · intro n r hn
      have hnone : dir.look (path ++ [n]) = none := by
        by_contra hne
        exact hn (mem_children.mpr hne)
      have hbelow := look_append_of_none (q := r) hnone
      rw [append_assoc] at hbelow
      exact congrArg (Option.map view) hbelow

/-! ### Two listings -/

/-- The names of a listing are in order, each once. -/
def InOrder (names : List (Name × Nat)) : Prop :=
  names.Pairwise fun x y => nameLe x.1 y.1 = true ∧ x.1 ≠ y.1

theorem InOrder.head (h : InOrder (x :: names)) (hn : n ∈ names.map Prod.fst) :
    nameLe x.1 n = true ∧ x.1 ≠ n := by
  rcases mem_map.mp hn with ⟨y, hy, rfl⟩
  exact (pairwise_cons.mp h).1 y hy

theorem InOrder.tail (h : InOrder (x :: names)) : InOrder names := (pairwise_cons.mp h).2

theorem not_mem_of_before (h : InOrder (x :: names)) (hle : nameLe n x.1 = true) (hne : n ≠ x.1) :
    n ∉ (x :: names).map Prod.fst := by
  rw [map_cons, mem_cons, not_or]
  refine ⟨hne, fun hn => ?_⟩
  have hhead := h.head hn
  exact hhead.2 (nameLe_antisymm hhead.1 hle)

/-- A name is in both listings with one inode. -/
def InBoth (names1 names2 : List (Name × Nat)) (n : Name) : Prop :=
  ∃ ino, (n, ino) ∈ names1 ∧ (n, ino) ∈ names2

theorem InBoth.left (h : InBoth names1 names2 n) : n ∈ names1.map Prod.fst := by
  rcases h with ⟨ino, h, _⟩
  exact mem_map_of_mem (f := Prod.fst) h

theorem InBoth.right (h : InBoth names1 names2 n) : n ∈ names2.map Prod.fst := by
  rcases h with ⟨ino, _, h⟩
  exact mem_map_of_mem (f := Prod.fst) h

theorem mem_cons_of_ne (h : n ≠ x.1) (ino : Nat) : (n, ino) ∈ x :: names ↔ (n, ino) ∈ names := by
  rw [mem_cons]
  refine or_iff_right fun heq => h ?_
  rw [← heq]

/-- The names the walk goes to: those in either listing, without those it prunes. -/
def Wanted (same : Bool) (names1 names2 : List (Name × Nat)) (n : Name) : Prop :=
  (n ∈ names1.map Prod.fst ∨ n ∈ names2.map Prod.fst) ∧ ¬(same = true ∧ InBoth names1 names2 n)

theorem wanted_left (h : n ≠ x.1) : Wanted same (x :: names1) names2 n ↔
    Wanted same names1 names2 n := by
  rw [Wanted, Wanted, map_cons, mem_cons, or_iff_right h, InBoth, InBoth]
  simp [mem_cons_of_ne h]

theorem wanted_comm : Wanted same names1 names2 n ↔ Wanted same names2 names1 n := by
  simp only [Wanted, InBoth, and_comm, or_comm]

theorem wanted_head {a b : Name × Nat} {l1 l2 : List (Name × Nat)} (h1 : InOrder (a :: l1))
    (h2 : InOrder (b :: l2)) (hab : a.1 = b.1) :
    Wanted same (a :: l1) (b :: l2) a.1 ↔ a.2 ≠ b.2 ∨ same = false := by
  have hboth : InBoth (a :: l1) (b :: l2) a.1 ↔ a.2 = b.2 := by
    constructor
    · rintro ⟨ino, ha, hb⟩
      have hla : (a.1, ino) ∉ l1 :=
        fun hmem => (h1.head (mem_map_of_mem (f := Prod.fst) hmem)).2 rfl
      have hlb : (a.1, ino) ∉ l2 := fun hmem =>
        (h2.head (mem_map_of_mem (f := Prod.fst) hmem)).2 hab.symm
      rw [← (mem_cons.mp ha).resolve_right hla, ← (mem_cons.mp hb).resolve_right hlb]
    · intro hino
      refine ⟨a.2, mem_cons_self, ?_⟩
      have heq : (a.1, a.2) = b := Prod.ext hab hino
      rw [heq]
      exact mem_cons_self
  rw [Wanted, hboth, not_and_or, Bool.not_eq_true, Or.comm (b := ¬_)]
  exact and_iff_right (.inl mem_cons_self)

theorem merged_cons {merged : List Name} (h : InOrder (x :: names1))
    (hbefore : x.1 ∉ names2.map Prod.fst)
    (hmerged : (∀ n, n ∈ merged ↔ Wanted same names1 names2 n) ∧ merged.Nodup) :
    (∀ n, n ∈ x.1 :: merged ↔ Wanted same (x :: names1) names2 n) ∧ (x.1 :: merged).Nodup := by
  refine ⟨fun n => ?_, nodup_cons.mpr ⟨fun hmem => ?_, hmerged.2⟩⟩
  · rw [mem_cons, hmerged.1]
    by_cases hn : n = x.1
    · rw [hn]
      exact iff_of_true (.inl rfl) ⟨.inl mem_cons_self, fun hboth => hbefore hboth.2.right⟩
    · rw [wanted_left hn, or_iff_right hn]
  · rcases ((hmerged.1 x.1).mp hmem).1 with hmem | hmem
    · exact (h.head hmem).2 rfl
    · exact hbefore hmem

/-- The merged names are those the walk goes to, each once. -/
theorem mergeNames_spec {fuel : Nat} (h1 : InOrder names1) (h2 : InOrder names2)
    (hfuel : names1.length + names2.length < fuel) :
    (∀ n, n ∈ mergeNames same fuel names1 names2 ↔ Wanted same names1 names2 n) ∧
      (mergeNames same fuel names1 names2).Nodup := by
  have hnames : ∀ {names : List (Name × Nat)}, InOrder names → (names.map Prod.fst).Nodup := by
    intro names h
    rw [Nodup, pairwise_map]
    exact h.imp fun h => h.2
  induction fuel generalizing names1 names2 with
  | zero => nomatch hfuel
  | succ fuel ih =>
    rcases names1 with _ | ⟨a, l1⟩
    · refine ⟨fun n => ⟨fun h => ?_, fun h => h.1.resolve_left not_mem_nil⟩, hnames h2⟩
      exact ⟨.inr h, fun hboth => nomatch hboth.2.left⟩
    rcases names2 with _ | ⟨b, l2⟩
    · refine ⟨fun n => ⟨fun h => ?_, fun h => h.1.resolve_right not_mem_nil⟩, hnames h1⟩
      exact ⟨.inl h, fun hboth => nomatch hboth.2.right⟩
    rw [length_cons, length_cons] at hfuel
    rw [mergeNames]
    -- A name of both listings is left out if the walk may take the inodes for the same.
    by_cases hab : a.1 = b.1
    · rcases ih h1.tail h2.tail (by omega) with ⟨hrest, hnodup⟩
      have hfresh : a.1 ∉ mergeNames same fuel l1 l2 := by
        intro hmem
        rcases ((hrest a.1).mp hmem).1 with hmem | hmem
        · exact (h1.head hmem).2 rfl
        · exact (h2.head hmem).2 hab.symm
      have hother : ∀ n, n ≠ a.1 → (n ∈ mergeNames same fuel l1 l2 ↔
          Wanted same (a :: l1) (b :: l2) n) := by
        intro n hn
        rw [wanted_left hn, wanted_comm, wanted_left (hab ▸ hn), wanted_comm, hrest]
      rw [if_pos hab]
      by_cases hkeep : a.2 ≠ b.2 ∨ same = false
      · rw [if_pos hkeep]
        refine ⟨fun n => ?_, nodup_cons.mpr ⟨hfresh, hnodup⟩⟩
        by_cases hn : n = a.1
        · rw [hn, wanted_head h1 h2 hab]
          exact iff_of_true mem_cons_self hkeep
        · rw [mem_cons, or_iff_right hn, hother n hn]
      · rw [if_neg hkeep]
        refine ⟨fun n => ?_, hnodup⟩
        by_cases hn : n = a.1
        · rw [hn, wanted_head h1 h2 hab]
          exact iff_of_false hfresh hkeep
        · exact hother n hn
    · rw [if_neg hab]
      by_cases hle : nameLe a.1 b.1 = true
      · rw [if_pos hle]
        exact merged_cons h1 (not_mem_of_before h2 hle hab)
          (ih h1.tail h2 (by rw [length_cons]; omega))
      have hbefore := not_mem_of_before h1 ((nameLe_total a.1 b.1).resolve_left hle) (Ne.symm hab)
      rw [if_neg hle]
      have hrest := ih h1 h2.tail (by rw [length_cons]; omega)
      refine (merged_cons h2 hbefore ⟨fun n => (hrest.1 n).trans wanted_comm, hrest.2⟩).imp_left ?_
      exact fun h n => (h n).trans wanted_comm

theorem readdirnames_inOrder (dir : FileSys Inode) (path : Path) :
    InOrder (readdirnames dir path) := by
  rw [InOrder, readdirnames, pairwise_map]
  exact dir.children_sorted path

theorem mem_readdirnames {ino : Nat} :
    (n, ino) ∈ readdirnames dir path ↔ ∃ e, dir.look (path ++ [n]) = some e ∧
      e.attr.listed = ino := by
  rw [readdirnames, mem_map]
  constructor
  · rintro ⟨m, hm, heq⟩
    rw [Prod.mk.injEq] at heq
    rcases Option.ne_none_iff_exists'.mp (mem_children.mp hm) with ⟨e, he⟩
    rw [he] at heq
    exact ⟨e, heq.1 ▸ he, heq.2⟩
  · rintro ⟨e, he, rfl⟩
    refine ⟨n, mem_children.mpr ?_, ?_⟩
    · rw [he]
      exact nofun
    · rw [he]
      rfl

/-! ### Two directories at once -/

/-- The walk of a directory leaves a name out. -/
def Skipped (w : Walker) (q : Path) (n : Name) : Prop :=
  sameDevice (w.dir1.look q) (w.dir2.look q) = true ∧
    ∃ a b, w.dir1.look (q ++ [n]) = some a ∧ w.dir2.look (q ++ [n]) = some b ∧
      a.attr.listed = b.attr.listed

/-- A name on the way to the path is left out. -/
def Hidden (w : Walker) (p : Path) : Prop := ∃ q n, q ++ [n] <+: p ∧ Skipped w q n

theorem Hidden.append (h : Hidden w p) (r : Path) : Hidden w (p ++ r) := by
  rcases h with ⟨q, n, hpre, hskip⟩
  exact ⟨q, n, hpre.trans (prefix_append p r), hskip⟩

theorem hidden_concat (h : Hidden w (p ++ [n])) : Hidden w p ∨ Skipped w p n := by
  rcases h with ⟨q, m, hpre, hskip⟩
  rcases prefix_concat_iff.mp hpre with heq | hpre
  · rcases append_inj' heq rfl with ⟨rfl, hm⟩
    rw [(cons.inj hm).1] at hskip
    exact .inr hskip
  · exact .inl ⟨q, m, hpre, hskip⟩

theorem Hidden.ne_nil (h : Hidden w p) : p ≠ [] := by
  rcases h with ⟨q, n, hpre, _⟩
  rintro rfl
  exact concat_ne_nil n q (prefix_nil.mp hpre)

open Classical in
/-- What the walk sees of one of its directories. -/
noncomputable def seen (w : Walker) (dir : FileSys Inode) (p : Path) : Option Info :=
  if Hidden w p then none else viewAt infoOf dir p

theorem seen_of_hidden (h : Hidden w p) : seen w dir p = none :=
  if_pos h

theorem seen_of_not_hidden (h : ¬Hidden w p) : seen w dir p = viewAt infoOf dir p := if_neg h

theorem seen_of_look_none (h : dir.look p = none) (r : Path) : seen w dir (p ++ r) = none := by
  by_cases hhid : Hidden w (p ++ r)
  · exact seen_of_hidden hhid
  · rw [seen_of_not_hidden hhid, viewAt, look_append_of_none h]
    rfl

theorem chunk_filled (hready : Ready t path (dir.look path ≠ none)) (hshown : ¬Hidden w path) :
    ∃ t', (if path = [] then pure t
      else walkchunk path (dir.look path) t : Except CollectErr FileInfo) =
      .ok t' ∧ Filled t t' (Node path) (seen w dir) := by
  refine node_filled hready fun hnil => ?_
  have hseen : seen w dir path = (dir.look path).map infoOf := seen_of_not_hidden hshown
  cases hlook : dir.look path with
  | none =>
    refine ⟨t, rfl, .refl hready.distinct fun q hq => ?_⟩
    rw [hq.1, hready.empty path (prefix_refl path) hnil, hseen, hlook]
    rfl
  | some e =>
    have hhere : dir.look path ≠ none := by
      rw [hlook]
      exact nofun
    refine register_filled ⟨hready.distinct, fun _ => hready.parent hhere, hready.empty⟩ hnil ?_
    rw [hseen, hlook]
    rfl

theorem isDirEntry_look (dir : FileSys Inode) (path : Path) :
    isDirEntry (dir.look path) = dir.isDir path := rfl

theorem readdirnames_of_not_dir (h : dir.isDir path = false) : readdirnames dir path = [] := by
  refine eq_nil_iff_forall_not_mem.mpr fun x hx => ?_
  rcases mem_readdirnames.mp hx with ⟨e, he, _⟩
  simp [isDir_of_look he] at h

/-- The names the walk of a directory goes to. -/
def walkNames (w : Walker) (path : Path) : List Name :=
  mergeNames (sameDevice (w.dir1.look path) (w.dir2.look path))
    ((readdirnames w.dir1 path).length + (readdirnames w.dir2 path).length + 1)
    (readdirnames w.dir1 path) (readdirnames w.dir2 path)

theorem walkNames_spec (w : Walker) (path : Path) :
    (∀ n, n ∈ walkNames w path ↔ Wanted (sameDevice (w.dir1.look path) (w.dir2.look path))
      (readdirnames w.dir1 path) (readdirnames w.dir2 path) n) ∧ (walkNames w path).Nodup :=
  mergeNames_spec (readdirnames_inOrder w.dir1 path) (readdirnames_inOrder w.dir2 path)
    (lt_succ_self _)

/-- One call, as the two nodes and the loop over the names. -/
theorem walk_succ (w : Walker) (fuel : Nat) (path : Path) (t1 t2 t1' t2' : FileInfo)
    (h1 : (if path = [] then pure t1
      else walkchunk path (w.dir1.look path) t1 : Except CollectErr FileInfo) =
      .ok t1')
    (h2 : (if path = [] then pure t2
      else walkchunk path (w.dir2.look path) t2 : Except CollectErr FileInfo) =
      .ok t2') :
    w.walk (fuel + 1) path (w.dir1.look path) (w.dir2.look path) (t1, t2) =
      (walkNames w path).foldlM (fun roots name =>
          w.walk fuel (path ++ [name]) (w.dir1.look (path ++ [name]))
          (w.dir2.look (path ++ [name])) roots)
        (t1', t2') := by
  -- What is no directory has no names and no children, so the tests may go.
  have hnames : ∀ dir : FileSys Inode,
      (if isDirEntry (dir.look path) = true then readdirnames dir path else []) =
        readdirnames dir path := by
    intro dir
    cases hdir : dir.isDir path with
    | true => rw [isDirEntry_look, hdir, if_pos rfl]
    | false => rw [isDirEntry_look, hdir, if_neg Bool.false_ne_true, readdirnames_of_not_dir hdir]
  have hchild : ∀ (dir : FileSys Inode) (n : Name),
      (if isDirEntry (dir.look path) = true then dir.look (path ++ [n]) else none) =
        dir.look (path ++ [n]) := by
    intro dir n
    cases hlook : dir.look (path ++ [n]) with
    | none => exact ite_self _
    | some e => rw [isDirEntry_look, isDir_of_look hlook, if_pos rfl]
  rw [Walker.walk, h1, h2]
  simp only [bind, Except.bind, hnames, hchild]
  by_cases hleaf : isDirEntry (w.dir1.look path) = false ∧ isDirEntry (w.dir2.look path) = false
  · rw [if_pos hleaf, walkNames, readdirnames_of_not_dir hleaf.1, readdirnames_of_not_dir hleaf.2]
    rfl
  · rw [if_neg hleaf]
    rfl

theorem skipped_iff : Skipped w path n ↔ sameDevice (w.dir1.look path) (w.dir2.look path) = true ∧
      InBoth (readdirnames w.dir1 path) (readdirnames w.dir2 path) n := by
  refine and_congr_right fun _ => ?_
  constructor
  · rintro ⟨a, b, ha, hb, hino⟩
    exact ⟨a.attr.listed, mem_readdirnames.mpr ⟨a, ha, rfl⟩,
      mem_readdirnames.mpr ⟨b, hb, hino.symm⟩⟩
  rintro ⟨ino, h1, h2⟩
  rcases mem_readdirnames.mp h1 with ⟨a, ha, rfl⟩
  rcases mem_readdirnames.mp h2 with ⟨b, hb, hino⟩
  exact ⟨a, b, ha, hb, hino.symm⟩

theorem mem_names_readdirnames :
    n ∈ (readdirnames dir path).map Prod.fst ↔ dir.look (path ++ [n]) ≠ none := by
  rw [← mem_children, readdirnames, map_map]
  exact (mem_map.trans ⟨fun ⟨m, hm, heq⟩ => heq ▸ hm, fun h => ⟨n, h, rfl⟩⟩)

theorem mem_walkNames : n ∈ walkNames w path ↔
      (w.dir1.look (path ++ [n]) ≠ none ∨ w.dir2.look (path ++ [n]) ≠ none) ∧
        ¬Skipped w path n := by
  rw [(walkNames_spec w path).1, Wanted, ← skipped_iff, mem_names_readdirnames,
    mem_names_readdirnames]

/-- Nothing is seen below a name the walk does not go to. -/
theorem seen_unwanted (h : n ∉ walkNames w path) (r : Path) :
    seen w w.dir1 (path ++ n :: r) = none ∧ seen w w.dir2 (path ++ n :: r) = none := by
  have hcons : path ++ n :: r = path ++ [n] ++ r := by
    rw [append_assoc]
    rfl
  rw [mem_walkNames, not_and_or, not_not, not_or, not_not, not_not] at h
  rw [hcons]
  rcases h with ⟨h1, h2⟩ | hskip
  · exact ⟨seen_of_look_none h1 r, seen_of_look_none h2 r⟩
  · have hhid : Hidden w (path ++ [n] ++ r) := ⟨path, n, prefix_append _ r, hskip⟩
    exact ⟨seen_of_hidden hhid, seen_of_hidden hhid⟩

theorem walk_filled (w : Walker) (fuel : Nat) {t1 t2 : FileInfo}
    (hfuel1 : depthBound w.dir1 ≤ path.length + fuel)
    (hfuel2 : depthBound w.dir2 ≤ path.length + fuel) (hshown : ¬Hidden w path)
    (hready1 : Ready t1 path (w.dir1.look path ≠ none))
    (hready2 : Ready t2 path (w.dir2.look path ≠ none)) :
    ∃ ts, w.walk fuel path (w.dir1.look path) (w.dir2.look path) (t1, t2) = .ok ts ∧
      Filled t1 ts.1 (Under path) (seen w w.dir1) ∧
      Filled t2 ts.2 (Under path) (seen w w.dir2) := by
  induction fuel generalizing path t1 t2 with
  | zero =>
    -- Without fuel the walk is deeper than every entry, where nothing is to be filled in.
    have hgone : ∀ {dir : FileSys Inode} {t : FileInfo}, depthBound dir ≤ path.length + 0 →
        Ready t path (dir.look path ≠ none) → Filled t t (Under path) (seen w dir) := by
      intro dir t hlen hready
      have hnone : dir.look path = none := by
        cases hlook : dir.look path with
        | none => rfl
        | some e => exact absurd (length_lt_depthBound hlook) (not_lt.mpr hlen)
      refine .refl hready.distinct ?_
      rintro q ⟨⟨r, rfl⟩, hne⟩
      rw [hready.empty _ (prefix_append path r) hne, seen_of_look_none hnone]
    exact ⟨(t1, t2), rfl, hgone hfuel1 hready1, hgone hfuel2 hready2⟩
  | succ fuel ih =>
    have hseen : ∀ {dir : FileSys Inode}, dir.look path ≠ none → seen w dir path ≠ none := by
      intro dir hne
      rwa [seen_of_not_hidden hshown, viewAt, ne_eq, Option.map_eq_none_iff]
    rcases chunk_filled hready1 hshown with ⟨t1', hchunk1, hfill1⟩
    rcases chunk_filled hready2 hshown with ⟨t2', hchunk2, hfill2⟩
    rcases ready_below hready1 hseen hfill1 with ⟨hempty1, hhere1⟩
    rcases ready_below hready2 hseen hfill2 with ⟨hempty2, hhere2⟩
    rw [walk_succ w fuel path t1 t2 t1' t2' hchunk1 hchunk2]
    -- The loop over the names keeps that the trees hold what was seen below those it has done.
    have hloop := foldlM_ok (l := walkNames w path) (s := (t1', t2')) (f := fun roots name =>
        w.walk fuel (path ++ [name]) (w.dir1.look (path ++ [name])) (w.dir2.look (path ++ [name]))
          roots)
      (P := fun done ts => Filled t1' ts.1 (Among path done) (seen w w.dir1) ∧
        Filled t2' ts.2 (Among path done) (seen w w.dir2))
      (walkNames_spec w path).2
      ⟨.refl hfill1.distinct (fun q ⟨m, hm, _⟩ => nomatch hm),
        .refl hfill2.distinct (fun q ⟨m, hm, _⟩ => nomatch hm)⟩ (by
        rintro done n ⟨u1, u2⟩ hmem hnew ⟨hu1, hu2⟩
        have hchild : ¬Hidden w (path ++ [n]) := fun hhid =>
          (hidden_concat hhid).elim hshown (mem_walkNames.mp hmem).2
        have hlen : (path ++ [n]).length + fuel = path.length + (fuel + 1) := by
          rw [length_append, length_singleton]
          omega
        have hparent : ∀ {dir : FileSys Inode}, dir.look (path ++ [n]) ≠ none →
          dir.look path ≠ none := by
          intro dir hne hnone
          exact hne (look_append_of_none hnone)
        rcases ih (hlen ▸ hfuel1) (hlen ▸ hfuel2) hchild
          (ready_child hu1 hempty1 (fun h => hhere1 (hparent h)) hnew)
          (ready_child hu2 hempty2 (fun h => hhere2 (hparent h)) hnew) with ⟨us, hus, hus1, hus2⟩
        exact ⟨us, hus, hu1.snoc hus1, hu2.snoc hus2⟩)
    rcases hloop with ⟨ts, hts, hts1, hts2⟩
    exact ⟨ts, hts, .node hready1.empty hfill1 hts1 fun n r hn => (seen_unwanted hn r).1,
      .node hready2.empty hfill2 hts2 fun n r hn => (seen_unwanted hn r).2⟩

/-! ### The trees -/

theorem ready_newRoot (here : Prop) : Ready newRootFileInfo [] here where
  distinct := Trie.distinct_node nodup_nil nofun
  parent := fun _ hne => absurd rfl hne
  empty := by
    intro q _ hne
    cases q with
    | nil => exact absurd rfl hne
    | cons a q => rfl

/-- The lower bits do not reach the type. -/
theorem and_sIfMt (kind : Kind) (perm : Nat) :
    (typeBits kind ||| perm % 0o10000) &&& sIfMt = typeBits kind := by
  have hperm : perm % 0o10000 &&& sIfMt = 0 := by
    refine eq_of_testBit_eq fun i => ?_
    rw [testBit_and, zero_testBit]
    -- The mask has no bit below the twelfth, and the permissions none from it on.
    by_cases hi : i < 12
    · have hbit : sIfMt.testBit i = false := by
        have hmul : sIfMt = 2 ^ 12 * 15 := rfl
        rw [hmul, testBit_two_pow_mul, decide_eq_false (not_le.mpr hi), Bool.false_and]
      rw [hbit, Bool.and_false]
    · have hlt : perm % 0o10000 < 2 ^ i :=
        lt_of_lt_of_le (mod_lt perm (by decide : 0 < 0o10000))
          (Nat.pow_le_pow_right (by decide : 0 < 2) (Nat.not_lt.mp hi))
      rw [testBit_lt_two_pow hlt, Bool.false_and]
  rw [and_or_distrib_right, hperm, or_zero]
  cases kind with
  | dir => exact (by decide : sIfDir &&& sIfMt = sIfDir)
  | file => exact (by decide : sIfReg &&& sIfMt = sIfReg)
  | symlink => exact (by decide : sIfLnk &&& sIfMt = sIfLnk)
  | special type =>
    cases type with
    | block => exact (by decide : sIfBlk &&& sIfMt = sIfBlk)
    | char => exact (by decide : sIfChr &&& sIfMt = sIfChr)
    | fifo => exact (by decide : sIfIfo &&& sIfMt = sIfIfo)
    | socket => exact (by decide : sIfSock &&& sIfMt = sIfSock)

theorem isDirectory_infoOf {e : Entry Inode} (h : e.kind = .dir) : (infoOf e).IsDirectory := by
  rw [Info.IsDirectory, infoOf, and_sIfMt, h]
  rfl

/-- A tree that has only what a directory has is one as it is built. -/
def builtOf (dir : FileSys Inode) (t : FileInfo) (V : Path → Option Info)
    (hfill : Filled newRootFileInfo t (fun q => [] <+: q ∧ q ≠ []) V)
    (hV : ∀ p i, V p = some i → ∃ e, dir.look p = some e ∧ i = infoOf e) : BuiltTree where
  root := t
  top := hfill.val
  distinct := hfill.distinct
  dirs := by
    intro p x hx hne
    by_cases hnil : p = []
    · rw [hnil] at hx
      rw [← Option.some.inj hx, hfill.val]
      decide
    rcases exists_mem_of_ne_nil _ hne with ⟨⟨a, c⟩, hc⟩
    have hchild := Trie.child_of_mem (hfill.distinct p x hx) hc
    have hdata : t.data (p ++ [a]) = some c.val := by
      rw [Trie.data, Trie.find_append, hx]
      simp [Trie.find, hchild]
    rw [hfill.inside _ ⟨List.nil_prefix, append_ne_nil_of_left_ne_nil hnil [a]⟩] at hdata
    rcases hV _ _ hdata with ⟨e, he, _⟩
    have hval : t.data p = some x.val := by
      rw [Trie.data, hx]
      rfl
    rw [hfill.inside p ⟨List.nil_prefix, hnil⟩] at hval
    rcases hV _ _ hval with ⟨e', he', hinfo⟩
    rcases isDir_iff.mp (isDir_of_look he) with ⟨attr, hattr⟩
    rw [he'] at hattr
    cases hattr
    rw [hinfo]
    exact isDirectory_infoOf (rfl)

section Pruned

variable {o n o' n' : Path → Option Info} {H : Path → Prop} {k : ChangeType}

/-- A change is told by what is at the path and above it. -/
theorem touched_congr {p : Path} (hagree : ∀ q, q <+: p → o' q = o q ∧ n' q = n q)
    (h : Touched o n p k) : Touched o' n' p k := by
  rcases hagree p (prefix_refl p) with ⟨hop, hnp⟩
  cases h with
  | add hn ho => exact .add (hnp.symm ▸ hn) (hop.symm ▸ ho)
  | @delete q m y ho hn hdir hbit =>
    exact .delete (hop.symm ▸ ho) (hnp.symm ▸ hn) ((hagree q (prefix_append q [m])).2.symm ▸ hdir)
      hbit
  | modify ho hn hdiff => exact .modify (hop.symm ▸ ho) (hnp.symm ▸ hn) hdiff

variable (happend : ∀ p r, H p → H (p ++ r)) (hshown : ∀ p, ¬H p → o' p = o p ∧ n' p = n p)
  (hgone : ∀ p, H p → o' p = none ∧ n' p = none)
include happend hshown hgone

/-- Leaving out paths where two trees are the same leaves the changes. -/
theorem touched_pruned {p : Path} : Touched o' n' p k ↔ Touched o n p k ∧ ¬H p := by
  have habove : ¬H p → ∀ q, q <+: p → o' q = o q ∧ n' q = n q := by
    rintro hp q ⟨r, rfl⟩
    exact hshown q fun hq => hp (happend q r hq)
  constructor
  · intro h
    have hp : ¬H p := by
      intro hH
      cases h with
      | add hn ho => exact hn (hgone p hH).2
      | delete ho => exact ho (hgone _ hH).1
      | modify ho =>
        simp [(hgone p hH).1] at ho
    exact ⟨touched_congr (fun q hq => (habove hp q hq).imp Eq.symm Eq.symm) h, hp⟩
  · rintro ⟨h, hp⟩
    exact touched_congr (habove hp) h

theorem listed_pruned (hsame : ∀ p k, H p → ¬Touched o n p k) {p : Path} :
    Listed o' n' p k ↔ Listed o n p k := by
  have htouched : ∀ {q k}, Touched o' n' q k ↔ Touched o n q k := fun {q k} =>
    (touched_pruned happend hshown hgone).trans
      (and_iff_left_of_imp fun h hq => hsame q k hq h)
  rw [Listed, Listed, htouched]
  refine or_congr_right (and_congr_right fun _ => ?_)
  simp only [htouched]
  by_cases hp : H p
  · refine iff_of_false (fun h => h.1 (hgone p hp).1) ?_
    rintro ⟨_, _, q, k', _, hq⟩
    exact hsame _ k' (happend p q hp) hq
  · rw [(hshown p hp).1, (hshown p hp).2]

/-- A change at a path that is left out is not listed. -/
theorem untouched_of_listed {p : Path} (hp : H p)
    (hlisted : Listed o n p k → Listed o' n' p k) : ¬Touched o n p k := by
  intro htouched
  rcases hlisted (.inl htouched) with h | ⟨_, ho, _⟩
  · exact ((touched_pruned happend hshown hgone).mp h).2 hp
  · exact ho (hgone p hp).1

end Pruned

/-- The two directories have one file at a path. -/
def SameInode (dir1 dir2 : FileSys Inode) (p : Path) : Prop :=
  ∃ x y, dir1.look p = some x ∧ dir2.look p = some y ∧ x.attr.dev = y.attr.dev ∧
    x.attr.ino = y.attr.ino

theorem collectFileInfo_filled (dir : FileSys Inode) : ∃ t, collectFileInfo infoOf dir = .ok t ∧
      Filled newRootFileInfo t (Under []) (viewAt infoOf dir) := by
  rcases dir.look_nil with ⟨a, ha⟩
  rw [collectFileInfo, ha]
  exact collectWalk_filled (depthBound dir) ha (by rw [length_nil, zero_add]) (ready_newRoot True)

theorem collectFileInfoForChanges_filled (dir1 dir2 : FileSys Inode) :
    ∃ ts, collectFileInfoForChanges dir1 dir2 = .ok ts ∧
      Filled newRootFileInfo ts.1 (Under []) (seen ⟨dir1, dir2⟩ dir1) ∧
      Filled newRootFileInfo ts.2 (Under []) (seen ⟨dir1, dir2⟩ dir2) :=
  walk_filled ⟨dir1, dir2⟩ (depthBound dir1 + depthBound dir2)
    (by rw [length_nil, zero_add]; exact le_add_right _ _)
    (by rw [length_nil, zero_add]; exact le_add_left _ _) (fun h => h.ne_nil rfl)
    (ready_newRoot _) (ready_newRoot _)

theorem viewAt_eq_some {dir : FileSys Inode} {p : Path} {i : Info}
    (h : viewAt infoOf dir p = some i) :
    ∃ e, dir.look p = some e ∧ i = infoOf e := by
  rcases Option.map_eq_some_iff.mp h with ⟨e, he, rfl⟩
  exact ⟨e, he, rfl⟩

theorem seen_eq_some {w : Walker} {dir : FileSys Inode} {p : Path} {i : Info}
    (h : seen w dir p = some i) :
    ∃ e, dir.look p = some e ∧ i = infoOf e := by
  by_cases hhid : Hidden w p
  · simp [seen_of_hidden hhid] at h
  · rw [seen_of_not_hidden hhid] at h
    exact viewAt_eq_some h

theorem Filled.data_eq {t : FileInfo} {V : Path → Option Info}
    (h : Filled newRootFileInfo t (Under []) V) (q : Path) :
    t.data q = if q = [] then some .root else V q := by
  by_cases hq : q = []
  · rw [if_pos hq, h.outside q fun hne => hne.2 hq, hq]
    rfl
  · rw [if_neg hq, h.inside q ⟨ nil_prefix, hq⟩]

theorem changes_nodup (old new : BuiltTree) : (changes new.root old.root).Nodup :=
  (changes_ordered old new).nodup.of_map

/-- What the complete tree of a directory holds. -/
def treeView (dir : FileSys Inode) (p : Path) : Option Info :=
  if p = [] then some .root else viewAt infoOf dir p

/-- The walk of Linux finds the changes that the walks over each directory find, in
    whatever order the children of a node are gone through, just if there is no change
    at or below a name that it leaves out. -/
theorem walker_changes (dir1 dir2 : FileSys Inode) :
    ∃ old new old' new' : BuiltTree,
      collectFileInfoForChanges dir1 dir2 = .ok (old.root, new.root) ∧
      collectFileInfo infoOf dir1 = .ok old'.root ∧ collectFileInfo infoOf dir2 = .ok new'.root ∧
      ((∀ o n o' n' : BuiltTree, o.root.data = old.root.data → n.root.data = new.root.data →
        o'.root.data = old'.root.data → n'.root.data = new'.root.data →
        (changes n.root o.root).Perm (changes n'.root o'.root)) ↔
      ∀ q m, Skipped ⟨dir1, dir2⟩ q m → ∀ r k,
        ¬Touched (treeView dir1) (treeView dir2) (q ++ [m] ++ r) k) := by
  rcases collectFileInfoForChanges_filled dir1 dir2 with ⟨⟨t1, t2⟩, hts, hfill1, hfill2⟩
  rcases collectFileInfo_filled dir1 with ⟨t1', ht1', hfill1'⟩
  rcases collectFileInfo_filled dir2 with ⟨t2', ht2', hfill2'⟩
  refine ⟨builtOf dir1 t1 _ hfill1 fun p i => seen_eq_some,
    builtOf dir2 t2 _ hfill2 fun p i => seen_eq_some,
    builtOf dir1 t1' _ hfill1' fun p i => viewAt_eq_some,
    builtOf dir2 t2' _ hfill2' fun p i => viewAt_eq_some, hts, ht1', ht2', ?_⟩
  have hdata1 : t1'.data = treeView dir1 := funext hfill1'.data_eq
  have hdata2 : t2'.data = treeView dir2 := funext hfill2'.data_eq
  have happend : ∀ p r, Hidden ⟨dir1, dir2⟩ p → Hidden ⟨dir1, dir2⟩ (p ++ r) :=
    fun p r h => h.append r
  -- The trees of the walk are those of the directories, cut off where it does not go.
  have hshown : ∀ p, ¬Hidden ⟨dir1, dir2⟩ p →
      t1.data p = treeView dir1 p ∧ t2.data p = treeView dir2 p := by
    intro p hp
    exact ⟨by rw [hfill1.data_eq, treeView, seen_of_not_hidden hp],
      by rw [hfill2.data_eq, treeView, seen_of_not_hidden hp]⟩
  have hgone : ∀ p, Hidden ⟨dir1, dir2⟩ p → t1.data p = none ∧ t2.data p = none := by
    intro p hp
    rw [hfill1.data_eq, hfill2.data_eq, if_neg hp.ne_nil, if_neg hp.ne_nil]
    exact ⟨seen_of_hidden hp, seen_of_hidden hp⟩
  constructor
  · intro hperm q m hskip r k
    have hp : Hidden ⟨dir1, dir2⟩ (q ++ [m] ++ r) := ⟨q, m, prefix_append _ r, hskip⟩
    refine untouched_of_listed happend hshown hgone hp fun hlisted => ?_
    have hmem := (hperm _ _ _ _ rfl rfl rfl rfl).mem_iff (a := ⟨q ++ [m] ++ r, k⟩)
    rw [mem_changes, mem_changes] at hmem
    refine (hmem.mpr ⟨hp.ne_nil, ?_⟩).2
    exact hdata1 ▸ hdata2 ▸ hlisted
  · intro hsame o n o' n' (ho : _ = t1.data) (hn : _ = t2.data) (ho' : _ = t1'.data)
      (hn' : _ = t2'.data)
    rw [perm_ext_iff_of_nodup (changes_nodup o n) (changes_nodup o' n')]
    intro c
    rw [mem_changes, mem_changes, ho, hn, ho', hn', hdata1, hdata2]
    refine and_congr_right fun _ => listed_pruned happend hshown hgone ?_
    rintro p k ⟨q, m, ⟨r, rfl⟩, hskip⟩
    exact hsame q m hskip r k

/-- A file's inode. -/
def sampleInode (size dev ino listed : Nat) : Inode :=
  { perm := 0o644, uid := 0, gid := 0, rdev := 0, size := size, mtim := ⟨0, 0⟩, capability := [],
    dev := dev,
    ino := ino, listed := listed }

theorem free_init (a : Inode) : Free (FileSys.init a) [] ['x'] :=
  ⟨isDir_nil _, by decide, look_init a _⟩

/-- A directory with one file. -/
def sampleTree (root : Nat) (inode : Inode) : FileSys Inode :=
  (FileSys.init (sampleInode 0 1 root root)).add [] ['x'] ⟨.file [], inode⟩ (free_init _)

theorem look_sampleTree (root : Nat) (inode : Inode) (p : Path) : (sampleTree root inode).look p =
      if p = [['x']] then some ⟨.file [], inode⟩
      else if p = [] then some ⟨.dir, sampleInode 0 1 root root⟩ else none := by
  rw [sampleTree, look_add, look_init]
  rfl

/-- Two directories that have the same files, if any, at no path, or one file at `x`. -/
theorem same_sampleTree {root1 root2 : Nat} (hroot : root1 ≠ root2) {inode1 inode2 : Inode}
    (hfile : inode1.dev = inode2.dev → inode1.ino = inode2.ino → inode1 = inode2) (p : Path)
    (h : SameInode (sampleTree root1 inode1) (sampleTree root2 inode2) p) (q : Path) :
    viewAt infoOf (sampleTree root1 inode1) (p ++ q) =
      viewAt infoOf (sampleTree root2 inode2) (p ++ q) := by
  rcases h with ⟨x, y, hx, hy, hdev, hino⟩
  rw [look_sampleTree] at hx hy
  by_cases hp : p = [['x']]
  · rw [if_pos hp, Option.some.injEq] at hx hy
    rw [← hx, ← hy] at hdev hino
    rw [hfile hdev hino, viewAt, viewAt, look_sampleTree, look_sampleTree, hp]
    simp
  · rw [if_neg hp] at hx hy
    by_cases hnil : p = []
    · rw [if_pos hnil, Option.some.injEq] at hx hy
      rw [← hx, ← hy] at hino
      exact absurd hino hroot
    · simp [if_neg hnil] at hx

/-- A mount over a file that both directories share: the walk of Linux does not see it. -/
theorem walker_mount :
    (∀ p, SameInode (sampleTree 2 (sampleInode 7 1 5 5)) (sampleTree 3 (sampleInode 8 2 9 5)) p →
      ∀ q, viewAt infoOf (sampleTree 2 (sampleInode 7 1 5 5)) (p ++ q) =
        viewAt infoOf (sampleTree 3 (sampleInode 8 2 9 5)) (p ++ q)) ∧
    (do
      let trees ← collectFileInfoForChanges (sampleTree 2 (sampleInode 7 1 5 5))
        (sampleTree 3 (sampleInode 8 2 9 5))
      pure (changes trees.2 trees.1)) = Except.ok [] ∧
    (do
      let old ← collectFileInfo infoOf (sampleTree 2 (sampleInode 7 1 5 5))
      let new ← collectFileInfo infoOf (sampleTree 3 (sampleInode 8 2 9 5))
      pure (changes new old)) = Except.ok [⟨[['x']], .modify⟩] := by
  refine ⟨same_sampleTree (by decide) fun hdev => absurd hdev (by decide), ?_, ?_⟩
  · decide
  · decide

end Dao.Archive
