import Dao.Core.Archive.Changes

/-!
# What Changes Lists

The changes between two `FileInfo` trees, path by path.

`Touched` says which paths differ by themselves: what only one of the trees has, and
what both have with a difference. `Listed` adds the directories above these. Both are
about what the trees hold under their paths, and not about the order in which the
comparison goes through them. The comparison lists exactly these changes, each path
once, and no path after one below it.

The source takes a node for a directory if one bit of its mode is set, which sockets and
block devices have too. If a directory was replaced by one of these, what was in it is
listed as deleted.

## Theorems

* `compared_spec`: The comparison of two nodes lists what is below them.
* `mem_changes`, `changes_ordered`: What is listed, and in which order.
* `changes_self`: A tree has no changes against itself.
* `changes_exact`: When the list is the change set.
* `changes_socket`: A socket is taken for a directory.
-/

namespace Dao.Archive

open Lib FileTree List Trie

/-! ### One node -/

/-- The test of `isDir` on the mode. -/
def Info.dirBit (info : Info) : Bool := info.stat.mode &&& sIfDir != 0

/-- The old children a node is compared with. -/
def oldChildren (oldInfo : Option FileInfo) (path : Path) (info : Info) : List (Name × FileInfo) :=
  match oldInfo with
  | none => []
  | some old => if isDir path info then old.children else []

/-- A call only adds to the list. -/
def Appends (t : FileInfo) : Prop :=
  ∀ oldInfo path added changes,
    addChanges oldInfo path added changes t = changes ++ addChanges oldInfo path added [] t

variable {cs : List (Name × FileInfo)} {info : Info} {o n x y : FileInfo} {a : Name} {p path : Path}
  {k : ChangeType} {added : Bool} {c : Change} {old new : BuiltTree}

theorem addChildren_append (h : ∀ c ∈ cs, Appends c.2) (path : Path) (olds : List (Name × FileInfo))
    (changes : List Change) :
    addChildren path olds changes cs =
      (changes ++ (addChildren path olds [] cs).1, (addChildren path olds [] cs).2) := by
  induction cs generalizing olds changes with
  | nil => rw [addChildren, addChildren, append_nil]
  | cons c cs ih =>
    rcases c with ⟨name, c⟩
    have hc : Appends c := h (name, c) mem_cons_self
    have ih := ih (forall_mem_cons.mp h).2
    rw [addChildren, addChildren]
    rcases hold : named olds name with _ | old
    · rw [hc, ih, ih olds (addChanges none (path ++ [name]) false [] c), append_assoc]
    simp only []
    by_cases hmod : different old.val c.val = true
    · rw [if_pos hmod, if_pos hmod, hc _ _ _ (changes ++ _), hc _ _ _ ([] ++ _), ih, ih _ (_ ++ _)]
      simp
    · rw [if_neg hmod, if_neg hmod, hc _ _ _ changes, ih, ih _ (addChanges _ _ _ [] c)]
      simp

/-- The changes of one child, which is compared with the one of its name. -/
def segment (path : Path) (olds : List (Name × FileInfo)) (c : Name × FileInfo) : List Change :=
  match named olds c.1 with
  | none => addChanges none (path ++ [c.1]) false [] c.2
  | some old =>
    (if different old.val c.2.val then [⟨path ++ [c.1], .modify⟩] else []) ++
      addChanges (some old) (path ++ [c.1]) (different old.val c.2.val) [] c.2

/-- What a node adds to the list besides an entry of its own in front of it. -/
def inside (oldInfo : Option FileInfo) (path : Path) (info : Info) (cs : List (Name × FileInfo)) :
    List Change :=
  (if oldInfo.isNone then [⟨path, .add⟩] else []) ++
    cs.flatMap (segment path (oldChildren oldInfo path info)) ++
    ((oldChildren oldInfo path info).filter fun c => decide (c.1 ∉ cs.map Prod.fst)).map
      (fun c => ⟨path ++ [c.1], .delete⟩)

/-- The loop compares each child with the old one of its name and leaves the others. -/
theorem addChildren_eq (h : ∀ c ∈ cs, Appends c.2) (hnames : (cs.map Prod.fst).Nodup) (path : Path)
    (olds : List (Name × FileInfo)) :
    addChildren path olds [] cs =
      (cs.flatMap (segment path olds), olds.filter (fun c => decide (c.1 ∉ cs.map Prod.fst))) := by
  induction cs generalizing olds with
  | nil =>
    rw [addChildren, flatMap_nil, filter_eq_self.mpr]
    exact fun c _ => decide_eq_true not_mem_nil
  | cons c cs ih =>
    rcases c with ⟨name, c⟩
    have hc : Appends c := h (name, c) mem_cons_self
    have happ := addChildren_append (fun x hx => h x (mem_cons_of_mem (name, c) hx)) path
    have ih := ih (forall_mem_cons.mp h).2 (nodup_cons.mp hnames).2
    have hfilter : (olds.filter fun x => decide (x.1 ≠ name)).filter
        (fun x => decide (x.1 ∉ cs.map Prod.fst)) =
        olds.filter (fun x => decide (x.1 ∉ ((name, c) :: cs).map Prod.fst)) := by
      rw [filter_filter]
      refine filter_congr fun x _ => ?_
      rw [map_cons, ← Bool.decide_and]
      refine decide_eq_decide.mpr ?_
      rw [mem_cons, not_or]
      exact And.comm
    rw [addChildren, flatMap_cons, segment]
    -- The segments of the other children do not look for this name.
    cases hold : named olds name with
    | none =>
      have hkeep : olds.filter (fun x => decide (x.1 ≠ name)) = olds := by
        refine filter_eq_self.mpr fun x hx => decide_eq_true (fun heq => ?_)
        exact named_eq_none.mp hold (mem_map.mpr ⟨x, hx, heq⟩)
      rw [hkeep] at hfilter
      rw [happ, ih, hfilter]
    | some old =>
      have hsegs : cs.flatMap (segment path (olds.filter fun x => decide (x.1 ≠ name))) =
          cs.flatMap (segment path olds) := by
        refine flatMap_congr fun x hx => ?_
        have hne : x.1 ≠ name := fun heq =>
          (nodup_cons.mp hnames).1 (mem_map.mpr ⟨x, hx, heq⟩)
        rw [segment, segment, named_filter_ne hne]
      simp only []
      rw [happ, ih, hfilter, hsegs, hc, nil_append]

theorem addChanges_node (h : ∀ c ∈ cs, Appends c.2) (hnames : (cs.map Prod.fst).Nodup)
    (oldInfo : Option FileInfo) (path : Path) (added : Bool) (changes : List Change) :
    addChanges oldInfo path added changes (.node info cs) = changes ++
      (if inside oldInfo path info cs ≠ [] ∧ isDir path info = true ∧
          (added || oldInfo.isNone) = false ∧ path ≠ [] then
        ⟨path, .modify⟩ :: inside oldInfo path info cs
      else inside oldInfo path info cs) := by
  have hkids := addChildren_append h path (oldChildren oldInfo path info)
    (if oldInfo.isNone then changes ++ [⟨path, .add⟩] else changes)
  rw [addChildren_eq h hnames] at hkids
  have hbody : (addChildren path (oldChildren oldInfo path info)
        (if oldInfo.isNone then changes ++ [⟨path, .add⟩] else changes) cs).1 ++
      (addChildren path (oldChildren oldInfo path info)
        (if oldInfo.isNone then changes ++ [⟨path, .add⟩] else changes) cs).2.map
          (fun c => (⟨path ++ [c.1], .delete⟩ : Change)) =
        changes ++ inside oldInfo path info cs := by
    rw [hkids, inside]
    by_cases hnone : oldInfo.isNone = true
    · rw [if_pos hnone, if_pos hnone]
      simp
    · rw [if_neg hnone, if_neg hnone]
      simp
  -- The source compares lengths to see whether anything was appended.
  have hlength : changes.length < (changes ++ inside oldInfo path info cs).length ↔
      inside oldInfo path info cs ≠ [] := by
    rw [length_append, Nat.lt_add_right_iff_pos, length_pos_iff]
  have hcall : addChanges oldInfo path added changes (.node info cs) =
      (if changes.length < (changes ++ inside oldInfo path info cs).length ∧
        isDir path info = true ∧
          (added || oldInfo.isNone) = false ∧ path ≠ [] then
        (changes ++ inside oldInfo path info cs).take changes.length ++
          ⟨path, .modify⟩ :: (changes ++ inside oldInfo path info cs).drop changes.length
      else changes ++ inside oldInfo path info cs) := by
    rw [← hbody]
    cases oldInfo with
    | none => rfl
    | some old => rfl
  rw [hcall]
  by_cases hnew : inside oldInfo path info cs ≠ [] ∧ isDir path info = true ∧
      (added || oldInfo.isNone) = false ∧ path ≠ []
  · rw [if_pos hnew, if_pos ⟨hlength.mpr hnew.1, hnew.2⟩, take_left, drop_left]
  · rw [if_neg hnew, if_neg (fun hlong => hnew ⟨hlength.mp hlong.1, hlong.2⟩)]

theorem appends (t : FileInfo) (ht : t.Distinct) : Appends t := by
  induction t using induct with
  | h info cs ih =>
    have hnames := ht.names
    have hcs : ∀ c ∈ cs, Appends c.2 := fun c hc => ih c hc (ht.child (child_of_mem hnames hc))
    intro oldInfo path added changes
    rw [addChanges_node hcs hnames, addChanges_node hcs hnames, nil_append]

/-! ### The changes of two trees -/

/-- What two trees hold under a path differs by itself. -/
inductive Touched (o n : Path → Option Info) : Path → ChangeType → Prop where
  | add {p : Path} (hn : n p ≠ none) (ho : o p = none) : Touched o n p .add
  | delete {p : Path} {m : Name} {y : Info} (ho : o (p ++ [m]) ≠ none) (hn : n (p ++ [m]) = none)
      (hdir : n p = some y) (hbit : y.dirBit = true) : Touched o n (p ++ [m]) .delete
  | modify {p : Path} {x y : Info} (ho : o p = some x) (hn : n p = some y)
      (hdiff : different x y = true) : Touched o n p .modify

/-- What differs by itself, and the directories above it. -/
def Listed (o n : Path → Option Info) (p : Path) (k : ChangeType) : Prop :=
  Touched o n p k ∨ k = .modify ∧ o p ≠ none ∧ (∃ y, n p = some y ∧ y.dirBit = true) ∧
      ∃ q k', q ≠ [] ∧ Touched o n (p ++ q) k'

theorem touched_both (hx : o.child a = some x) (hy : n.child a = some y) :
    Touched o.data n.data (a :: p) k ↔
      (p = [] ∧ k = .modify ∧ different x.val y.val = true) ∨
      (p ≠ [] ∧ Touched x.data y.data p k) := by
  have ho : ∀ q, o.data (a :: q) = x.data q := fun q => by rw [data_cons, hx]; rfl
  have hn : ∀ q, n.data (a :: q) = y.data q := fun q => by rw [data_cons, hy]; rfl
  constructor
  · intro h
    generalize hpath : a :: p = path at h
    cases h with
    | add hnew hold =>
      rw [← hpath, ho] at hold
      rw [← hpath, hn] at hnew
      refine .inr ⟨?_, .add hnew hold⟩
      rintro rfl
      nomatch hold
    -- The child is in the new tree, so what was deleted is below it.
    | @delete q m i hold hnew hdir hbit =>
      cases q with
      | nil =>
        rw [nil_append, cons.injEq] at hpath
        rw [nil_append, ← hpath.1, hn] at hnew
        nomatch hnew
      | cons b q =>
        rw [cons_append, cons.injEq] at hpath
        rw [← hpath.1, cons_append, ho] at hold
        rw [← hpath.1, cons_append, hn] at hnew
        rw [← hpath.1, hn] at hdir
        rw [hpath.2]
        exact .inr ⟨concat_ne_nil m q, .delete hold hnew hdir hbit⟩
    | modify hold hnew hdiff =>
      rw [← hpath, ho] at hold
      rw [← hpath, hn] at hnew
      by_cases hnil : p = []
      · rw [hnil, data_nil, Option.some.injEq] at hold hnew
        exact .inl ⟨hnil, rfl, by rw [hold, hnew]; exact hdiff⟩
      · exact .inr ⟨hnil, .modify hold hnew hdiff⟩
  · rintro (⟨rfl, rfl, hdiff⟩ | ⟨hne, h⟩)
    · exact .modify (ho []) (hn []) hdiff
    cases h with
    | add hnew hold => exact .add (by rw [hn]; exact hnew) (by rw [ho]; exact hold)
    | delete hold hnew hdir hbit =>
      rw [← cons_append]
      exact .delete (by rw [cons_append, ho]; exact hold) (by rw [cons_append, hn]; exact hnew)
        (by rw [hn]; exact hdir) hbit
    | modify hold hnew hdiff =>
      exact .modify (by rw [ho]; exact hold) (by rw [hn]; exact hnew) hdiff

theorem touched_new (hx : o.child a = none) (hy : n.child a = some y) :
    Touched o.data n.data (a :: p) k ↔ k = .add ∧ y.data p ≠ none := by
  have ho : ∀ q, o.data (a :: q) = none := fun q => by rw [data_cons, hx]; rfl
  have hn : ∀ q, n.data (a :: q) = y.data q := fun q => by rw [data_cons, hy]; rfl
  constructor
  · intro h
    generalize hpath : a :: p = path at h
    cases h with
    | add hnew hold =>
      rw [← hpath, hn] at hnew
      exact ⟨rfl, hnew⟩
    | delete hold =>
      rw [← hpath, ho] at hold
      exact absurd rfl hold
    | modify hold =>
      rw [← hpath, ho] at hold
      nomatch hold
  · rintro ⟨rfl, hdata⟩
    exact .add (by rw [hn]; exact hdata) (ho p)

theorem touched_old (hy : n.child a = none) : Touched o.data n.data (a :: p) k ↔
      p = [] ∧ k = .delete ∧ o.child a ≠ none ∧ n.val.dirBit = true := by
  have hn : ∀ q, n.data (a :: q) = none := fun q => by rw [data_cons, hy]; rfl
  have ho : o.data [a] ≠ none ↔ o.child a ≠ none := by
    rw [data_cons]
    cases o.child a with
    | none => exact iff_of_false (absurd rfl) (absurd rfl)
    | some x => exact iff_of_true nofun nofun
  constructor
  · intro h
    generalize hpath : a :: p = path at h
    cases h with
    | add hnew hold =>
      rw [← hpath, hn] at hnew
      exact absurd rfl hnew
    -- Only the child itself is deleted: below it there is no directory to miss a name.
    | @delete q m i hold hnew hdir hbit =>
      cases q with
      | nil =>
        rw [nil_append, cons.injEq] at hpath
        rw [nil_append, ← hpath.1] at hold
        rw [data_nil, Option.some.injEq] at hdir
        exact ⟨hpath.2, rfl, ho.mp hold, hdir ▸ hbit⟩
      | cons b q =>
        rw [cons_append, cons.injEq] at hpath
        rw [← hpath.1, hn] at hdir
        nomatch hdir
    | modify hold hnew =>
      rw [← hpath, hn] at hnew
      nomatch hnew
  · rintro ⟨rfl, rfl, hold, hbit⟩
    exact @Touched.delete _ _ [] a n.val (ho.mpr hold) (hn []) rfl hbit

/-- There is a change below the two roots. -/
def AnyBelow (o n : FileInfo) : Prop := ∃ q k, q ≠ [] ∧ Touched o.data n.data q k

theorem listed_both (hx : o.child a = some x) (hy : n.child a = some y) :
    Listed o.data n.data (a :: p) k ↔
      (p = [] ∧ k = .modify ∧ (different x.val y.val = true ∨ y.val.dirBit = true ∧ AnyBelow x y)) ∨
      (p ≠ [] ∧ Listed x.data y.data p k) := by
  have ho : ∀ q, o.data (a :: q) = x.data q := fun q => by rw [data_cons, hx]; rfl
  have hn : ∀ q, n.data (a :: q) = y.data q := fun q => by rw [data_cons, hy]; rfl
  have hbelow : ∀ q k', q ≠ [] →
    (Touched o.data n.data (a :: p ++ q) k' ↔ Touched x.data y.data (p ++ q) k') := by
    intro q k' hq
    rw [cons_append, touched_both hx hy]
    have hne := append_ne_nil_of_right_ne_nil p hq
    constructor
    · rintro (⟨hnil, _⟩ | ⟨_, h⟩)
      · exact absurd hnil hne
      · exact h
    · exact fun h => .inr ⟨hne, h⟩
  -- A directory is listed for a change below it as well, which is one below the child.
  rw [Listed, Listed, touched_both hx hy, ho, hn]
  constructor
  · rintro ((⟨hnil, hk, hdiff⟩ | ⟨hne, h⟩) | ⟨hk, hold, hnew, q, k', hq, h⟩)
    · exact .inl ⟨hnil, hk, .inl hdiff⟩
    · exact .inr ⟨hne, .inl h⟩
    · rw [hbelow q k' hq] at h
      by_cases hnil : p = []
      · rw [hnil] at hnew h
        rcases hnew with ⟨i, hi, hbit⟩
        exact .inl ⟨hnil, hk, .inr ⟨Option.some.inj hi ▸ hbit, q, k', hq, h⟩⟩
      · exact .inr ⟨hnil, .inr ⟨hk, hold, hnew, q, k', hq, h⟩⟩
  · rintro (⟨rfl, hk, hdiff | ⟨hbit, q, k', hq, h⟩⟩ | ⟨hne, h | ⟨hk, hold, hnew, q, k', hq, h⟩⟩)
    · exact .inl (.inl ⟨rfl, hk, hdiff⟩)
    · exact .inr ⟨hk, nofun, ⟨y.val, rfl, hbit⟩, q, k', hq, (hbelow q k' hq).mpr h⟩
    · exact .inl (.inr ⟨hne, h⟩)
    · exact .inr ⟨hk, hold, hnew, q, k', hq, (hbelow q k' hq).mpr h⟩

theorem listed_new (hx : o.child a = none) (hy : n.child a = some y) :
    Listed o.data n.data (a :: p) k ↔ k = .add ∧ y.data p ≠ none := by
  rw [Listed, touched_new hx hy]
  constructor
  · rintro (h | ⟨_, hold, _⟩)
    · exact h
    · rw [data_cons, hx] at hold
      exact absurd rfl hold
  · exact .inl

theorem listed_old (hy : n.child a = none) : Listed o.data n.data (a :: p) k ↔
      p = [] ∧ k = .delete ∧ o.child a ≠ none ∧ n.val.dirBit = true := by
  rw [Listed, touched_old hy]
  constructor
  · rintro (h | ⟨_, _, ⟨y, hnew, _⟩, _⟩)
    · exact h
    · simp [data_cons, hy] at hnew
  · exact .inl

theorem anyBelow_iff : AnyBelow o n ↔ ∃ q k, q ≠ [] ∧ Listed o.data n.data q k := by
  constructor
  · rintro ⟨q, k, hq, h⟩
    exact ⟨q, k, hq, .inl h⟩
  · rintro ⟨q, k, hq, h | ⟨_, _, _, r, k', _, h⟩⟩
    · exact ⟨q, k, hq, h⟩
    · exact ⟨q ++ r, k', append_ne_nil_of_left_ne_nil hq r, h⟩

/-! ### The list and its order -/

theorem addChanges_none (h : ∀ c ∈ cs, Appends c.2) (hnames : (cs.map Prod.fst).Nodup) (path : Path)
    (added : Bool) :
    addChanges none path added [] (.node info cs) =
      ⟨path, .add⟩ :: cs.flatMap (fun x => addChanges none (path ++ [x.1]) false [] x.2) := by
  have hlast : ¬(inside none path info cs ≠ [] ∧ isDir path info = true ∧
      (added || (none : Option FileInfo).isNone) = false ∧ path ≠ []) := by
    rintro ⟨_, _, hadded, _⟩
    simp [Option.isNone_none, Bool.or_true] at hadded
  rw [addChanges_node h hnames, nil_append, if_neg hlast]
  exact append_nil _

/-- No path stands after itself or after one below it. -/
def Ordered (changes : List Change) : Prop := changes.Pairwise (fun a b => ¬b.path <+: a.path)

theorem not_prefix_of_names {path p q : Path} {a b : Name} (hab : a ≠ b) (hp : path ++ [a] <+: p)
    (hq : path ++ [b] <+: q) : ¬q <+: p := by
  intro hqp
  have heq : path ++ [a] = path ++ [b] :=
    IsPrefix.eq_of_length (prefix_of_prefix_length_le hp (hq.trans hqp)
      (by rw [length_append, length_append]; rfl))
      (by rw [length_append, length_append]; rfl)
  exact hab (cons.inj (append_cancel_left heq)).1

theorem not_prefix_of_longer {p q : Path} (hq : q ≠ []) : ¬p ++ q <+: p := by
  intro h
  have hlen := h.length_le
  rw [length_append] at hlen
  have hpos := length_pos_iff.mpr hq
  omega

/-- Parts for different names, one after the other. -/
theorem ordered_flatMap {f : Name × FileInfo → List Change} (hnames : (cs.map Prod.fst).Nodup)
    (hf : ∀ x ∈ cs, Ordered (f x)) (hpath : ∀ x ∈ cs, ∀ c ∈ f x, path ++ [x.1] <+: c.path) :
    Ordered (cs.flatMap f) := by
  refine pairwise_flatMap.mpr ⟨hf, ?_⟩
  rw [Nodup, pairwise_map] at hnames
  refine hnames.imp_of_mem fun {x y} hx hy hne c hc d hd => ?_
  exact not_prefix_of_names hne (hpath x hx c hc) (hpath y hy d hd)

/-- A new node is listed with everything below it, in order. -/
theorem added_spec (t : FileInfo) (ht : t.Distinct) :
    (∀ c, c ∈ addChanges none path added [] t ↔ ∃ p, t.data p ≠ none ∧ c = ⟨path ++ p, .add⟩) ∧
      Ordered (addChanges none path added [] t) := by
  induction t using induct generalizing path added with
  | h info cs ih =>
    have hnames := ht.names
    have hchild : ∀ x ∈ cs, (node info cs).child x.1 = some x.2 :=
      fun x hx => child_of_mem hnames hx
    have hcs : ∀ x ∈ cs, Appends x.2 := fun x hx => appends x.2 (ht.child (hchild x hx))
    have hmem : ∀ x ∈ cs, ∀ c, c ∈ addChanges none (path ++ [x.1]) false [] x.2 ↔
        ∃ p, x.2.data p ≠ none ∧ c = ⟨path ++ [x.1] ++ p, .add⟩ :=
      fun x hx => (ih x hx (ht.child (hchild x hx))).1
    rw [addChanges_none hcs hnames]
    constructor
    · intro c
      rw [mem_cons, mem_flatMap]
      constructor
      · rintro (rfl | ⟨x, hx, hc⟩)
        · exact ⟨[], nofun, by rw [append_nil]⟩
        rcases (hmem x hx c).mp hc with ⟨p, hp, rfl⟩
        refine ⟨x.1 :: p, ?_, by rw [← append_cons]⟩
        rw [data_cons, hchild x hx]
        exact hp
      · rintro ⟨p, hp, rfl⟩
        rcases p with _ | ⟨a, p⟩
        · exact .inl (by rw [append_nil])
        rw [data_cons] at hp
        cases ha : (node info cs).child a with
        | none =>
          rw [ha] at hp
          exact absurd rfl hp
        | some y =>
          rw [ha] at hp
          refine .inr ⟨(a, y), mem_of_child ha, (hmem _ (mem_of_child ha) _).mpr ⟨p, hp, ?_⟩⟩
          rw [append_cons]
    -- The node comes before what is below it, and the children are apart.
    · have hbelow : ∀ x ∈ cs, ∀ c ∈ addChanges none (path ++ [x.1]) false [] x.2,
          path ++ [x.1] <+: c.path := by
        intro x hx c hc
        rcases (hmem x hx c).mp hc with ⟨p, _, rfl⟩
        exact prefix_append _ p
      refine pairwise_cons.mpr ⟨?_, ordered_flatMap hnames
        (fun x hx => (ih x hx (ht.child (hchild x hx))).2) hbelow⟩
      intro c hc hpre
      rcases mem_flatMap.mp hc with ⟨x, hx, hc⟩
      exact not_prefix_of_longer (cons_ne_nil x.1 []) ((hbelow x hx c hc).trans hpre)

/-- Only what the source takes for a directory has children. -/
def Leafy (t : FileInfo) : Prop := ∀ p x, t.find p = some x → x.val.dirBit = false → x.children = []

theorem Leafy.child {t c : FileInfo} (h : Leafy t) (hc : t.child a = some c) : Leafy c :=
  fun p x hx => h (a :: p) x (by rw [Trie.find, hc]; exact hx)

/-- What the comparison of two nodes adds to the list. -/
def Adds (o n : FileInfo) (path : Path) (added : Bool) (c : Change) : Prop :=
  (∃ p, p ≠ [] ∧ c.path = path ++ p ∧ Listed o.data n.data p c.kind) ∨
    (c = ⟨path, .modify⟩ ∧ path ≠ [] ∧ added = false ∧ n.val.dirBit = true ∧ AnyBelow o n)

/-- Two nodes are compared as they should be, whether the new one has been listed or not. -/
def Compared (x y : FileInfo) (path : Path) : Prop :=
  ∀ added, (∀ c, c ∈ addChanges (some x) path added [] y ↔ Adds x y path added c) ∧
    Ordered (addChanges (some x) path added [] y)

theorem mem_segment_both (hx : o.child a = some x) (hy : n.child a = some y)
    (h : Compared x y (path ++ [a])) :
    c ∈ segment path o.children (a, y) ↔ ∃ p, c.path = path ++ a :: p ∧
      Listed o.data n.data (a :: p) c.kind := by
  have hlookup : named o.children a = some x := hx
  rw [segment, hlookup]
  rw [mem_append, (h _).1]
  constructor
  · rintro (hc | ⟨p, hp, hpath, hl⟩ | ⟨rfl, _, _, hbit, hbelow⟩)
    · by_cases hdiff : different x.val y.val = true
      · rw [if_pos hdiff, mem_singleton] at hc
        exact ⟨[], by rw [hc], (listed_both hx hy).mpr (.inl ⟨rfl, by rw [hc], .inl hdiff⟩)⟩
      · simp [if_neg hdiff] at hc
    · refine ⟨p, ?_, (listed_both hx hy).mpr (.inr ⟨hp, hl⟩)⟩
      rw [hpath, ← append_cons]
    · exact ⟨[], rfl, (listed_both hx hy).mpr (.inl ⟨rfl, rfl, .inr ⟨hbit, hbelow⟩⟩)⟩
  · rintro ⟨p, hpath, hl⟩
    rcases (listed_both hx hy).mp hl with ⟨rfl, hk, hwhy⟩ | ⟨hp, hl⟩
    · have hc : c = ⟨path ++ [a], .modify⟩ := by
        rw [← hpath, ← hk]
      by_cases hdiff : different x.val y.val = true
      · rw [if_pos hdiff]
        exact .inl (mem_singleton.mpr hc)
      -- A directory without a change of its own is put in front by the call for the child.
      · rcases hwhy with hdiff' | ⟨hbit, hbelow⟩
        · exact absurd hdiff' hdiff
        · exact .inr (.inr ⟨hc, concat_ne_nil a path, Bool.not_eq_true _ ▸ hdiff, hbit, hbelow⟩)
    · refine .inr (.inl ⟨p, hp, ?_, hl⟩)
      rw [hpath, append_cons]

theorem mem_segment_new (hd : y.Distinct) (hx : o.child a = none) (hy : n.child a = some y) :
    c ∈ segment path o.children (a, y) ↔ ∃ p, c.path = path ++ a :: p ∧
      Listed o.data n.data (a :: p) c.kind := by
  have hlookup : named o.children a = none := hx
  rw [segment, hlookup]
  rw [(added_spec y hd).1]
  constructor
  · rintro ⟨p, hp, rfl⟩
    refine ⟨p, ?_, (listed_new hx hy).mpr ⟨rfl, hp⟩⟩
    rw [← append_cons]
  · rintro ⟨p, hpath, hl⟩
    rcases (listed_new hx hy).mp hl with ⟨hk, hp⟩
    refine ⟨p, hp, ?_⟩
    rw [← append_cons, ← hpath, ← hk]

theorem segment_spec (hn : n.Distinct) (hy : n.child a = some y)
    (ih : ∀ x, o.child a = some x → Compared x y (path ++ [a])) :
    (∀ c, c ∈ segment path o.children (a, y) ↔
      ∃ p, c.path = path ++ a :: p ∧ Listed o.data n.data (a :: p) c.kind) ∧
      Ordered (segment path o.children (a, y)) := by
  rcases hx : o.child a with _ | x
  · refine ⟨fun c => mem_segment_new (hn.child hy) hx hy, ?_⟩
    have hlookup : named o.children a = none := hx
    rw [segment, hlookup]
    exact (added_spec y (hn.child hy)).2
  have hcomp := ih x hx
  refine ⟨fun c => mem_segment_both hx hy hcomp, ?_⟩
  have hlookup : named o.children a = some x := hx
  rw [segment, hlookup]
  simp only []
  -- The child comes before what is below it, and is not put there a second time.
  by_cases hdiff : different x.val y.val = true
  · rw [if_pos hdiff]
    refine pairwise_cons.mpr ⟨?_, (hcomp _).2⟩
    intro c hc hpre
    rcases ((hcomp _).1 c).mp hc with ⟨p, hp, hpath, _⟩ | ⟨_, _, hadded, _⟩
    · rw [hpath] at hpre
      exact not_prefix_of_longer hp hpre
    · simp [hdiff] at hadded
  · rw [if_neg hdiff]
    exact (hcomp _).2

theorem inside_leaf (hbit : info.dirBit = false) (hcs : cs = [])
    (htop : path = [] → info.dirBit = true) :
    inside (some o) path info cs = [] := by
  have hpath : path ≠ [] := by
    intro hnil
    simp [htop hnil] at hbit
  have hdir : isDir path info = false := by
    rw [isDir, isEmpty_eq_false_iff.mpr hpath, Bool.false_or]
    exact hbit
  rw [inside, oldChildren, hcs, hdir]
  rfl

theorem inside_dir (hbit : info.dirBit = true) :
    inside (some o) path info cs = cs.flatMap (segment path o.children) ++
      (o.children.filter (fun x => decide (x.1 ∉ cs.map Prod.fst))).map
      (fun x => ⟨path ++ [x.1], .delete⟩) := by
  have hdir : isDir path info = true := by
    exact Bool.or_eq_true_iff.mpr (.inr hbit)
  rw [inside, oldChildren, hdir]
  rfl

/-- What is below two nodes is listed child by child, in order. -/
theorem inside_spec (hn : (node info cs).Distinct) (ho : o.Distinct)
    (hleafy : Leafy (.node info cs))
    (htop : path = [] → info.dirBit = true)
    (ih : ∀ y ∈ cs, ∀ x, o.child y.1 = some x → Compared x y.2 (path ++ [y.1])) :
    (∀ c, c ∈ inside (some o) path info cs ↔
      ∃ p, p ≠ [] ∧ c.path = path ++ p ∧ Listed o.data (node info cs).data p c.kind) ∧
      Ordered (inside (some o) path info cs) := by
  have hseg : ∀ y ∈ cs, (∀ c, c ∈ segment path o.children y ↔
      ∃ p, c.path = path ++ y.1 :: p ∧ Listed o.data (node info cs).data (y.1 :: p) c.kind) ∧
      Ordered (segment path o.children y) :=
    fun y hy => segment_spec hn (child_of_mem hn.names hy) (ih y hy)
  have hnone : ∀ a, (node info cs).child a = none ↔ a ∉ cs.map Prod.fst := fun _ => named_eq_none
  cases hbit : info.dirBit with
  | false =>
    have hcs : cs = [] := hleafy [] _ rfl hbit
    rw [inside_leaf hbit hcs htop]
    refine ⟨fun c => iff_of_false not_mem_nil ?_, Pairwise.nil⟩
    rintro ⟨p, hp, _, hl⟩
    rcases p with _ | ⟨a, p⟩
    · exact hp rfl
    have hgone : (node info cs).child a = none := (hnone a).mpr (by rw [hcs]; exact not_mem_nil)
    have hdirBit : info.dirBit = true := ((listed_old hgone).mp hl).2.2.2
    simp [hbit] at hdirBit
  | true =>
    rw [inside_dir hbit]
    constructor
    · intro c
      rw [mem_append, mem_flatMap, mem_map]
      constructor
      · rintro (⟨y, hy, hc⟩ | ⟨x, hx, rfl⟩)
        · rcases ((hseg y hy).1 c).mp hc with ⟨p, hpath, hl⟩
          exact ⟨y.1 :: p, cons_ne_nil _ _, hpath, hl⟩
        rw [mem_filter] at hx
        have hold : o.child x.1 ≠ none := by
          rw [child_of_mem ho.names hx.1]
          exact nofun
        exact ⟨[x.1], cons_ne_nil _ _, rfl,
          (listed_old ((hnone x.1).mpr (of_decide_eq_true hx.2))).mpr ⟨rfl, rfl, hold, hbit⟩⟩
      · rintro ⟨p, hp, hpath, hl⟩
        rcases p with _ | ⟨a, p⟩
        · exact absurd rfl hp
        cases hy : (node info cs).child a with
        | some y => exact .inl ⟨(a, y), mem_of_child hy,
          ((hseg _ (mem_of_child hy)).1 c).mpr ⟨p, hpath, hl⟩⟩
        | none =>
          rcases (listed_old hy).mp hl with ⟨rfl, hk, hold, _⟩
          cases hx : o.child a with
          | none => exact absurd hx hold
          | some x =>
            refine .inr ⟨(a, x), mem_filter.mpr ⟨mem_of_child hx, ?_⟩, ?_⟩
            · exact decide_eq_true ((hnone a).mp hy)
            · rw [← hpath, ← hk]
    -- Segments of different names are apart, and so are the names that are gone.
    · have hpath : ∀ y ∈ cs, ∀ c ∈ segment path o.children y, path ++ [y.1] <+: c.path := by
        intro y hy c hc
        rcases ((hseg y hy).1 c).mp hc with ⟨p, hp, _⟩
        exact ⟨p, by rw [hp, ← append_cons]⟩
      refine pairwise_append.mpr
        ⟨ordered_flatMap hn.names (fun y hy => (hseg y hy).2) hpath, ?_, ?_⟩
      · refine pairwise_map.mpr (Pairwise.filter _ ?_)
        have holds := ho.names
        rw [Nodup, pairwise_map] at holds
        exact holds.imp fun hab => not_prefix_of_names hab (prefix_refl _) (prefix_refl _)
      · intro c hc d hd
        rcases mem_flatMap.mp hc with ⟨y, hy, hc⟩
        rcases mem_map.mp hd with ⟨x, hx, rfl⟩
        have hgone : x.1 ∉ cs.map Prod.fst := of_decide_eq_true (mem_filter.mp hx).2
        exact not_prefix_of_names (fun heq => hgone (mem_map.mpr ⟨y, hy, heq⟩)) (hpath y hy c hc)
          (prefix_refl _)

theorem compared_spec (n : FileInfo) (hn : n.Distinct) (hleafy : Leafy n) (ho : o.Distinct)
    (htop : path = [] → n.val.dirBit = true) : Compared o n path := by
  induction n using induct generalizing o path with
  | h info cs ih =>
    have hchild : ∀ y ∈ cs, (node info cs).child y.1 = some y.2 :=
      fun y hy => child_of_mem hn.names hy
    have hcs : ∀ y ∈ cs, Appends y.2 := fun y hy => appends y.2 (hn.child (hchild y hy))
    rcases inside_spec hn ho hleafy htop (fun y hy x hx =>
      ih y hy (hn.child (hchild y hy)) (hleafy.child (hchild y hy)) (ho.child hx)
        (absurd · (concat_ne_nil _ _))) with ⟨hmem, hinside⟩
    have hsome : inside (some o) path info cs ≠ [] ↔ AnyBelow o (.node info cs) := by
      rw [anyBelow_iff]
      constructor
      · intro hne
        rcases exists_mem_of_ne_nil _ hne with ⟨c, hc⟩
        rcases (hmem c).mp hc with ⟨p, hp, _, hl⟩
        exact ⟨p, c.kind, hp, hl⟩
      · rintro ⟨p, k, hp, hl⟩
        exact ne_nil_of_mem ((hmem ⟨path ++ p, k⟩).mpr ⟨p, hp, rfl, hl⟩)
    have hdir : path ≠ [] → (isDir path info = true ↔ info.dirBit = true) := by
      intro hne
      rw [isDir, isEmpty_eq_false_iff.mpr hne, Bool.false_or]
      rfl
    intro added
    rw [addChanges_node hcs hn.names, nil_append, Option.isNone_some, Bool.or_false]
    -- The directory is put in front when something was listed below it.
    by_cases hown : inside (some o) path info cs ≠ [] ∧ isDir path info = true ∧ added = false ∧
      path ≠ []
    · rw [if_pos hown]
      constructor
      · intro c
        rw [mem_cons, hmem]
        constructor
        · rintro (hc | hc)
          · exact .inr ⟨hc, hown.2.2.2, hown.2.2.1, (hdir hown.2.2.2).mp hown.2.1, hsome.mp hown.1⟩
          · exact .inl hc
        · rintro (hc | ⟨hc, _⟩)
          · exact .inr hc
          · exact .inl hc
      · refine pairwise_cons.mpr ⟨fun c hc hpre => ?_, hinside⟩
        rcases (hmem c).mp hc with ⟨p, hp, hpath, _⟩
        rw [hpath] at hpre
        exact not_prefix_of_longer hp hpre
    · rw [if_neg hown]
      refine ⟨fun c => ?_, hinside⟩
      rw [hmem]
      refine ⟨.inl, ?_⟩
      rintro (hc | ⟨_, hne, hadded, hbit, hbelow⟩)
      · exact hc
      · exact absurd ⟨hsome.mpr hbelow, (hdir hne).mpr hbit, hadded, hne⟩ hown

/-! ### Trees as they are built -/

/-- The mode is that of a directory. -/
def Info.IsDirectory (info : Info) : Prop := info.stat.mode &&& sIfMt = sIfDir

instance (info : Info) : Decidable info.IsDirectory := inferInstanceAs (Decidable (_ = _))

theorem Info.IsDirectory.dirBit (h : info.IsDirectory) : info.dirBit = true := by
  rw [Info.dirBit, bne_iff_ne]
  intro hzero
  have hmode : info.stat.mode.testBit 14 = true := by
    have hbit := congrArg (fun n => n.testBit 14) h
    simp only [Nat.testBit_and] at hbit
    exact (Bool.and_eq_true_iff.mp (hbit.trans (by decide : sIfDir.testBit 14 = true))).1
  have hbit := congrArg (fun n => n.testBit 14) hzero
  simp only [Nat.testBit_and, hmode] at hbit
  exact absurd hbit (by decide)

/-- Only directories have children. -/
def DirsOnly (t : FileInfo) : Prop := ∀ p x, t.find p = some x → x.children ≠ [] → x.val.IsDirectory

theorem dirsOnly_node (h : cs ≠ [] → info.IsDirectory) (hcs : ∀ c ∈ cs, DirsOnly c.2) :
    DirsOnly (.node info cs) := by
  intro p x hx hne
  cases p with
  | nil =>
    rw [← Option.some.inj hx] at hne ⊢
    exact h hne
  | cons a p =>
    rcases Option.bind_eq_some_iff.mp hx with ⟨c, hc, hx⟩
    exact hcs (a, c) (mem_of_child hc) p x hx hne

/-- A tree as the collectors build it: the root is a directory, no name occurs twice in one,
    and nothing else has children. -/
structure BuiltTree where
  root : FileInfo
  top : root.val = .root
  distinct : root.Distinct
  dirs : DirsOnly root

/-- The tree has a directory at a path. -/
def BuiltTree.DirAt (t : BuiltTree) (p : Path) : Prop := ∃ x, t.root.data p = some x ∧ x.IsDirectory

theorem BuiltTree.leafy (t : BuiltTree) : Leafy t.root := by
  intro p x hx hbit
  by_contra hne
  simp [(t.dirs p x hx hne).dirBit] at hbit

theorem BuiltTree.dirBit_root (t : BuiltTree) : t.root.val.dirBit = true := by
  rw [t.top]
  rfl

theorem BuiltTree.dirAt_of_data {t : BuiltTree} {m : Name} (h : t.root.data (p ++ [m]) ≠ none) :
    t.DirAt p := by
  rcases Option.ne_none_iff_exists'.mp h with ⟨v, hv⟩
  rcases data_of_append hv with ⟨x, hx, hm⟩
  refine ⟨x.val, by rw [data, hx]; rfl, t.dirs p x hx ?_⟩
  intro hnil
  rw [data_cons, child, hnil] at hm
  cases hm

theorem compared_roots (old new : BuiltTree) : Compared old.root new.root [] :=
  compared_spec new.root new.distinct new.leafy old.distinct fun _ => new.dirBit_root

theorem mem_changes (old new : BuiltTree) :
    c ∈ changes new.root old.root ↔ c.path ≠ [] ∧
      Listed old.root.data new.root.data c.path c.kind := by
  rw [changes, (compared_roots old new false).1]
  constructor
  · rintro (⟨p, hp, hpath, hl⟩ | ⟨_, hne, _⟩)
    · rw [nil_append] at hpath
      rw [hpath]
      exact ⟨hp, hl⟩
    · exact absurd rfl hne
  · rintro ⟨hne, hl⟩
    exact .inl ⟨c.path, hne, rfl, hl⟩

/-- A tree has no changes against itself. -/
theorem changes_self (t : BuiltTree) : changes t.root t.root = [] := by
  have hsame : ∀ p k, ¬Touched t.root.data t.root.data p k := by
    rintro p k (⟨hn, ho⟩ | ⟨ho, hn⟩ | ⟨ho, hn, hdiff⟩)
    · exact hn ho
    · exact ho hn
    · cases ho.symm.trans hn
      simp [different, statDifferent, sameFsTimeSpec] at hdiff
  refine eq_nil_iff_forall_not_mem.mpr fun c hc => ?_
  rcases ((mem_changes t t).mp hc).2 with h | ⟨_, _, _, q, k, _, h⟩ <;> exact hsame _ _ h

theorem changes_ordered (old new : BuiltTree) : Ordered (changes new.root old.root) :=
  (compared_roots old new false).2

theorem Ordered.nodup {changes : List Change} (h : Ordered changes) :
    (changes.map Change.path).Nodup := by
  rw [Nodup, pairwise_map]
  refine h.imp fun {a b} hab heq => hab ?_
  rw [heq]

/-- Nothing that is only taken for a directory stands in place of one with children. -/
def NoImpostor (old new : BuiltTree) : Prop :=
  ∀ p m y, new.root.data p = some y → y.dirBit = true → old.root.data (p ++ [m]) ≠ none →
    y.IsDirectory

theorem isDirectory_of_touched (h : NoImpostor old new) {q : Path} {y : Info}
    (hn : new.root.data p = some y) (hbit : y.dirBit = true) (hq : q ≠ [])
    (htouched : Touched old.root.data new.root.data (p ++ q) k) : y.IsDirectory := by
  obtain ⟨m, r, rfl⟩ := exists_cons_of_ne_nil hq
  rw [append_cons] at htouched
  -- One of the trees has a child at the path.
  have hchild : ∀ {f : FileInfo}, f.data (p ++ [m] ++ r) ≠ none → f.data (p ++ [m]) ≠ none := by
    intro f hf hnone
    obtain ⟨v, hv⟩ := Option.ne_none_iff_exists'.mp hf
    obtain ⟨x, hx, -⟩ := data_of_append hv
    simp [data, hx] at hnone
  have hnew : new.root.data (p ++ [m] ++ r) ≠ none → y.IsDirectory := by
    intro hne
    obtain ⟨x, hx, hdir⟩ := BuiltTree.dirAt_of_data (hchild hne)
    cases hx.symm.trans hn
    exact hdir
  generalize hpath : p ++ [m] ++ r = path at htouched hchild hnew
  cases htouched with
  | add hne => exact hnew hne
  | delete ho => exact h p m y hn hbit (hchild ho)
  | modify _ hne => exact hnew (by simp [hne])

theorem delete_iff (h : NoImpostor old new) (p : Path) :
    ⟨p, .delete⟩ ∈ changes new.root old.root ↔
      p ≠ [] ∧ old.root.data p ≠ none ∧ new.root.data p = none ∧
        old.DirAt p.dropLast ∧ new.DirAt p.dropLast := by
  rw [mem_changes]
  simp only []
  constructor
  · rintro ⟨hne, hl | ⟨hk, _⟩⟩
    · refine ⟨hne, ?_⟩
      generalize hk : ChangeType.delete = k at hl
      cases hl with
      | add => cases hk
      | @delete q m y ho hn hdir hbit =>
        rw [dropLast_concat]
        exact ⟨ho, hn, BuiltTree.dirAt_of_data ho, y, hdir, h q m y hdir hbit ho⟩
      | modify => cases hk
    · cases hk
  · rintro ⟨hne, ho, hn, _, y, hdir, hy⟩
    refine ⟨hne, .inl ?_⟩
    rcases (eq_nil_or_concat' p).resolve_left hne with ⟨q, m, rfl⟩
    rw [dropLast_concat] at hdir
    exact .delete ho hn hdir hy.dirBit

theorem add_iff (p : Path) :
    ⟨p, .add⟩ ∈ changes new.root old.root ↔ p ≠ [] ∧ new.root.data p ≠ none ∧
      old.root.data p = none := by
  rw [mem_changes]
  refine and_congr_right fun hne => ⟨?_, fun h => .inl (.add h.1 h.2)⟩
  rintro (hl | ⟨hk, _⟩)
  · generalize hk : ChangeType.add = k at hl
    cases hl with
    | add hn ho => exact ⟨hn, ho⟩
    | delete | modify => nomatch hk
  · nomatch hk

theorem modify_iff (h : NoImpostor old new) (p : Path) :
    ⟨p, .modify⟩ ∈ changes new.root old.root ↔
      p ≠ [] ∧ ∃ x y, old.root.data p = some x ∧ new.root.data p = some y ∧ (different x y = true ∨
          y.IsDirectory ∧ ∃ c ∈ changes new.root old.root, p <+: c.path ∧ p ≠ c.path) := by
  rw [mem_changes]
  refine and_congr_right fun hne => ⟨?_, ?_⟩
  · rintro (hl | ⟨_, ho, ⟨y, hn, hbit⟩, q, k, hq, hl⟩)
    · generalize hk : ChangeType.modify = k at hl
      cases hl with
      | add | delete => nomatch hk
      | modify ho hn hdiff => exact ⟨_, _, ho, hn, .inl hdiff⟩
    · rcases Option.ne_none_iff_exists'.mp ho with ⟨x, hx⟩
      refine ⟨x, y, hx, hn, .inr ⟨isDirectory_of_touched h hn hbit hq hl, ⟨p ++ q, k⟩, ?_,
        prefix_append p q, ?_⟩⟩
      · exact (mem_changes old new).mpr ⟨append_ne_nil_of_left_ne_nil hne q, .inl hl⟩
      · exact fun heq => hq (self_eq_append_right.mp heq)
  · rintro ⟨x, y, ho, hn, hdiff | ⟨hdir, c, hc, ⟨q, hq⟩, hpne⟩⟩
    · exact .inl (.modify ho hn hdiff)
    have hold : old.root.data p ≠ none := by
      rw [ho]
      exact nofun
    have hqne : q ≠ [] := by
      rintro rfl
      exact hpne (by rw [← hq, append_nil])
    -- What is listed below is a change, or a directory with a change further down.
    refine .inr ⟨rfl, hold, ⟨y, hn, hdir.dirBit⟩, ?_⟩
    rcases (mem_changes old new).mp hc with ⟨_, hl | ⟨_, _, _, r, k, _, hl⟩⟩
    · exact ⟨q, c.kind, hqne, hq ▸ hl⟩
    · refine ⟨q ++ r, k, append_ne_nil_of_left_ne_nil hqne r, ?_⟩
      rw [← append_assoc, hq]
      exact hl

/-- The list is the change set: what is added, what is deleted from a directory that is
    one in both trees, and what differs or has a change below it. -/
structure ChangeSet (old new : BuiltTree) : Prop where
  add : ∀ p, ⟨p, .add⟩ ∈ changes new.root old.root ↔
    p ≠ [] ∧ new.root.data p ≠ none ∧ old.root.data p = none
  delete : ∀ p, ⟨p, .delete⟩ ∈ changes new.root old.root ↔
    p ≠ [] ∧ old.root.data p ≠ none ∧ new.root.data p = none ∧
      old.DirAt p.dropLast ∧ new.DirAt p.dropLast
  modify : ∀ p, ⟨p, .modify⟩ ∈ changes new.root old.root ↔
    p ≠ [] ∧ ∃ x y, old.root.data p = some x ∧ new.root.data p = some y ∧ (different x y = true ∨
        y.IsDirectory ∧ ∃ c ∈ changes new.root old.root, p <+: c.path ∧ p ≠ c.path)

/-- The root is not listed, no path is listed twice or after one below it, and the list
    is the change set just if nothing is taken for a directory in place of one with
    children. -/
theorem changes_exact (old new : BuiltTree) :
    (∀ c ∈ changes new.root old.root, c.path ≠ []) ∧
    ((changes new.root old.root).map Change.path).Nodup ∧
    (changes new.root old.root).Pairwise (fun a b => ¬b.path <+: a.path) ∧
    (ChangeSet old new ↔ NoImpostor old new) := by
  refine ⟨fun c hc => ((mem_changes old new).mp hc).1, (changes_ordered old new).nodup,
    changes_ordered old new, fun hset p m y hn hbit ho => ?_,
    fun h => ⟨add_iff, delete_iff h, modify_iff h⟩⟩
  by_contra hdir
  -- The child of the old directory is listed as deleted.
  have hgone : new.root.data (p ++ [m]) = none := by
    by_contra hne
    obtain ⟨x, hx, hx'⟩ := BuiltTree.dirAt_of_data hne
    cases hx.symm.trans hn
    exact hdir hx'
  have hmem : ⟨p ++ [m], .delete⟩ ∈ changes new.root old.root :=
    (mem_changes old new).mpr ⟨concat_ne_nil m p, .inl (.delete ho hgone hn hbit)⟩
  obtain ⟨-, -, -, -, x, hx, hx'⟩ := (hset.delete _).mp hmem
  rw [dropLast_concat] at hx
  cases hx.symm.trans hn
  exact hdir hx'

/-- A node of a mode. -/
def Info.ofMode (mode : Nat) : Info :=
  { stat := { mode := mode, uid := 0, gid := 0, rdev := 0, size := 0, mtim := ⟨0, 0⟩ },
    capability := [] }

/-- A root with a directory `d` that has a file `f`. -/
def sampleDir : BuiltTree where
  root := .node .root [(['d'],
    .node (.ofMode (sIfDir + 0o755)) [(['f'], .node (.ofMode (sIfReg + 0o644)) [])])]
  top := rfl
  distinct := distinct_node (by decide) (by
    intro c hc
    rw [mem_singleton.mp hc]
    refine distinct_node (by decide) fun c hc => ?_
    rw [mem_singleton.mp hc]
    exact distinct_node (by decide) fun c hc => nomatch hc)
  dirs := dirsOnly_node (fun _ => by decide) (by
    intro c hc
    rw [mem_singleton.mp hc]
    refine dirsOnly_node (fun _ => by decide) fun c hc => ?_
    rw [mem_singleton.mp hc]
    exact dirsOnly_node (absurd rfl) fun c hc => nomatch hc)

/-- A root with one node `d` that has no children. -/
def sampleNode (mode : Nat) : BuiltTree where
  root := .node .root [(['d'], .node (.ofMode mode) [])]
  top := rfl
  distinct := distinct_node (nodup_singleton _) (by
    intro c hc
    rw [mem_singleton.mp hc]
    exact distinct_node nodup_nil fun c hc => nomatch hc)
  dirs := dirsOnly_node (fun _ => by decide) (by
    intro c hc
    rw [mem_singleton.mp hc]
    exact dirsOnly_node (absurd rfl) fun c hc => nomatch hc)

/-- A socket in place of a directory is taken for one. -/
theorem changes_socket : changes (sampleNode (sIfSock + 0o755)).root sampleDir.root =
        [⟨[['d']], .modify⟩, ⟨[['d'], ['f']], .delete⟩] ∧
      ¬(sampleNode (sIfSock + 0o755)).DirAt [['d']] := by
  refine ⟨by decide, ?_⟩
  rintro ⟨x, hx, hdir⟩
  have hsock : x = .ofMode (sIfSock + 0o755) := (Option.some.inj hx).symm
  rw [hsock] at hdir
  exact absurd hdir (by decide)

end Dao.Archive
