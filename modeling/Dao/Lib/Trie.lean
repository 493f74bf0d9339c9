import Mathlib

/-!
# Trees with Named Children

A tree whose nodes hold a value and a list of children under names, as a program
builds it in memory. A path is the list of the names on the way to a node.

The order of the children means nothing to what is found under a path. Two trees
that have the same values under the same paths (`data`) are the same tree listed in
two orders, if no name occurs twice among the children of a node.
-/

namespace Lib

open List Option

inductive Trie (κ β : Type) where
  | node (val : β) (children : List (κ × Trie κ β))

namespace Trie

variable {κ β : Type}

def val : Trie κ β → β
  | node v _ => v

def children : Trie κ β → List (κ × Trie κ β)
  | node _ cs => cs

theorem induct {P : Trie κ β → Prop} (h : ∀ v cs, (∀ c ∈ cs, P c.2) → P (node v cs))
    (t : Trie κ β) : P t :=
  @Trie.rec κ β P (fun cs => ∀ c ∈ cs, P c.2) (fun c => P c.2) h nofun
    (fun head tail hhead htail c hc => by
      rcases mem_cons.mp hc with rfl | hc
      · exact hhead
      · exact htail c hc)
    (fun _ _ hc => hc)
    t

variable [DecidableEq κ]

/-- The first of the children that has a name. -/
def named (cs : List (κ × Trie κ β)) (k : κ) : Option (Trie κ β) := cs.lookup k

/-- The child of a name. -/
def child (t : Trie κ β) (k : κ) : Option (Trie κ β) := named t.children k

/-- The node at a path. -/
def find : List κ → Trie κ β → Option (Trie κ β)
  | [], t => some t
  | k :: p, t => (t.child k).bind (find p)

/-- The value at a path. -/
def data (t : Trie κ β) (p : List κ) : Option β := (t.find p).map val

theorem data_nil (t : Trie κ β) : t.data [] = some t.val := rfl

theorem data_cons (t : Trie κ β) (k : κ) (p : List κ) :
    t.data (k :: p) = (t.child k).bind (fun c => c.data p) := by
  rw [data, find, map_bind]
  rfl

theorem find_append (t : Trie κ β) (p q : List κ) : t.find (p ++ q) = (t.find p).bind (find q) := by
  induction p generalizing t with
  | nil => rfl
  | cons k p ih =>
    rw [cons_append, find, find, bind_assoc]
    exact congrArg (bind (t.child k)) (funext ih)

variable {t c t' : Trie κ β} {v : β} {k : κ} {cs : List (κ × Trie κ β)} {p : List κ}

theorem data_of_append {p q : List κ} (h : t.data (p ++ q) = some v) :
    ∃ x, t.find p = some x ∧ x.data q = some v := by
  rw [data, find_append] at h
  cases hp : t.find p with
  | none =>
    simp [hp] at h
  | some x =>
    rw [hp] at h
    exact ⟨x, rfl, h⟩

/-- No node has two children of one name. -/
def Distinct (t : Trie κ β) : Prop := ∀ p x, t.find p = some x → (x.children.map Prod.fst).Nodup

theorem Distinct.names (h : t.Distinct) : (t.children.map Prod.fst).Nodup := h [] t rfl

theorem Distinct.child (h : t.Distinct) (hc : t.child k = some c) : c.Distinct :=
  fun p x hx => h (k :: p) x (by rw [find, hc]; exact hx)

theorem child_of_mem (h : (t.children.map Prod.fst).Nodup) (hc : (k, c) ∈ t.children) :
    t.child k = some c := by
  rcases append_of_mem hc with ⟨l, r, hlr⟩
  rw [hlr, map_append, map_cons, nodup_append] at h
  refine lookup_eq_some_iff.mpr ⟨l, r, hlr, fun x hx => ?_⟩
  rw [bne_iff_ne]
  exact fun heq => h.2.2 x.1 (mem_map_of_mem hx) k mem_cons_self heq.symm

theorem mem_of_child (h : t.child k = some c) : (k, c) ∈ t.children := by
  rcases lookup_eq_some_iff.mp h with ⟨l, r, hlr, _⟩
  rw [hlr]
  exact mem_append_right l mem_cons_self

theorem named_eq_none : named cs k = none ↔ k ∉ cs.map Prod.fst := by
  rw [named, lookup_eq_none_iff, List.mem_map, not_exists]
  refine forall_congr' fun x => ?_
  rw [bne_iff_ne, not_and]
  exact imp_congr_right fun _ => ne_comm

theorem named_filter_ne {k m : κ} (h : k ≠ m) :
    named (cs.filter (fun c => decide (c.1 ≠ m))) k = named cs k := by
  induction cs with
  | nil => rfl
  | cons c cs ih =>
    rcases c with ⟨n, c⟩
    rw [filter_cons]
    by_cases hn : n = m
    · have hkn : (k == n) = false := beq_false_of_ne (hn ▸ h)
      rw [if_neg fun hne => absurd hn (of_decide_eq_true hne), ih, named, named, lookup_cons, hkn]
    · rw [if_pos (decide_eq_true hn), named, named, lookup_cons, lookup_cons]
      rw [named, named] at ih
      rw [ih]

theorem distinct_node (hnames : (cs.map Prod.fst).Nodup) (hcs : ∀ c ∈ cs, c.2.Distinct) :
    (node v cs).Distinct := by
  intro p x hx
  cases p with
  | nil =>
    rw [← some.inj hx]
    exact hnames
  | cons k p =>
    rcases bind_eq_some_iff.mp hx with ⟨c, hc, hx⟩
    exact hcs (k, c) (mem_of_child hc) p x hx

/-! ### Insertion -/

/-- Set the child of a name. -/
def put (k : κ) (c : Trie κ β) : List (κ × Trie κ β) → List (κ × Trie κ β)
  | [] => [(k, c)]
  | x :: xs => if x.1 = k then (k, c) :: xs else x :: put k c xs

/-- Set the child of a name of the node at a path. -/
def insert (k : κ) (c : Trie κ β) : List κ → Trie κ β → Option (Trie κ β)
  | [], t => some (node t.val (put k c t.children))
  | a :: p, t =>
    match t.child a with
    | none => none
    | some x => (insert k c p x).map fun x => node t.val (put a x t.children)

theorem named_put (k : κ) (c : Trie κ β) (cs : List (κ × Trie κ β)) (m : κ) :
    named (put k c cs) m = if m = k then some c else named cs m := by
  induction cs with
  | nil =>
    rw [put, named, named, lookup_cons, lookup_nil]
    by_cases hm : m = k
    · rw [if_pos hm, beq_iff_eq.mpr hm]
    · rw [if_neg hm, beq_false_of_ne hm]
  | cons x cs ih =>
    rw [named, named] at ih
    rw [put]
    by_cases hx : x.1 = k
    · rw [if_pos hx, named, named, lookup_cons, lookup_cons, hx]
      by_cases hm : m = k
      · rw [if_pos hm, beq_iff_eq.mpr hm]
      · rw [if_neg hm, beq_false_of_ne hm]
    · rw [if_neg hx, named, named, lookup_cons, lookup_cons, ih]
      by_cases hm : m = k
      · rw [beq_false_of_ne fun heq => hx (heq.symm.trans hm), if_pos hm]
      · rw [if_neg hm, if_neg hm]

theorem mem_names_put {m : κ} : m ∈ (put k c cs).map Prod.fst ↔ m = k ∨ m ∈ cs.map Prod.fst := by
  rw [← not_iff_not, ← named_eq_none, named_put, not_or, ← named_eq_none]
  by_cases hm : m = k
  · rw [if_pos hm]
    exact iff_of_false nofun fun h => h.1 hm
  · rw [if_neg hm]
    exact (and_iff_right hm).symm

theorem nodup_put (h : (cs.map Prod.fst).Nodup) : ((put k c cs).map Prod.fst).Nodup := by
  induction cs with
  | nil => exact nodup_singleton k
  | cons x cs ih =>
    rw [map_cons, nodup_cons] at h
    rw [put]
    by_cases hx : x.1 = k
    · rw [if_pos hx, map_cons, nodup_cons, ← hx]
      exact h
    · rw [if_neg hx, map_cons, nodup_cons, mem_names_put, not_or]
      exact ⟨⟨hx, h.1⟩, ih h.2⟩

theorem insert_of_find (h : t.find p ≠ none) : ∃ t', insert k c p t = some t' := by
  induction p generalizing t with
  | nil => exact ⟨_, rfl⟩
  | cons a p ih =>
    rw [find] at h
    rw [insert]
    cases ha : t.child a with
    | none =>
      rw [ha] at h
      exact absurd rfl h
    | some x =>
      rw [ha] at h
      rcases ih h with ⟨x', hx'⟩
      simp only [hx', map_some]
      exact ⟨_, rfl⟩

theorem insert_cons {k a : κ} (h : insert k c (a :: p) t = some t') :
    ∃ x x', t.child a = some x ∧ insert k c p x = some x' ∧
      t' = node t.val (put a x' t.children) := by
  rw [insert] at h
  rcases ha : t.child a with _ | x
  · simp [ha] at h
  rw [ha] at h
  rcases map_eq_some_iff.mp h with ⟨x', hx', rfl⟩
  exact ⟨x, x', rfl, hx', rfl⟩

theorem child_node_put (v : β) (k : κ) (c : Trie κ β) (cs : List (κ × Trie κ β)) (m : κ) :
    (node v (put k c cs)).child m = if m = k then some c else named cs m := named_put k c cs m

theorem val_insert (h : insert k c p t = some t') : t'.val = t.val := by
  cases p with
  | nil => exact (some.inj h) ▸ rfl
  | cons a p =>
    rcases insert_cons h with ⟨_, _, _, _, rfl⟩
    rfl

theorem distinct_insert (hc : c.Distinct) (ht : t.Distinct) (h : insert k c p t = some t') :
    t'.Distinct := by
  have hput : ∀ {t : Trie κ β} {a : κ} {x : Trie κ β}, t.Distinct → x.Distinct →
      (node t.val (put a x t.children)).Distinct := by
    intro t a x ht hx
    refine distinct_node (nodup_put ht.names) fun y hy => ?_
    have hy' : (node t.val (put a x t.children)).child y.1 = some y.2 :=
      child_of_mem (nodup_put ht.names) hy
    rw [child_node_put] at hy'
    by_cases heq : y.1 = a
    · rw [if_pos heq, some.injEq] at hy'
      exact hy' ▸ hx
    · rw [if_neg heq] at hy'
      exact ht.child hy'
  induction p generalizing t t' with
  | nil =>
    rw [← some.inj h]
    exact hput ht hc
  | cons a p ih =>
    rcases insert_cons h with ⟨x, x', hx, hx', rfl⟩
    exact hput ht (ih (ht.child hx) hx')

theorem data_insert (h : insert k (node v []) p t = some t') (q : List κ) :
    t'.data q = if q = p ++ [k] then some v else if p ++ [k] <+: q then none else t.data q := by
  have hleaf : ∀ r, (node v [] : Trie κ β).data r = if r = [] then some v else none := by
    intro r
    cases r with
    | nil => rfl
    | cons b r => rfl
  induction p generalizing t t' q with
  | nil =>
    rw [← some.inj h]
    rcases q with _ | ⟨m, r⟩
    · rfl
    rw [data_cons, child_node_put]
    by_cases hm : m = k
    · rw [if_pos hm, hm, nil_append]
      refine (hleaf r).trans ?_
      simp
    · have hne : m :: r ≠ [] ++ [k] := fun heq => hm (List.cons.inj heq).1
      have hpre : ¬[] ++ [k] <+: m :: r := fun hpre => hm (cons_prefix_cons.mp hpre).1.symm
      rw [if_neg hm, if_neg hne, if_neg hpre, data_cons]
      rfl
  | cons a p ih =>
    rcases insert_cons h with ⟨x, x', hx, hx', rfl⟩
    rcases q with _ | ⟨m, r⟩
    · rfl
    -- The path goes into the node that was changed, or past it.
    rw [data_cons, child_node_put, cons_append]
    by_cases hm : m = a
    · rw [if_pos hm, hm, data_cons, hx]
      refine (ih hx' r).trans ?_
      simp
    · have hne : m :: r ≠ a :: (p ++ [k]) := fun heq => hm (List.cons.inj heq).1
      have hpre : ¬a :: (p ++ [k]) <+: m :: r := fun hpre => hm (cons_prefix_cons.mp hpre).1.symm
      rw [if_neg hm, if_neg hne, if_neg hpre, data_cons]
      rfl

end Trie

end Lib
