import Dao.Core.Daemon.Names

/-!
# Names and Their Containers

Two renames of one container that overlap leave a name behind, and a rename that
fails may not get its old name back. Without that, a reserved name is the name of
its container or one that the rename of the container in flight still has to
give up.

## Theorems

* `named_rename`, ..., `named_unregister`: Each step keeps the invariant.
* `meets_alone`: Calls that follow one another do not get in each other's way.
* `names_consistent`: The names when nothing is in flight.
* `renamed_twice`: Two renames that overlap leave a name behind.
-/

namespace Dao.Names

open Lib Function

/-- The container that is renamed. -/
@[grind] def Phase.renames : Phase → Option Nat
  | .ready c _ _ | .reserved c _ _ | .released c _ _ | .undone c _ _ => some c
  | _ => none

/-- The names a rename gives up, or may have to take back. -/
@[grind] def Phase.uses : Phase → List Nat
  | .ready _ old _ => [old]
  | .reserved _ old new | .released _ old new | .undone _ old new => [old, new]
  | _ => []

/-- The name that a rename holds besides that of the container. -/
@[grind] def Phase.extra : Phase → Option (Nat × Nat)
  | .reserved c old _ => some (c, old)
  | .undone c _ new => some (c, new)
  | _ => none

/-- A rename in flight holds the name besides that of its container. -/
def Extra (phase : Nat → Phase) (c n : Nat) : Prop := ∃ t, (phase t).extra = some (c, n)

/-- The container is being removed. -/
def Deleted (phase : Nat → Phase) (c : Nat) : Prop := ∃ t, phase t = .deleted c

/-- A rename of a container overlaps neither another one nor the end of its
    removal, and nobody takes a name that a rename in flight uses. -/
def Apart (d : Daemon) : Action → Prop
  | .rename _ c _ => (∀ u, (d.phase u).renames ≠ some c) ∧ ¬ Deleted d.phase c
  | .reserve t => ∀ c old new, d.phase t = .ready c old new → d.names new = none →
    ∀ u, u ≠ t → new ∉ (d.phase u).uses
  | .create _ n => d.names n = none → ∀ u, n ∉ (d.phase u).uses
  | _ => True

structure Named (d : Daemon) : Prop where
  owner : ∀ n c, d.names n = some c → c < d.next ∧ (d.name c = n ∨ Extra d.phase c n)
  registered : ∀ c, d.registered c = true → c < d.next ∧
    (d.names (d.name c) = some c ∨ Deleted d.phase c)
  one : ∀ t u c, (d.phase t).renames = some c → (d.phase u).renames = some c → t = u
  renamed : ∀ t c, (d.phase t).renames = some c → c < d.next ∧ ∀ u, d.phase u ≠ .created c
  ready : ∀ t c old new, d.phase t = .ready c old new → d.name c = old ∧ old ≠ new
  reserved : ∀ t c old new, d.phase t = .reserved c old new → d.name c = new ∧ old ≠ new
  released : ∀ t c old new, d.phase t = .released c old new →
    d.name c = new ∧ old ≠ new ∧ d.names old = none
  undone : ∀ t c old new, d.phase t = .undone c old new → d.name c = old ∧ old ≠ new
  used : ∀ t c n, (d.phase t).renames = some c → n ∈ (d.phase t).uses →
    d.names n = some c ∨ d.names n = none
  disjoint : ∀ t u n, n ∈ (d.phase t).uses → n ∈ (d.phase u).uses → t = u
  created : ∀ t c, d.phase t = .created c → c < d.next ∧ d.registered c = false ∧
    d.names (d.name c) = some c ∧ ∀ u, d.phase u = .created c → u = t

variable {phase : Nat → Phase} {p : Phase} {t c n : Nat}

@[grind →] theorem renames_of_uses (h : n ∈ p.uses) : ∃ c, p.renames = some c := by
  cases p <;> simp_all [Phase.uses, Phase.renames]

@[grind ←] theorem extra_self (h : p.extra = some (c, n)) : Extra (update phase t p) c n :=
  ⟨t, by rwa [update_self]⟩

@[grind ←] theorem extra_other (h : Extra phase c n) (ht : (phase t).extra ≠ some (c, n)) :
    Extra (update phase t p) c n := by
  rcases h with ⟨u, hu⟩
  have hne : u ≠ t := by
    rintro rfl
    exact ht hu
  exact ⟨u, by rwa [update_of_ne hne]⟩

@[grind ←] theorem deleted_self : Deleted (update phase t (.deleted c)) c :=
  ⟨t, update_self ..⟩

@[grind ←] theorem deleted_other (h : Deleted phase c) (ht : phase t ≠ .deleted c) :
    Deleted (update phase t p) c := by
  rcases h with ⟨u, hu⟩
  have hne : u ≠ t := by
    rintro rfl
    exact ht hu
  exact ⟨u, by rwa [update_of_ne hne]⟩

section Steps

variable {d d' : Daemon} {r : Unit} {new : Nat} {ok : Bool} (h : Named d)

include h

/-- A name that a rename uses is reserved for no other container. -/
theorem name_ne_of_uses (hc : (d.phase t).renames = some c) (hn : n ∈ (d.phase t).uses) {x : Nat}
    (hx : d.names (d.name x) = some x) (hne : x ≠ c) : d.name x ≠ n := by
  rintro rfl
  rcases h.used t c _ hc hn with hown | hfree
  · exact hne (Option.some.inj (hx.symm.trans hown))
  · nomatch hx.symm.trans hfree

/-- The container of a rename holds no name besides its own that another call knows of. -/
theorem extra_of_renames (hc : (d.phase t).renames = some c) (hextra : Extra d.phase c n) :
    (d.phase t).extra = some (c, n) := by
  obtain ⟨u, hu⟩ := hextra
  have hrenames : (d.phase u).renames = some c := by
    cases hp : d.phase u with
    | reserved | undone =>
      rw [hp] at hu
      cases hu
      rfl
    | _ =>
      rw [hp] at hu
      nomatch hu
  rw [h.one t u c hc hrenames]
  exact hu

theorem named_idle (hextra : (d.phase t).extra = none) (hlive : ∀ c, d.phase t ≠ .deleted c)
    (locked : Nat → Bool) : Named { d with locked := locked, phase := update d.phase t .idle } := by
  rcases h with ⟨howner, hreg, hone, hrenamed, hready, hreserved, hreleased, hundone, hused,
    hdisjoint, hcreated⟩
  constructor
  case owner =>
    intro n c hn
    exact (howner n c hn).imp_right (Or.imp_right (extra_other · (by rw [hextra]; exact nofun)))
  case registered =>
    intro c hc
    exact (hreg c hc).imp_right (Or.imp_right (deleted_other · (hlive c)))
  all_goals grind -ring -linarith

/-- A container that is given a name holds its old one besides, and no other. -/
theorem owner_given (hc : (d.phase t).renames = some c) (hextra : (d.phase t).extra = none)
    (hp : p.extra = some (c, d.name c)) (given m x : Nat)
    (hm : update d.names given (some c) m = some x) : x < d.next ∧
      (update d.name c given x = m ∨ Extra (update d.phase t p) x m) := by
  by_cases hgiven : m = given
  · rw [hgiven, update_self] at hm
    cases hm
    exact ⟨(h.renamed t c hc).1, .inl ((update_self ..).trans hgiven.symm)⟩
  rw [update_of_ne hgiven] at hm
  obtain ⟨hlt, hname⟩ := h.owner m x hm
  refine ⟨hlt, ?_⟩
  by_cases hx : x = c
  · subst hx
    have hold := hname.resolve_right fun hm => by
      have hnone := extra_of_renames h hc hm
      simp [hextra] at hnone
    exact .inr (extra_self (hold ▸ hp))
  · rw [update_of_ne hx]
    exact hname.imp_right fun hm => extra_other hm (by simp [hextra])

/-- A name that a rename frees is that of no container. -/
theorem registered_freed (hc : (d.phase t).renames = some c) (hn : n ∈ (d.phase t).uses)
    (hname : d.name c ≠ n) {x : Nat} (hx : d.registered x = true) : x < d.next ∧
      (update d.names n none (d.name x) = some x ∨ Deleted (update d.phase t p) x) := by
  refine (h.registered x hx).imp_right (Or.imp (fun hown => ?_) fun hdel => deleted_other hdel ?_)
  · have hne : d.name x ≠ n := by
      by_cases hxc : x = c
      · rwa [hxc]
      · exact name_ne_of_uses h hc hn hown hxc
    rwa [update_of_ne hne]
  · rintro heq
    rw [heq] at hc
    nomatch hc

/-- The name that a rename has read is used by no other. -/
theorem named_rename (hC : Apart d (.rename t c new))
    (hstep : step (.rename t c new) d = .ok (r, d')) : Named d' := by
  simp only [step, Daemon.goto] at hstep
  split_ifs at hstep with hif
  cases hstep
  obtain ⟨halone, hlive⟩ : (∀ u, (d.phase u).renames ≠ some c) ∧ ¬ Deleted d.phase c := hC
  have hown : d.names (d.name c) = some c := (h.registered c hif.2.1).2.resolve_right hlive
  -- No rename of another container uses the name, and there is none of this one.
  have hunused : ∀ u, d.name c ∉ (d.phase u).uses := by
    intro u hu
    obtain ⟨x, hx⟩ := renames_of_uses hu
    exact name_ne_of_uses h hx hu hown (fun heq => halone u (heq ▸ hx)) rfl
  rcases h with ⟨howner, hreg, hone, hrenamed, hready, hreserved, hreleased, hundone, hused,
    hdisjoint, hcreated⟩
  constructor
  case used =>
    intro u x n hx hn
    dsimp only at hx hn ⊢
    by_cases hut : u = t
    · rw [hut, update_self] at hx hn
      cases hx
      exact .inl (List.mem_singleton.mp hn ▸ hown)
    · rw [update_of_ne hut] at hx hn
      exact hused u x n hx hn
  case disjoint =>
    intro u v n hu hv
    dsimp only at hu hv
    by_cases hut : u = t <;> by_cases hvt : v = t
    · exact hut.trans hvt.symm
    · rw [hut, update_self] at hu
      rw [update_of_ne hvt, List.mem_singleton.mp hu] at hv
      exact absurd hv (hunused v)
    · rw [hvt, update_self] at hv
      rw [update_of_ne hut, List.mem_singleton.mp hv] at hu
      exact absurd hu (hunused u)
    · rw [update_of_ne hut] at hu
      rw [update_of_ne hvt] at hv
      exact hdisjoint u v n hu hv
  all_goals grind -ring -linarith

/-- The container gets the new name, and the old one is what its rename holds besides. -/
theorem named_reserve (hC : Apart d (.reserve t)) (hstep : step (.reserve t) d = .ok (r, d')) :
    Named d' := by
  simp only [step, Daemon.goto] at hstep
  split at hstep
  · next c old new ht =>
    have hC : d.names new = none → ∀ u, u ≠ t → new ∉ (d.phase u).uses := hC c old new ht
    split_ifs at hstep with hlocked hfree
    · cases hstep
      have hgiven := owner_given h (c := c) (t := t) (p := .reserved c old new) (by rw [ht]; rfl)
        (by rw [ht]; rfl) (by rw [(h.ready t c old new ht).1]; rfl) new
      rcases h with ⟨howner, hreg, hone, hrenamed, hready, hreserved, hreleased, hundone, hused,
        hdisjoint, hcreated⟩
      constructor
      case owner => exact hgiven
      all_goals grind -ring -linarith
    · cases hstep
      exact named_idle h (by rw [ht]; rfl) (fun _ => by rw [ht]; exact nofun) d.locked
  · nomatch hstep

/-- The old name is free, and no other container had it. -/
theorem named_release (hstep : step (.release t) d = .ok (r, d')) : Named d' := by
  simp only [step, Daemon.goto] at hstep
  split at hstep
  · next c old new ht =>
    cases hstep
    obtain ⟨hname, hne⟩ := h.reserved t c old new ht
    have hfreed := fun x => registered_freed h (c := c) (t := t) (n := old) (x := x)
      (p := .released c old new) (by rw [ht]; rfl) (by simp [ht, Phase.uses])
      (by rw [hname]; exact hne.symm)
    rcases h with ⟨howner, hreg, hone, hrenamed, hready, hreserved, hreleased, hundone, hused,
      hdisjoint, hcreated⟩
    constructor
    case owner =>
      intro n x hn
      dsimp only at hn ⊢
      -- The freed name is owned by nobody, and nobody else held it besides.
      have hne : n ≠ old := by
        rintro rfl
        rw [update_self] at hn
        nomatch hn
      rw [update_of_ne hne] at hn
      refine (howner n x hn).imp_right (Or.imp_right fun hextra => extra_other hextra ?_)
      rw [ht]
      rintro ⟨⟩
      exact hne rfl
    case registered => exact hfreed
    all_goals grind -ring -linarith
  · nomatch hstep

/-- If the disk fails, the container has its old name again and holds the new one
    besides. -/
theorem named_persist (hstep : step (.persist t ok) d = .ok (r, d')) : Named d' := by
  simp only [step, Daemon.goto] at hstep
  split at hstep
  · next c old new ht =>
    obtain ⟨hname, hne, hfree⟩ := h.released t c old new ht
    split_ifs at hstep
    · cases hstep
      exact named_idle h (by rw [ht]; rfl) (fun _ => by rw [ht]; exact nofun) _
    · cases hstep
      have hgiven := owner_given h (c := c) (t := t) (p := .undone c old new) (by rw [ht]; rfl)
        (by rw [ht]; rfl) (by rw [hname]; rfl) old
      rcases h with ⟨howner, hreg, hone, hrenamed, hready, hreserved, hreleased, hundone, hused,
        hdisjoint, hcreated⟩
      constructor
      case owner => exact hgiven
      all_goals grind -ring -linarith
  · nomatch hstep

/-- The new name is free again, and no other container had it. -/
theorem named_rollback (hstep : step (.rollback t) d = .ok (r, d')) : Named d' := by
  simp only [step, Daemon.goto] at hstep
  split at hstep
  · next c old new ht =>
    cases hstep
    obtain ⟨hname, hne⟩ := h.undone t c old new ht
    have hfreed := fun x => registered_freed h (c := c) (t := t) (n := new) (x := x)
      (p := .idle) (by rw [ht]; rfl) (by simp [ht, Phase.uses]) (by rw [hname]; exact hne)
    rcases h with ⟨howner, hreg, hone, hrenamed, hready, hreserved, hreleased, hundone, hused,
      hdisjoint, hcreated⟩
    constructor
    case registered => exact hfreed
    all_goals grind -ring -linarith
  · nomatch hstep

theorem named_create (hC : Apart d (.create t n)) (hstep : step (.create t n) d = .ok (r, d')) :
    Named d' := by
  have hC : d.names n = none → ∀ u, n ∉ (d.phase u).uses := hC
  simp only [step, Daemon.goto] at hstep
  split_ifs at hstep with hbusy hfree
  · cases hstep
    exact h
  · cases hstep
    rcases h with ⟨howner, hreg, hone, hrenamed, hready, hreserved, hreleased, hundone, hused,
      hdisjoint, hcreated⟩
    constructor
    case owner =>
      intro m c hm
      dsimp only at hm ⊢
      by_cases hmn : m = n
      · rw [hmn, update_self] at hm
        cases hm
        exact ⟨Nat.lt_succ_self _, .inl ((update_self ..).trans hmn.symm)⟩
      · -- The new container is none of those there are.
        rw [update_of_ne hmn] at hm
        obtain ⟨hlt, hname⟩ := howner m c hm
        rw [update_of_ne hlt.ne]
        refine ⟨hlt.trans (Nat.lt_succ_self _), hname.imp_right (extra_other · ?_)⟩
        rw [not_not.mp hbusy]
        exact nofun
    all_goals grind -ring -linarith

theorem named_register (hstep : step (.register t ok) d = .ok (r, d')) : Named d' := by
  simp only [step, Daemon.goto, Daemon.deleteNames] at hstep
  split at hstep
  · next c ht =>
    -- Nobody renames a container that is not registered yet.
    have hnone : ∀ u, (d.phase u).renames ≠ some c := fun u hu => (h.renamed u c hu).2 t ht
    rcases h with ⟨howner, hreg, hone, hrenamed, hready, hreserved, hreleased, hundone, hused,
      hdisjoint, hcreated⟩
    obtain ⟨hlt, hunreg, hown, hmine⟩ := hcreated t c ht
    split_ifs at hstep
    · cases hstep
      constructor
      case registered =>
        intro x hx
        dsimp only at hx ⊢
        by_cases hxc : x = c
        · exact hxc ▸ ⟨hlt, .inl hown⟩
        · rw [update_of_ne hxc] at hx
          refine (hreg x hx).imp_right (Or.imp_right (deleted_other · ?_))
          rw [ht]
          exact nofun
      all_goals grind -ring -linarith
    · cases hstep
      constructor
      case registered =>
        intro x hx
        -- The names given up are those of a container nobody knows.
        have hxc : x ≠ c := fun heq => by nomatch (heq ▸ hx).symm.trans hunreg
        refine (hreg x hx).imp_right (Or.imp (fun hn => ?_) (deleted_other · ?_))
        · dsimp only
          rw [if_neg (fun heq => hxc (Option.some.inj (hn.symm.trans heq)))]
          exact hn
        · rw [ht]
          exact nofun
      all_goals grind -ring -linarith
  · nomatch hstep

theorem named_delete (hstep : step (.delete t c) d = .ok (r, d')) : Named d' := by
  simp only [step, Daemon.goto, Daemon.deleteNames] at hstep
  split_ifs at hstep with hif
  cases hstep
  rcases h with ⟨howner, hreg, hone, hrenamed, hready, hreserved, hreleased, hundone, hused,
    hdisjoint, hcreated⟩
  constructor
  case registered =>
    intro x hx
    dsimp only at hx ⊢
    refine ⟨(hreg x hx).1, ?_⟩
    by_cases hxc : x = c
    · exact .inr (hxc ▸ deleted_self)
    · refine (hreg x hx).2.imp (fun hn => ?_) fun hdel => deleted_other hdel (by simp [hif.1])
      rw [if_neg (fun heq => hxc (Option.some.inj (hn.symm.trans heq)))]
      exact hn
  all_goals grind -ring -linarith

theorem named_unregister (hstep : step (.unregister t) d = .ok (r, d')) : Named d' := by
  simp only [step, Daemon.goto] at hstep
  split at hstep
  · next c ht =>
    cases hstep
    rcases h with ⟨howner, hreg, hone, hrenamed, hready, hreserved, hreleased, hundone, hused,
      hdisjoint, hcreated⟩
    constructor
    case registered =>
      intro x hx
      -- The others are registered as before.
      dsimp only at hx ⊢
      have hne : x ≠ c := by
        rintro rfl
        rw [update_self] at hx
        nomatch hx
      rw [update_of_ne hne] at hx
      refine (hreg x hx).imp_right (Or.imp_right fun hdel => deleted_other hdel ?_)
      rw [ht]
      rintro ⟨⟩
      exact hne rfl
    all_goals grind -ring -linarith
  · nomatch hstep

end Steps

theorem step_named (a : Action) (d : Daemon) (r : Unit) (d' : Daemon) (h : Named d)
    (hC : Apart d a) (hstep : step a d = .ok (r, d')) : Named d' := by
  cases a with
  | rename => exact named_rename h hC hstep
  | reserve => exact named_reserve h hC hstep
  | release => exact named_release h hstep
  | persist => exact named_persist h hstep
  | rollback => exact named_rollback h hstep
  | create => exact named_create h hC hstep
  | register => exact named_register h hstep
  | delete => exact named_delete h hstep
  | unregister => exact named_unregister h hstep

/-- When nothing is in flight, the name of every container that is registered is
    reserved for it, and a name is reserved only for a container that has it. -/
theorem names_consistent (as : List Action) (rs : List Unit) (d : Daemon)
    (hmeets : Meets step Apart as initial) (hrun : run step as initial = .ok (rs, d))
    (hquiet : ∀ t, d.phase t = .idle) :
    (∀ c, d.registered c = true → d.names (d.name c) = some c) ∧
    ∀ n c, d.names n = some c → d.name c = n := by
  have hinit : Named initial :=
    ⟨nofun, nofun, nofun, nofun, nofun, nofun, nofun, nofun, nofun, nofun, nofun⟩
  have h := run_invariant_of_meets Apart Named step_named as initial d rs hinit hmeets hrun
  refine ⟨fun c hc => (h.registered c hc).2.resolve_right ?_,
    fun n c hn => (h.owner n c hn).2.resolve_right ?_⟩
  · rintro ⟨t, ht⟩
    simp [hquiet t] at ht
  · rintro ⟨t, ht⟩
    rw [hquiet t] at ht
    nomatch ht

/-- The call that takes a step. -/
def Action.thread : Action → Nat
  | .rename t _ _ | .reserve t | .release t | .persist t _ | .rollback t | .create t _
  | .register t _ | .delete t _ | .unregister t => t

/-- A step changes the phase of its own call. -/
theorem step_phase {a : Action} {d d' : Daemon} {r : Unit} (hstep : step a d = .ok (r, d'))
    {u : Nat}
    (hu : u ≠ a.thread) : d'.phase u = d.phase u := by
  cases a <;> simp only [step, Action.thread] at hstep hu
  all_goals
    split at hstep
    all_goals try split at hstep
    all_goals try split at hstep
    all_goals cases hstep
    all_goals first
      | rfl
      | exact update_of_ne hu _ _

theorem meets_alone (as : List Action) (ht : ∀ a ∈ as, a.thread = t) : ∀ {d : Daemon},
    (∀ u, u ≠ t → d.phase u = .idle) → (run step as d).isOk = true → Meets step Apart as d := by
  induction as with
  | nil => exact fun _ _ => trivial
  | cons a as ih =>
    intro d hidle hok
    obtain ⟨rs, d', hrun⟩ := exists_run hok
    obtain ⟨r, d₁, rs', hstep, hrest, -⟩ := run_cons hrun
    obtain ⟨rfl, hthreads⟩ := List.forall_mem_cons.mp ht
    -- A call begins while all are idle, so the other calls use no names.
    refine ⟨?_, fun r₂ d₂ hstep₂ => ?_⟩
    · cases a with
      | rename t c new =>
        simp only [step] at hstep
        split_ifs at hstep with hif
        have hall : ∀ u, d.phase u = .idle := fun u => by
          by_cases hu : u = t
          · exact hu ▸ hif.1
          · exact hidle u hu
        exact ⟨fun u => by rw [hall u]; exact nofun,
          fun ⟨u, hu⟩ => by nomatch (hall u).symm.trans hu⟩
      | reserve t =>
        intro c old new _ _ u hu
        rw [hidle u hu]
        exact List.not_mem_nil
      | create t n =>
        intro _ u
        by_cases hu : u = t
        · simp only [step] at hstep
          split_ifs at hstep with hbusy <;> rw [hu, not_not.mp hbusy] <;> exact List.not_mem_nil
        · rw [hidle u hu]
          exact List.not_mem_nil
      | _ => exact trivial
    · cases hstep.symm.trans hstep₂
      refine ih hthreads (fun u hu => (step_phase hstep hu).trans (hidle u hu)) ?_
      rw [hrest]
      rfl

/-- A container is created and renamed, and a second rename of it is rolled back. -/
def twoRenames : List Action :=
  [.create 0 1, .register 0 true, .rename 0 0 2, .reserve 0, .release 0, .persist 0 true,
    .rename 0 0 3, .reserve 0, .release 0, .persist 0 false, .rollback 0]

theorem names_consistent_renamed : ∃ rs d, run step twoRenames initial = .ok (rs, d) ∧
    d.registered 0 = true ∧ d.name 0 = 2 ∧ d.names 2 = some 0 ∧ d.names 3 = none := by
  have hok : (run step twoRenames initial).isOk = true := rfl
  have hmeets := meets_alone (t := 0) twoRenames (by simp [twoRenames, Action.thread])
    (fun _ _ => rfl) hok
  refine ⟨_, _, rfl, rfl, rfl, (names_consistent twoRenames _ _ hmeets rfl fun t => ?_).1 0 rfl,
    rfl⟩
  by_cases ht : t = 0
  · rw [ht]
    rfl
  · simp [initial, Daemon.goto]

/-- Both renames read the name 1, and the name 2 that the first one gives is never
    released. -/
theorem renamed_twice : ∃ d, run step
      [.create 0 1, .register 0 true, .rename 0 0 2, .rename 1 0 3, .reserve 0, .release 0,
        .persist 0 true, .reserve 1, .release 1, .persist 1 true] initial =
        .ok ([(), (), (), (), (), (), (), (), (), ()], d) ∧
    d.phase 0 = .idle ∧ d.phase 1 = .idle ∧ d.name 0 = 3 ∧ d.names 2 = some 0 :=
  ⟨_, rfl, rfl, rfl, rfl, rfl⟩

end Dao.Names
