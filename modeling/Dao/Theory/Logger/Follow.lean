import Dao.Core.Logger.Follow

/-!
# What a Follower Sees

A message that is written between the tail read and the seek to the end is lost,
and so is what is in the old file when the `select` takes the rotation. If the
writer avoids both, the follower misses nothing.

## Theorems

* `sound_write`, ..., `step_sound`: What a step preserves.
* `delivered_of_sound`: What a sound reader has been given.
* `follow_contiguous`: What a follower sees.
* `unseen_before_seek`: A message that is lost.
-/

namespace Dao.Logger

open Lib List Nat

/-- All messages from some one on, up to `e`. -/
def Upto (l : List Nat) (e : Nat) : Prop := ∃ a ≤ e, l = range' a (e - a)

variable {l l₁ l₂ : List Nat} {e m : Nat}

theorem upto_nil (e : Nat) : Upto [] e := ⟨e, Nat.le_refl e, by rw [Nat.sub_self]; rfl⟩

theorem upto_append (h : Upto l m) (hm : m ≤ e) : Upto (l ++ range' m (e - m)) e := by
  rcases h with ⟨a, ha, rfl⟩
  refine ⟨a, by omega, ?_⟩
  have happend := range'_append_1 (s := a) (m := m - a) (n := e - m)
  rw [show a + (m - a) = m by omega, show m - a + (e - m) = e - a by omega] at happend
  exact happend

theorem upto_right (h : Upto (l₁ ++ l₂) e) : Upto l₂ e := by
  rcases h with ⟨a, ha, heq⟩
  have hdrop := congrArg (drop l₁.length) heq
  have hlen := congrArg length heq
  rw [drop_left, drop_range'] at hdrop
  rw [length_append, length_range'] at hlen
  exact ⟨a + l₁.length, by omega, by rw [hdrop]; congr 1 <;> omega⟩

/-- Nothing is written between the tail read and the seek, if there is a tail. The
    file is rotated, with one to rename to, only when the follower has not begun or
    has read everything. -/
def Calm (s : Log) : Action → Prop
  | .write => 0 < s.tail → ∀ f pos, s.phase ≠ .tailed f pos
  | .rotate => 2 ≤ s.maxFiles ∧ (s.phase = .idle ∨ s.phase = .closed ∨
    ∃ pos, s.phase.place = some (s.current, pos) ∧ s.start s.current + pos = s.stop s.current)
  | .openFiles => s.publishing = false
  | _ => True

/-- The reader has a place in the current file, and the messages before it. -/
def Log.At (s : Log) (f pos : Nat) : Prop :=
  f = s.current ∧ s.start f + pos ≤ s.stop f ∧ Upto s.delivered (s.start f + pos) ∧
    s.notifyRotate = false ∧ s.publishing = false

def Log.Reads (s : Log) : Phase → Prop
  | .idle => s.delivered = [] ∧ s.notifyRotate = false
  | .opened files f => files = s.rotated.reverse ∧ f = s.current ∧ s.delivered = [] ∧
    s.notifyRotate = false ∧ s.publishing = false
  | .tailed f pos => f = s.current ∧ s.start f + pos ≤ s.stop f ∧
    (s.tail = 0 → s.delivered = []) ∧ (s.tail ≠ 0 → Upto s.delivered (s.start f + pos)) ∧
    (0 < s.tail → s.start f + pos = s.stop f) ∧ s.notifyRotate = false ∧ s.publishing = false
  | .sought f pos => s.At f pos
  -- Once the file is rotated, the one that is followed has been read.
  | .following f pos | .waiting f pos => s.At f pos ∨ f < s.current ∧
    s.stop f ≤ s.start f + pos ∧ Upto s.delivered (s.start s.current) ∧
    s.notifyRotate ≠ s.publishing
  | .closed => ∃ e ≤ s.stop s.current, Upto s.delivered e

structure Sound (s : Log) : Prop where
  order : s.start s.current ≤ s.stop s.current
  older : ∀ f ∈ s.rotated, f < s.current
  old : Upto (s.rotated.reverse.flatMap s.messages) (s.start s.current)
  reads : s.Reads s.phase

theorem upto_congr {s s' : Log} (h : Upto (l.flatMap s.messages) e)
    (hsame : ∀ f ∈ l, s'.start f = s.start f ∧ s'.stop f = s.stop f) :
    Upto (l.flatMap s'.messages) e := by
  have heq : l.flatMap s'.messages = l.flatMap s.messages := flatMap_congr fun f hf => by
    rw [Log.messages, Log.messages, (hsame f hf).1, (hsame f hf).2]
  rw [heq]
  exact h

theorem sound_all {s : Log} (h : Sound s) :
    Upto ((s.current :: s.rotated).reverse.flatMap s.messages) (s.stop s.current) := by
  rw [reverse_cons, flatMap_append, flatMap_singleton]
  exact upto_append h.old h.order

section Steps

variable {s s' : Log} {r : Unit} (h : Sound s)

include h

theorem sound_write (hC : Calm s .write) (hstep : step .write s = .ok (r, s')) : Sound s' := by
  rcases h with ⟨order, older, old, reads⟩
  simp only [step] at hstep
  split_ifs at hstep
  cases hstep
  have hstop : Function.update s.stop s.current (s.stop s.current + 1) s.current =
    s.stop s.current + 1 := Function.update_self ..
  have hat : ∀ f pos, s.At f pos → f = s.current ∧ s.start f + pos ≤
      Function.update s.stop s.current (s.stop s.current + 1) f ∧
      Upto s.delivered (s.start f + pos) ∧ s.notifyRotate = false ∧ s.publishing = false := by
    rintro f pos ⟨rfl, hle, hrest⟩
    exact ⟨rfl, by omega, hrest⟩
  refine ⟨by dsimp only; omega, older, upto_congr old (fun f hf => ⟨rfl, ?_⟩), ?_⟩
  · exact Function.update_of_ne (Nat.ne_of_lt (older f (mem_reverse.mp hf))) ..
  · cases hp : s.phase with rw [hp] at reads
    | idle | opened => exact reads
    | tailed f pos =>
      obtain ⟨rfl, hle, hzero, hupto, -, hflags⟩ := reads
      -- With a tail, the write would be lost.
      exact ⟨rfl, by dsimp only; omega, hzero, hupto, fun ht => absurd hp (hC ht _ _), hflags⟩
    | sought f pos => exact hat f pos reads
    | following f pos | waiting f pos =>
      refine reads.imp (hat f pos) fun ⟨hf, hread, hrest⟩ => ⟨hf, ?_, hrest⟩
      dsimp only
      rw [Function.update_of_ne (Nat.ne_of_lt hf)]
      exact hread
    | closed =>
      obtain ⟨e, he, hupto⟩ := reads
      exact ⟨e, by dsimp only; omega, hupto⟩

theorem sound_rotate (hC : Calm s .rotate) (hstep : step .rotate s = .ok (r, s')) : Sound s' := by
  have hall := sound_all h
  rcases h with ⟨order, older, old, reads⟩
  rcases hC with ⟨hfiles, hC⟩
  simp only [step] at hstep
  split_ifs at hstep
  · omega
  cases hstep
  have hle : ∀ f ∈ (s.current :: s.rotated).take (s.maxFiles - 1), f < s.current + 1 := by
    intro f hf
    rcases mem_cons.mp (mem_of_mem_take hf) with rfl | hf
    · omega
    · exact lt_succ_of_lt (older f hf)
  rw [← take_append_drop (s.maxFiles - 1) (s.current :: s.rotated), reverse_append,
    flatMap_append] at hall
  refine ⟨?_, hle, ?_, ?_⟩
  · dsimp only
    rw [Function.update_self, Function.update_self]
  · simp only [Function.update_self]
    refine upto_congr (upto_right hall) fun f hf => ?_
    have hne := Nat.ne_of_lt (hle f (mem_reverse.mp hf))
    exact ⟨Function.update_of_ne hne .., Function.update_of_ne hne ..⟩
  · rcases hC with hp | hp | ⟨pos, hplace, hread⟩
    · rw [hp] at reads ⊢
      exact reads
    · rw [hp] at reads ⊢
      obtain ⟨e, he, hupto⟩ := reads
      refine ⟨e, ?_, hupto⟩
      dsimp only
      rw [Function.update_self]
      exact he
    · -- The follower has read the file that is renamed, and waits for the event.
      have hne : s.current ≠ s.current + 1 := Nat.ne_of_lt (Nat.lt_succ_self _)
      have hbehind : s.At s.current pos → s.current < s.current + 1 ∧
          Function.update s.stop (s.current + 1) (s.stop s.current) s.current ≤
            Function.update s.start (s.current + 1) (s.stop s.current) s.current + pos ∧
          Upto s.delivered
            (Function.update s.start (s.current + 1) (s.stop s.current) (s.current + 1)) ∧
          s.notifyRotate ≠ true := by
        rintro ⟨-, -, hupto, hflag, -⟩
        rw [Function.update_of_ne hne, Function.update_of_ne hne, Function.update_self]
        exact ⟨Nat.lt_succ_self _, Nat.le_of_eq hread.symm, hread ▸ hupto, by simp [hflag]⟩
      cases hp : s.phase with rw [hp] at reads hplace
      | following f _ | waiting f _ =>
        cases hplace
        exact .inr (hbehind (reads.resolve_right fun hold => Nat.lt_irrefl _ hold.1))
      | _ => nomatch hplace

theorem sound_publish (hstep : step .publish s = .ok (r, s')) : Sound s' := by
  rcases h with ⟨order, older, old, reads⟩
  simp only [step] at hstep
  split_ifs at hstep with hpub
  cases hstep
  have hat : ∀ f pos, ¬ s.At f pos := fun f pos hat => by nomatch hpub.symm.trans hat.2.2.2.2
  refine ⟨order, older, old, ?_⟩
  cases hp : s.phase with rw [hp] at reads
  | idle => exact ⟨reads.1, by simp [reads.2, Phase.place]⟩
  | opened => nomatch hpub.symm.trans reads.2.2.2.2
  | tailed => nomatch hpub.symm.trans reads.2.2.2.2.2.2
  | sought => exact absurd reads (hat _ _)
  | following | waiting =>
    obtain ⟨hf, hread, hupto, -⟩ := reads.resolve_left (hat _ _)
    exact .inr ⟨hf, hread, hupto, by simp [Phase.place]⟩
  | closed => exact reads

theorem sound_tailFile (hstep : step .tailFile s = .ok (r, s')) : Sound s' := by
  have hall := sound_all h
  rcases h with ⟨order, older, old, reads⟩
  simp only [step] at hstep
  split at hstep
  · next files f hp =>
    rw [hp] at reads
    rcases reads with ⟨rfl, rfl, hnone, hreads⟩
    by_cases htail : s.tail = 0
    · rw [if_pos htail] at hstep
      cases hstep
      exact ⟨order, older, old, by simp only [Log.Reads]; grind⟩
    rw [if_neg htail] at hstep
    cases hstep
    -- The tail read ends at the end of the latest file, where the seek will be.
    have hstop : s.start s.current + (s.stop s.current - s.start s.current) = s.stop s.current :=
      add_sub_of_le order
    refine ⟨order, older, old, rfl, Nat.le_of_eq hstop, fun hc => absurd hc htail, fun _ => ?_,
      fun _ => hstop, hreads⟩
    simp only [hstop]
    split_ifs
    · rw [← reverse_cons]
      exact hall
    · rw [reverse_cons, ← take_append_drop (_ - s.tail.toNat) (flatMap s.messages _)] at hall
      exact upto_right hall
  · nomatch hstep

theorem sound_decode (hstep : step .decode s = .ok (r, s')) : Sound s' := by
  rcases h with ⟨order, older, old, reads⟩
  simp only [step] at hstep
  split at hstep
  · next f pos hp =>
    rw [hp] at reads
    split_ifs at hstep with hmore
    · cases hstep
      rcases reads with ⟨hf, _, hupto, hflags⟩ | ⟨_, hread, _⟩
      · have happend := upto_append (e := s.start f + pos + 1) hupto (le_succ _)
        rw [Nat.add_sub_cancel_left] at happend
        exact ⟨order, older, old, .inl ⟨hf, hmore, happend, hflags⟩⟩
      · omega
    · cases hstep
      exact ⟨order, older, old, reads⟩
  · nomatch hstep

theorem sound_openFiles (hC : Calm s .openFiles) (hstep : step .openFiles s = .ok (r, s')) :
    Sound s' := by
  rcases h with ⟨order, older, old, reads⟩
  simp only [step] at hstep
  split at hstep
  · next hp =>
    cases hstep
    rw [hp] at reads
    exact ⟨order, older, old, rfl, rfl, reads.1, reads.2, hC⟩
  · nomatch hstep

theorem sound_seek (hstep : step .seek s = .ok (r, s')) : Sound s' := by
  rcases h with ⟨order, older, old, reads⟩
  simp only [step] at hstep
  split at hstep
  · next f pos hp =>
    cases hstep
    rw [hp] at reads
    obtain ⟨rfl, hle, hzero, hupto, hseek, hflags⟩ := reads
    refine ⟨order, older, old, rfl, ?_, ?_, hflags⟩
    · dsimp only
      split_ifs <;> omega
    · dsimp only
      split_ifs with htail
      · rcases htail.eq_or_lt with htail | htail
        · rw [hzero htail.symm]
          exact upto_nil _
        · -- The end is where the tail read has stopped.
          rw [add_sub_of_le order, ← hseek htail]
          exact hupto htail.ne'
      · exact hupto (by omega)
  · nomatch hstep

theorem sound_subscribe (hstep : step .subscribe s = .ok (r, s')) : Sound s' := by
  rcases h with ⟨order, older, old, reads⟩
  simp only [step] at hstep
  split at hstep
  · next hp =>
    cases hstep
    rw [hp] at reads
    exact ⟨order, older, old, .inl reads⟩
  · nomatch hstep

theorem sound_select {a : Action} (ha : a = .event ∨ a = .reopen ∨ a = .close)
    (hstep : step a s = .ok (r, s')) : Sound s' := by
  rcases h with ⟨order, older, old, reads⟩
  rcases ha with rfl | rfl | rfl
  all_goals
    simp only [step] at hstep
    split at hstep
    on_goal 2 => nomatch hstep
    rename_i f pos hp
    rw [hp] at reads
  · cases hstep
    exact ⟨order, older, old, reads⟩
  · split_ifs at hstep with hnotify
    cases hstep
    -- An event is there, so that the file was read to its end.
    obtain ⟨-, -, hupto, hflags⟩ := reads.resolve_left fun hat => by
      nomatch hnotify.symm.trans hat.2.2.2.1
    exact ⟨order, older, old, .inl ⟨rfl, order, hupto, rfl, by simpa [hnotify] using hflags⟩⟩
  · cases hstep
    rcases reads with ⟨rfl, hle, hupto, -⟩ | ⟨-, -, hupto, -⟩
    · exact ⟨order, older, old, _, hle, hupto⟩
    · exact ⟨order, older, old, _, order, hupto⟩

end Steps

theorem step_sound (a : Action) (s : Log) (r : Unit) (s' : Log) (h : Sound s) (hC : Calm s a)
    (hstep : step a s = .ok (r, s')) : Sound s' := by
  cases a with
  | write => exact sound_write h hC hstep
  | rotate => exact sound_rotate h hC hstep
  | tailFile => exact sound_tailFile h hstep
  | decode => exact sound_decode h hstep
  | publish => exact sound_publish h hstep
  | openFiles => exact sound_openFiles h hC hstep
  | seek => exact sound_seek h hstep
  | subscribe => exact sound_subscribe h hstep
  | event => exact sound_select h (.inl rfl) hstep
  | reopen => exact sound_select h (.inr (.inl rfl)) hstep
  | close => exact sound_select h (.inr (.inr rfl)) hstep

/-- The follower has nothing to read, and no rotation is announced or under way. -/
def Log.CaughtUp (s : Log) : Prop := ∃ f pos, s.phase.place = some (f, pos) ∧
  s.stop f ≤ s.start f + pos ∧ s.notifyRotate = false ∧ s.publishing = false

theorem delivered_of_sound {s : Log} (h : Sound s) : ∃ e ≤ s.stop s.current, Upto s.delivered e ∧
    (s.CaughtUp → e = s.stop s.current) := by
  rcases h with ⟨order, older, old, reads⟩
  have hnone : s.delivered = [] → ∃ e ≤ s.stop s.current, Upto s.delivered e ∧
      (s.CaughtUp → e = s.stop s.current) := fun hd =>
    ⟨s.stop s.current, Nat.le_refl _, hd ▸ upto_nil _, fun _ => rfl⟩
  cases hp : s.phase with rw [hp] at reads
  | idle => exact hnone reads.1
  | opened => exact hnone reads.2.2.1
  | tailed f pos =>
    obtain ⟨rfl, hle, hzero, hupto, -⟩ := reads
    by_cases htail : s.tail = 0
    · exact hnone (hzero htail)
    · exact ⟨_, hle, hupto htail, by rw [Log.CaughtUp, hp]; rintro ⟨_, _, ⟨⟩, _⟩⟩
  | sought f pos =>
    obtain ⟨rfl, hle, hupto, -⟩ := reads
    exact ⟨_, hle, hupto, by rw [Log.CaughtUp, hp]; rintro ⟨_, _, ⟨⟩, _⟩⟩
  | following f pos | waiting f pos =>
    rcases reads with ⟨rfl, hle, hupto, -⟩ | ⟨-, -, hupto, hflags⟩
    · refine ⟨_, hle, hupto, ?_⟩
      rw [Log.CaughtUp, hp]
      rintro ⟨_, _, ⟨⟩, hread, -⟩
      exact Nat.le_antisymm hle hread
    · refine ⟨_, order, hupto, ?_⟩
      -- A rotation is announced or under way.
      rintro ⟨_, _, -, -, hnotify, hpub⟩
      exact absurd (hnotify.trans hpub.symm) hflags
  | closed =>
    obtain ⟨e, he, hupto⟩ := reads
    exact ⟨e, he, hupto, by rw [Log.CaughtUp, hp]; rintro ⟨_, _, ⟨⟩, _⟩⟩

/-- What is delivered are the messages from some one on, without a gap, and all of
    them when the follower has caught up. -/
theorem follow_contiguous (maxFiles : Nat) (tail : Int) (as : List Action) (rs : List Unit)
    (s : Log)
    (hmeets : Meets step Calm as (initial maxFiles tail))
    (hrun : run step as (initial maxFiles tail) = .ok (rs, s)) :
    ∃ i n, s.delivered = range' i n ∧ i + n ≤ s.stop s.current ∧
      (s.CaughtUp → i + n = s.stop s.current) := by
  have hinit : Sound (initial maxFiles tail) :=
    ⟨Nat.le_refl _, nofun, upto_nil _, rfl, rfl⟩
  have h := run_invariant_of_meets Calm Sound step_sound as _ s rs hinit hmeets hrun
  rcases delivered_of_sound h with ⟨e, he, ⟨a, ha, hd⟩, hcaught⟩
  have heq : a + (e - a) = e := by omega
  exact ⟨a, e - a, hd, by omega, fun hc => by rw [heq]; exact hcaught hc⟩

def Phase.isTailed : Phase → Bool
  | .tailed _ _ => true
  | _ => false

theorem calm_write_iff (s : Log) : Calm s .write ↔ (0 < s.tail → s.phase.isTailed = false) := by
  cases hp : s.phase <;> simp [Calm, hp, Phase.isTailed]

theorem calm_rotate_iff (s : Log) : Calm s .rotate ↔ 2 ≤ s.maxFiles ∧ (s.phase = .idle ∨
    s.phase = .closed ∨ s.start s.current ≤ s.stop s.current ∧
      s.phase.place = some (s.current, s.stop s.current - s.start s.current)) := by
  refine and_congr_right fun _ => or_congr_right (or_congr_right ⟨?_, ?_⟩)
  · rintro ⟨pos, hplace, hread⟩
    exact ⟨by omega, by rw [hplace, ← hread, Nat.add_sub_cancel_left]⟩
  · rintro ⟨hle, hplace⟩
    exact ⟨_, hplace, add_sub_of_le hle⟩

instance decidableCalm (s : Log) : (a : Action) → Decidable (Calm s a)
  | .write => decidable_of_iff' _ (calm_write_iff s)
  | .rotate => decidable_of_iff' _ (calm_rotate_iff s)
  | .openFiles => inferInstanceAs (Decidable (s.publishing = false))
  | .publish | .tailFile | .seek | .subscribe | .decode | .event | .reopen | .close =>
    inferInstanceAs (Decidable True)

/-- A tail of one message, one that is decoded, and one of the next file. -/
def tailRotated : List Action :=
  [.write, .write, .openFiles, .tailFile, .seek, .subscribe, .write, .decode, .decode, .rotate,
    .publish, .write, .reopen, .decode, .decode]

theorem follow_contiguous_rotated : ∃ rs s, run step tailRotated (initial 2 1) = .ok (rs, s) ∧
    s.current = 1 ∧ s.delivered.length = 3 ∧ s.CaughtUp ∧
    ∃ i n, s.delivered = range' i n ∧ i + n = s.stop s.current := by
  have hcaught : ∀ rs s, run step tailRotated (initial 2 1) = .ok (rs, s) → s.CaughtUp := by
    rintro rs s ⟨⟩
    exact ⟨1, 1, rfl, Nat.le_refl _, rfl, rfl⟩
  obtain ⟨i, n, hrange, -, hall⟩ := follow_contiguous 2 1 tailRotated _ _ (by decide) rfl
  exact ⟨_, _, rfl, rfl, rfl, hcaught _ _ rfl, i, n, hrange, hall (hcaught _ _ rfl)⟩

/-- The message 1 is written after the tail was read and before the seek. -/
theorem unseen_before_seek :
    ∃ s, run step [.write, .openFiles, .tailFile, .write, .seek, .subscribe,
      .write, .decode] (initial 2 1) = .ok ([(), (), (), (), (), (), (), ()], s) ∧
    s.delivered = [0, 2] :=
  ⟨_, rfl, rfl⟩

end Dao.Logger
