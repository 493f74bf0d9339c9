import Dao.Core.Daemon.Events

/-!
# Events Are Delivered Once

A subscriber gets what is in the buffer when it comes, and on its channel what
is published from then on. An event whose call of `Log` is between its two steps
at that moment comes both ways. If nobody subscribes at such a moment, the
buffer holds events whose calls have returned, and the channel gets those whose
calls return later.

## Theorems

* `step_delivered`, `delivered_once`: Every event reaches a subscriber once.
* `delivered_twice`: An event that comes both ways.
* `step_timed`, `query_exact`: What a query of the buffer returns.
* `query_stops_early`: An event that hides another.
-/

namespace Dao.Events

open Lib Function List

variable {μ : Type}

/-- Nobody subscribes while an event is in the buffer and not published. -/
def Settled (s : Sys μ) (a : Action μ) : Prop :=
  ∀ j, a = .subscribe j → ∀ call message, s.calls call ≠ .appended message

/-- The subscriber got the events of calls that had returned from the buffer, and
    the others from its channel. -/
structure Joined (completed : List (Event μ)) (u : Subscriber μ) : Prop where
  before : ∀ e ∈ u.current, e ∈ completed.take u.joined
  nodup : u.current.Nodup
  after : u.channel = completed.drop u.joined
  bound : u.joined ≤ completed.length

/-- Events are logged once, and every subscriber has got what it should. -/
structure Delivered (s : Sys μ) : Prop where
  returned : ∀ e ∈ s.completed, s.calls e.call = .returned
  once : s.completed.Nodup
  buffered : ∀ e ∈ s.events, s.calls e.call = .appended e.message ∨ e ∈ s.completed
  distinct : s.events.Nodup
  subscribed : ∀ j u, s.subscribers j = some u → Joined s.completed u

/-- The newest event is the last one, and the others were there. -/
theorem push_eq (events : List (Event μ)) (e : Event μ) :
    ∃ kept, push events e = kept ++ [e] ∧ kept.Sublist events := by
  unfold push
  split
  · exact ⟨_, rfl, tail_sublist _⟩
  · exact ⟨_, rfl, Sublist.refl _⟩

theorem mem_push {events : List (Event μ)} {e x : Event μ} (h : x ∈ push events e) :
    x ∈ events ∨ x = e := by
  rcases push_eq events e with ⟨kept, heq, hkept⟩
  rw [heq, mem_append, mem_singleton] at h
  exact h.imp_left (hkept.mem ·)

theorem pairwise_push {R : Event μ → Event μ → Prop} {events : List (Event μ)} {e : Event μ}
    (h : events.Pairwise R) (he : ∀ x ∈ events, R x e) : (push events e).Pairwise R := by
  rcases push_eq events e with ⟨kept, heq, hkept⟩
  rw [heq, pairwise_append]
  refine ⟨h.sublist hkept, pairwise_singleton R e, fun x hx y hy => ?_⟩
  rw [mem_singleton.mp hy]
  exact he x (hkept.mem hx)

theorem update_calls {calls : Nat → Call μ} {call x : Nat} {c d : Call μ} (h : calls x = c)
    (hne : calls call ≠ c) : update calls call d x = c := by
  rw [update_of_ne (by rintro rfl; exact hne h)]
  exact h

/-- An event that is published is sent to everybody who has joined. -/
theorem joined_send {completed : List (Event μ)} {u : Subscriber μ} (h : Joined completed u)
    (e : Event μ) : Joined (completed ++ [e]) (u.send e) := by
  have hbound := h.bound
  refine ⟨fun x hx => ?_, h.nodup, ?_, ?_⟩
  · change x ∈ (completed ++ [e]).take u.joined
    rw [take_append_of_le_length hbound]
    exact h.before x hx
  · change u.channel ++ [e] = (completed ++ [e]).drop u.joined
    rw [drop_append_of_le_length hbound, h.after]
  · change u.joined ≤ (completed ++ [e]).length
    rw [length_append]
    omega

theorem step_delivered (a : Action μ) (s : Sys μ) (r : Unit) (s' : Sys μ) (h : Delivered s)
    (hC : Settled s a) (hstep : step a s = .ok (r, s')) : Delivered s' := by
  cases a with
  | append call message =>
    rw [step] at hstep
    cases hcall : s.calls call with
    | none =>
      rw [hcall] at hstep
      cases hstep
      refine ⟨fun e he => update_calls (h.returned e he) (by simp [hcall]), h.once, fun e he => ?_,
        ?_, h.subscribed⟩
      · rcases mem_push he with hold | rfl
        · exact (h.buffered e hold).imp_left (update_calls · (by simp [hcall]))
        · exact .inl (update_self ..)
      · -- The call has not logged before, so its event is in the buffer once.
        refine pairwise_push h.distinct ?_
        rintro _ hmem rfl
        rcases h.buffered _ hmem with happ | hdone
        · nomatch hcall.symm.trans happ
        · nomatch hcall.symm.trans (h.returned _ hdone)
    | appended _ =>
      simp [hcall] at hstep
    | returned =>
      simp [hcall] at hstep
  | publish call =>
    rw [step] at hstep
    cases hcall : s.calls call with
    | appended =>
      rw [hcall] at hstep
      cases hstep
      refine ⟨fun e he => ?_, ?_, fun e he => ?_, h.distinct, fun j u hu => ?_⟩
      · change update s.calls call .returned e.call = .returned
        rcases mem_append.mp he with hold | hnew
        · exact update_calls (h.returned e hold) (by simp [hcall])
        · rw [mem_singleton.mp hnew]
          exact update_self ..
      · refine h.once.append (nodup_singleton _) (disjoint_singleton.mpr fun hmem => ?_)
        nomatch hcall.symm.trans (h.returned _ hmem)
      · rcases h.buffered e he with happ | hdone
        · by_cases heq : e.call = call
          · right
            rw [heq, hcall] at happ
            rw [mem_append, mem_singleton]
            exact .inr (by cases e; cases heq; cases happ; rfl)
          · left
            change update s.calls call .returned e.call = _
            rw [update_of_ne heq]
            exact happ
        · exact .inr (mem_append_left _ hdone)
      · rcases Option.map_eq_some_iff.mp hu with ⟨u0, hu0, rfl⟩
        exact joined_send (h.subscribed j u0 hu0) _
    | none =>
      simp [hcall] at hstep
    | returned =>
      simp [hcall] at hstep
  | subscribe j =>
    rw [step] at hstep
    split_ifs at hstep
    cases hstep
    refine { h with subscribed := fun i u hu => ?_ }
    change update s.subscribers j _ i = some u at hu
    by_cases hij : i = j
    · rw [hij, update_self] at hu
      cases hu
      refine ⟨fun e he => ?_, h.distinct, ?_, Nat.le_refl _⟩
      · -- No call is between its steps, so what is in the buffer has been published.
        rw [take_length]
        exact (h.buffered e he).resolve_left (hC j rfl e.call e.message)
      · exact drop_length.symm
    · rw [update_of_ne hij] at hu
      exact h.subscribed i u hu
  | evict j =>
    rw [step] at hstep
    split_ifs at hstep
    cases hstep
    refine { h with subscribed := fun i u hu => ?_ }
    change update s.subscribers j none i = some u at hu
    by_cases hij : i = j
    · simp [hij, update_self] at hu
    · rw [update_of_ne hij] at hu
      exact h.subscribed i u hu

theorem nodup_of_joined {completed : List (Event μ)} {u : Subscriber μ} (h : Joined completed u)
    (hnodup : completed.Nodup) : (u.current ++ u.channel).Nodup := by
  have hparts := hnodup
  rw [← take_append_drop u.joined completed, nodup_append] at hparts
  refine nodup_append.mpr ⟨h.nodup, ?_, fun e he x hx => ?_⟩
  · rw [h.after]
    exact hparts.2.1
  · rw [h.after] at hx
    exact hparts.2.2 e (h.before e he) x hx

/-- Every event that was in the buffer when a subscriber came, and every event
    whose call returned afterwards, has reached it once. -/
theorem delivered_once [DecidableEq μ] (as : List (Action μ)) (rs : List Unit) (s : Sys μ)
    (hmeets : Meets step Settled as initial) (hrun : run step as initial = .ok (rs, s)) (j : Nat)
    (u : Subscriber μ) (hu : s.subscribers j = some u) (e : Event μ)
    (he : e ∈ u.current ∨ e ∈ s.completed.drop u.joined) :
    (u.current ++ u.channel).count e = 1 := by
  have hinit : Delivered (initial : Sys μ) :=
    ⟨nofun, nodup_nil, nofun, nodup_nil, nofun⟩
  have h := run_invariant_of_meets Settled Delivered
    step_delivered as initial s rs hinit hmeets hrun
  have hjoined := h.subscribed j u hu
  -- What was completed later is on the channel, and the rest is in the buffer.
  refine count_eq_one_of_mem (nodup_of_joined hjoined h.once) (mem_append.mpr ?_)
  rw [hjoined.after]
  exact he

/-- An event that was there, and one that is logged later. -/
def loggedTwice : List (Action Char) :=
  [.append 0 'a', .publish 0, .subscribe 0, .append 1 'b', .publish 1]

theorem settled_loggedTwice : Meets step Settled loggedTwice initial := by
  refine ⟨nofun, fun _ _ h₁ => ?_⟩
  cases h₁
  refine ⟨nofun, fun _ _ h₂ => ?_⟩
  cases h₂
  refine ⟨fun _ _ call message => ?_, fun _ _ h₃ => ?_⟩
  · by_cases hcall : call = 0
    · rw [hcall]
      exact nofun
    · change update (update _ _ _) _ _ _ ≠ _
      rw [update_of_ne hcall, update_of_ne hcall]
      exact nofun
  · cases h₃
    refine ⟨nofun, fun _ _ h₄ => ?_⟩
    cases h₄
    exact ⟨nofun, fun _ _ _ => trivial⟩

theorem delivered_once_logged : ∃ rs s u, run step loggedTwice initial = .ok (rs, s) ∧
    s.subscribers 0 = some u ∧ ⟨0, 'a'⟩ ∈ u.current ∧ ⟨1, 'b'⟩ ∉ u.current ∧
    ∀ e ∈ s.completed, (u.current ++ u.channel).count e = 1 := by
  refine ⟨_, _, _, rfl, rfl, by decide, by decide, fun e he => ?_⟩
  refine delivered_once loggedTwice _ _ settled_loggedTwice rfl 0 _ rfl e ?_
  rcases mem_cons.mp he with rfl | he
  · exact .inl (by decide)
  · exact .inr he

/-- A subscriber comes between the two steps of a call and gets its event twice. -/
theorem delivered_twice : ∃ (s : Sys Char) (u : Subscriber Char),
    run step [.append 0 'a', .subscribe 0, .publish 0] initial = .ok ([(), (), ()], s) ∧
    s.subscribers 0 = some u ∧ ⟨0, 'a'⟩ ∈ u.current ∧ (u.current ++ u.channel).count ⟨0, 'a'⟩ = 2 :=
  ⟨_, _, rfl, rfl, by decide, by decide⟩

/-! ### Queries -/

section Query

variable (timeNano : μ → Int64) (since until' : Option Int) (topic : Option (μ → Bool))

/-- An event is appended after the events of earlier times, and after 1970. -/
def InTime (s : Sys μ) (a : Action μ) : Prop :=
  ∀ call m, a = .append call m →
    0 ≤ timeNano m ∧ ∀ e ∈ s.events, timeNano e.message ≤ timeNano m

/-- What a query asks for. -/
def asked (e : Event μ) : Bool :=
  since.all (· ≤ (timeNano e.message).toInt) && until'.all ((timeNano e.message).toInt ≤ ·) &&
    topic.all (· e.message)

/-- The buffer is in the order of time. -/
def Timed (events : List (Event μ)) : Prop :=
  events.Pairwise (fun x y => timeNano x.message ≤ timeNano y.message) ∧
    ∀ e ∈ events, 0 ≤ timeNano e.message

theorem step_timed (a : Action μ) (s : Sys μ) (r : Unit) (s' : Sys μ) (h : Timed timeNano s.events)
    (hC : InTime timeNano s a) (hstep : step a s = .ok (r, s')) : Timed timeNano s'.events := by
  cases a with
  | append call message =>
    rw [step] at hstep
    split at hstep <;> cases hstep
    rcases hC call message rfl with ⟨hpos, hlast⟩
    refine ⟨pairwise_push h.1 hlast, fun e he => ?_⟩
    rcases mem_push he with hold | rfl
    · exact h.2 e hold
    · exact hpos
  | publish call | subscribe j | evict j =>
    rw [step] at hstep
    split at hstep <;> cases hstep
    exact h

/-- What the loop takes, if it comes to it. -/
def taken (sinceNanoUnix untilNanoUnix : Int64) (e : Event μ) : Bool :=
  sinceNanoUnix ≤ timeNano e.message &&
    (!(0 < untilNanoUnix) || timeNano e.message ≤ untilNanoUnix) && topic.all (· e.message)

/-- The loop may end at an event that is too early, as those behind it are earlier. -/
theorem loadLoop_eq (a b : Int64) (newest buffered : List (Event μ))
    (h : newest.Pairwise fun x y => timeNano y.message ≤ timeNano x.message) :
    loadLoop timeNano a b topic newest buffered =
      (newest.filter (taken timeNano topic a b)).reverse ++ buffered := by
  induction newest generalizing buffered with
  | nil => rfl
  | cons ev older ih =>
    rcases pairwise_cons.mp h with ⟨hev, holder⟩
    rw [loadLoop, ih _ holder, ih _ holder]
    split_ifs with hearly
    · have hnone : older.filter (taken timeNano topic a b) = [] := by
        refine filter_eq_nil_iff.mpr fun e he => ?_
        have hle := hev e he
        grind [taken]
      grind [taken]
    all_goals grind [taken]

theorem unixNano_toInt {t : Option Int} (ht : ∀ x ∈ t, -2 ^ 63 ≤ x ∧ x < 2 ^ 63) :
    (unixNano t).toInt = t.getD 0 := by
  cases t with
  | none => rfl
  | some x => exact Int64.toInt_ofInt_of_le (ht x rfl).1 (ht x rfl).2

/-- In a buffer that was filled in the order of time, a query for times that fit finds
    what it asks for, in the order of the buffer. -/
theorem query_exact (as : List (Action μ)) (rs : List Unit) (s : Sys μ)
    (hmeets : Meets step (InTime timeNano) as initial) (hrun : run step as initial = .ok (rs, s))
    (hgiven : since.isSome ∨ until'.isSome) (hsince : ∀ t ∈ since, -2 ^ 63 ≤ t ∧ t < 2 ^ 63)
    (huntil : ∀ t ∈ until', 0 < t ∧ t < 2 ^ 63) :
    loadBufferedEvents timeNano since until' topic s.events =
      s.events.filter (asked timeNano since until' topic) := by
  have h : Timed timeNano s.events :=
    run_invariant_of_meets (InTime timeNano) (fun s => Timed timeNano s.events)
      (step_timed timeNano) as initial s rs ⟨Pairwise.nil, nofun⟩ hmeets hrun
  have htaken : ∀ e ∈ s.events, taken timeNano topic (unixNano since) (unixNano until') e =
      asked timeNano since until' topic e := by
    intro e he
    have hpos := h.2 e he
    simp only [taken, asked, Int64.le_iff_toInt_le, Int64.lt_iff_toInt_lt] at hpos ⊢
    rw [unixNano_toInt hsince, unixNano_toInt fun t ht => by have hu := huntil t ht; omega]
    cases since with
    | none | some t =>
      cases until' with
      | none | some u => simp_all
  rw [loadBufferedEvents, loadLoop_eq _ _ _ _ _ _ (pairwise_reverse.mpr h.1), append_nil,
    filter_reverse, reverse_reverse, filter_congr htaken, if_neg]
  cases since <;> cases until' <;> simp_all

instance decidableInTime (s : Sys μ) : (a : Action μ) → Decidable (InTime timeNano s a)
  | .append call m =>
    decidable_of_iff (0 ≤ timeNano m ∧ ∀ e ∈ s.events, timeNano e.message ≤ timeNano m)
      ⟨by rintro h _ _ ⟨⟩; exact h, fun h => h call m rfl⟩
  | .publish _ | .subscribe _ | .evict _ => isTrue nofun

/-- Events of five times, one of them twice, of calls that overlap. -/
def loggedInTime : List (Action Int64) :=
  [.append 0 2, .append 1 4, .publish 1, .append 2 4, .publish 0, .append 3 5, .append 4 6,
    .publish 4, .append 5 9]

theorem query_exact_between : ∃ rs s, run step loggedInTime initial = .ok (rs, s) ∧
    s.events.length = 6 ∧
    loadBufferedEvents id (some 4) (some 6) (some (· ≠ 5)) s.events =
      s.events.filter (asked id (some 4) (some 6) (some (· ≠ 5))) ∧
    s.events.filter (asked id (some 4) (some 6) (some (· ≠ 5))) = [⟨1, 4⟩, ⟨2, 4⟩, ⟨4, 6⟩] :=
  ⟨_, _, rfl, rfl, query_exact id (some 4) (some 6) (some (· ≠ 5)) loggedInTime _ _ (by decide) rfl
    (.inl rfl) (by decide) (by decide), by decide⟩

/-- An event that took its time first is appended last, and hides a later one. -/
theorem query_stops_early : ∃ s : Sys Int64,
    run step [.append 0 5, .append 1 3] initial = .ok ([(), ()], s) ∧
    s.events.filter (asked id (some 4) none none) = [⟨0, 5⟩] ∧
    loadBufferedEvents id (some 4) none none s.events = [] :=
  ⟨_, rfl, by decide, by decide⟩

end Query

end Dao.Events
