import Mathlib

/-!
# Fallible Calls

Calls into an outside world that may fail. A call takes the world as it is
and returns its result together with the world it leaves behind, whether it
succeeded or not: a failed call is allowed to have done something. Sequencing
stops at the first failure and keeps the world of that failure, which is what
a chain of `if err := f(); err != nil { return err }` does.

Failure is not a separate parameter. A world can carry a script of which
calls are to fail, so a statement about every world is already a statement
about every pattern of failures.

`Keeps` is the frame rule. A relation between the world before and the world
after that is reflexive and transitive is kept by a sequence as soon as each
of its calls keeps it, so a property of a long sequence never needs the
sequence taken apart.

`Does` is for an invariant that is only kept while the world stays in bounds,
where a world that is in bounds was in bounds before: it is enough that the
last world of a sequence is. What is known before a call and after it are
propositions about the values that were computed, not about the world.
-/

namespace Lib

open List

/-- A fallible call: the world goes in, and the result comes out with the
    world the call leaves behind. -/
def Call (ε ω α : Type) : Type := ω → Except ε α × ω

namespace Call

variable {ε ω α β : Type}

instance : Monad (Call ε ω) where
  pure a := fun w => (.ok a, w)
  bind x f := fun w =>
    match x w with
    | (.error e, w') => (.error e, w')
    | (.ok a, w') => f a w'

@[simp] theorem pure_apply (a : α) (w : ω) : (pure a : Call ε ω α) w = (.ok a, w) := rfl

theorem bind_apply (x : Call ε ω α) (f : α → Call ε ω β) (w : ω) : (x >>= f) w = match x w with
      | (.error e, w') => (.error e, w')
      | (.ok a, w') => f a w' := rfl

variable {x : Call ε ω α}

theorem bind_eq_ok {f : α → Call ε ω β} {w w'' : ω} {b : β} :
    (x >>= f) w = (.ok b, w'') ↔ ∃ a w', x w = (.ok a, w') ∧ f a w' = (.ok b, w'') := by
  rw [bind_apply]
  rcases hx : x w with ⟨r, w'⟩
  rcases r with e | a
  · simp
  constructor
  · intro h
    exact ⟨a, w', rfl, h⟩
  · rintro ⟨a', w1, heq, hf⟩
    cases heq
    exact hf

/-- Return an error. -/
def raise (e : ε) : Call ε ω α := fun w => (.error e, w)

/-- The call with its error as a result. -/
def observe {δ : Type} (x : Call ε ω α) : Call δ ω (Except ε α) := fun w => (.ok (x w).1, (x w).2)

/-- The call, if the condition holds. -/
def onlyIf (c : Prop) [Decidable c] (x : Call ε ω Unit) : Call ε ω Unit := if c then x else pure ()

/-- The call when it may fail, as the next entry of a script says. A call that
    fails does nothing, and past the end of the script nothing fails. -/
def faulty (e : ε) (x : Call ε ω α) : Call ε (List Bool × ω) α := fun w =>
  match w.1 with
  | true :: script => (.error e, (script, w.2))
  | _ => ((x w.2).1, (w.1.tail, (x w.2).2))

/-- The call relates the world before to the world after, failing or not. -/
def Keeps (R : ω → ω → Prop) (x : Call ε ω α) : Prop := ∀ w, R w (x w).2

variable {R : ω → ω → Prop}

theorem keeps_pure [Std.Refl R] {a : α} :
    Keeps R (pure a : Call ε ω α) := fun w => Std.Refl.refl w

/-- A sequence keeps what its first half keeps and its second half keeps for every
    result the first can have. -/
theorem keeps_bind_of (R : ω → ω → Prop) [IsTrans ω R] (x : Call ε ω α) (f : α → Call ε ω β)
    (hx : Keeps R x) (hf : ∀ w a, (x w).1 = .ok a → Keeps R (f a)) : Keeps R (x >>= f) := by
  intro w
  have hxw := hx w
  have hfw := hf w
  rw [bind_apply]
  rcases hr : x w with ⟨r, w'⟩
  rw [hr] at hxw hfw
  cases r with
  | error e => exact hxw
  | ok a => exact IsTrans.trans w w' _ hxw (hfw a rfl w')

theorem keeps_bind [IsTrans ω R] {f : α → Call ε ω β}
    (hx : Keeps R x) (hf : ∀ a, Keeps R (f a)) : Keeps R (x >>= f) :=
  keeps_bind_of R x f hx fun _ a _ => hf a

theorem keeps_skip [IsTrans ω R] {c : Prop} [Decidable c]
    {y x : Call ε ω Unit} (hy : Keeps R y) (hx : Keeps R x) :
    Keeps R (do
      if c then pure () else y
      x) := by
  by_cases hc : c
  · rw [if_pos hc]
    exact hx
  · rw [if_neg hc]
    exact keeps_bind hy fun _ => hx

/-- Under the assumption `P`, and as long as the bounds `B` hold afterwards, the
    call keeps the invariant `I` and its result has the property `Q`. -/
structure Does (B I : ω → Prop) (P : Prop) (x : Call ε ω α) (Q : α → Prop) : Prop where
  bounds : ∀ w, B (x w).2 → B w
  holds : ∀ w, P → I w → B (x w).2 → I (x w).2 ∧ ∀ a, (x w).1 = .ok a → Q a

section Does

variable {B I : ω → Prop} {P : Prop} {Q : α → Prop} {R : β → Prop} {x : Call ε ω α}

theorem does_of_still (hstill : ∀ w, (x w).2 = w)
    (hQ : ∀ w a, P → I w → (x w).1 = .ok a → Q a) : Does B I P x Q := by
  refine ⟨fun w h => ?_, fun w hP hI _ => ?_⟩
  · rw [hstill] at h
    exact h
  · rw [hstill]
    exact ⟨hI, fun a ha => hQ w a hP hI ha⟩

theorem does_pure {a : α} (h : P → Q a) : Does B I P (pure a : Call ε ω α) Q :=
  does_of_still (fun _ => rfl) (fun _ b hP _ hb => by
    rw [pure_apply] at hb
    cases hb
    exact h hP)

theorem does_raise (e : ε) : Does B I P (raise e : Call ε ω α) Q :=
  does_of_still (fun _ => rfl) nofun

theorem does_bind {f : α → Call ε ω β} (hx : Does B I P x Q)
    (hf : ∀ a, Does B I (Q a) (f a) R) : Does B I P (x >>= f) R := by
  refine ⟨fun w h => hx.bounds w ?_, fun w hP hI h => ?_⟩
  · rw [bind_apply] at h
    rcases hr : x w with ⟨r, w'⟩
    rw [hr] at h
    cases r with
    | error e => exact h
    | ok a => exact (hf a).bounds w' h
  · rw [bind_apply] at h ⊢
    have hxw := hx.holds w hP hI
    rcases hr : x w with ⟨r, w'⟩
    rw [hr] at h hxw
    cases r with
    | error e => exact ⟨(hxw h).1, nofun⟩
    | ok a =>
      rcases hxw ((hf a).bounds w' h) with ⟨hI', hQ⟩
      exact (hf a).holds w' (hQ a rfl) hI' h

theorem does_mono {P' : Prop} {Q' : α → Prop} (hx : Does B I P x Q) (hP : P' → P)
    (hQ : ∀ a, P' → Q a → Q' a) : Does B I P' x Q' :=
  ⟨hx.bounds, fun w hP' hI h =>
    ⟨(hx.holds w (hP hP') hI h).1, fun a ha => hQ a hP' ((hx.holds w (hP hP') hI h).2 a ha)⟩⟩

theorem does_observe {δ : Type} (hx : Does B I P x Q) :
    Does B I P (observe x : Call δ ω (Except ε α)) (fun r => ∀ a, r = .ok a → Q a) := by
  refine ⟨hx.bounds, fun w hP hI h => ?_⟩
  rcases hx.holds w hP hI h with ⟨hI', hQ⟩
  refine ⟨hI', fun r hr a ha => hQ a ?_⟩
  rw [← ha]
  exact Except.ok.inj hr

theorem does_onlyIf {c : Prop} [Decidable c] {x : Call ε ω Unit}
    (hx : Does B I (P ∧ c) x (fun _ => True)) : Does B I P (onlyIf c x) (fun _ => True) := by
  unfold onlyIf
  split
  · next hc => exact does_mono hx (fun hP => ⟨hP, hc⟩) fun _ _ _ => trivial
  · exact does_pure fun _ => trivial

theorem does_forM {f : α → Call ε ω PUnit} {l : List α}
    (h : ∀ a ∈ l, Does B I P (f a) (fun _ => True)) : Does B I P (l.forM f) (fun _ => True) := by
  induction l with
  | nil => exact does_pure fun _ => trivial
  | cons a l ih =>
    refine does_bind (does_mono (h a mem_cons_self) id fun _ hP _ => hP) fun _ => ?_
    exact ih (forall_mem_cons.mp h).2

end Does

end Call

theorem foldlM_ok {ε σ α : Type} {f : σ → α → Except ε σ} {P : List α → σ → Prop} {l : List α}
    {s : σ}
    (hl : l.Nodup) (hinit : P [] s)
    (hstep : ∀ done x s, x ∈ l → x ∉ done → P done s → ∃ s', f s x = .ok s' ∧ P (done ++ [x]) s') :
    ∃ s', l.foldlM f s = .ok s' ∧ P l s' := by
  -- The induction is on what is left, and `P` is about what is done.
  have hrun : ∀ done rest s, done ++ rest = l → P done s → ∃ s', rest.foldlM f s = .ok s' ∧
    P l s' := by
    intro done rest
    induction rest generalizing done with
    | nil =>
      intro s hl hs
      rw [append_nil] at hl
      exact ⟨s, rfl, hl ▸ hs⟩
    | cons x rest ih =>
      intro s heq hs
      have hmem : x ∈ l := heq ▸ mem_append_right done mem_cons_self
      have hnew : x ∉ done := by
        rw [← heq, nodup_append] at hl
        exact fun hx => hl.2.2 x hx x mem_cons_self rfl
      rcases hstep done x s hmem hnew hs with ⟨s', hf, hs'⟩
      rcases ih (done ++ [x]) s' (by rw [← heq, append_assoc]; rfl) hs' with ⟨s'', hfold, hs''⟩
      refine ⟨s'', ?_, hs''⟩
      rw [foldlM_cons, hf]
      exact hfold
  exact hrun [] l s rfl hinit

end Lib
