import Dao.Core.Download.Blob

/-!
# What Was Verified Is What Is Stored

A download is verified with the bytes that were fed to the verifier, and what
is handed over are the bytes of the file. The two are the same as long as
every read is written as a whole and the end of the file can be found: then
each call that is to be retried leaves them in step, whatever the server sends
and wherever it breaks off.

A write that fails, or is short, separates them. The verifier has the bytes
and the file has not, the next call resumes at the end of the file, and a
server that sends nothing more gets a part of the blob verified.

## Theorems

* `download_verified`: What is handed over has the digest.
* `part_verified`: A part of a blob that is handed over.
-/

namespace Dao.PullV2

open Lib List

/-- The file has the bytes the verifier was fed, and without a file none were. -/
def InStep (ld : Descriptor) : Prop :=
  match ld.tmpFile with
  | none => ld.verifier = none
  | some f => ld.verifier.getD [] = f.content

/-- The end of the file is found, and what is read is written. -/
def Kept (ld : Descriptor) (a : Attempt) : Prop :=
  (ld.tmpFile ≠ none → a.seeksEnd = true) ∧
    ∀ r ∈ a.reads, r.writeFails = false ∧ r.data.length ≤ r.written

instance (ld : Descriptor) (a : Attempt) : Decidable (Kept ld a) :=
  inferInstanceAs (Decidable (_ ∧ ∀ r ∈ a.reads, _))

theorem write_at_end {f : TmpFile} (h : f.pos = f.content.length) (p : Bytes) :
    (f.write p).content = f.content ++ p ∧ (f.write p).pos = (f.write p).content.length := by
  have hcontent : (f.write p).content = f.content ++ p := by
    rw [TmpFile.write, h, take_length, drop_eq_nil_of_le (Nat.le_add_right _ _), append_nil]
  refine ⟨hcontent, ?_⟩
  rw [hcontent, length_append, ← h]
  rfl

/-- Reads that are written are in the file and in the verifier. -/
theorem copyBlob_kept {reads : List Read} {f : TmpFile} {fed : Bytes}
    (hreads : ∀ r ∈ reads, r.writeFails = false ∧ r.data.length ≤ r.written)
    (hpos : f.pos = f.content.length) (hfed : fed = f.content) :
    ∃ f', copyBlob reads f fed = (true, f', f'.content) := by
  induction reads generalizing f fed with
  | nil => exact ⟨f, by rw [copyBlob, hfed]⟩
  | cons r rs ih =>
    rcases hreads r mem_cons_self with ⟨hfails, hwritten⟩
    have htake : r.data.take r.written = r.data := take_of_length_le hwritten
    rcases write_at_end hpos r.data with ⟨hcontent, hpos'⟩
    have hcond : ¬ (r.writeFails = true ∨ r.written < r.data.length) := by
      rintro (h | h)
      · simp [hfails] at h
      · exact absurd h (Nat.not_lt.mpr hwritten)
    rw [copyBlob]
    simp only [htake, if_neg hcond]
    refine ih (fun r' hr' => hreads r' (mem_cons_of_mem r hr')) hpos' ?_
    rw [hcontent, hfed]

theorem startFile_inStep {a : Attempt} {ld : Descriptor} (h : InStep ld) (hkept : Kept ld a)
    {f : TmpFile} {offset : Nat} (hstart : startFile a ld = some (f, offset)) :
    ld.verifier.getD [] = f.content ∧ f.pos = f.content.length := by
  unfold startFile at hstart
  unfold InStep at h
  -- A new file is empty, as is a new verifier. A file that is there was kept with its own.
  cases hfile : ld.tmpFile with
  | none =>
    rw [hfile] at hstart h
    simp only at hstart h
    split at hstart
    · cases hstart
      rw [h]
      exact ⟨rfl, rfl⟩
    · nomatch hstart
  | some f0 =>
    rw [hfile] at hstart h
    simp only at hstart h
    rw [if_pos (hkept.1 (by rw [hfile]; exact Option.some_ne_none f0)), Option.some.injEq,
      Prod.mk.injEq] at hstart
    rw [← hstart.1]
    exact ⟨h, rfl⟩

/-- What a call may return: a file that has the digest, or an error, with which
    the descriptor is in step when it is to be retried. -/
def Sound (digestOf : Str → Bytes → Digest) (digest : Digest) (r : Outcome × Descriptor) : Prop :=
  match r.1 with
  | .reader content _ => digestOf ((Digest.algorithm digest).getD []) content = digest
  | .error => InStep r.2
  | .doNotRetry => True

section Calls

variable {digestOf : Str → Bytes → Digest} {digest : Digest}

theorem truncated_sound (t : Truncation) (f : TmpFile) (ld : Descriptor) :
    Sound digestOf digest (truncated t f ld) := by
  cases t with
  | done => exact rfl
  | seekFails | truncateFails => exact trivial

theorem retryOnError_sound {retry : Bool} {ld : Descriptor} (h : InStep ld) :
    Sound digestOf digest (retryOnError retry, ld) := by
  cases retry with
  | true => exact h
  | false => exact trivial

theorem finish_sound (a : Attempt) (offset size : Nat) (f : TmpFile) :
    Sound digestOf digest (finish digestOf digest a offset size f f.content) := by
  unfold finish
  split
  · split
    · exact truncated_sound ..
    · exact trivial
  -- A file is handed over only if its verifier has the digest.
  · next hdigest =>
    rw [not_not] at hdigest
    split
    · exact hdigest
    · exact trivial

theorem receive_sound {a : Attempt} {ld : Descriptor} {f : TmpFile}
    (hreads : ∀ r ∈ a.reads, r.writeFails = false ∧ r.data.length ≤ r.written)
    (hfed : ld.verifier.getD [] = f.content) (hpos : f.pos = f.content.length) (offset size : Nat) :
    Sound digestOf digest (receive digestOf digest a offset size f ld) := by
  rcases copyBlob_kept hreads hpos hfed with ⟨f', hcopy⟩
  unfold receive
  split
  · exact trivial
  rw [hcopy]
  simp only
  split
  · exact retryOnError_sound rfl
  · exact truncated_sound ..
  · exact finish_sound a offset size f'

theorem locate_sound {a : Attempt} {ld : Descriptor} {f : TmpFile}
    (hreads : ∀ r ∈ a.reads, r.writeFails = false ∧ r.data.length ≤ r.written)
    (hfile : ld.tmpFile = some f) (hfed : ld.verifier.getD [] = f.content)
    (hpos : f.pos = f.content.length) (offset : Nat) :
    Sound digestOf digest (locate digestOf digest a offset f ld) := by
  have hld : InStep ld := by
    unfold InStep
    rw [hfile]
    exact hfed
  unfold locate
  split
  · exact receive_sound hreads hfed hpos offset 0
  next size _ =>
  split
  · cases a.truncation with
    | seekFails | truncateFails => exact trivial
    | done =>
      simp only [truncateDownloadFile]
      split
      · exact receive_sound hreads rfl rfl 0 size
      · exact rfl
  · split
    · exact receive_sound hreads hfed hpos offset size
    · exact hld

theorem download_sound {a : Attempt} {ld : Descriptor} (h : InStep ld) (hkept : Kept ld a) :
    Sound digestOf digest (download digestOf digest a ld) := by
  unfold download
  rcases hstart : startFile a ld with _ | start
  · exact trivial
  rcases start with ⟨f, offset⟩
  rcases startFile_inStep h hkept hstart with ⟨hfed, hpos⟩
  simp only
  split
  · exact trivial
  · exact retryOnError_sound hfed
  · split
    · exact truncated_sound ..
    · have hlocate := fun ld hfile hfed =>
        @locate_sound digestOf digest a ld f hkept.2 hfile hfed hpos offset
      exact hlocate { ld with tmpFile := some f } rfl hfed

theorem run_inStep {as : List Attempt} {ld : Descriptor} {rs : List Outcome}
    (hmeets : Meets (step digestOf digest) Kept as .new)
    (hrun : run (step digestOf digest) as .new = .ok (rs, ld)) (hretry : ∀ r ∈ rs, r = .error) :
    InStep ld := by
  refine run_invariant_of_results Kept (fun r => r = .error) InStep ?_ as .new ld rs rfl hmeets hrun
    hretry
  intro a ld r ld' hI hkept hstep hr
  have hsound := @download_sound digestOf digest a ld hI hkept
  rw [step, Except.ok.injEq] at hstep
  rw [hstep, hr] at hsound
  exact hsound

/-- In every sequence of calls that are to be retried, and whose disk keeps what
    is read, the verifier was fed the bytes of the file; and when a further call
    hands over a file, its whole content has the digest. -/
theorem download_verified (digestOf : Str → Bytes → Digest) (digest : Digest) (as : List Attempt)
    (a : Attempt) (rs : List Outcome) (ld : Descriptor)
    (hmeets : Meets (step digestOf digest) Kept (as ++ [a]) .new)
    (hrun : run (step digestOf digest) as .new = .ok (rs, ld)) (hretry : ∀ r ∈ rs, r = .error) :
    (∀ f, ld.tmpFile = some f → ld.verifier.getD [] = f.content) ∧
      ∀ content size ld', download digestOf digest a ld = (.reader content size, ld') →
        digestOf ((Digest.algorithm digest).getD []) content = digest := by
  rcases meets_append hmeets with ⟨hmeets, hlast⟩
  have hI := run_inStep hmeets hrun hretry
  refine ⟨fun f hf => ?_, fun content size ld' h => ?_⟩
  · unfold InStep at hI
    rw [hf] at hI
    exact hI
  · have hsound := @download_sound digestOf digest a ld hI (hlast rs ld hrun).1
    rw [h] at hsound
    exact hsound

end Calls

/-- Two bytes of a blob come in, then the connection breaks; then the rest. -/
def resumed : List Attempt :=
  [{ smooth [⟨[1, 2], 2, false⟩] with ending := .fails true }, smooth [⟨[3], 1, false⟩]]

theorem download_verified_resumed :
    ∃ ld ld', run (step sha256Only (Digest.fromBytes [1, 2, 3])) (resumed.take 1) .new =
        .ok ([.error], ld) ∧
      download sha256Only (Digest.fromBytes [1, 2, 3]) (smooth [⟨[3], 1, false⟩]) ld =
        (.reader [1, 2, 3] 0, ld') ∧
      sha256Only [] [1, 2, 3] = Digest.fromBytes [1, 2, 3] := by
  have hmeets : Meets (step sha256Only (Digest.fromBytes [1, 2, 3])) Kept resumed .new := by
    decide +kernel
  have hrun : run (step sha256Only (Digest.fromBytes [1, 2, 3])) (resumed.take 1) .new =
      .ok ([.error], ⟨some ⟨[1, 2], 2⟩, some [1, 2]⟩) := by decide +kernel
  have hread : download sha256Only (Digest.fromBytes [1, 2, 3]) (smooth [⟨[3], 1, false⟩])
      ⟨some ⟨[1, 2], 2⟩, some [1, 2]⟩ = (.reader [1, 2, 3] 0, ⟨none, some [1, 2, 3]⟩) := by
    decide
  have hall := download_verified sha256Only (Digest.fromBytes [1, 2, 3]) (resumed.take 1)
    (smooth [⟨[3], 1, false⟩]) [.error] _ hmeets hrun fun r hr => List.mem_singleton.mp hr
  exact ⟨_, _, hrun, hread, hall.2 _ _ _ hread⟩

/-- The whole blob comes in, but its last byte is not written; the next call
    resumes after the first byte, and the server sends nothing: one byte of the
    blob is handed over as the blob. -/
theorem part_verified :
    run (step sha256Only (Digest.fromBytes [1, 2])) [smooth [⟨[1, 2], 1, false⟩], smooth []] .new =
        .ok ([.error, .reader [1] 0], ⟨none, some [1, 2]⟩) ∧
      sha256Only [] [1] ≠ Digest.fromBytes [1, 2] := by
  decide +kernel

end Dao.PullV2
