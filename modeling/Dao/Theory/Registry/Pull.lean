import Dao.Core.Registry.Pull
import Dao.Lib.Run

/-!
# No Downgrade

A registry is spoken to in plain text only if its index is insecure, and what an
attempt has shown of a host or of the protocol is kept for the rest of the pull.
The loop has two flags for that, and `Recorded` ties them to the attempts made
so far.

## Theorems

* `pullLoop_kept`: What the loop keeps.
* `pull_no_downgrade`: What no attempt of a pull goes back on.
-/

namespace Dao.Registry

open Lib List

variable {ι κ : Type} {net : Net ι κ} {config : ServiceConfig κ} {hostname : Str}
  {attempt : List Contact → APIEndpoint → Option Failure} {ref : Str}

/-- The attempt failed with a fallback error that confirmed a v2 registry. -/
def Contact.confirmedV2 (c : Contact) : Prop :=
  ∃ f transportOK, c.2 = some f ∧ f.fallback = some (true, transportOK)

/-- The attempt failed with a fallback error that had `transportOK`. -/
def Contact.transportOK (c : Contact) : Prop :=
  ∃ f confirmedV2, c.2 = some f ∧ f.fallback = some (confirmedV2, true)

/-- A plain text endpoint of the registry itself is there for an insecure index. -/
def PlainIfInsecure (net : Net ι κ) (config : ServiceConfig κ) (hostname : Str)
    (e : APIEndpoint) : Prop :=
  e.mirror = false → e.url.scheme ≠ https →
    e.url.host = hostname ∧ isSecureIndex net config hostname = false

/-- What may come after an attempt. -/
def Kept (a b : Contact) : Prop :=
  (a.transportOK → a.1.url.scheme = https → b.1.url.scheme ≠ https → b.1.url.host ≠ a.1.url.host) ∧
  (a.confirmedV2 → b.1.version ≠ .v1)

theorem tlsConfig_eq {insecure : Bool} (h : tlsConfig net config hostname = .ok insecure) :
    insecure = !isSecureIndex net config hostname := by
  unfold tlsConfig newTLSConfig at h
  split_ifs at h
  · rcases bind_ok.mp h with ⟨_, _, hreturn⟩
    exact (Except.ok.inj hreturn).symm
  · exact (Except.ok.inj h).symm

variable {es : List APIEndpoint}

theorem hostEndpoints_plain {version : APIVersion}
    (h : hostEndpoints net config hostname version = .ok es) (e : APIEndpoint) (he : e ∈ es) :
    PlainIfInsecure net config hostname e := by
  rcases bind_ok.mp h with ⟨insecure, ht, hreturn⟩
  cases hreturn
  intro _ hscheme
  rcases mem_cons.mp he with rfl | hplain
  · exact absurd rfl hscheme
  cases insecure with
  | false => nomatch hplain
  | true =>
    rw [mem_singleton.mp hplain]
    exact ⟨rfl, by simpa using (tlsConfig_eq ht).symm⟩

theorem mapM_mirror {mirrors : List Str}
    (h : mirrors.mapM (mirrorEndpoint net config) = .ok es) (e : APIEndpoint) (he : e ∈ es) :
    e.mirror = true := by
  induction mirrors generalizing es with
  | nil =>
    cases h
    nomatch he
  | cons m mirrors ih =>
    rw [mapM_cons] at h
    rcases bind_ok.mp h with ⟨e0, he0, h⟩
    rcases bind_ok.mp h with ⟨es0, hes0, hreturn⟩
    cases hreturn
    rcases mem_cons.mp he with rfl | he
    · rcases bind_ok.mp he0 with ⟨url, _, he0⟩
      rcases bind_ok.mp he0 with ⟨insecure, _, hreturn⟩
      cases hreturn
      rfl
    · exact ih hes0 he

theorem lookupEndpoints_plain
    (h : lookupEndpoints net config hostname = .ok es) (e : APIEndpoint) (he : e ∈ es) :
    PlainIfInsecure net config hostname e := by
  rcases bind_ok.mp h with ⟨es2, h2, h⟩
  -- Mirrors and the default registry are reached by https only.
  have hv2 : ∀ e ∈ es2, PlainIfInsecure net config hostname e := by
    intro e he
    unfold lookupV2Endpoints at h2
    split_ifs at h2 with hdefault
    · rcases bind_ok.mp h2 with ⟨mirrors, hmirrors, hreturn⟩
      cases hreturn
      rcases mem_append.mp he with hm | hm
      · intro hno
        simp [mapM_mirror hmirrors e hm] at hno
      · rw [mem_singleton.mp hm]
        exact fun _ hscheme => absurd rfl hscheme
    · exact hostEndpoints_plain h2 e he
  split_ifs at h
  · cases h
    exact hv2 e he
  rcases bind_ok.mp h with ⟨es1, h1, hreturn⟩
  cases hreturn
  rcases mem_append.mp he with he | he
  · exact hv2 e he
  unfold lookupV1Endpoints at h1
  split_ifs at h1
  · cases h1
    rw [mem_singleton.mp he]
    exact fun _ hscheme => absurd rfl hscheme
  · exact hostEndpoints_plain h1 e he

/-- The flags of the loop hold what the attempts have shown. -/
structure Recorded (l : Loop) : Prop where
  kept : l.contacts.Pairwise Kept
  v2 : ∀ c ∈ l.contacts, c.confirmedV2 → l.confirmedV2 = true
  tls : ∀ c ∈ l.contacts, c.transportOK → c.1.url.scheme = https →
    c.1.url.host ∈ l.confirmedTLSRegistries

theorem pullLoop_kept (endpoints : List APIEndpoint) :
    ∀ l : Loop, Recorded l → (pullLoop attempt ref endpoints l).2.Pairwise Kept := by
  induction endpoints with
  | nil => exact fun l h => h.kept
  | cons e endpoints ih =>
    intro l h
    rw [pullLoop]
    split_ifs with hv1 hplain
    · exact ih l h
    · exact ih l h
    · -- Whatever comes of it, the endpoint may be contacted after those before.
      have hkept : (l.contacts ++ [(e, attempt l.contacts e)]).Pairwise Kept := by
        refine pairwise_append.mpr ⟨h.kept, pairwise_singleton _ _, fun a ha b hb => ?_⟩
        rw [mem_singleton.mp hb]
        refine ⟨fun hok hs hne heq => hplain ⟨hne, ?_⟩, fun hc hv => hv1 ⟨h.v2 a ha hc, hv⟩⟩
        rw [heq]
        exact h.tls a ha hok hs
      generalize attempt l.contacts e = outcome at hkept ⊢
      rcases outcome with _ | f
      · exact hkept
      simp only
      split
      · exact hkept
      rename_i confirmedV2 transportOK hf
      have hf : f.fallback = some (confirmedV2, transportOK) := by
        split_ifs at hf
        exact hf
      refine ih _ ⟨hkept, fun c hc hshown => ?_, fun c hc hshown hs => ?_⟩ <;>
        rcases mem_append.mp hc with hc | hc
      · simp [Loop.fallback, h.v2 c hc hshown]
      · rw [mem_singleton.mp hc] at hshown
        rcases hshown with ⟨_, _, heq, hfallback⟩
        cases heq
        cases hf.symm.trans hfallback
        simp [Loop.fallback]
      · have hmem := h.tls c hc hshown hs
        simp only [Loop.fallback]
        split_ifs
        · exact mem_cons_of_mem _ hmem
        · exact hmem
      · rw [mem_singleton.mp hc] at hshown hs ⊢
        have hs : e.url.scheme = https := hs
        rcases hshown with ⟨_, _, heq, hfallback⟩
        cases heq
        cases hf.symm.trans hfallback
        simp [Loop.fallback, hs]

theorem pullLoop_mem (endpoints : List APIEndpoint) : ∀ (l : Loop) (c : Contact),
    c ∈ (pullLoop attempt ref endpoints l).2 → c ∈ l.contacts ∨ c.1 ∈ endpoints := by
  induction endpoints with
  | nil => exact fun l c hc => .inl hc
  | cons e endpoints ih =>
    intro l c hc
    rw [pullLoop] at hc
    have hnext : ∀ o, c ∈ l.contacts ++ [(e, o)] → c ∈ l.contacts ∨ c.1 ∈ e :: endpoints := by
      intro o hc
      rcases mem_append.mp hc with hc | hc
      · exact .inl hc
      · rw [mem_singleton.mp hc]
        exact .inr mem_cons_self
    -- An endpoint is passed over, or contacted and then the loop may end.
    split_ifs at hc with hv1 hplain
    · exact (ih l c hc).imp_right (mem_cons_of_mem _)
    · exact (ih l c hc).imp_right (mem_cons_of_mem _)
    · generalize attempt l.contacts e = outcome at hc
      rcases outcome with _ | f
      · exact hnext _ hc
      simp only at hc
      split at hc
      · exact hnext _ hc
      · rcases ih _ c hc with hc | hc
        · exact hnext _ hc
        · exact .inr (mem_cons_of_mem _ hc)

/-- A pull contacts a plain text endpoint of the registry it names only if the
    index is not secure there, a plain text endpoint of a host never after an
    https attempt on it has shown that the transport works, and a v1 endpoint
    never after an attempt has confirmed a v2 registry. -/
theorem pull_no_downgrade {ι κ : Type} (net : Net ι κ) (config : ServiceConfig κ)
    (attempt : List Contact → APIEndpoint → Option Failure) (hostname name ref : Str) :
    (∀ c ∈ (pull net config attempt hostname name ref).2, PlainIfInsecure net config hostname c.1) ∧
    (pull net config attempt hostname name ref).2.Pairwise Kept := by
  unfold pull
  simp only
  split
  · exact ⟨nofun, List.Pairwise.nil⟩
  rename_i endpoints hlookup
  rcases bind_ok.mp hlookup with ⟨_, _, hlookup⟩
  rcases bind_ok.mp hlookup with ⟨_, _, hlookup⟩
  refine ⟨fun c hc => ?_, pullLoop_kept endpoints _ ⟨List.Pairwise.nil, ?_, ?_⟩⟩
  · rcases pullLoop_mem endpoints _ c hc with hc | hc
    · nomatch hc
    · exact lookupEndpoints_plain hlookup c.1 hc
  · exact nofun
  · exact nofun

end Dao.Registry
