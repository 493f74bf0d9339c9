import Dao.Core.Archive.Copy

/-!
# Rebased Entries

An entry of a rebased archive has the new base in front of what follows the
old one in its name. Nothing else of its header is rewritten, so a hard link
still has the old name of its target.

## Theorems

* `rebaseEntries_eq`: The entries, for an old base that stands before every name.
* `rebase_renames`: When the entries have their new names and the links follow.
* `link_left_behind`: A hard link refers to a name that is gone.
-/

namespace Dao.Archive

/-- The entries that can be read: the first whose content breaks off is the last. -/
def readable : List Header → List Header
  | [] => []
  | hdr :: rest => if hdr.broken then [hdr] else hdr :: readable rest

/-- The header under its new name. -/
def Header.rebased (oldBase newBase : Str) (hdr : Header) : Header :=
  { hdr with name := newBase ++ hdr.name.drop oldBase.length }

theorem replaceFirst_eq {old new s : Str} (h : old <+: s) :
    replaceFirst old new s = new ++ s.drop old.length := by
  cases s with
  | nil =>
    rw [List.prefix_nil.mp h]
    simp [replaceFirst]
  | cons c s => rw [replaceFirst, isPrefix, if_pos (List.isPrefixOf_iff_prefix.mpr h)]

theorem rebaseEntries_eq {oldBase newBase : Str} {broken : Bool} {entries : List Header}
    (h : ∀ hdr ∈ entries, oldBase <+: hdr.name) :
    (rebaseEntries oldBase newBase broken entries).entries =
      (readable entries).map (Header.rebased oldBase newBase) := by
  induction entries with
  | nil => rfl
  | cons hdr rest ih =>
    rcases List.forall_mem_cons.mp h with ⟨hname, hrest⟩
    rw [rebaseEntries, readable, replaceFirst_eq hname]
    by_cases hbroken : hdr.broken = true
    · rw [if_pos hbroken, if_pos hbroken]
      rfl
    · rw [if_neg hbroken, if_neg hbroken, List.map_cons, ← ih hrest]
      rfl

/-- The entries are there in their order, under their new names. -/
def Renames (srcContent : Stream) (oldBase newBase : Str) : Prop :=
  (rebaseArchiveEntries srcContent oldBase newBase).entries =
    (readable srcContent.entries).map (Header.rebased oldBase newBase)

/-- The first hard link refers to the second entry. -/
def RefersTo (link hdr : Header) : Prop := link.typeflag = .link ∧ link.linkname = hdr.name

/-- A link refers to the new name of what it referred to. -/
def LinksFollow (srcContent : Stream) (oldBase newBase : Str) : Prop :=
  ∀ link ∈ readable srcContent.entries, ∀ hdr ∈ readable srcContent.entries, RefersTo link hdr →
    (link.rebased oldBase newBase).linkname = (hdr.rebased oldBase newBase).name

theorem readable_sublist : ∀ entries : List Header, (readable entries).Sublist entries := by
  intro entries
  induction entries with
  | nil => exact .slnil
  | cons hdr rest ih =>
    unfold readable
    split
    · exact (List.nil_sublist rest).cons_cons hdr
    · exact ih.cons_cons hdr

theorem readable_ne_nil {entries : List Header} (h : entries ≠ []) : readable entries ≠ [] := by
  cases entries with
  | nil => exact absurd rfl h
  | cons hdr rest =>
    unfold readable
    split <;> simp

/-- The root as the old base is not taken off a name. -/
theorem renames_iff {srcContent : Stream} {oldBase newBase : Str}
    (hnames : ∀ hdr ∈ srcContent.entries, oldBase <+: hdr.name) :
    Renames srcContent oldBase newBase ↔ srcContent.entries = [] ∨ oldBase ≠ ['/'] := by
  unfold Renames rebaseArchiveEntries
  by_cases hroot : oldBase = ['/']
  · rw [if_pos hroot, rebaseEntries_eq fun hdr _ => List.nil_prefix]
    simp only [hroot, ne_eq, not_true_eq_false, or_false]
    constructor
    · intro h
      by_contra hne
      obtain ⟨hdr, rest, hread⟩ := List.exists_cons_of_ne_nil (readable_ne_nil hne)
      have hmem : hdr ∈ srcContent.entries :=
        (readable_sublist _).subset (hread ▸ List.mem_cons_self)
      -- The names differ by the slash.
      have hlength := hroot ▸ (hnames hdr hmem).length_le
      have hname := congrArg (fun l => l.head?.map fun hdr => hdr.name.length) h
      simp [hread, Header.rebased] at hname hlength
      omega
    · rintro hnil
      rw [hnil]
      rfl
  · rw [if_neg hroot, rebaseEntries_eq hnames]
    simp [hroot]

/-- The entries have their new names and the links follow just if the stream is empty,
    or the old base is not the root and no link refers to an entry whose name changes. -/
theorem rebase_renames (srcContent : Stream) (oldBase newBase : Str)
    (hnames : ∀ hdr ∈ srcContent.entries, oldBase <+: hdr.name) :
    Renames srcContent oldBase newBase ∧ LinksFollow srcContent oldBase newBase ↔
      srcContent.entries = [] ∨ oldBase ≠ ['/'] ∧ (oldBase = newBase ∨
        ∀ link ∈ readable srcContent.entries, ∀ hdr ∈ readable srcContent.entries,
          ¬RefersTo link hdr) := by
  rw [renames_iff hnames]
  -- A link that refers to an entry follows it just if the base stays.
  have hfollows : ∀ link : Header, ∀ hdr ∈ readable srcContent.entries, RefersTo link hdr →
      ((link.rebased oldBase newBase).linkname = (hdr.rebased oldBase newBase).name ↔
        oldBase = newBase) := by
    intro link hdr hhdr href
    have hname := List.prefix_iff_eq_append.mp (hnames hdr ((readable_sublist _).subset hhdr))
    change link.linkname = newBase ++ hdr.name.drop oldBase.length ↔ _
    rw [href.2]
    nth_rewrite 1 [← hname]
    exact List.append_left_inj _
  constructor
  · rintro ⟨hnil | hroot, hlinks⟩
    · exact .inl hnil
    · refine .inr ⟨hroot, or_iff_not_imp_right.mpr fun hrefers => ?_⟩
      push Not at hrefers
      obtain ⟨link, hlink, hdr, hhdr, href⟩ := hrefers
      exact (hfollows link hdr hhdr href).mp (hlinks link hlink hdr hhdr href)
  · rintro (hnil | ⟨hroot, hbase | hnone⟩)
    · refine ⟨.inl hnil, ?_⟩
      rw [LinksFollow, hnil]
      exact nofun
    · exact ⟨.inr hroot, fun link _ hdr hhdr href => (hfollows link hdr hhdr href).mpr hbase⟩
    · exact ⟨.inr hroot, fun link hlink hdr hhdr href => absurd href (hnone link hlink hdr hhdr)⟩

/-- A header with what the names need. -/
def namedHeader (name linkname : Str) (typeflag : TypeFlag) : Header :=
  ⟨name, 0, 0, 0, 0, ⟨0, 0⟩, ⟨0, 0⟩, typeflag, linkname, 0, 0, [], [], false⟩

/-- The base stands twice in a name, and the link refers to no entry. -/
theorem rebase_renames_twice : Renames ⟨[namedHeader "a/a".toList [] .reg,
      namedHeader "a/y".toList "z".toList .link], false⟩ ['a'] ['b'] :=
  ((rebase_renames ⟨[namedHeader "a/a".toList [] .reg,
    namedHeader "a/y".toList "z".toList .link], false⟩ ['a'] ['b'] (by decide)).mpr
    (.inr ⟨by decide, .inr (by unfold RefersTo; decide)⟩)).1

/-- The target of the link is not among the names, and the root as the old base
    is not taken off the names. -/
theorem link_left_behind : (rebaseArchiveEntries ⟨[namedHeader "a/x".toList [] .reg,
        namedHeader "a/y".toList "a/x".toList .link], false⟩ ['a'] ['b']).entries =
      [namedHeader "b/x".toList [] .reg, namedHeader "b/y".toList "a/x".toList .link] ∧
    (rebaseArchiveEntries ⟨[namedHeader "/x".toList [] .reg], false⟩ ['/'] ['b']).entries =
      [namedHeader "b/x".toList [] .reg] := by
  decide

end Dao.Archive
