import Dao.Core.Archive.Entry

/-!
# Rebasing an Archive

`RebaseArchiveEntries`, which `docker cp` uses to give the entries of an
archive another base name. The writer takes every header the reader has
returned.
-/

namespace Dao.Archive

/-- The entries of an archive, and whether it ends with an error. -/
structure Stream where
  entries : List Header
  broken : Bool

/-- `strings.Replace(s, old, new, 1)`. -/
def replaceFirst (old new : Str) : Str → Str
  | [] => if old = [] then new else []
  | c :: s =>
    if isPrefix old (c :: s) then new ++ (c :: s).drop old.length
    else c :: replaceFirst old new s

/-- The loop, which ends with the entry whose content cannot be copied. -/
def rebaseEntries (oldBase newBase : Str) (broken : Bool) : List Header → Stream
  | [] => ⟨[], broken⟩
  | hdr :: rest =>
    let hdr' := { hdr with name := replaceFirst oldBase newBase hdr.name }
    if hdr.broken then ⟨[hdr'], true⟩
    else
      let rebased := rebaseEntries oldBase newBase broken rest
      { rebased with entries := hdr' :: rebased.entries }

def rebaseArchiveEntries (srcContent : Stream) (oldBase newBase : Str) : Stream :=
  -- The root directory is no part of a name that could be replaced.
  let oldBase := if oldBase = ['/'] then [] else oldBase
  rebaseEntries oldBase newBase srcContent.broken srcContent.entries

end Dao.Archive
