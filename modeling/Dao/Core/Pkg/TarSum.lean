import Dao.Core.Text
import Dao.Lib.AMap

/-!
# Sums of Archives

The checksum of an entry of a tar archive: the hash of what `encodeHeader` writes of
its header, followed by the content.

A string of a header is its bytes, which need not be UTF-8. Every version of the sum
selects some of the fields, each with a key, in a fixed order. The later versions add the extended
attributes in the order of their keys. The slice of the keys is made with as many empty
strings as there are attributes, and the keys are appended to these.
-/

namespace Dao.TarSum

open Lib

inductive Version where
  | version0
  | version1
  | versionDev
  deriving DecidableEq

/-- The fields of `tar.Header` the selectors read. -/
structure Header where
  name : Bytes
  mode : Int64
  uid : Int64
  gid : Int64
  size : Int64
  modTime : Int64
  typeflag : UInt8
  linkname : Bytes
  uname : Bytes
  gname : Bytes
  devmajor : Int64
  devminor : Int64
  xattrs : AMap Bytes Bytes

/-- The bytes of a string of ASCII characters. -/
def ascii (s : Str) : Bytes := s.map (fun c => UInt8.ofNat c.toNat)

/-- `strconv.FormatInt(n, 10)`. -/
def decimal (n : Int64) : Bytes := ascii (formatInt n)

/-- The order of `sort.Strings`. -/
def bytesLe : Bytes → Bytes → Bool
  | [], _ => true
  | _ :: _, [] => false
  | a :: s, b :: t => if a = b then bytesLe s t else decide (a < b)

def v0TarHeaderSelect (h : Header) : List (Bytes × Bytes) :=
  [(ascii "name".toList, h.name),
    (ascii "mode".toList, decimal h.mode),
    (ascii "uid".toList, decimal h.uid),
    (ascii "gid".toList, decimal h.gid),
    (ascii "size".toList, decimal h.size),
    (ascii "mtime".toList, decimal h.modTime),
    (ascii "typeflag".toList, [h.typeflag]),
    (ascii "linkname".toList, h.linkname),
    (ascii "uname".toList, h.uname),
    (ascii "gname".toList, h.gname),
    (ascii "devmajor".toList, decimal h.devmajor),
    (ascii "devminor".toList, decimal h.devminor)]

/-- The keys of the extended attributes, behind as many empty ones. -/
def xAttrKeys (h : Header) : List Bytes :=
  (List.replicate h.xattrs.keys.length [] ++ h.xattrs.keys).insertionSort
    (fun s t => bytesLe s t = true)

end Dao.TarSum
