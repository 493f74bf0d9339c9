import Dao.Core.Text
import Dao.Lib.Utf8

/-!
# The Records of the JSON Log

`jsonlog`: the encoding of log messages, one JSON object a message.

Strings and byte slices are both lists of bytes, since the code looks at the
bytes of a string and at whether they are UTF-8. The two functions that write a
string literal are two copies of one loop over a run of bytes that has not been
written yet; a time is given by the fields that `Format` prints.
-/

namespace Dao.JSONLog

open Lib.Utf8

/-- The bytes of a text without characters outside of ASCII. -/
def ascii (s : String) : Bytes := s.toList.map (fun c => UInt8.ofNat c.toNat)

/-- The entries of the constant `hex`. -/
def hex (n : Nat) : UInt8 := UInt8.ofNat (if n < 10 then 48 + n else 87 + n)

/-- A byte below `utf8.RuneSelf` that is copied. -/
def copied (b : UInt8) : Bool :=
  0x20 ≤ b.toNat && b ≠ 92 && b ≠ 34 && b ≠ 60 && b ≠ 62 && b ≠ 38

/-- The `switch` on a byte that is not copied. -/
def escape (b : UInt8) : Bytes :=
  if b = 92 ∨ b = 34 then [92, b]
  else if b = 10 then [92, 110]
  else if b = 13 then [92, 114]
  else [92, 117, 48, 48, hex (b.toNat / 16), hex (b.toNat % 16)]

/-- Write the run `s[start:i]`. -/
def flush (s : Bytes) (start i : Nat) (buf : Bytes) : Bytes :=
  if start < i then buf ++ (s.take i).drop start else buf

/-- The loop. The fuel bounds the number of rounds. -/
def writeLoop (decode : Bytes → Nat × Nat) (s : Bytes) : Nat → Nat → Nat → Bytes → Option Bytes
  | 0, _, _, _ => none
  | fuel + 1, i, start, buf =>
    match s.drop i with
    | [] => some (if start < s.length then buf ++ s.drop start else buf)
    | b :: _ =>
      if b.toNat < 0x80 then
        if copied b = true then writeLoop decode s fuel (i + 1) start buf
        else writeLoop decode s fuel (i + 1) (i + 1) (flush s start i buf ++ escape b)
      else
        let x := decode (s.drop i)
        if Invalid x then
          -- The escape of the replacement character.
          writeLoop decode s fuel (i + x.2) (i + x.2)
            (flush s start i buf ++ [92, 117, 102, 102, 102, 100])
        else if x.1 = 0x2028 ∨ x.1 = 0x2029 then
          writeLoop decode s fuel (i + x.2) (i + x.2)
            (flush s start i buf ++ [92, 117, 50, 48, 50, hex (x.1 % 16)])
        else writeLoop decode s fuel (i + x.2) start buf

/-- The literal, behind what stands in the buffer. -/
def writeQuoted (decode : Bytes → Nat × Nat) (buf s : Bytes) : Option Bytes :=
  (writeLoop decode s (s.length + 1) 0 0 (buf ++ [34])).map (fun buf => buf ++ [34])

/-- `ffjsonWriteJSONString`, with `utf8.DecodeRuneInString`. -/
def ffjsonWriteJSONString (buf s : Bytes) : Option Bytes := writeQuoted decodeRune buf s

/-- `ffjsonWriteJSONBytesAsString`, with `utf8.DecodeRune`. -/
def ffjsonWriteJSONBytesAsString (buf s : Bytes) : Option Bytes := writeQuoted decodeRune buf s

/-! ### Times -/

/-- A time, as `Format` sees it: `zone` is the offset in minutes. -/
structure Time where
  year : Int
  month : Nat
  day : Nat
  hour : Nat
  minute : Nat
  second : Nat
  nanosecond : Nat
  zone : Int

/-- `appendInt` of the package `time`. -/
def appendInt (n width : Nat) : Bytes :=
  let ds := (Nat.toDigits 10 n).map (fun c => UInt8.ofNat c.toNat)
  List.replicate (width - ds.length) 48 ++ ds

/-- The fraction of the second, without the zeros at its end. -/
def fraction (nanosecond : Nat) : Bytes :=
  let ds := ((appendInt nanosecond 9).reverse.dropWhile (fun b => b = 48)).reverse
  if ds = [] then [] else 46 :: ds

/-- `Format`, in the layout `"2006-01-02T15:04:05.999999999Z07:00"` with its
    quotes. -/
def formatJSON (t : Time) : Bytes :=
  [34] ++ appendInt t.year.toNat 4 ++ [45] ++ appendInt t.month 2 ++ [45] ++ appendInt t.day 2 ++
    [84] ++ appendInt t.hour 2 ++ [58] ++ appendInt t.minute 2 ++ [58] ++ appendInt t.second 2 ++
    fraction t.nanosecond ++
    (if t.zone = 0 then [90]
      else [if t.zone < 0 then 45 else 43] ++ appendInt (t.zone.natAbs / 60) 2 ++ [58] ++
        appendInt (t.zone.natAbs % 60) 2) ++ [34]

def fastTimeMarshalJSON (t : Time) : Except Str Bytes :=
  if t.year < 0 ∨ 10000 ≤ t.year then
    .error "time.MarshalJSON: year outside of range [0,9999]".toList
  else .ok (formatJSON t)

/-! ### Records -/

/-- Write the name of a member, behind a comma unless it is the first. -/
def writeName (first : Bool) (name : String) (buf : Bytes) : Bytes :=
  (if first then buf else buf ++ [44]) ++ [34] ++ ascii name ++ [34, 58]

/-- A `JSONLogs`: the time and the attributes are encoded already. -/
structure JSONLogs where
  log : Bytes
  stream : Bytes
  created : Bytes
  rawAttrs : Bytes

/-- `MarshalJSONBuf` of a `JSONLogs`. -/
def JSONLogs.marshalJSONBuf (mj : JSONLogs) (buf : Bytes) : Option Bytes := do
  let buf := buf ++ [123]
  let (first, buf) ←
    if mj.log ≠ [] then do
      pure (false, ← ffjsonWriteJSONBytesAsString (writeName true "log" buf) mj.log)
    else pure (true, buf)
  let (first, buf) ←
    if mj.stream ≠ [] then do
      pure (false, ← ffjsonWriteJSONString (writeName first "stream" buf) mj.stream)
    else pure (first, buf)
  let (first, buf) :=
    if mj.rawAttrs ≠ [] then (false, writeName first "attrs" buf ++ mj.rawAttrs)
    else (first, buf)
  pure (writeName first "time" buf ++ mj.created ++ [125])

end Dao.JSONLog
