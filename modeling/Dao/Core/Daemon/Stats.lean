import Dao.Core.Text

/-!
# System CPU usage

`getSystemCPUUsage` of the statistics collector, on the contents of `/proc/stat`.
-/

namespace Dao.Stats

inductive Err where
  | format
  | cpuFields
  | convert (value : Str)
  /-- The index of `parts[0]`, or the division. -/
  | panic
deriving DecidableEq

/-- `strings.Fields`. -/
def fields (s : Str) : List Str := (s.splitOnP isSpace).filter (· ≠ [])

/-- The lines that `ReadString` returns without an error. What follows the last
    newline is dropped with the error. -/
def readLines (content : Str) : List Str := (content.splitOn '\n').dropLast

/-- `strconv.ParseUint(s, 10, 64)`. -/
def parseUint (s : Str) : Option UInt64 :=
  (parseDigits s).bind fun n => if n < 2 ^ 64 then some (.ofNat n) else none

/-- The loop over the counters. -/
def addTicks (total : UInt64) : List Str → Except Err UInt64
  | [] => .ok total
  | i :: parts =>
    match parseUint i with
    | none => .error (.convert i)
    | some v => addTicks (total + v) parts

/-- The loop over the lines. -/
def usageLoop (clockTicksPerSecond : UInt64) : List Str → Except Err UInt64
  | [] => .error .format
  | line :: lines =>
    match fields line with
    | [] => .error .panic
    | name :: parts =>
      if name = "cpu".toList then
        if parts.length < 7 then .error .cpuFields
        else (addTicks 0 (parts.take 7)).bind fun total =>
          if clockTicksPerSecond = 0 then .error .panic
          else .ok (total * 1000000000 / clockTicksPerSecond)
      else usageLoop clockTicksPerSecond lines

def getSystemCPUUsage (clockTicksPerSecond : UInt64) (content : Str) : Except Err UInt64 :=
  usageLoop clockTicksPerSecond (readLines content)

end Dao.Stats
