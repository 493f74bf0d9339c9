import Dao.Core.Text

/-!
# Id Mappings

The part of `idtools` that builds and uses the mapping of a user namespace.
Ids are Go's `int`, so every sum and difference is taken modulo `2^64`.

`ToContainer` and `ToHost` are one loop over the mapping that looks at the two
ends of an entry in opposite roles. `translate` is that loop.
-/

namespace Dao.IDTools

/-- The value an `int` has after an operation whose exact result is `x`. -/
def wrap (x : Int) : Int := Int.bmod x (2 ^ 64)

structure IDMap where
  containerID : Int
  hostID : Int
  size : Int
  deriving DecidableEq

structure SubIDRange where
  start : Int
  length : Int
  deriving DecidableEq

/-- The loop of `ToContainer` and of `ToHost`. -/
def translate (message : Str) (source target : IDMap → Int) (id : Int) :
    List IDMap → Except Str Int
  | [] => .error message
  | m :: ms =>
    if id ≥ source m ∧ id ≤ wrap (wrap (source m + m.size) - 1) then
      .ok (wrap (target m + wrap (id - source m)))
    else translate message source target id ms

def toContainer (hostID : Int) : Option (List IDMap) → Except Str Int
  | none => .ok hostID
  | some idMap =>
    translate ("Host ID ".toList ++ formatInt (.ofInt hostID) ++
      " cannot be mapped to a container ID".toList) IDMap.hostID IDMap.containerID hostID idMap

def toHost (contID : Int) : Option (List IDMap) → Except Str Int
  | none => .ok contID
  | some idMap =>
    translate ("Container ID ".toList ++ formatInt (.ofInt contID) ++
      " cannot be mapped to a host ID".toList) IDMap.containerID IDMap.hostID contID idMap

/-- The loop of `createIDMap`, from a container id on. -/
def idMapFrom (containerID : Int) : List SubIDRange → List IDMap
  | [] => []
  | r :: rs => ⟨containerID, r.start, r.length⟩ :: idMapFrom (wrap (containerID + r.length)) rs

/-- `createIDMap`. The sorting is by the lowest id. -/
def createIDMap (subidRanges : List SubIDRange) : List IDMap :=
  idMapFrom 0 (subidRanges.mergeSort (fun a b => decide (a.start ≤ b.start)))

end Dao.IDTools
