import Dao.Core.Layer.Backend

/-!
# Image Configurations

The part of an image's configuration that the image store reads: its root
filesystem, a list of diff IDs, and the history. The store looks only at the
mark for an empty layer; loading an archive compares whole entries.

The JSON decoder is a parameter, `json.Unmarshal` into an `Image`. What it
does with a byte slice is fixed, so that reading a configuration twice gives
the same image, and nothing else is assumed of it.
-/

namespace Dao

namespace Image

open Layer

/-- The content-addressable ID of an image. -/
abbrev ID : Type := Digest

def typeLayers : Str := ['l', 'a', 'y', 'e', 'r', 's']

/-- `RootFS`, of a build for other systems than Windows. -/
structure RootFS where
  type : Str
  diffIDs : List DiffID
  deriving DecidableEq

def newRootFS : RootFS := ⟨typeLayers, []⟩

def RootFS.append (r : RootFS) (id : DiffID) : RootFS := { r with diffIDs := r.diffIDs ++ [id] }

def RootFS.chainID (r : RootFS) : ChainID := createChainID r.diffIDs

/-- One build step. `record` stands for `Created`, `Author`, `CreatedBy` and
    `Comment`, which are copied and compared and never looked at. -/
structure History where
  record : Str
  emptyLayer : Bool
  deriving DecidableEq

end Image

/-- An image. The root filesystem is absent when the configuration has no key
    for it. -/
structure Image where
  rootFS : Option Image.RootFS
  history : List Image.History
  deriving DecidableEq

namespace Image

/-- `json.Unmarshal` into an `Image`. -/
abbrev Decoder : Type := Bytes → Except Str Image

/-- `NewFromJSON`, with the root filesystem it makes sure is there. -/
def newFromJSON (unmarshal : Decoder) (src : Bytes) : Except Str (Image × RootFS) :=
  match unmarshal src with
  | .error e => .error e
  | .ok img =>
    match img.rootFS with
    | none => .error "Invalid image JSON, no RootFS key.".toList
    | some r => .ok (img, r)

/-- The loop over `img.History` in `Create`. -/
def nonEmptyLayers (img : Image) : Nat := img.history.countP (fun h => !h.emptyLayer)

end Image

end Dao
