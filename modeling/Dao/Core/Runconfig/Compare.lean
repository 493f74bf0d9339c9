import Dao.Core.Text

/-!
# Comparing Configurations

`runconfig.Compare`, by which the build cache tells whether an image was made
with a given configuration. The fields it does not read are left out.
-/

namespace Dao.Runconfig

/-- A map of labels. A key that it does not have reads as the empty value. -/
structure Labels where
  keys : Finset Str
  value : Str → Str
  absent : ∀ k, k ∉ keys → value k = []

structure Config where
  (attachStdout attachStderr openStdin tty : Bool)
  user : Str
  (cmd env entrypoint : List Str)
  labels : Labels
  (exposedPorts volumes : Finset Str)

/-- The loops over the indices of the first of two slices. -/
def equalSlices : List Str → List Str → Bool
  | x :: xs, y :: ys => x == y && equalSlices xs ys
  | xs, _ => xs.isEmpty

def compare : Option Config → Option Config → Bool
  | some a, some b =>
    !(a.openStdin || b.openStdin) &&
    (a.attachStdout == b.attachStdout && a.attachStderr == b.attachStderr && a.user == b.user &&
      a.openStdin == b.openStdin && a.tty == b.tty) &&
    (a.cmd.length == b.cmd.length && a.env.length == b.env.length &&
      a.labels.keys.card == b.labels.keys.card &&
      a.exposedPorts.card == b.exposedPorts.card && a.entrypoint.length == b.entrypoint.length &&
      a.volumes.card == b.volumes.card) &&
    equalSlices a.cmd b.cmd && equalSlices a.env b.env &&
    decide (∀ k ∈ a.labels.keys, a.labels.value k = b.labels.value k) &&
    decide (a.exposedPorts ⊆ b.exposedPorts) && equalSlices a.entrypoint b.entrypoint &&
    decide (a.volumes ⊆ b.volumes)
  | _, _ => false

end Dao.Runconfig
