import Dao.Core.Container.Disk

/-!
# What Is Saved

A file is written completely or not at all, if it can be encoded. Whether it was
written is another matter: `Close` is deferred, and its error lost.

## Theorems

* `close_eq`: What `Close` does to the disk.
* `toDisk_saved`: What is saved is what the result says just if the call is `Safe`.
-/

namespace Dao.ToDisk

open Function

variable (f g : Faults) (data : File → Option Bytes) (disk : Disk)

/-- `Close` does what it should. -/
def Faults.closes : Bool := !(f.sync || f.close || f.chmod || f.rename)

theorem close_eq (w : Writer) (file : File) : w.close f file disk =
    if f.closes ∧ w.writeErr = false then update disk file (some w.temp) else disk := by
  unfold Writer.close Faults.closes
  cases w.writeErr with
  | true => simp
  | false => grind

/-- What a result promises: with no error both files hold their encodings, and with an
    error each holds what it held or its encoding. -/
def Saved (out : Bool × Disk) : Prop :=
  if out.1 = true then ∀ file, (data file).isSome ∧ out.2 file = data file
  else ∀ file, out.2 file = disk file ∨ (data file).isSome ∧ out.2 file = data file

/-- The file that is written without an encoding is empty, or is not put in place. -/
def EmptyHarmless (file : File) : Prop := f.closes = false ∨ disk file = some []

/-- The file is put in place, or its encoding is there already. -/
def Placed (file : File) : Prop := f.closes = true ∨ disk file = data file

/-- The call fails before an empty file is put in place or a file is not, or it does
    neither. -/
def Safe : Prop :=
  f.create = true ∨
    if (data .config).isNone then EmptyHarmless f disk .config
    else f.write.isSome ∨ g.create = true ∨
      if (data .hostConfig).isNone then EmptyHarmless g disk .hostConfig
      else g.write.isSome ∨ Placed f data disk .config ∧ Placed g data disk .hostConfig

theorem forall_file {p : File → Prop} : (∀ file, p file) ↔ p .config ∧ p .hostConfig := by
  constructor
  · exact fun h => ⟨h _, h _⟩
  · rintro ⟨hconfig, hhost⟩ (_ | _)
    · exact hconfig
    · exact hhost

/-- `ToDisk` saves what its result says just if the call is safe. -/
theorem toDisk_saved : Saved data disk (toDisk f g data disk) ↔ Safe f g data disk := by
  unfold toDisk writeHostConfig Saved Safe EmptyHarmless Placed
  simp only [forall_file, close_eq]
  cases hcreate : f.create with
  | true => simp
  | false =>
    cases hconfig : data .config with
    | none => cases hcloses : f.closes <;> simp [encode, eq_comm (a := some [])]
    | some d =>
      cases hwrite : f.write with
      | some n => simp [encode, hwrite]
      | none =>
        cases hcreate' : g.create with
        | true => cases hcloses : f.closes <;> simp [encode, hwrite]
        | false =>
          -- The first file is encoded and the second writer is there.
          cases hhost : data .hostConfig with
          | none =>
            cases hcloses : f.closes <;> cases hcloses' : g.closes <;>
              simp [encode, hwrite, eq_comm (a := some [])]
          | some e =>
            cases hwrite' : g.write with
            | some n => cases hcloses : f.closes <;> simp [encode, hwrite, hwrite']
            | none =>
              cases hcloses : f.closes <;> cases hcloses' : g.closes <;>
                simp [encode, hwrite, hwrite']

def noFaults : Faults := ⟨false, none, false, false, false, false⟩

/-- The write of the second file breaks off, and both files are as they were or new. -/
theorem toDisk_saved_partial : Saved (fun _ => some [1, 2]) (fun _ => some [0])
    (toDisk noFaults { noFaults with write := some 1 } (fun _ => some [1, 2]) fun _ => some [0]) :=
  (toDisk_saved ..).mpr (.inr (.inr (.inr (.inl rfl))))

/-- A rename that fails leaves the old content, and no error is returned. A container
    without an encoding leaves an empty file. -/
theorem rename_lost :
    let out := toDisk { noFaults with rename := true } noFaults (fun _ => some [1])
      (fun _ => some [0])
    out.1 = true ∧ out.2 .config = some [0] ∧
      (toDisk noFaults noFaults (fun _ => none) fun _ => some [0]).2 .config = some [] := by
  decide

end Dao.ToDisk
