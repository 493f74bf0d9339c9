import Dao.Core.Text

/-!
# Name Registrar

`Registrar`: the names of each key, and the key of each name. A key without
names is not in `idx`.
-/

namespace Dao.Registration

open Function

structure Registrar where
  idx : Str → Option (List Str)
  names : Str → Option Str

def newRegistrar : Registrar := ⟨fun _ => none, fun _ => none⟩

inductive Err where
  /-- `ErrNameReserved`. -/
  | nameReserved

/-- What an index without the key reads as. -/
def Registrar.list (r : Registrar) (key : Str) : List Str := (r.idx key).getD []

def reserve (name key : Str) (r : Registrar) : Option Err × Registrar :=
  match r.names name with
  | some k => (if k ≠ key then some .nameReserved else none, r)
  | none => (none,
      ⟨update r.idx key (some (r.list key ++ [name])), update r.names name (some key)⟩)

/-- `Release`, whose loop takes the first occurrence out. -/
def release (name : Str) (r : Registrar) : Registrar :=
  match r.names name with
  | none => r
  | some key =>
    let rest := (r.list key).erase name
    ⟨update r.idx key (if rest = [] then none else some rest), update r.names name none⟩

def delete (key : Str) (r : Registrar) : Registrar :=
  ⟨update r.idx key none, fun n => if n ∈ r.list key then none else r.names n⟩

inductive Action where
  | reserve (name key : Str)
  | release (name : Str)
  | delete (key : Str)

/-- The registrar after a call, whether it returns an error or not. -/
def step (r : Registrar) : Action → Registrar
  | .reserve name key => (reserve name key r).2
  | .release name => release name r
  | .delete key => delete key r

end Dao.Registration
