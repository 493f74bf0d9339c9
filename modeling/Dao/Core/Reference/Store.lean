import Dao.Core.Image.Config
import Dao.Core.Reference.Named
import Dao.Lib.Nested
import Dao.Lib.Run

/-!
# The Reference Store

The tag store of the daemon: which image ID each reference stands for. It is
kept twice, in `Repositories` by repository name and reference string, and in
`referencesByIDCache` by image ID and reference string. Only the first is
saved; the second is rebuilt by `reload`.

Every operation runs under the lock of the store, so it is one step. `save`
writes the whole file atomically or fails and leaves it as it was, and the
operation has changed the store by then: each action says whether its write
succeeds. Maps are iterated in the order of their entries, which for a map
that was read from a file is the order the decoder happens to give.

`encoding/json` is a codec of which nothing is used but its law: what it has
written, it reads back as the same map, in any order.
-/

namespace Dao.Reference

open Lib

/-- `Repositories`: image IDs by repository name and reference string. -/
abbrev Repositories : Type := Nested Str Str Image.ID

/-- The encoding of the file. -/
structure Codec (φ : Type) where
  marshal : Repositories → φ
  unmarshal : φ → Option Repositories
  reads : ∀ m, ∃ m', unmarshal (marshal m) = some m' ∧
    ∀ name refStr, m'.find name refStr = m.find name refStr

/-- Why an operation fails. -/
inductive StoreError where
  /-- "refusing to create a tag with a digest reference". -/
  | tagWithDigest
  /-- "refusing to create an ambiguous tag using digest algorithm as name". -/
  | ambiguous
  /-- "Cannot overwrite digest %s". -/
  | overwriteDigest (digest : Digest)
  /-- "Conflict: Tag %s is already set to image %s, if you want to replace it,
      please use -f option". -/
  | conflict (ref : Str) (id : Image.ID)
  /-- `ErrDoesNotExist`, "reference does not exist". -/
  | doesNotExist
  /-- The error of the write. -/
  | save
  /-- The error of the decoder. -/
  | decode
  deriving DecidableEq

/-- `store`, without its path. -/
structure Store where
  repositories : Repositories
  referencesByIDCache : Nested Image.ID Str Named

/-- A store without references. -/
def Store.empty : Store := ⟨∅, ∅⟩

/-- The store and its file, which may not exist. -/
structure Sys (φ : Type) where
  store : Store
  file : Option φ

/-- A call. The last argument of a call that writes is whether the write
    succeeds. -/
inductive Action where
  | addTag (ref : Named) (id : Image.ID) (force saves : Bool)
  | addDigest (name : Str) (digest : Digest) (id : Image.ID) (force saves : Bool)
  | delete (ref : Named) (saves : Bool)
  | restart (saves : Bool)

section Operations

variable {φ : Type} (codec : Codec φ)

def save (saves : Bool) (s : Sys φ) : Except StoreError Unit × Sys φ :=
  if saves then (.ok (), { s with file := some (codec.marshal s.store.repositories) })
  else (.error .save, s)

/-- The inner loop of `reload`: the references of one repository. A string
    that is not a reference is skipped. -/
def reloadRepository (entries : List (Sigma fun _ : Str => Image.ID))
    (cache : Nested Image.ID Str Named) : Nested Image.ID Str Named :=
  entries.foldl (fun cache e =>
    match parseNamed e.1 with
    | .error _ => cache
    | .ok ref => cache.put e.2 e.1 ref) cache

def reload (content : φ) : Except StoreError Store :=
  match codec.unmarshal content with
  | none => .error .decode
  | some repositories => .ok ⟨repositories, repositories.entries.foldl
      (fun cache e => reloadRepository e.2.entries cache) ∅⟩

def newReferenceStore (saves : Bool) (file : Option φ) : Except StoreError (Sys φ) :=
  match file with
  | none =>
    match save codec saves ⟨.empty, none⟩ with
    | (.error e, _) => .error e
    | (.ok _, s) => .ok s
  | some content =>
    match reload codec content with
    | .error e => .error e
    | .ok store => .ok ⟨store, file⟩

/-- The part of `addReference` in which the entry is written. -/
def setReference (ref : Named) (id : Image.ID) (cache : Nested Image.ID Str Named)
    (s : Sys φ) : Sys φ :=
  { s with store :=
    { repositories := s.store.repositories.put ref.name ref.string id
      referencesByIDCache := cache.put id ref.string ref } }

/-- `addReference`. The ambiguous name is refused before the lock is taken. -/
def addReference (ref : Named) (id : Image.ID) (force saves : Bool) (s : Sys φ) :
    Except StoreError Unit × Sys φ :=
  if ref.name = Digest.sha256 then (.error .ambiguous, s)
  else match s.store.repositories.find ref.name ref.string with
    | none => save codec saves (setReference ref id s.store.referencesByIDCache s)
    | some oldID =>
      match ref.digest with
      | some digest => (.error (.overwriteDigest digest), s)
      | none =>
        if force then
          save codec saves
            (setReference ref id (s.store.referencesByIDCache.del oldID ref.string) s)
        else (.error (.conflict ref.string oldID), s)

def addTag (ref : Named) (id : Image.ID) (force saves : Bool) (s : Sys φ) :
    Except StoreError Unit × Sys φ :=
  match ref.digest with
  | some _ => (.error .tagWithDigest, s)
  | none => addReference codec (withDefaultTag ref) id force saves s

def addDigest (name : Str) (digest : Digest) (id : Image.ID) (force saves : Bool) (s : Sys φ) :
    Except StoreError Unit × Sys φ :=
  addReference codec (.canonicalRef name digest) id force saves s

/-- `Delete`, which returns whether a deletion happened even when the save
    fails. -/
def delete (ref : Named) (saves : Bool) (s : Sys φ) : (Bool × Except StoreError Unit) × Sys φ :=
  let ref := withDefaultTag ref
  match s.store.repositories.find ref.name ref.string with
  | none => ((false, .error .doesNotExist), s)
  | some id =>
    let saved := save codec saves { s with store :=
      { repositories := s.store.repositories.del ref.name ref.string
        referencesByIDCache := s.store.referencesByIDCache.del id ref.string } }
    ((true, saved.1), saved.2)

/-- One call. A restart that fails leaves no store. -/
def step (a : Action) (s : Sys φ) :
    Except StoreError ((Bool × Except StoreError Unit) × Sys φ) :=
  match a with
  | .addTag ref id force saves =>
    let r := addTag codec ref id force saves s
    .ok ((false, r.1), r.2)
  | .addDigest name digest id force saves =>
    let r := addDigest codec name digest id force saves s
    .ok ((false, r.1), r.2)
  | .delete ref saves => .ok (delete codec ref saves s)
  | .restart saves =>
    match newReferenceStore codec saves s.file with
    | .error e => .error e
    | .ok s => .ok ((false, .ok ()), s)

end Operations

def get (ref : Named) (s : Store) : Except StoreError Image.ID :=
  let ref := withDefaultTag ref
  match s.repositories.find ref.name ref.string with
  | none => .error .doesNotExist
  | some id => .ok id

/-- The order of `lexicalRefs`. -/
def LexicalRefs (a b : Named) : Prop := ¬ b.string < a.string

instance : DecidableRel LexicalRefs :=
  fun a b => inferInstanceAs (Decidable (¬ b.string < a.string))

def references (id : Image.ID) (s : Store) : List Named :=
  (((s.referencesByIDCache.lookup id).getD ∅).entries.map (fun e => e.2)).insertionSort LexicalRefs

end Dao.Reference
