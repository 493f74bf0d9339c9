import Dao.Core.Reference.Grammar

/-!
# References

The package `reference`: what a user writes for an image, parsed by the
vendored `distribution/reference` package and then normalised.

There are two layers. The vendored one cuts the text into name, tag and digest
and knows nothing of a default registry. The one above it reads the name as a
hostname and the name of a repository there, `splitHostname`, and strips what
is implied: the default hostname, and `library/` in front of an official
image. The normalised name is a string again, and every accessor splits it
anew.

A length is counted in bytes. `strings.ToLower` is the one of ASCII: no other
character passes the expression for a name, before or after it.
-/

namespace Dao.Reference

open Lib

/-- Why a text is refused. -/
inductive RefError where
  /-- `ErrReferenceInvalidFormat`, "invalid reference format". -/
  | invalidFormat
  /-- `ErrTagInvalidFormat`, "invalid tag format". -/
  | tagInvalidFormat
  /-- `ErrDigestInvalidFormat`, "invalid digest format". -/
  | digestInvalidFormat
  /-- `ErrNameEmpty`, "repository name must have at least one component". -/
  | nameEmpty
  /-- `ErrNameTooLong`, "repository name must not be more than 255 characters". -/
  | nameTooLong
  /-- The error of `digest.ParseDigest`. -/
  | digest (e : Digest.DigestError)
  /-- "reference %s has no name". -/
  | noName (ref : Str)
  /-- "Error parsing reference: %q is not a valid repository/tag". -/
  | parsing (s : Str)
  /-- "invalid reference format: repository name must be lowercase". -/
  | notLowercase
  /-- "Invalid repository name (%s), cannot specify 64-byte hexadecimal
      strings". -/
  | hexadecimal (name : Str)
  deriving DecidableEq

def nameTotalLengthMax : Nat := 255

/-- The references of the vendored package. -/
inductive DistReference where
  | reference (name tag : Str) (digest : Digest)
  | repository (name : Str)
  | digestReference (digest : Digest)
  | taggedReference (name tag : Str)
  | canonicalReference (name : Str) (digest : Digest)
  deriving DecidableEq

def getBestReferenceType (name tag : Str) (digest : Digest) : Option DistReference :=
  if name = [] then
    if digest ≠ [] then some (.digestReference digest) else none
  else if tag = [] then
    if digest ≠ [] then some (.canonicalReference name digest) else some (.repository name)
  else if digest = [] then some (.taggedReference name tag)
  else some (.reference name tag digest)

/-- `Parse` of the vendored package. -/
def distParse (s : Str) : Except RefError DistReference :=
  match findStringSubmatch s with
  | none => if s = [] then .error .nameEmpty else .error .invalidFormat
  | some (name, tag, digest) =>
    if nameTotalLengthMax < (utf8 name).length then .error .nameTooLong
    else match (if digest ≠ [] then Digest.parseDigest digest else .ok []) with
      | .error e => .error (.digest e)
      | .ok digest =>
        match getBestReferenceType name tag digest with
        | none => .error .nameEmpty
        | some r => .ok r

/-- `Name`, of the references that have one. -/
def DistReference.name : DistReference → Option Str
  | reference name _ _ => some name
  | repository name => some name
  | digestReference _ => none
  | taggedReference name _ => some name
  | canonicalReference name _ => some name

/-- `Digest`, of the references that are `Canonical`. -/
def DistReference.canonical : DistReference → Option Digest
  | reference _ _ digest => some digest
  | canonicalReference _ digest => some digest
  | _ => none

/-- `Tag`, of the references that are `NamedTagged`. -/
def DistReference.namedTagged : DistReference → Option Str
  | reference _ tag _ => some tag
  | taggedReference _ tag => some tag
  | _ => none

def DistReference.string : DistReference → Str
  | reference name tag digest => name ++ ':' :: tag ++ '@' :: digest
  | repository name => name
  | digestReference digest => digest
  | taggedReference name tag => name ++ ':' :: tag
  | canonicalReference name digest => name ++ '@' :: digest

/-- `ParseNamed` of the vendored package, with the name of what it returns. -/
def distParseNamed (s : Str) : Except RefError (Str × DistReference) :=
  match distParse s with
  | .error e => .error e
  | .ok ref =>
    match ref.name with
    | none => .error (.noName ref.string)
    | some name => .ok (name, ref)

/-- `WithName` of the vendored package. -/
def distWithName (name : Str) : Except RefError Str :=
  if nameTotalLengthMax < (utf8 name).length then .error .nameTooLong
  else if nameRegexp.accepts name then .ok name
  else .error .invalidFormat

def defaultTag : Str := ['l', 'a', 't', 'e', 's', 't']

def defaultHostname : Str := ['d', 'o', 'c', 'k', 'e', 'r', '.', 'i', 'o']

def legacyDefaultHostname : Str := ['i', 'n', 'd', 'e', 'x', '.'] ++ defaultHostname

/-- `DefaultRepoPrefix`, without its slash. -/
def library : Str := ['l', 'i', 'b', 'r', 'a', 'r', 'y']

def defaultRepoPrefix : Str := library ++ ['/']

def localhost : Str := ['l', 'o', 'c', 'a', 'l', 'h', 'o', 's', 't']

/-- The front of a name is read as a hostname: it holds a dot or a colon, or
    it is `localhost`. -/
def isHostname (front : Str) : Bool :=
  front.any (fun c => decide (c = '.' ∨ c = ':')) || decide (front = localhost)

/-- The first half of `splitHostname`: the front of the name is the hostname
    if it is one, and the default is taken if not. -/
def splitFront (name : Str) : Str × Str :=
  match cut '/' name with
  | none => (defaultHostname, name)
  | some (front, back) => if isHostname front then (front, back) else (defaultHostname, name)

/-- The legacy hostname stands for the default one. -/
def currentHostname (hostname : Str) : Str :=
  if hostname = legacyDefaultHostname then defaultHostname else hostname

/-- The second half of `splitHostname`: `library/` is put in front of a single
    component on the default host. -/
def withLibrary (hostname remoteName : Str) : Str :=
  if hostname = defaultHostname ∧ '/' ∉ remoteName then defaultRepoPrefix ++ remoteName
  else remoteName

def splitHostname (name : Str) : Str × Str :=
  let (hostname, remoteName) := splitFront name
  let hostname := currentHostname hostname
  (hostname, withLibrary hostname remoteName)

def toLower (s : Str) : Str := s.map Char.toLower

def normalize (name : Str) : Except RefError Str :=
  let (host, remoteName) := splitHostname name
  if toLower remoteName ≠ remoteName then .error .notLowercase
  else if host = defaultHostname then
    if defaultRepoPrefix.isPrefixOf remoteName then
      .ok (remoteName.drop defaultRepoPrefix.length)
    else .ok remoteName
  else .ok name

/-- `v1.ValidateID`: `^([a-f0-9]{64})$`. -/
def validateID (id : Str) : Bool := (Regex.times 64 (.cls [('a', 'f'), ('0', '9')])).accepts id

def validateName (name : Str) : Except RefError Unit :=
  if validateID name then .error (.hexadecimal name) else .ok ()

/-- The three references: `namedRef`, `taggedRef` and `canonicalRef`. -/
inductive Named where
  | namedRef (name : Str)
  | taggedRef (name tag : Str)
  | canonicalRef (name : Str) (digest : Digest)
  deriving DecidableEq

namespace Named

def name : Named → Str
  | namedRef name => name
  | taggedRef name _ => name
  | canonicalRef name _ => name

def string : Named → Str
  | namedRef name => name
  | taggedRef name tag => name ++ ':' :: tag
  | canonicalRef name digest => name ++ '@' :: digest

def fullName (r : Named) : Str := (splitHostname r.name).1 ++ '/' :: (splitHostname r.name).2

/-- `Tag`, or nothing when the reference is not `NamedTagged`. -/
def tag : Named → Option Str
  | taggedRef _ tag => some tag
  | _ => none

/-- `Digest`, or nothing when the reference is not `Canonical`. -/
def digest : Named → Option Digest
  | canonicalRef _ digest => some digest
  | _ => none

end Named

def withName (name : Str) : Except RefError Named := do
  let name ← normalize name
  validateName name
  let r ← distWithName name
  return .namedRef r

def withTag (name : Named) (tag : Str) : Except RefError Named :=
  if tagRegexp.accepts tag then .ok (.taggedRef name.name tag) else .error .tagInvalidFormat

def withDigest (name : Named) (digest : Digest) : Except RefError Named :=
  if digestRegexp.accepts digest then .ok (.canonicalRef name.name digest)
  else .error .digestInvalidFormat

/-- The end of `ParseNamed`: what the text had besides the name. A reference
    with both a tag and a digest is `Canonical`, and its tag is dropped. -/
def withRest (named : DistReference) (r : Named) : Except RefError Named :=
  match named.canonical with
  | some digest => withDigest r digest
  | none =>
    match named.namedTagged with
    | some tag => withTag r tag
    | none => .ok r

def parseNamed (s : Str) : Except RefError Named :=
  match distParseNamed s with
  | .error _ => .error (.parsing s)
  | .ok (name, named) =>
    match withName name with
    | .error e => .error e
    | .ok r => withRest named r

def isNameOnly (ref : Named) : Bool := ref.tag.isNone && ref.digest.isNone

/-- `WithDefaultTag`. It drops the error of `WithTag`, which the default tag
    does not cause: see `withTag_defaultTag`. -/
def withDefaultTag (ref : Named) : Named :=
  if isNameOnly ref then .taggedRef ref.name defaultTag else ref

end Dao.Reference
