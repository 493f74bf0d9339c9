import Dao.Core.Text
import Dao.Lib.AMap

/-!
# Pulling From a Registry

The endpoints that a host name stands for, and the loop of `Pull` over them.
What the network and the parsers of the standard library answer is a parameter,
and so is what an attempt on an endpoint comes to. Of a URL the scheme and the
host are kept, and of a TLS configuration whether certificates are verified.
-/

namespace Dao.Registry

open Lib

structure URL where
  scheme : Str
  host : Str
  deriving DecidableEq

inductive APIVersion where
  | v1
  | v2
  deriving DecidableEq

structure APIEndpoint where
  url : URL
  version : APIVersion
  mirror : Bool
  official : Bool
  trimHostname : Bool
  insecureSkipVerify : Bool
  deriving DecidableEq

/-- What is asked of the system. -/
structure Net (ι κ : Type) where
  contains : κ → ι → Bool
  splitHostPort : Str → Option Str
  lookupIP : Str → Option (List ι)
  parseIP : Str → Option ι
  parseURL : Str → Except Str URL
  readCertsDirectory : Str → Except Str Unit

structure IndexInfo where
  name : Str
  secure : Bool
  official : Bool

structure ServiceConfig (κ : Type) where
  insecureRegistryCIDRs : List κ
  indexConfigs : AMap Str IndexInfo
  mirrors : List Str
  v2Only : Bool

def http : Str := "http".toList
def https : Str := "https".toList
def defaultNamespace : Str := "docker.io".toList
def legacyDefaultHostname : Str := "index.docker.io".toList
def defaultV1Registry : URL := ⟨https, "index.docker.io".toList⟩
def defaultV2Registry : URL := ⟨https, "registry-1.docker.io".toList⟩
def certsDir : Str := "/etc/docker/certs.d".toList

section

variable {ι κ : Type} (net : Net ι κ)

def isSecureIndex (config : ServiceConfig κ) (index : Str) : Bool :=
  match config.indexConfigs.lookup index with
  | some info => info.secure
  | none =>
    let host := (net.splitHostPort index).getD index
    let addrs := match net.lookupIP host with
      | some addrs => addrs
      | none => (net.parseIP host).toList
    !addrs.any fun addr => config.insecureRegistryCIDRs.any fun ipnet => net.contains ipnet addr

/-- `newTLSConfig`: whether the certificates go unverified. -/
def newTLSConfig (hostname : Str) (isSecure : Bool) : Except Str Bool := do
  if isSecure then net.readCertsDirectory (certsDir ++ '/' :: hostname)
  return !isSecure

def tlsConfig (config : ServiceConfig κ) (hostname : Str) : Except Str Bool :=
  newTLSConfig net hostname (isSecureIndex net config hostname)

/-- The endpoint of a mirror, which is guessed to be v2. -/
def mirrorEndpoint (config : ServiceConfig κ) (mirror : Str) : Except Str APIEndpoint := do
  let mirror := if "http://".toList.isPrefixOf mirror || "https://".toList.isPrefixOf mirror
    then mirror else "https://".toList ++ mirror
  let url ← net.parseURL mirror
  return ⟨url, .v2, true, false, true, ← tlsConfig net config url.host⟩

/-- The end of both lookups: https, and http where certificates go unverified. -/
def hostEndpoints (config : ServiceConfig κ) (hostname : Str) (version : APIVersion) :
    Except Str (List APIEndpoint) := do
  let insecureSkipVerify ← tlsConfig net config hostname
  let endpoint := fun scheme =>
    (⟨⟨scheme, hostname⟩, version, false, false, true, insecureSkipVerify⟩ : APIEndpoint)
  return endpoint https :: if insecureSkipVerify then [endpoint http] else []

def lookupV2Endpoints (config : ServiceConfig κ) (hostname : Str) :
    Except Str (List APIEndpoint) := do
  if hostname = defaultNamespace ∨ hostname = defaultV1Registry.host then
    return (← config.mirrors.mapM (mirrorEndpoint net config)) ++
      [⟨defaultV2Registry, .v2, false, true, true, false⟩]
  hostEndpoints net config hostname .v2

def lookupV1Endpoints (config : ServiceConfig κ) (hostname : Str) :
    Except Str (List APIEndpoint) := do
  if hostname = defaultNamespace then
    return [⟨defaultV1Registry, .v1, false, true, true, false⟩]
  hostEndpoints net config hostname .v1

def lookupEndpoints (config : ServiceConfig κ) (hostname : Str) :
    Except Str (List APIEndpoint) := do
  let endpoints ← lookupV2Endpoints net config hostname
  if config.v2Only then return endpoints
  return endpoints ++ (← lookupV1Endpoints net config hostname)

end

/-- An error of a puller. -/
structure Failure where
  err : Str
  /-- It is an `ErrNoSupport`. -/
  noSupport : Bool
  /-- Of a `fallbackError`, `confirmedV2` and `transportOK`. -/
  fallback : Option (Bool × Bool)
  /-- The context is done by now. -/
  cancelled : Bool

/-- An attempt on an endpoint, with its error. -/
abbrev Contact := APIEndpoint × Option Failure

/-- The variables of the loop. -/
structure Loop where
  lastErr : Option Str
  discardNoSupportErrors : Bool
  confirmedV2 : Bool
  confirmedTLSRegistries : List Str
  contacts : List Contact

/-- What the loop keeps of a fallback error. -/
def Loop.fallback (l : Loop) (e : APIEndpoint) (f : Failure) (confirmedV2 transportOK : Bool) :
    Loop :=
  { l with
    confirmedV2 := l.confirmedV2 || confirmedV2
    confirmedTLSRegistries := if transportOK ∧ e.url.scheme = https
      then e.url.host :: l.confirmedTLSRegistries else l.confirmedTLSRegistries
    discardNoSupportErrors := l.discardNoSupportErrors || !f.noSupport
    lastErr := if !f.noSupport || !l.discardNoSupportErrors then some f.err else l.lastErr }

/-- The loop of `Pull`, with the attempts it made. -/
def pullLoop (attempt : List Contact → APIEndpoint → Option Failure) (ref : Str) :
    List APIEndpoint → Loop → Except Str Unit × List Contact
  | [], l => (.error (l.lastErr.getD ("no endpoints found for ".toList ++ ref)), l.contacts)
  | e :: endpoints, l =>
    if l.confirmedV2 ∧ e.version = .v1 then pullLoop attempt ref endpoints l
    else if e.url.scheme ≠ https ∧ e.url.host ∈ l.confirmedTLSRegistries then
      pullLoop attempt ref endpoints l
    else
      let outcome := attempt l.contacts e
      let l := { l with contacts := l.contacts ++ [(e, outcome)] }
      match outcome with
      | none => (.ok (), l.contacts)
      | some f =>
        match if f.cancelled then none else f.fallback with
        | none => (.error f.err, l.contacts)
        | some (confirmedV2, transportOK) =>
          pullLoop attempt ref endpoints (l.fallback e f confirmedV2 transportOK)

def validateIndexName (val : Str) : Except Str Str :=
  let val := if val = legacyDefaultHostname then defaultNamespace else val
  if val.head? = some '-' ∨ val.getLast? = some '-' then
    .error ("Invalid index name (".toList ++ val ++
      "). Cannot begin or end with a hyphen.".toList)
  else .ok val

def validateRepoName (name : Str) : Except Str Unit :=
  if name = [] then .error "Repository name can't be empty".toList
  else if name = "scratch".toList then .error "'scratch' is a reserved name".toList
  else .ok ()

/-- `Pull` of a reference with the given host name and repository name. -/
def pull {ι κ : Type} (net : Net ι κ) (config : ServiceConfig κ)
    (attempt : List Contact → APIEndpoint → Option Failure) (hostname name ref : Str) :
    Except Str Unit × List Contact :=
  let endpoints : Except Str (List APIEndpoint) := do
    let _ ← validateIndexName hostname
    validateRepoName name
    lookupEndpoints net config hostname
  match endpoints with
  | .error e => (.error e, [])
  | .ok endpoints => pullLoop attempt ref endpoints ⟨none, false, false, [], []⟩

end Dao.Registry
