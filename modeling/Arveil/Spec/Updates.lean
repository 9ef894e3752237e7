import Mathlib.Data.List.SplitOn
import Arveil.Spec.Base

/-! Update announcements as the app reads them: manifest.dart. What the Dart libraries decode and
the signature check of the Rust core are a parameter; the rules an announcement is held to
are all here. -/

namespace Arveil.Updates

/-- A decoded JSON value. A number that is no integer keeps its value, one that is too large has none. -/
inductive Json where
  | null
  | bool (b : Bool)
  | int (n : Int)
  | double (x : Option Rat)
  | str (s : String)
  | list (items : List Json)
  | map (fields : List (String × Json))

/-- `UpdateFailure` with its code, `PlatformException` with its, or any other exception. -/
inductive Failure where
  | update (code : String)
  | platform (code : String)
  | other
deriving DecidableEq, Repr

namespace Json

/-- `==` against an integer: a double of the same value is equal. -/
def isInt (n : Int) : Json → Bool
  | int m => m == n
  | double (some x) => x == n
  | _ => false

def isStr (s : String) : Json → Bool
  | str t => t == s
  | _ => false

def asMap : Json → Except Failure (List (String × Json))
  | map fields => .ok fields
  | _ => .error .other

def asString : Json → Except Failure String
  | str s => .ok s
  | _ => .error .other

end Json

/-- `map[key]` -/
def field (fields : List (String × Json)) (key : String) : Json := (fields.lookup key).getD .null

/-- Microseconds since the epoch, and whether the time is in UTC. -/
structure DateTime where
  micros : Int
  isUtc : Bool
deriving DecidableEq, Repr

structure Uri where
  scheme : String
  host : String
  userInfo : String
  hasQuery : Bool
  hasFragment : Bool
  text : String
deriving DecidableEq, Repr

def isHex (c : Char) : Bool := ('0' ≤ c && c ≤ '9') || ('a' ≤ c && c ≤ 'f')

/-- `^[0-9a-f]{64}$` -/
def isHex64 (s : String) : Bool := s.toList.length == 64 && s.toList.all isHex

/-- A SHA-256 in lower-case hexadecimal. -/
abbrev Hex64 := { s : String // isHex64 s = true }

/-- What the app takes from the Dart libraries and from the Rust core. -/
structure Dart where
  jsonDecode : Bytes → Option Json
  base64Decode : String → Option Bytes
  parseDate : String → Option DateTime
  toIso8601String : Int → String
  /-- What `toIso8601String` writes of a time in UTC is read back as that time. -/
  parse_iso : ∀ t, parseDate (toIso8601String t) = some ⟨t, true⟩
  tryParse : String → Option Uri
  parseInt : String → Option Int
  /-- The Ed25519 check over the domain and the payload; it may throw. -/
  verifier : Bytes → Bytes → Bytes → Option Bool
  sha256 : Bytes → Hex64

variable (cx : Dart)

def orElse {α : Type} (e : Failure) (x : Option α) : Except Failure α :=
  match x with
  | some a => .ok a
  | none => .error e

def need (b : Bool) (code : String) : Except Failure Unit := if b then .ok () else .error (.update code)

def maxManifestBytes : Nat := 65536
/-- Counted in Unicode code points. -/
def maxNotes : Nat := 8000
def maxPackageBytes : Int := 512 * 1024 * 1024
def maxSequence : Int := 9007199254740991

def updateUri (value : Json) : Except Failure Uri :=
  match value with
  | .str s =>
    match cx.tryParse s with
    | some uri =>
      if uri.scheme != "https" || uri.host.isEmpty || !uri.userInfo.isEmpty || uri.hasFragment then .error (.update "format")
      else .ok uri
    | none => .error (.update "format")
  | _ => .error (.update "format")

structure UpdateConfig where
  feed : Uri
  publicKey : Bytes
  channel : String
  plain : feed.hasQuery = false
  length : publicKey.length = 32
  named : channel = "stable" ∨ channel = "beta"

structure UpdateDevice where
  build : Int
  sdk : Int
  applicationId : String
  arm64 : Bool
  osVersion : Option String
deriving DecidableEq, Repr

structure MacUpdate where
  build : Int
  version : String
  minimumOs : String
  url : Uri
  size : Int
  sha256 : String
  notes : String
  notesUrl : Uri
deriving DecidableEq, Repr

structure AndroidUpdate where
  build : Int
  version : String
  minimumSdk : Int
  applicationId : String
  url : Uri
  size : Int
  sha256 : String
  notes : String
  notesUrl : Uri
deriving DecidableEq, Repr

def parts (v : String) : Except Failure (List Int) :=
  orElse .other (((v.toList.splitOn '.').map String.ofList).mapM cx.parseInt)

def partsAtLeast : List Int → List Int → Bool
  | _, [] => true
  | have_, need :: rest =>
    let x := have_.headD 0
    if x ≠ need then need < x else partsAtLeast have_.tail rest

def atLeast (have_ need : String) : Except Failure Bool := do
  let a ← parts cx have_
  let b ← parts cx need
  return partsAtLeast a b

def MacUpdate.newerThan (u : MacUpdate) (device : UpdateDevice) : Bool := device.build < u.build

def MacUpdate.compatibleWith (u : MacUpdate) (device : UpdateDevice) : Except Failure Bool :=
  if device.arm64 then atLeast cx (device.osVersion.getD "0") u.minimumOs else .ok false

def AndroidUpdate.newerThan (u : AndroidUpdate) (device : UpdateDevice) : Bool := device.build < u.build

def AndroidUpdate.compatibleWith (u : AndroidUpdate) (device : UpdateDevice) : Bool :=
  device.arm64 && u.minimumSdk ≤ device.sdk && device.applicationId == u.applicationId

def isDigit (c : Char) : Bool := '0' ≤ c && c ≤ '9'

def isLetter (c : Char) : Bool := ('a' ≤ c && c ≤ 'z') || ('A' ≤ c && c ≤ 'Z')

/-- `^\d+\.\d+\.\d+$` -/
def isVersion (s : String) : Bool :=
  match s.toList.splitOn '.' with
  | [a, b, c] => [a, b, c].all fun p => !p.isEmpty && p.all isDigit
  | _ => false

/-- `^\d{1,3}\.\d{1,3}(\.\d{1,3})?$` -/
def isMinimumOs (s : String) : Bool :=
  let ps := s.toList.splitOn '.'
  (ps.length == 2 || ps.length == 3) && ps.all fun p => 1 ≤ p.length && p.length ≤ 3 && p.all isDigit

/-- `^[a-zA-Z][a-zA-Z0-9_]*(\.[a-zA-Z][a-zA-Z0-9_]*)+$` -/
def isApplicationId (s : String) : Bool :=
  let ps := s.toList.splitOn '.'
  2 ≤ ps.length && ps.all fun p => p.head?.any isLetter && p.all fun c => isLetter c || isDigit c || c == '_'

def integer (value : Json) (minimum maximum : Int) : Except Failure { n : Int // minimum ≤ n ∧ n ≤ maximum } :=
  match value with
  | .int n => if h : minimum ≤ n ∧ n ≤ maximum then .ok ⟨n, h⟩ else .error (.update "format")
  | _ => .error (.update "format")

structure UpdateManifest where
  sequence : Int
  bounds : 1 ≤ sequence ∧ sequence ≤ maxSequence
  expires : Int
  digest : Hex64
  android : AndroidUpdate
  macos : Option MacUpdate

def UpdateManifest.checkFreshness (m : UpdateManifest) (now lastSequence : Int) (lastDigest : Option Hex64) : Except Failure Unit :=
  if m.expires ≤ now then .error (.update "expired")
  else if m.sequence < lastSequence ∨ m.sequence = lastSequence ∧ some m.digest ≠ lastDigest then .error (.update "rollback")
  else .ok ()

def mac (entry : List (String × Json)) : Except Failure MacUpdate := do
  let version ← (field entry "version").asString
  let digest ← (field entry "sha256").asString
  let minimumOs ← (field entry "minimum_os").asString
  let notes ← (field entry "notes").asString
  need (isVersion version && isHex64 digest && isMinimumOs minimumOs && notes.toList.length ≤ maxNotes) "format"
  let build ← integer (field entry "build") 1 2100000000
  let url ← updateUri cx (field entry "url")
  let size ← integer (field entry "size") 1 maxPackageBytes
  let notesUrl ← updateUri cx (field entry "notes_url")
  return { build := build, version, minimumOs, url, size := size, sha256 := digest, notes, notesUrl }

def android (entry : List (String × Json)) : Except Failure AndroidUpdate := do
  let version ← (field entry "version").asString
  let digest ← (field entry "sha256").asString
  let applicationId ← (field entry "application_id").asString
  let notes ← (field entry "notes").asString
  need (isVersion version && isHex64 digest && isApplicationId applicationId && notes.toList.length ≤ maxNotes) "format"
  let build ← integer (field entry "build") 1 2100000000
  let minimumSdk ← integer (field entry "minimum_sdk") 21 1000
  let url ← updateUri cx (field entry "url")
  let size ← integer (field entry "size") 1 maxPackageBytes
  let notesUrl ← updateUri cx (field entry "notes_url")
  return { build := build, version, minimumSdk := minimumSdk, applicationId, url, size := size, sha256 := digest, notes, notesUrl }

def signedPayload (wire : Bytes) (config : UpdateConfig) : Except Failure Bytes := do
  need (wire.length ≤ maxManifestBytes) "format"
  let envelope ← (← orElse .other (cx.jsonDecode wire)).asMap
  need ((field envelope "schema").isInt 1) "format"
  let payload ← orElse .other (cx.base64Decode (← (field envelope "payload").asString))
  let signature ← orElse .other (cx.base64Decode (← (field envelope "signature").asString))
  need (signature.length == 64) "signature"
  need (← orElse .other (cx.verifier payload signature config.publicKey)) "signature"
  return payload

def optionalMac (value : Json) : Except Failure (Option MacUpdate) :=
  match value with
  | .null => .ok none
  | entry => do
    let fields ← entry.asMap
    return some (← mac cx fields)

def announced (payload : Bytes) (channel : String) : Except Failure UpdateManifest := do
  let data ← (← orElse .other (cx.jsonDecode payload)).asMap
  need ((field data "schema").isInt 1) "format"
  need ((field data "channel").isStr channel) "channel"
  let sequence ← integer (field data "sequence") 1 maxSequence
  let expires ← orElse .other (cx.parseDate (← (field data "expires").asString))
  need expires.isUtc "format"
  let platforms ← (field data "platforms").asMap
  let phone ← (field platforms "android-arm64").asMap
  let android ← android cx phone
  let macos ← optionalMac cx (field platforms "macos-arm64")
  return ⟨sequence.1, sequence.2, expires.micros, cx.sha256 payload, android, macos⟩

/-- `UpdateManifest.verify`: anything but an `UpdateFailure` is a malformed announcement. -/
def verify (wire : Bytes) (config : UpdateConfig) : Except Failure UpdateManifest :=
  match signedPayload cx wire config >>= fun payload => announced cx payload config.channel with
  | .ok m => .ok m
  | .error (.update code) => .error (.update code)
  | .error _ => .error (.update "format")

end Arveil.Updates
