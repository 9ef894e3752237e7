import Arveil.Spec.Updates

/-! The release signer: scripts/client_updates.py, from its inputs to the envelope that it writes. What
Python's libraries and OpenSSL do is a parameter; files are given by their names and contents.
An exception carries its message, or none where the script shows a general one. -/

namespace Arveil.Updates.Signer

/-- The code points of the decimal digits zero; nine more follow each. -/
def decimalZeros : List Nat :=
  [0x30, 0x660, 0x6f0, 0x7c0, 0x966, 0x9e6, 0xa66, 0xae6, 0xb66, 0xbe6, 0xc66, 0xce6, 0xd66, 0xde6, 0xe50, 0xed0, 0xf20,
    0x1040, 0x1090, 0x17e0, 0x1810, 0x1946, 0x19d0, 0x1a80, 0x1a90, 0x1b50, 0x1bb0, 0x1c40, 0x1c50, 0xa620, 0xa8d0, 0xa900,
    0xa9d0, 0xa9f0, 0xaa50, 0xabf0, 0xff10, 0x104a0, 0x10d30, 0x11066, 0x110f0, 0x11136, 0x111d0, 0x112f0, 0x11450, 0x114d0,
    0x11650, 0x116c0, 0x11730, 0x118e0, 0x11950, 0x11c50, 0x11d50, 0x11da0, 0x16a60, 0x16ac0, 0x16b50, 0x1d7ce, 0x1d7d8,
    0x1d7e2, 0x1d7ec, 0x1d7f6, 0x1e140, 0x1e2f0, 0x1e950, 0x1fbf0]

/-- `\d` in a pattern for text: any decimal digit of Unicode. -/
def isDecimal (c : Char) : Bool := decimalZeros.any fun z => z ≤ c.toNat && c.toNat < z + 10

/-- `urlparse`; `hostname`, `username` and `password` may be missing. -/
structure Url where
  scheme : String
  hostname : Option String
  username : Option String
  password : Option String
  path : String
  query : String

/-- An exception with the text it shows. -/
abbrev PyError := Option String

structure Python where
  urlparse : String → Option Url
  b64decode : String → Option Bytes
  b64encode : Bytes → String
  dumps : Json → Bytes
  dumpsIndented : Json → Bytes
  /-- `isoformat` of a time in UTC, with `Z`; none beyond the last year. -/
  isoformat : Int → Option String
  sha256hex : Bytes → String
  opensslVerify : Bytes → Bytes → Bytes → Bool

variable (py : Python)

def raise {α : Type} (message : String) : Except PyError α := .error (some message)

def check (b : Bool) (message : String) : Except PyError Unit := if b then .ok () else raise message

/-- A failure without a text of its own. -/
def require (b : Bool) : Except PyError Unit := if b then .ok () else .error none

def orMessage {α : Type} (x : Option α) (message : String) : Except PyError α :=
  match x with
  | some a => .ok a
  | none => raise message

def orRaise {α : Type} (x : Option α) : Except PyError α :=
  match x with
  | some a => .ok a
  | none => .error none

def maxBytes : Int := 512 * 1024 * 1024
def maxNotes : Nat := 8000
def maxSequence : Int := 9007199254740991

def empty? (s : Option String) : Bool := (s.getD "").isEmpty

def httpsUrl (value : String) (query : Bool) : Except PyError String := do
  let uri ← orRaise (py.urlparse value)
  check (uri.scheme == "https" && !empty? uri.hostname && empty? uri.username && empty? uri.password && !value.toList.contains '#')
    "Update URLs must be HTTPS, without credentials or fragments."
  check (query || !value.toList.contains '?') "The feed URL must not contain query parameters."
  return value

def checkNotes (notes : String) : Except PyError String := do
  check (notes.toList.length ≤ maxNotes) "Release notes must be at most 8000 characters."
  return notes

def integer (value : Json) (low high : Int) : Bool :=
  match value with
  | .int n => low ≤ n && n ≤ high
  | _ => false

def text (value : Json) (pattern : String → Bool) : Bool :=
  match value with
  | .str s => pattern s
  | _ => false

/-- `\d+\.\d+\.\d+` -/
def versionPattern (s : String) : Bool :=
  match s.toList.splitOn '.' with
  | [a, b, c] => [a, b, c].all fun p => !p.isEmpty && p.all isDecimal
  | _ => false

/-- `\d+\.\d+(\.\d+)?` -/
def minimumOsPattern (s : String) : Bool :=
  let ps := s.toList.splitOn '.'
  (ps.length == 2 || ps.length == 3) && ps.all fun p => !p.isEmpty && p.all isDecimal

/-- `[0-9a-f]{64}` -/
def sha256Pattern (s : String) : Bool := s.toList.length == 64 && s.toList.all fun c => ('0' ≤ c && c ≤ '9') || ('a' ≤ c && c ≤ 'f')

def asciiLetter (c : Char) : Bool := ('A' ≤ c && c ≤ 'Z') || ('a' ≤ c && c ≤ 'z')

/-- `[A-Za-z][A-Za-z0-9_]*(\.[A-Za-z][A-Za-z0-9_]*)+` -/
def applicationIdPattern (s : String) : Bool :=
  let ps := s.toList.splitOn '.'
  2 ≤ ps.length && ps.all fun p => p.head?.any asciiLetter && p.all fun c => asciiLetter c || ('0' ≤ c && c ≤ '9') || c == '_'

/-- The three distribution fields. -/
structure Config where
  url : String
  publicKey : String
  channel : String
deriving DecidableEq, Repr

def Config.dict (c : Config) : List (String × String) :=
  [("ARVEIL_UPDATE_URL", c.url), ("ARVEIL_UPDATE_PUBLIC_KEY", c.publicKey), ("ARVEIL_UPDATE_CHANNEL", c.channel)]

/-- `==` of a decoded object and a dictionary of texts. -/
def sameDict (fields : List (String × Json)) (dict : List (String × String)) : Bool :=
  fields.length == dict.length && dict.all fun (k, v) => (field fields k).isStr v

/-- `read_config`, with the key it decodes. -/
def readConfig (json : Json) : Except PyError (Config × Bytes) :=
  match json with
  | .map fields =>
    match field fields "ARVEIL_UPDATE_URL", field fields "ARVEIL_UPDATE_PUBLIC_KEY", field fields "ARVEIL_UPDATE_CHANNEL" with
    | .str url, .str key, .str channel => do
      check (fields.length == 3) "Update configuration must contain only the three documented public distribution fields."
      let url ← httpsUrl py url false
      let decoded ← orRaise (py.b64decode key)
      check (decoded.length == 32) "The update public key must be 32 bytes, base64 encoded."
      check (["stable", "beta"].contains channel) "The update channel must be stable or beta."
      return (⟨url, key, channel⟩, decoded)
    | _, _, _ => raise "Update configuration must contain only the three documented public distribution fields."
  | _ => raise "Update configuration must contain only the three documented public distribution fields."

structure File where
  name : String
  content : Bytes
deriving DecidableEq, Repr

structure Package where
  buildJson : File
  /-- `BUILD.json` decoded. -/
  build : Json
  artifacts : List File
  sums : List String

def splitSpaces : List Char → Option (List Char × List Char)
  | ' ' :: ' ' :: rest => some ([], rest)
  | c :: rest => (splitSpaces rest).map fun (a, b) => (c :: a, b)
  | [] => none

/-- `Path(name).name == name` -/
def plainName (name : String) : Bool := !name.toList.contains '/' && name != "."

def readSums : List String → List (String × String) → Except PyError (List (String × String))
  | [], sums => .ok sums
  | line :: lines, sums => do
    let (digest, name) ← orRaise (splitSpaces line.toList)
    check (plainName (String.ofList name) && (sums.lookup (String.ofList name)).isNone && sha256Pattern (String.ofList digest))
      "Malformed package checksums."
    readSums lines (sums ++ [(String.ofList name, String.ofList digest)])

/-- What `sign` takes from a package that was checked. -/
structure Checked where
  build : List (String × Json)
  artifact : File
  sha256 : String

def checkedPackage (p : Package) (platform suffix : String) (config : Config) : Except PyError Checked := do
  match p.build with
  | .map build =>
    let clean := match field build "dirty_source" with
      | .bool false => true
      | _ => false
    check (clean && (field build "platform").isStr platform && (field build "architecture").isStr "arm64")
      ("Only a clean, packaged " ++ platform ++ " arm64 release may be announced.")
    match field build "update_config" with
    | .map fields =>
      check (sameDict fields config.dict) ("The " ++ platform ++ " package was not built for this exact update distribution.")
      match p.artifacts with
      | [artifact] =>
        let sums ← readSums p.sums []
        check ([artifact, p.buildJson].all fun f => sums.lookup f.name == some (py.sha256hex f.content))
          "A package no longer matches its release checksums."
        check (1 ≤ artifact.content.length && artifact.content.length ≤ maxBytes) "Package size is outside the supported range."
        check (text (field build "version") versionPattern && integer (field build "build") 1 2100000000)
          ("Invalid " ++ platform ++ " version or build.")
        return ⟨build, artifact, (sums.lookup artifact.name).getD ""⟩
      | _ => raise ("Expected exactly one " ++ suffix ++ " in the " ++ platform ++ " package directory.")
    | _ => raise ("The " ++ platform ++ " package was not built for this exact update distribution.")
  | _ => raise "BUILD.json must contain a JSON object."

def releaseTag : List Char := "clients-v".toList

/-- `/[^/]+/[^/]+/releases/download/clients-v[^/]+/` and the name. -/
def releasePath (path name : String) : Bool :=
  match path.toList.splitOn '/' with
  | [start, owner, repository, releases, download, tag, file] =>
    start.isEmpty && !owner.isEmpty && !repository.isEmpty && releases == "releases".toList && download == "download".toList &&
      releaseTag.isPrefixOf tag && releaseTag.length < tag.length && file == name.toList
  | _ => false

def releaseAsset (url : String) (artifact : File) : Except PyError String := do
  let url ← httpsUrl py url true
  let parsed ← orRaise (py.urlparse url)
  check (parsed.hostname == some "github.com" && parsed.query.isEmpty && releasePath parsed.path artifact.name)
    ("Use the immutable clients-v* GitHub release asset URL of " ++ artifact.name ++ ".")
  return url

/-- `sequences.json`: missing, text that is no JSON, or a value. -/
inductive LedgerFile where
  | missing
  | malformed
  | holds (j : Json)

def malformedLedger : String :=
  "The sequence ledger (sequences.json beside the update key) is malformed. " ++
    "It was not changed; restore it from a backup or correct it by hand."

/-- The entries of a channel rise. -/
def readEntries : Int → List Json → Except PyError Unit
  | _, [] => .ok ()
  | previous, entry :: entries =>
    match entry with
    | .map fields =>
      match field fields "sequence" with
      | .int n => do
        check (previous + 1 ≤ n && n ≤ maxSequence) malformedLedger
        readEntries n entries
      | _ => raise malformedLedger
    | _ => raise malformedLedger

def readChannels : List (String × Json) → Except PyError Unit
  | [] => .ok ()
  | (channel, entries) :: channels =>
    match entries with
    | .list entries => do
      check (["stable", "beta"].contains channel && !entries.isEmpty) malformedLedger
      readEntries 0 entries
      readChannels channels
    | _ => raise malformedLedger

/-- `read_ledger`, its channels. -/
def readLedger : LedgerFile → Except PyError (List (String × Json))
  | .missing => .ok []
  | .malformed => raise malformedLedger
  | .holds (.map fields) =>
    match field fields "channels" with
    | .map channels => do
      check (fields.length == 2 && integer (field fields "schema") 1 1) malformedLedger
      readChannels channels
      return channels
    | _ => raise malformedLedger
  | .holds _ => raise malformedLedger

def lastSequence (channels : List (String × Json)) (channel : String) : Option Int :=
  match field channels channel with
  | .list entries =>
    match entries.getLast? with
    | some (.map fields) =>
      match field fields "sequence" with
      | .int n => some n
      | _ => none
    | _ => none
  | _ => none

/-- The sequence that was asked for, or the next one. -/
def requestedSequence (last : Option Int) (channel : String) (requested : Option Int) : Except PyError Int :=
  match requested, last with
  | some n, _ => .ok n
  | none, some n => .ok (n + 1)
  | none, none => raise ("No " ++ channel ++ " announcement is recorded yet; pass --sequence once " ++
      "(1 for a new channel, or one higher than the last one published).")

/-- `choose_sequence`, given the last sequence of the channel in the ledger. -/
def chooseSequence (last : Option Int) (channel : String) (requested : Option Int) : Except PyError Int := do
  let requested ← requestedSequence last channel requested
  check (last.getD 0 + 1 ≤ requested && requested ≤ maxSequence)
    (match last with
      | some n => "The " ++ channel ++ " sequence must be higher than " ++ toString n ++ ", the last one signed, and at most " ++
          toString maxSequence ++ "."
      | none => "Use a sequence from 1 to " ++ toString maxSequence ++ ".")
  return requested

structure Key where
  isPrivate : Bool
  /-- None for a wrong passphrase or another kind of key. -/
  publicKey : Option Bytes
  sign : Bytes → Option Bytes

/-- The command line and what it names. -/
structure Input where
  key : Key
  config : Json
  /-- The ledger, and when it is read again at the end. -/
  ledger : LedgerFile
  ledgerAgain : LedgerFile
  sequence : Option Int
  validDays : Int
  package : Package
  assetUrl : String
  notes : String
  notesUrl : String
  macosPackage : Option Package
  macosAssetUrl : Option String
  outputExists : Bool
  /-- Whether the ledger and the output could be written. -/
  writable : Bool
  now : Int

def domain : Bytes := utf8 "arveil-client-updates-v1\n"

def day : Int := 86400000000

def entry (android : Bool) (c : Checked) (url notes notesUrl : String) : Json :=
  if android then
    .map [("version", field c.build "version"), ("build", field c.build "build"), ("minimum_sdk", field c.build "minimum_sdk"),
      ("application_id", field c.build "application_id"), ("url", .str url), ("size", .int c.artifact.content.length),
      ("sha256", .str c.sha256), ("notes", .str notes), ("notes_url", .str notesUrl)]
  else
    .map [("version", field c.build "version"), ("build", field c.build "build"), ("minimum_os", field c.build "minimum_os"),
      ("url", .str url), ("size", .int c.artifact.content.length), ("sha256", .str c.sha256), ("notes", .str notes),
      ("notes_url", .str notesUrl)]

/-- The package of the Mac app and its URL, checked against the Android one. -/
def macosEntry (i : Input) (config : Config) (build : List (String × Json)) : Except PyError (Option (Checked × String)) := do
  match i.macosPackage, i.macosAssetUrl with
  | none, none => return none
  | some package, some assetUrl =>
    let mac ← checkedPackage py package "macos" ".zip" config
    check (sameText (field mac.build "version") (field build "version") && sameInt (field mac.build "build") (field build "build"))
      "The macOS and Android packages must be the same version and build."
    check (text (field mac.build "minimum_os") minimumOsPattern) "Missing or invalid minimum macOS version."
    let url ← releaseAsset py assetUrl mac.artifact
    return some (mac, url)
  | _, _ => raise "Pass --macos-package and --macos-asset-url together."
where
  sameText : Json → Json → Bool
    | .str a, .str b => a == b
    | _, _ => false
  sameInt : Json → Json → Bool
    | .int a, .int b => a == b
    | _, _ => false

/-- What `sign` announces, and the envelope that it writes. -/
structure Announcement where
  channel : String
  publicKey : Bytes
  sequence : Int
  expires : Int
  expiresText : String
  android : Checked
  androidUrl : String
  macos : Option (Checked × String)
  notes : String
  notesUrl : String

def Announcement.platforms (a : Announcement) : List (String × Json) :=
  ("android-arm64", entry true a.android a.androidUrl a.notes a.notesUrl) ::
    match a.macos with
    | some (mac, url) => [("macos-arm64", entry false mac url a.notes a.notesUrl)]
    | none => []

def Announcement.payload (a : Announcement) : Json :=
  .map [("schema", .int 1), ("channel", .str a.channel), ("sequence", .int a.sequence), ("expires", .str a.expiresText),
    ("platforms", .map a.platforms)]

def envelope (payload signature : Bytes) : Json :=
  .map [("schema", .int 1), ("payload", .str (py.b64encode payload)), ("signature", .str (py.b64encode signature))]

/-- Everything that `sign` checks before it asks for the passphrase. -/
def prepare (i : Input) : Except PyError (Announcement × Config) := do
  check i.key.isPrivate "The update key must be private (chmod 600)."
  let (config, publicKey) ← readConfig py i.config
  let channels ← readLedger i.ledger
  let sequence ← chooseSequence (lastSequence channels config.channel) config.channel i.sequence
  check (1 ≤ i.validDays && i.validDays ≤ 90) "Use an expiry of 1–90 days."
  let apk ← checkedPackage py i.package "android" ".apk" config
  check (text (field apk.build "certificate_sha256") sha256Pattern)
    "The build is missing its Android signing certificate fingerprint."
  check (integer (field apk.build "minimum_sdk") 21 1000) "Invalid minimum Android SDK."
  check (text (field apk.build "application_id") applicationIdPattern) "Missing or invalid Android application ID."
  let notes ← checkNotes i.notes
  let notesUrl ← httpsUrl py i.notesUrl true
  let androidUrl ← releaseAsset py i.assetUrl apk.artifact
  let macos ← macosEntry py i config apk.build
  check (!i.outputExists) "The output file already exists; choose a new name. Nothing was changed."
  let expires := i.now + i.validDays * day
  let expiresText ← orRaise (py.isoformat expires)
  return (⟨config.channel, publicKey, sequence, expires, expiresText, apk, androidUrl, macos, notes, notesUrl⟩, config)

structure Signed where
  announcement : Announcement
  signature : Bytes
  envelope : Bytes

def sign (i : Input) : Except PyError Signed := do
  let (a, config) ← prepare py i
  let publicKey ← orMessage i.key.publicKey "Cannot read the update key; check the passphrase. Nothing was signed."
  check (py.b64encode publicKey == config.publicKey) "Signing key does not match the client's configured public key."
  let payload := py.dumps a.payload
  let signature ← orRaise (i.key.sign (domain ++ payload))
  check (signature.length == 64) "Unexpected Ed25519 signature length."
  require (py.opensslVerify a.publicKey (domain ++ payload) signature)
  let written := py.dumpsIndented (envelope py payload signature)
  check (written.length ≤ 65536) "Signed manifest exceeds the client's size limit."
  let channels ← readLedger i.ledgerAgain
  check ((lastSequence channels a.channel).getD 0 < a.sequence) "The sequence ledger changed while signing; nothing was written."
  require i.writable
  return ⟨a, signature, written⟩

end Arveil.Updates.Signer
