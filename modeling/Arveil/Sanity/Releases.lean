import Arveil.Spec.UpdateSigner
import Arveil.Sanity.Updates

/-! Two packages with what the signing tool writes of them, and for each the libraries that know its
texts: the one version is in ASCII digits, the other in fullwidth ones. -/

namespace Arveil.Updates.Signer.Demo

mutual

/-- `json.dumps` with narrow separators, of texts that need no escape. -/
def dump : Json → Bytes
  | .null => utf8 "null"
  | .bool b => utf8 (if b then "true" else "false")
  | .int n => utf8 (toString n)
  | .double _ => utf8 "0.5"
  | .str s => utf8 "\"" ++ (utf8 s ++ utf8 "\"")
  | .list items => utf8 "[" ++ (dumpItems items ++ utf8 "]")
  | .map fields => utf8 "\x7b" ++ (dumpFields fields ++ utf8 "\x7d")

def dumpItems : List Json → Bytes
  | [] => []
  | [j] => dump j
  | j :: js => dump j ++ (utf8 "," ++ dumpItems js)

def dumpFields : List (String × Json) → Bytes
  | [] => []
  | [f] => dumpField f
  | f :: fs => dumpField f ++ (utf8 "," ++ dumpFields fs)

def dumpField : String × Json → Bytes
  | (k, v) => utf8 "\"" ++ (utf8 k ++ (utf8 "\":" ++ dump v))

end

def dumpLine : String × Json → Bytes
  | (k, v) => utf8 "  \"" ++ (utf8 k ++ (utf8 "\": " ++ dump v))

/-- A map of plain values with `indent=2` and a line break after it. -/
def dumpLines : Json → Bytes
  | .map fields => utf8 "\x7b\n" ++ (List.intercalate (utf8 ",\n") (fields.map dumpLine) ++ utf8 "\n\x7d\n")
  | j => dump j ++ utf8 "\n"

/-- The letters, the small letters, the digits, `+` and `/`. -/
def sextet (n : Nat) : Char :=
  let v := n % 64
  Char.ofNat (if v < 26 then 65 + v else if v < 52 then 71 + v else if v < 62 then v - 4 else if v = 62 then 43 else 47)

def base64 : Bytes → List Char
  | a :: b :: c :: rest =>
    let n := a.toNat * 65536 + b.toNat * 256 + c.toNat
    sextet (n / 262144) :: sextet (n / 4096) :: sextet (n / 64) :: sextet n :: base64 rest
  | [a, b] =>
    let n := a.toNat * 65536 + b.toNat * 256
    [sextet (n / 262144), sextet (n / 4096), sextet (n / 64), '=']
  | [a] =>
    let n := a.toNat * 65536
    [sextet (n / 262144), sextet (n / 4096), '=', '=']
  | [] => []

def publicKey : Bytes := Updates.Demo.publicKey

def publicKey64 : String := "eiy8EvOPOKCynxD7MJ5HI6hHEuK6/6eAx3ydEcNQA18="

def feedUrl : String := "https://updates.example.org/clients-beta.json"
def assetUrl : String := "https://github.com/a/b/releases/download/clients-v0.2.0/a.apk"
def notesUrl : String := "https://example.org/n"

/-- When the announcements expire, and the time they are signed, thirty days before. -/
def expires : Int := Updates.Demo.expires
def now : Int := expires - 30 * day

def configFields : List (String × Json) :=
  [("ARVEIL_UPDATE_URL", .str feedUrl), ("ARVEIL_UPDATE_PUBLIC_KEY", .str publicKey64), ("ARVEIL_UPDATE_CHANNEL", .str "beta")]

def artifact : File := ⟨"a.apk", [80, 75, 3, 4]⟩

def artifactDigest : Bytes :=
  [141, 204, 126, 96, 22, 6, 33, 127, 59, 117, 71, 102, 81, 17, 130, 169, 22, 177, 126, 154, 38, 169, 76, 157, 136, 113, 4, 235, 169,
    46, 155, 178]

structure Release where
  version : String
  signature : Bytes
  buildDigest : Bytes
  payloadDigest : Hex64

def Release.build (r : Release) : Json :=
  .map [("version", .str r.version), ("build", .int 20), ("platform", .str "android"), ("architecture", .str "arm64"),
    ("dirty_source", .bool false), ("minimum_sdk", .int 26), ("application_id", .str "io.github.ulzuhan.arveil"),
    ("certificate_sha256", .str "e3b0c44298fc1c149afbf4c8996fb92427ae41e4649b934ca495991b7852b855"),
    ("update_config", .map configFields)]

def Release.buildJson (r : Release) : File := ⟨"BUILD.json", dump r.build⟩

def Release.package (r : Release) : Package where
  buildJson := r.buildJson
  build := r.build
  artifacts := [artifact]
  sums := [hexOf artifactDigest ++ "  a.apk", hexOf r.buildDigest ++ "  BUILD.json"]

def Release.checked (r : Release) : Checked :=
  ⟨[("version", .str r.version), ("build", .int 20), ("platform", .str "android"), ("architecture", .str "arm64"),
    ("dirty_source", .bool false), ("minimum_sdk", .int 26), ("application_id", .str "io.github.ulzuhan.arveil"),
    ("certificate_sha256", .str "e3b0c44298fc1c149afbf4c8996fb92427ae41e4649b934ca495991b7852b855"),
    ("update_config", .map configFields)], artifact, hexOf artifactDigest⟩

def Release.announcement (r : Release) : Announcement where
  channel := "beta"
  publicKey := publicKey
  sequence := 1
  expires := expires
  expiresText := "2026-08-01T00:00:00Z"
  android := r.checked
  androidUrl := assetUrl
  macos := none
  notes := ""
  notesUrl := notesUrl

def Release.payload (r : Release) : Bytes := dump r.announcement.payload

def Release.envelope (r : Release) : Json :=
  .map [("schema", .int 1), ("payload", .str (String.ofList (base64 r.payload))),
    ("signature", .str (String.ofList (base64 r.signature)))]

def Release.signed (r : Release) : Signed := ⟨r.announcement, r.signature, dumpLines r.envelope⟩

def narrow : Release where
  version := "0.2.0"
  signature :=
    [82, 165, 95, 184, 238, 118, 79, 33, 45, 94, 104, 112, 51, 54, 231, 56, 58, 37, 233, 157, 220, 246, 99, 57, 150, 203, 249,
      53, 126, 97, 228, 77, 20, 125, 71, 206, 102, 71, 40, 216, 253, 5, 24, 245, 236, 177, 189, 223, 58, 55, 220, 76, 146, 46,
      178, 78, 130, 162, 20, 44, 14, 83, 218, 12]
  buildDigest :=
    [216, 86, 167, 96, 21, 119, 116, 127, 239, 177, 251, 61, 228, 95, 104, 117, 207, 145, 77, 26, 252, 31, 63, 239, 66, 82, 202, 172,
      172, 155, 105, 225]
  payloadDigest := ⟨"00b12daa19317fb34a05898d48d1a6202371ce3fa4c29807d39bf01ad93bdd35", by decide +kernel⟩

def wide : Release where
  version := "０.２.０"
  signature :=
    [128, 212, 136, 118, 193, 201, 227, 87, 107, 84, 235, 197, 82, 215, 199, 85, 32, 255, 221, 35, 13, 254, 232, 104, 234, 236,
      59, 26, 38, 79, 82, 148, 238, 117, 12, 189, 68, 118, 65, 213, 9, 147, 116, 192, 131, 143, 228, 134, 194, 158, 95, 111,
      146, 15, 243, 13, 35, 182, 113, 135, 238, 255, 98, 8]
  buildDigest :=
    [51, 133, 8, 2, 204, 185, 80, 17, 230, 242, 63, 102, 87, 35, 24, 87, 46, 36, 244, 250, 226, 93, 104, 210, 187, 84, 32, 147, 121,
      92, 8, 228]
  payloadDigest := ⟨"7dd0c2c010d3b262ffc63dd44133cebf81c9acdeb76d6b3212bc6a4cea448779", by decide +kernel⟩

/-- Whether the update key signed the message. -/
def Release.genuine (r : Release) (message signature : Bytes) : Bool := message = domain ++ r.payload && signature = r.signature

def Release.py (r : Release) : Python where
  urlparse s :=
    if s = feedUrl then some ⟨"https", some "updates.example.org", none, none, "/clients-beta.json", ""⟩
    else if s = assetUrl then some ⟨"https", some "github.com", none, none, "/a/b/releases/download/clients-v0.2.0/a.apk", ""⟩
    else if s = notesUrl then some ⟨"https", some "example.org", none, none, "/n", ""⟩
    else none
  b64decode s := if s = publicKey64 then some publicKey else none
  b64encode b := String.ofList (base64 b)
  dumps j := dump j
  dumpsIndented j := dumpLines j
  isoformat t := if t = expires then some "2026-08-01T00:00:00Z" else none
  sha256hex b := if b = artifact.content then hexOf artifactDigest else hexOf r.buildDigest
  opensslVerify k message s := k = publicKey && r.genuine message s

def Release.cx (r : Release) : Dart where
  jsonDecode b :=
    if b = r.payload then some r.announcement.payload else if b = r.signed.envelope then some r.envelope else none
  base64Decode s :=
    if s = String.ofList (base64 r.payload) then some r.payload
    else if s = String.ofList (base64 r.signature) then some r.signature
    else none
  parseDate := Updates.Demo.parseDate
  toIso8601String := Updates.Demo.toIso8601String
  parse_iso := Updates.Demo.parse_iso
  tryParse := Updates.Demo.tryParse
  parseInt _ := none
  verifier p s k := some (k = publicKey && r.genuine (domain ++ p) s)
  sha256 _ := r.payloadDigest

def Release.key (r : Release) : Key where
  isPrivate := true
  publicKey := some publicKey
  sign message := if message = domain ++ r.payload then some r.signature else none

def Release.input (r : Release) : Input where
  key := r.key
  config := .map configFields
  ledger := .missing
  ledgerAgain := .missing
  sequence := some 1
  validDays := 30
  package := r.package
  assetUrl := assetUrl
  notes := ""
  notesUrl := notesUrl
  macosPackage := none
  macosAssetUrl := none
  outputExists := false
  writable := true
  now := now

def config : UpdateConfig where
  feed := Updates.Demo.uri "updates.example.org" feedUrl
  publicKey := publicKey
  channel := "beta"
  plain := rfl
  length := by decide
  named := Updates.Demo.beta_named

end Arveil.Updates.Signer.Demo
