import Arveil.Proofs.UpdateSigner.Readings
import Arveil.Sanity.Releases

/-! A release of the demonstration is checked, signed and understood, whatever its version and build
read, as long as they pass the signer's patterns. -/

namespace Arveil.Updates.Signer

variable {py : Python}

theorem checkedPackage_of {p : Package} {platform suffix version : String} {config : Config} {build fields : List (String × Json)}
    {artifact : File} {sums : List (String × String)} {n : Int} (hbuild : p.build = .map build)
    (hclean : field build "dirty_source" = .bool false) (hplatform : field build "platform" = .str platform)
    (harchitecture : field build "architecture" = .str "arm64") (hconfig : field build "update_config" = .map fields)
    (hsame : sameDict fields config.dict = true) (hartifacts : p.artifacts = [artifact]) (hsums : readSums p.sums [] = .ok sums)
    (hmatch : ([artifact, p.buildJson].all fun f => sums.lookup f.name == some (py.sha256hex f.content)) = true)
    (hsize : 1 ≤ artifact.content.length ∧ (artifact.content.length : Int) ≤ maxBytes)
    (hversion : field build "version" = .str version) (hpattern : versionPattern version = true)
    (hnumber : field build "build" = .int n) (hbounds : 1 ≤ n ∧ n ≤ 2100000000) :
    checkedPackage py p platform suffix config = .ok ⟨build, artifact, (sums.lookup artifact.name).getD ""⟩ := by
  unfold checkedPackage
  simp only [hbuild, hclean, hplatform, harchitecture, hconfig, hsame, hartifacts, hsums, hversion, hnumber, Bind.bind, Except.bind]
  rw [hmatch]
  simp [check, Json.isStr, text, hpattern, integer, hbounds, hsize, Pure.pure, Except.pure]

theorem prepare_of {i : Input} {config : Config} {key : Bytes} {channels : List (String × Json)} {sequence sdk : Int} {c : Checked}
    {certificate id expires url : String} (hprivate : i.key.isPrivate = true) (hconfig : readConfig py i.config = .ok (config, key))
    (hledger : readLedger i.ledger = .ok channels)
    (hsequence : chooseSequence (lastSequence channels config.channel) config.channel i.sequence = .ok sequence)
    (hdays : 1 ≤ i.validDays ∧ i.validDays ≤ 90) (hpackage : checkedPackage py i.package "android" ".apk" config = .ok c)
    (hcertificate : field c.build "certificate_sha256" = .str certificate) (hhex : sha256Pattern certificate = true)
    (hsdk : field c.build "minimum_sdk" = .int sdk) (hbounds : 21 ≤ sdk ∧ sdk ≤ 1000) (hid : field c.build "application_id" = .str id)
    (happ : applicationIdPattern id = true) (hnotes : i.notes.toList.length ≤ maxNotes)
    (hnotesUrl : httpsUrl py i.notesUrl true = .ok i.notesUrl) (hurl : releaseAsset py i.assetUrl c.artifact = .ok url)
    (hmac : i.macosPackage = none ∧ i.macosAssetUrl = none) (hout : i.outputExists = false)
    (hexpires : py.isoformat (i.now + i.validDays * day) = some expires) :
    prepare py i = .ok (⟨config.channel, key, sequence, i.now + i.validDays * day, expires, c, url, none, i.notes, i.notesUrl⟩, config) := by
  simp [prepare, hprivate, hconfig, hledger, hsequence, hdays, hpackage, hcertificate, text, hhex, hsdk, integer, hbounds, hid, happ,
    checkNotes, hnotes, hnotesUrl, hurl, macosEntry, hmac, hout, hexpires, check, orRaise, Bind.bind, Except.bind, Pure.pure,
    Except.pure]

theorem sign_of {i : Input} {a : Announcement} {config : Config} {key payload signature written : Bytes}
    {channels : List (String × Json)} (h : prepare py i = .ok (a, config)) (hkey : i.key.publicKey = some key)
    (hsame : (py.b64encode key == config.publicKey) = true) (hpayload : py.dumps a.payload = payload)
    (hsign : i.key.sign (domain ++ payload) = some signature) (hlength : signature.length = 64)
    (hverify : py.opensslVerify a.publicKey (domain ++ payload) signature = true)
    (hwritten : py.dumpsIndented (envelope py payload signature) = written) (hsize : written.length ≤ 65536)
    (hledger : readLedger i.ledgerAgain = .ok channels) (hlast : (lastSequence channels a.channel).getD 0 < a.sequence)
    (hwritable : i.writable = true) : sign py i = .ok ⟨a, signature, written⟩ := by
  simp [sign, h, hkey, orMessage, check, hsame, hpayload, hsign, orRaise, hlength, require, hverify, hwritten, hsize, hledger, hlast,
    hwritable, Bind.bind, Except.bind, Pure.pure, Except.pure]

namespace Demo

def hexChars (b : Bytes) : List Char := (hexEncode b).map fun c => Char.ofNat c.toNat

theorem hexDigit_isHex (n : UInt8) (h : n < 16) : isHex (Char.ofNat (hexDigit n).toNat) = true := by
  have hall : ∀ k : Fin 16, isHex (Char.ofNat (hexDigit (UInt8.ofNat k)).toNat) = true := by decide
  have hn : n.toNat < 16 := by simpa [UInt8.lt_iff_toNat_lt] using h
  simpa using hall ⟨n.toNat, hn⟩

theorem hexChars_isHex (b : Bytes) : (hexChars b).all isHex = true := by
  induction b with
  | nil => rfl
  | cons x bs ih =>
    obtain ⟨hhi, hlo, -⟩ := nibbles x
    simp only [hexChars, hexEncode, List.map_cons, List.all_cons, hexDigit_isHex _ hhi, hexDigit_isHex _ hlo, Bool.true_and]
    exact ih

theorem sha256Pattern_hexOf {b : Bytes} (h : b.length = 32) : sha256Pattern (hexOf b) = true := by
  rw [sha256Pattern_eq]
  have hlength : (hexChars b).length = 64 := by rw [hexChars, List.length_map, hexEncode_length, h]
  rw [isHex64, show (hexOf b).toList = hexChars b from String.toList_ofList, hexChars_isHex, hlength]
  rfl

theorem splitSpaces_append {digest name : List Char} (h : digest.all isHex = true) :
    splitSpaces (digest ++ ' ' :: ' ' :: name) = some (digest, name) := by
  induction digest with
  | nil => rfl
  | cons c cs ih =>
    rw [List.all_cons, Bool.and_eq_true] at h
    have hc : c ≠ ' ' := by
      rintro rfl
      exact absurd h.1 (by decide)
    rw [List.cons_append, splitSpaces]
    · rw [ih h.2]
      rfl
    · exact fun _ he => absurd he hc

theorem readSums_line {digest : Bytes} {name : String} {lines : List String} {sums : List (String × String)} (h : digest.length = 32)
    (hname : plainName name = true) (hnew : sums.lookup name = none) {tail : String} (htail : tail.toList = ' ' :: ' ' :: name.toList) :
    readSums ((hexOf digest ++ tail) :: lines) sums = readSums lines (sums ++ [(name, hexOf digest)]) := by
  have hline : (hexOf digest ++ tail).toList = hexChars digest ++ ' ' :: ' ' :: name.toList := by
    rw [String.toList_append, htail, show (hexOf digest).toList = hexChars digest from String.toList_ofList]
  have hdigest : String.ofList (hexChars digest) = hexOf digest := rfl
  simp [readSums, hline, splitSpaces_append (hexChars_isHex digest), orRaise, hname, hnew, hdigest, sha256Pattern_hexOf h, check,
    Bind.bind, Except.bind]

theorem sums_read {r : Release} (h : r.buildDigest.length = 32) :
    readSums r.package.sums [] = .ok [("a.apk", hexOf artifactDigest), ("BUILD.json", hexOf r.buildDigest)] := by
  have hartifact : plainName "a.apk" = true := by decide
  have hbuild : plainName "BUILD.json" = true := by decide
  have htail : "  a.apk".toList = ' ' :: ' ' :: "a.apk".toList := by decide
  have htail' : "  BUILD.json".toList = ' ' :: ' ' :: "BUILD.json".toList := by decide
  show readSums [hexOf artifactDigest ++ "  a.apk", hexOf r.buildDigest ++ "  BUILD.json"] [] = _
  rw [readSums_line rfl hartifact rfl htail, readSums_line h hbuild rfl htail']
  rfl

def settings : Config := ⟨feedUrl, publicKey64, "beta"⟩

theorem sha256hex_eq (r : Release) (b : Bytes) :
    r.py.sha256hex b = if b = artifact.content then hexOf artifactDigest else hexOf r.buildDigest := rfl

theorem sha256hex_artifact (r : Release) : r.py.sha256hex artifact.content = hexOf artifactDigest := by
  rw [sha256hex_eq, if_pos rfl]

theorem sha256hex_build (r : Release) : r.py.sha256hex r.buildJson.content = hexOf r.buildDigest := by
  have hbrace : utf8 "\x7b" = [123] := by decide
  have hne : r.buildJson.content ≠ artifact.content := fun h => by
    simp [Release.buildJson, Release.build, artifact, dump, hbrace] at h
  rw [sha256hex_eq, if_neg hne]

theorem checkedPackage_eq {r : Release} (h : r.buildDigest.length = 32) (hversion : versionPattern r.version = true) :
    checkedPackage r.py r.package "android" ".apk" settings = .ok r.checked := by
  have hsame : sameDict configFields settings.dict = true := by decide
  have hmatch : ([artifact, r.package.buildJson].all fun f =>
      [("a.apk", hexOf artifactDigest), ("BUILD.json", hexOf r.buildDigest)].lookup f.name == some (r.py.sha256hex f.content)) = true := by
    show ([artifact, r.buildJson].all _) = true
    simp only [List.all_cons, List.all_nil, sha256hex_artifact, sha256hex_build]
    simp [artifact, Release.buildJson, List.lookup_cons]
  have hfound : [("a.apk", hexOf artifactDigest), ("BUILD.json", hexOf r.buildDigest)].lookup artifact.name = some (hexOf artifactDigest) := by
    simp [artifact]
  have hsize : 1 ≤ artifact.content.length ∧ (artifact.content.length : Int) ≤ maxBytes := by decide
  have hchecked : checkedPackage r.py r.package "android" ".apk" settings = .ok ⟨r.checked.build, artifact, _⟩ :=
    checkedPackage_of rfl rfl rfl rfl rfl hsame rfl (sums_read h) hmatch hsize rfl hversion rfl (by decide)
  rw [hchecked, hfound]
  rfl

theorem urlparse_eq (r : Release) (s : String) :
    r.py.urlparse s =
      if s = feedUrl then some ⟨"https", some "updates.example.org", none, none, "/clients-beta.json", ""⟩
      else if s = assetUrl then some ⟨"https", some "github.com", none, none, "/a/b/releases/download/clients-v0.2.0/a.apk", ""⟩
      else if s = notesUrl then some ⟨"https", some "example.org", none, none, "/n", ""⟩
      else none := rfl

theorem plain_feed : '#' ∉ feedUrl.toList ∧ '?' ∉ feedUrl.toList := by decide
theorem plain_asset : '#' ∉ assetUrl.toList := by decide
theorem plain_notes : '#' ∉ notesUrl.toList := by decide

theorem b64decode_eq (r : Release) (s : String) : r.py.b64decode s = if s = publicKey64 then some publicKey else none := rfl

theorem httpsUrl_feed (r : Release) : httpsUrl r.py feedUrl false = .ok feedUrl := by
  simp [httpsUrl, urlparse_eq, orRaise, empty?, plain_feed, check, Bind.bind, Except.bind, Pure.pure, Except.pure]

theorem urlparse_asset (r : Release) :
    r.py.urlparse assetUrl = some ⟨"https", some "github.com", none, none, "/a/b/releases/download/clients-v0.2.0/a.apk", ""⟩ := by
  rw [urlparse_eq, if_neg (by decide), if_pos rfl]

theorem httpsUrl_asset (r : Release) : httpsUrl r.py assetUrl true = .ok assetUrl := by
  simp [httpsUrl, urlparse_asset, orRaise, empty?, plain_asset, check, Bind.bind, Except.bind, Pure.pure, Except.pure]

theorem httpsUrl_notes (r : Release) : httpsUrl r.py notesUrl true = .ok notesUrl := by
  have hparsed : r.py.urlparse notesUrl = some ⟨"https", some "example.org", none, none, "/n", ""⟩ := by
    rw [urlparse_eq, if_neg (by decide), if_neg (by decide), if_pos rfl]
  simp [httpsUrl, hparsed, orRaise, empty?, plain_notes, check, Bind.bind, Except.bind, Pure.pure, Except.pure]

theorem releaseAsset_asset (r : Release) : releaseAsset r.py assetUrl artifact = .ok assetUrl := by
  have hpath : releasePath "/a/b/releases/download/clients-v0.2.0/a.apk" "a.apk" = true := by decide
  simp [releaseAsset, httpsUrl_asset, urlparse_asset, orRaise, artifact, hpath, check, Bind.bind, Except.bind, Pure.pure, Except.pure]

theorem readConfig_settings (r : Release) : readConfig r.py (.map configFields) = .ok (settings, publicKey) := by
  have hkey : r.py.b64decode publicKey64 = some publicKey := by rw [b64decode_eq, if_pos rfl]
  have hlength : publicKey.length = 32 := rfl
  simp [readConfig, configFields, field_cons, httpsUrl_feed, hkey, orRaise, hlength, settings, check, Bind.bind, Except.bind, Pure.pure,
    Except.pure]

theorem isoformat_eq (r : Release) (t : Int) : r.py.isoformat t = if t = expires then some "2026-08-01T00:00:00Z" else none := rfl

theorem prepare_eq {r : Release} (h : r.buildDigest.length = 32) (hversion : versionPattern r.version = true) :
    prepare r.py r.input = .ok (r.announcement, settings) := by
  have hdays : (1 : Int) ≤ 30 ∧ (30 : Int) ≤ 90 := by decide
  have hhex : sha256Pattern "e3b0c44298fc1c149afbf4c8996fb92427ae41e4649b934ca495991b7852b855" = true := by decide
  have happ : applicationIdPattern "io.github.ulzuhan.arveil" = true := by decide
  have hnotes : "".toList.length ≤ maxNotes := by decide
  have hsdk : (21 : Int) ≤ 26 ∧ (26 : Int) ≤ 1000 := by decide
  have hsequence : chooseSequence (lastSequence [] settings.channel) settings.channel r.input.sequence = .ok 1 := rfl
  have hexpires : r.py.isoformat (r.input.now + r.input.validDays * day) = some "2026-08-01T00:00:00Z" := by
    rw [isoformat_eq, if_pos]
    exact Int.sub_add_cancel expires (30 * day)
  exact prepare_of rfl (readConfig_settings r) rfl hsequence hdays (checkedPackage_eq h hversion) rfl hhex rfl hsdk rfl happ
    hnotes (httpsUrl_notes r) (releaseAsset_asset r) ⟨rfl, rfl⟩ rfl hexpires

theorem base64_length (b : Bytes) : (base64 b).length ≤ 4 * b.length + 4 := by
  induction b using base64.induct with
  | case1 a b c rest ih =>
    simp only [base64, List.length_cons]
    omega
  | case2 => simp [base64]
  | case3 => simp [base64]
  | case4 => simp [base64]

theorem dump_str_length (l : List Char) : (dump (.str (String.ofList l))).length ≤ 4 * l.length + 2 := by
  have hquote : (utf8 "\"").length = 1 := by decide
  have htext := utf8_ofList_length l
  simp only [dump, List.length_append, hquote]
  omega

theorem envelope_fits {r : Release} (hp : r.payload.length ≤ 1000) (hs : r.signature.length = 64) :
    r.signed.envelope.length ≤ 65536 := by
  have hpayload := (dump_str_length (base64 r.payload)).trans (Nat.add_le_add_right (Nat.mul_le_mul_left 4 (base64_length _)) 2)
  have hsignature := (dump_str_length (base64 r.signature)).trans (Nat.add_le_add_right (Nat.mul_le_mul_left 4 (base64_length _)) 2)
  have hlines : r.signed.envelope.length =
      (utf8 "\x7b\n").length + ((dumpLine ("schema", .int 1)).length + (utf8 ",\n").length +
        ((utf8 "  \"").length + (utf8 "payload").length + (utf8 "\": ").length + (dump (.str (String.ofList (base64 r.payload)))).length) +
        (utf8 ",\n").length +
        ((utf8 "  \"").length + (utf8 "signature").length + (utf8 "\": ").length +
          (dump (.str (String.ofList (base64 r.signature)))).length)) + (utf8 "\n\x7d\n").length := by
    simp only [Release.signed, Release.envelope, dumpLines, List.map_cons, List.map_nil, List.intercalate, List.intersperse,
      List.flatten_cons, List.flatten_nil, List.length_append, List.length_nil, dumpLine]
    omega
  have htexts : (utf8 "\x7b\n").length = 2 ∧ (dumpLine ("schema", .int 1)).length = 13 ∧ (utf8 ",\n").length = 2 ∧
      (utf8 "  \"").length = 3 ∧ (utf8 "payload").length = 7 ∧ (utf8 "\": ").length = 3 ∧ (utf8 "signature").length = 9 ∧
      (utf8 "\n\x7d\n").length = 3 := by decide
  obtain ⟨h₁, h₂, h₃, h₄, h₅, h₆, h₇, h₈⟩ := htexts
  omega

theorem payloads_short : narrow.payload.length ≤ 1000 ∧ wide.payload.length ≤ 1000 ∧
    base64 narrow.signature ≠ base64 narrow.payload ∧ base64 wide.signature ≠ base64 wide.payload ∧
    (String.ofList (base64 publicKey) == publicKey64) = true := by decide +kernel

theorem genuine_signed (r : Release) : r.genuine (domain ++ r.payload) r.signature = true := by simp [Release.genuine]

theorem opensslVerify_eq (r : Release) (k message s : Bytes) : r.py.opensslVerify k message s = (k = publicKey && r.genuine message s) := rfl

theorem written_eq (r : Release) : r.py.dumpsIndented (Signer.envelope r.py r.payload r.signature) = r.signed.envelope := rfl

theorem key_sign (r : Release) (message : Bytes) : r.input.key.sign message = if message = domain ++ r.payload then some r.signature else none :=
  rfl

theorem sign_eq {r : Release} (h : prepare r.py r.input = .ok (r.announcement, settings)) (hlength : r.signature.length = 64)
    (hsize : r.payload.length ≤ 1000) : sign r.py r.input = .ok r.signed := by
  have hsign : r.input.key.sign (domain ++ r.payload) = some r.signature := by rw [key_sign, if_pos rfl]
  have hverify : r.py.opensslVerify publicKey (domain ++ r.payload) r.signature = true := by
    rw [opensslVerify_eq, genuine_signed, decide_eq_true rfl, Bool.and_self]
  have hsame : (r.py.b64encode publicKey == settings.publicKey) = true := payloads_short.2.2.2.2
  have hpayload : r.py.dumps r.announcement.payload = r.payload := rfl
  have hledger : readLedger r.input.ledgerAgain = .ok [] := rfl
  have hlast : (lastSequence [] r.announcement.channel).getD 0 < r.announcement.sequence := Int.one_pos
  exact sign_of h rfl hsame hpayload hsign hlength hverify (written_eq r) (envelope_fits hsize hlength) hledger hlast rfl

theorem envelope_ne (r : Release) : r.signed.envelope ≠ r.payload := by
  intro h
  have hbrace : utf8 "\x7b\n" = [123, 10] ∧ utf8 "\x7b" = [123] ∧ utf8 "\"" = [34] := by decide
  simp [Release.signed, Release.envelope, Release.payload, Announcement.payload, dumpLines, dump, dumpFields, dumpField, hbrace] at h

theorem base64Decode_eq (r : Release) (l : List Char) :
    r.cx.base64Decode (String.ofList l) =
      if l = base64 r.payload then some r.payload else if l = base64 r.signature then some r.signature else none := by
  simp only [Release.cx, String.ofList_inj]

theorem jsonDecode_eq (r : Release) (b : Bytes) :
    r.cx.jsonDecode b =
      if b = r.payload then some r.announcement.payload else if b = r.signed.envelope then some r.envelope else none := rfl

theorem jsonDecode_payload (r : Release) : r.cx.jsonDecode r.payload = some r.announcement.payload := by
  rw [jsonDecode_eq, if_pos rfl]

theorem jsonDecode_envelope (r : Release) : r.cx.jsonDecode r.signed.envelope = some r.envelope := by
  rw [jsonDecode_eq, if_neg (envelope_ne r), if_pos rfl]

theorem payload64 (r : Release) : r.cx.base64Decode (String.ofList (base64 r.payload)) = some r.payload := by
  rw [base64Decode_eq, if_pos rfl]

theorem signature64 {r : Release} (hne : base64 r.signature ≠ base64 r.payload) :
    r.cx.base64Decode (String.ofList (base64 r.signature)) = some r.signature := by
  rw [base64Decode_eq, if_neg hne, if_pos rfl]

theorem verifier_eq (r : Release) (payload s k : Bytes) :
    r.cx.verifier payload s k = some (k = publicKey && r.genuine (domain ++ payload) s) := rfl

theorem verifier_signed (r : Release) : r.cx.verifier r.payload r.signature publicKey = some true := by
  rw [verifier_eq, genuine_signed, decide_eq_true rfl, Bool.and_self]

theorem parseDate_expires : Updates.Demo.parseDate "2026-08-01T00:00:00Z" = some ⟨expires, true⟩ := by decide

theorem understood {r : Release} (hne : base64 r.signature ≠ base64 r.payload) : Understood r.cx r.py r.signed where
  envelope := jsonDecode_envelope r
  payload64 := payload64 r
  signature64 := signature64 hne
  payload := jsonDecode_payload r
  expires := parseDate_expires
  ed25519 := fun _ => verifier_signed r

theorem narrow_signed : sign narrow.py narrow.input = .ok narrow.signed :=
  sign_eq (prepare_eq rfl (by decide)) rfl payloads_short.1

theorem wide_signed : sign wide.py wide.input = .ok wide.signed :=
  sign_eq (prepare_eq rfl (by decide)) rfl payloads_short.2.1

theorem narrow_understood : Understood narrow.cx narrow.py narrow.signed := understood payloads_short.2.2.1

theorem wide_understood : Understood wide.cx wide.py wide.signed := understood payloads_short.2.2.2.1

theorem narrow_plain : Plain narrow.cx narrow.input where
  version := by
    rintro build s ⟨⟩ ⟨⟩
    decide
  minimumOs := fun _ _ _ h => nomatch h
  urls := ⟨by decide, by decide, fun _ h => nomatch h⟩

end Demo

end Arveil.Updates.Signer
