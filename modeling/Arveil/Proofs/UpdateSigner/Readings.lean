import Arveil.Proofs.UpdateSigner.Checks

/-! The app reads an announcement that the signer checked exactly when its digits are ASCII, its
components short and its URLs such for the app. -/

namespace Arveil.Updates.Signer

variable {cx : Dart} {py : Python}

/-- The app's libraries read what Python's wrote, and the two Ed25519 checks agree. -/
structure Understood (cx : Dart) (py : Python) (s : Signed) : Prop where
  envelope : cx.jsonDecode s.envelope = some (Signer.envelope py (py.dumps s.announcement.payload) s.signature)
  payload64 : cx.base64Decode (py.b64encode (py.dumps s.announcement.payload)) = some (py.dumps s.announcement.payload)
  signature64 : cx.base64Decode (py.b64encode s.signature) = some s.signature
  payload : cx.jsonDecode (py.dumps s.announcement.payload) = some s.announcement.payload
  expires : cx.parseDate s.announcement.expiresText = some ⟨s.announcement.expires, true⟩
  ed25519 : py.opensslVerify s.announcement.publicKey (domain ++ py.dumps s.announcement.payload) s.signature = true →
    cx.verifier (py.dumps s.announcement.payload) s.signature s.announcement.publicKey = some true

theorem sign_ok {i : Input} {s : Signed} (h : sign py i = .ok s) :
    Prepared i s.announcement ∧ s.signature.length = 64 ∧ s.envelope.length ≤ 65536 ∧
      py.opensslVerify s.announcement.publicKey (domain ++ py.dumps s.announcement.payload) s.signature = true := by
  obtain ⟨⟨a, config⟩, hprepare, h⟩ := bind_ok h
  obtain ⟨key, -, h⟩ := bind_ok h
  obtain ⟨_, -, h⟩ := bind_ok h
  obtain ⟨signature, -, h⟩ := bind_ok h
  obtain ⟨_, hlength, h⟩ := bind_ok h
  obtain ⟨_, hverified, h⟩ := bind_ok h
  obtain ⟨_, hsize, h⟩ := bind_ok h
  obtain ⟨_, -, h⟩ := bind_ok h
  obtain ⟨_, -, h⟩ := bind_ok h
  obtain ⟨_, -, h⟩ := bind_ok h
  obtain rfl := Except.ok.inj h
  refine ⟨prepare_ok hprepare, by simpa using check_ok hlength, of_decide_eq_true (check_ok hsize), ?_⟩
  unfold require at hverified
  split_ifs at hverified with hv
  exact hv

theorem field_cons (k k' : String) (v : Json) (rest : List (String × Json)) :
    field ((k', v) :: rest) k = if k = k' then v else field rest k := by
  unfold field
  rw [List.lookup_cons]
  by_cases hk : k = k'
  · rw [if_pos hk, hk, beq_self_eq_true]
    rfl
  · rw [if_neg hk, beq_false_of_ne hk]

theorem signedPayload_ok {i : Input} {s : Signed} (h : sign py i = .ok s) (hu : Understood cx py s) {config : UpdateConfig}
    (hkey : config.publicKey = s.announcement.publicKey) :
    signedPayload cx s.envelope config = .ok (py.dumps s.announcement.payload) := by
  obtain ⟨-, hlength, hsize, hverified⟩ := sign_ok h
  have hchecked := hu.ed25519 hverified
  simp [signedPayload, hu.envelope, envelope, Json.asMap, field_cons, Json.isInt, Json.asString, need, orElse, hu.payload64,
    hu.signature64, hlength, hkey, hchecked, Bind.bind, Except.bind, Pure.pure, Except.pure, maxManifestBytes, hsize]

theorem asString_ok {j : Json} {s : String} (h : j.asString = .ok s) : j = .str s := by
  cases j with
  | str t => exact congrArg Json.str (Except.ok.inj h)
  | _ => nomatch h

theorem integerRead_ok {j : Json} {low high : Int} {n : { n : Int // low ≤ n ∧ n ≤ high }} (h : Updates.integer j low high = .ok n) :
    j = .int n.1 := by
  unfold Updates.integer at h
  split at h
  · split_ifs at h
    rw [← Except.ok.inj h]
  · nomatch h

theorem integerRead_eq {n low high : Int} (h : low ≤ n ∧ n ≤ high) : Updates.integer (.int n) low high = .ok ⟨n, h⟩ := dif_pos h

theorem need_ok {b : Bool} {code : String} {u : Unit} (h : need b code = .ok u) : b = true := by
  unfold need at h
  split_ifs at h with hb
  exact hb

theorem updateUri_ok {s : String} {uri : Uri} (h : updateUri cx (.str s) = .ok uri) : cx.tryParse s = some uri := by
  unfold updateUri at h
  dsimp only at h
  split at h
  case h_1 u hu =>
    split_ifs at h
    rw [hu, Except.ok.inj h]
  case h_2 => nomatch h

def appUrl (cx : Dart) (s : String) : Bool :=
  match updateUri cx (.str s) with
  | .ok _ => true
  | .error _ => false

theorem appUrl_iff {s : String} : appUrl cx s = true ↔ ∃ uri, updateUri cx (.str s) = .ok uri := by
  unfold appUrl
  cases updateUri cx (.str s) with
  | ok uri => exact ⟨fun _ => ⟨uri, rfl⟩, fun _ => rfl⟩
  | error e => exact ⟨nofun, nofun⟩

structure SamePhone (cx : Dart) (a : Announcement) (u : AndroidUpdate) : Prop where
  version : field a.android.build "version" = .str u.version
  build : field a.android.build "build" = .int u.build
  minimumSdk : field a.android.build "minimum_sdk" = .int u.minimumSdk
  applicationId : field a.android.build "application_id" = .str u.applicationId
  url : cx.tryParse a.androidUrl = some u.url
  size : u.size = a.android.artifact.content.length
  sha256 : u.sha256 = a.android.sha256
  notes : u.notes = a.notes
  notesUrl : cx.tryParse a.notesUrl = some u.notesUrl

def fieldsOf : Json → List (String × Json)
  | .map fields => fields
  | _ => []

theorem android_same {a : Announcement} {u : AndroidUpdate}
    (h : android cx (fieldsOf (entry true a.android a.androidUrl a.notes a.notesUrl)) = .ok u) :
    SamePhone cx a u ∧ isVersion u.version = true ∧ appUrl cx a.androidUrl = true ∧ appUrl cx a.notesUrl = true := by
  obtain ⟨version, hversion, h⟩ := bind_ok h
  obtain ⟨digest, hdigest, h⟩ := bind_ok h
  obtain ⟨id, hid, h⟩ := bind_ok h
  obtain ⟨notes, hnotes, h⟩ := bind_ok h
  obtain ⟨_, hneed, h⟩ := bind_ok h
  obtain ⟨build, hbuild, h⟩ := bind_ok h
  obtain ⟨sdk, hsdk, h⟩ := bind_ok h
  obtain ⟨url, hurl, h⟩ := bind_ok h
  obtain ⟨size, hsize, h⟩ := bind_ok h
  obtain ⟨notesUrl, hnotesUrl, h⟩ := bind_ok h
  obtain rfl := Except.ok.inj h
  simp only [entry, fieldsOf, field_cons, String.reduceEq, reduceIte] at hversion hdigest hid hnotes hbuild hsdk hurl hsize hnotesUrl
  have hfits := (Bool.and_eq_true_iff.1 (Bool.and_eq_true_iff.1 (Bool.and_eq_true_iff.1 (need_ok hneed)).1).1).1
  refine ⟨⟨asString_ok hversion, integerRead_ok hbuild, integerRead_ok hsdk, asString_ok hid, updateUri_ok hurl, ?_, ?_, ?_,
    updateUri_ok hnotesUrl⟩, hfits, appUrl_iff.2 ⟨_, hurl⟩, appUrl_iff.2 ⟨_, hnotesUrl⟩⟩
  · exact (Json.int.inj (integerRead_ok hsize)).symm
  · exact (Except.ok.inj hdigest).symm
  · exact (Except.ok.inj hnotes).symm

theorem android_accepts {i : Input} {a : Announcement} (hp : Prepared i a)
    (hversion : ∀ s, field a.android.build "version" = .str s → plainDigits s = true)
    (hurl : appUrl cx a.androidUrl = true) (hnotesUrl : appUrl cx a.notesUrl = true) :
    ∃ u, android cx (fieldsOf (entry true a.android a.androidUrl a.notes a.notesUrl)) = .ok u := by
  obtain ⟨version, hv, hpattern⟩ := hp.android.version
  obtain ⟨build, hb, hbuild⟩ := hp.android.build
  obtain ⟨sdk, hs, hsdk⟩ := hp.minimumSdk
  obtain ⟨id, hid, happ⟩ := hp.applicationId
  obtain ⟨url, hu⟩ := appUrl_iff.1 hurl
  obtain ⟨notesUrl, hn⟩ := appUrl_iff.1 hnotesUrl
  have hsize : (1 : Int) ≤ a.android.artifact.content.length ∧ (a.android.artifact.content.length : Int) ≤ maxPackageBytes :=
    ⟨by exact_mod_cast hp.android.size.1, hp.android.size.2⟩
  have hdigits := (isVersion_iff hpattern).2 (hversion version hv)
  refine ⟨⟨build, version, sdk, id, url, a.android.artifact.content.length, a.android.sha256, a.notes, notesUrl⟩, ?_⟩
  have hnotes : a.notes.toList.length ≤ Updates.maxNotes := hp.notes.2
  simp [android, entry, fieldsOf, field_cons, hv, hb, hs, hid, Json.asString, need, hdigits, hp.android.sha256,
    ← applicationId_eq, happ, hnotes, integerRead_eq hbuild, integerRead_eq hsdk, hu, integerRead_eq hsize, hn, Bind.bind,
    Except.bind, Pure.pure, Except.pure]

structure SameMac (cx : Dart) (a : Announcement) (mac : Checked) (url : String) (u : MacUpdate) : Prop where
  version : field mac.build "version" = .str u.version
  build : field mac.build "build" = .int u.build
  minimumOs : field mac.build "minimum_os" = .str u.minimumOs
  url : cx.tryParse url = some u.url
  size : u.size = mac.artifact.content.length
  sha256 : u.sha256 = mac.sha256
  notes : u.notes = a.notes
  notesUrl : cx.tryParse a.notesUrl = some u.notesUrl

theorem mac_same {a : Announcement} {m : Checked} {macUrl : String} {u : MacUpdate}
    (h : mac cx (fieldsOf (entry false m macUrl a.notes a.notesUrl)) = .ok u) :
    SameMac cx a m macUrl u ∧ isMinimumOs u.minimumOs = true ∧ appUrl cx macUrl = true := by
  obtain ⟨version, hversion, h⟩ := bind_ok h
  obtain ⟨digest, hdigest, h⟩ := bind_ok h
  obtain ⟨os, hos, h⟩ := bind_ok h
  obtain ⟨notes, hnotes, h⟩ := bind_ok h
  obtain ⟨_, hneed, h⟩ := bind_ok h
  obtain ⟨build, hbuild, h⟩ := bind_ok h
  obtain ⟨url, hurl, h⟩ := bind_ok h
  obtain ⟨size, hsize, h⟩ := bind_ok h
  obtain ⟨notesUrl, hnotesUrl, h⟩ := bind_ok h
  obtain rfl := Except.ok.inj h
  simp only [entry, fieldsOf, field_cons, String.reduceEq, reduceIte, Bool.false_eq_true] at hversion hdigest hos hnotes
  simp only [entry, fieldsOf, field_cons, String.reduceEq, reduceIte, Bool.false_eq_true] at hbuild hurl hsize hnotesUrl
  refine ⟨⟨asString_ok hversion, integerRead_ok hbuild, asString_ok hos, updateUri_ok hurl, ?_, ?_, ?_, updateUri_ok hnotesUrl⟩,
    (Bool.and_eq_true_iff.1 (Bool.and_eq_true_iff.1 (need_ok hneed)).1).2, appUrl_iff.2 ⟨_, hurl⟩⟩
  · exact (Json.int.inj (integerRead_ok hsize)).symm
  · exact (Except.ok.inj hdigest).symm
  · exact (Except.ok.inj hnotes).symm

theorem mac_accepts {i : Input} {a : Announcement} (hp : Prepared i a) {m : Checked} {macUrl : String} (hm : a.macos = some (m, macUrl))
    (hversion : ∀ s, field a.android.build "version" = .str s → plainDigits s = true)
    (hos : ∀ s, field m.build "minimum_os" = .str s → plainDigits s = true ∧ shortParts s = true)
    (hurl : appUrl cx macUrl = true) (hnotesUrl : appUrl cx a.notesUrl = true) :
    ∃ u, mac cx (fieldsOf (entry false m macUrl a.notes a.notesUrl)) = .ok u := by
  obtain ⟨_, -, -, -, hpackaged, ⟨os, ho, hospattern⟩, hsame⟩ := hp.mac m macUrl hm
  obtain ⟨version, hv, hpattern⟩ := hpackaged.version
  obtain ⟨build, hb, hbuild⟩ := hpackaged.build
  obtain ⟨url, hu⟩ := appUrl_iff.1 hurl
  obtain ⟨notesUrl, hn⟩ := appUrl_iff.1 hnotesUrl
  have hsize : (1 : Int) ≤ m.artifact.content.length ∧ (m.artifact.content.length : Int) ≤ maxPackageBytes :=
    ⟨by exact_mod_cast hpackaged.size.1, hpackaged.size.2⟩
  have hdigits := (isVersion_iff hpattern).2 (hversion version (hsame ▸ hv))
  have hminimum := (isMinimumOs_iff hospattern).2 (hos os ho)
  have hnotes : a.notes.toList.length ≤ Updates.maxNotes := hp.notes.2
  refine ⟨⟨build, version, os, url, m.artifact.content.length, m.sha256, a.notes, notesUrl⟩, ?_⟩
  simp [mac, entry, fieldsOf, field_cons, hv, hb, ho, Json.asString, need, hdigits, hpackaged.sha256, hminimum, hnotes,
    integerRead_eq hbuild, hu, integerRead_eq hsize, hn, Bind.bind, Except.bind, Pure.pure, Except.pure]

/-- The announcement that the app read is the one that was signed. -/
structure Same (cx : Dart) (a : Announcement) (m : UpdateManifest) : Prop where
  sequence : m.sequence = a.sequence
  expires : m.expires = a.expires
  android : SamePhone cx a m.android
  macos : ∀ mac url, a.macos = some (mac, url) → ∃ u, m.macos = some u ∧ SameMac cx a mac url u
  noMacos : a.macos = none → m.macos = none

/-- What of an announcement the app may refuse. -/
structure Plain (cx : Dart) (i : Input) : Prop where
  version : ∀ build s, i.package.build = .map build → field build "version" = .str s → plainDigits s = true
  minimumOs : ∀ p build s, i.macosPackage = some p → p.build = .map build → field build "minimum_os" = .str s →
    plainDigits s = true ∧ shortParts s = true
  urls : appUrl cx i.assetUrl = true ∧ appUrl cx i.notesUrl = true ∧ ∀ u, i.macosAssetUrl = some u → appUrl cx u = true

theorem field_phone (a : Announcement) :
    field a.platforms "android-arm64" = .map (fieldsOf (entry true a.android a.androidUrl a.notes a.notesUrl)) := by
  rw [Announcement.platforms, field_cons, if_pos rfl]
  rfl

theorem field_mac (a : Announcement) :
    field a.platforms "macos-arm64" = match a.macos with
      | some (m, url) => .map (fieldsOf (entry false m url a.notes a.notesUrl))
      | none => .null := by
  rw [Announcement.platforms, field_cons, if_neg (by decide)]
  cases a.macos with
  | none => rfl
  | some found =>
    rw [field_cons, if_pos rfl]
    rfl

theorem announced_accepts {i : Input} {s : Signed} (hp : Prepared i s.announcement) (hu : Understood cx py s) (h : Plain cx i) :
    ∃ m, announced cx (py.dumps s.announcement.payload) s.announcement.channel = .ok m := by
  have hversion := fun t => h.version s.announcement.android.build t hp.build
  have hnotes : appUrl cx s.announcement.notesUrl = true := hp.notesUrl ▸ h.urls.2.1
  obtain ⟨phone, hphone⟩ := android_accepts hp hversion (hp.androidUrl ▸ h.urls.1) hnotes
  have hmac : ∃ u, optionalMac cx (field s.announcement.platforms "macos-arm64") = .ok u := by
    rw [field_mac]
    cases hm : s.announcement.macos with
    | none => exact ⟨none, rfl⟩
    | some found =>
      obtain ⟨m, macUrl⟩ := found
      obtain ⟨p, hpackage, hasset, hbuild, -, -, -⟩ := hp.mac m macUrl hm
      obtain ⟨u, hread⟩ := mac_accepts hp hm hversion (fun t => h.minimumOs p m.build t hpackage hbuild) (h.urls.2.2 macUrl hasset) hnotes
      refine ⟨some u, ?_⟩
      simp only [optionalMac, Json.asMap, Bind.bind, Except.bind, hread, Pure.pure, Except.pure]
  obtain ⟨macos, hmacos⟩ := hmac
  refine ⟨⟨s.announcement.sequence, hp.sequence, s.announcement.expires, cx.sha256 (py.dumps s.announcement.payload), phone, macos⟩, ?_⟩
  have hsequence : Updates.integer (.int s.announcement.sequence) 1 Updates.maxSequence = .ok ⟨_, hp.sequence⟩ :=
    integerRead_eq hp.sequence
  unfold announced
  rw [hu.payload]
  simp [Announcement.payload, Json.asMap, field_cons, Json.isInt, Json.isStr, need, orElse, hsequence,
    Json.asString, hu.expires, field_phone, hphone, hmacos, Bind.bind, Except.bind, Pure.pure, Except.pure]

theorem announced_same {i : Input} {s : Signed} (hp : Prepared i s.announcement) (hu : Understood cx py s) {m : UpdateManifest}
    (h : announced cx (py.dumps s.announcement.payload) s.announcement.channel = .ok m) : Same cx s.announcement m ∧ Plain cx i := by
  obtain ⟨decoded, hdecoded, h⟩ := bind_ok h
  obtain ⟨data, hdata, h⟩ := bind_ok h
  obtain ⟨_, -, h⟩ := bind_ok h
  obtain ⟨_, -, h⟩ := bind_ok h
  obtain ⟨sequence, hsequence, h⟩ := bind_ok h
  obtain ⟨text, htext, h⟩ := bind_ok h
  obtain ⟨expires, hexpires, h⟩ := bind_ok h
  obtain ⟨_, -, h⟩ := bind_ok h
  obtain ⟨platforms, hplatforms, h⟩ := bind_ok h
  obtain ⟨phone, hphone, h⟩ := bind_ok h
  obtain ⟨u, hu', h⟩ := bind_ok h
  obtain ⟨macos, hmacos, h⟩ := bind_ok h
  obtain rfl := Except.ok.inj h
  rw [hu.payload] at hdecoded
  obtain rfl := Except.ok.inj hdecoded
  obtain rfl := Except.ok.inj hdata
  simp only [field_cons, String.reduceEq, reduceIte] at hsequence htext hplatforms
  obtain rfl := Except.ok.inj htext
  obtain rfl := Except.ok.inj hplatforms
  rw [hu.expires] at hexpires
  obtain rfl := Except.ok.inj hexpires
  rw [field_phone] at hphone
  obtain rfl := Except.ok.inj hphone
  obtain ⟨hsame, hversion, hurls⟩ := android_same hu'
  rw [field_mac] at hmacos
  have hmac : ∀ m url, s.announcement.macos = some (m, url) → ∃ v, macos = some v ∧ SameMac cx s.announcement m url v ∧
      isMinimumOs v.minimumOs = true ∧ appUrl cx url = true := fun m url hm => by
    rw [hm] at hmacos
    obtain ⟨fields, hfields, hread⟩ := bind_ok hmacos
    obtain ⟨v, hv, hsome⟩ := bind_ok hread
    obtain rfl := Except.ok.inj hfields
    exact ⟨v, (Except.ok.inj hsome).symm, mac_same hv⟩
  have hfound : ∀ {p}, i.macosPackage = some p ∨ (∃ u, i.macosAssetUrl = some u) → ∃ m url, s.announcement.macos = some (m, url) := by
    intro p hor
    cases hm : s.announcement.macos with
    | some found => exact ⟨found.1, found.2, rfl⟩
    | none =>
      obtain ⟨hnone, hnone'⟩ := hp.noMac hm
      rcases hor with hp' | ⟨u, hu'⟩
      · nomatch hnone.symm.trans hp'
      · nomatch hnone'.symm.trans hu'
  refine ⟨⟨?_, rfl, hsame, fun m url hm => ?_, fun hm => ?_⟩, ⟨fun build t hb ht => ?_, fun p build t hp' hb ht => ?_,
    hp.androidUrl ▸ hurls.1, hp.notesUrl ▸ hurls.2, fun url hurl => ?_⟩⟩
  · exact (Json.int.inj (integerRead_ok hsequence)).symm
  · obtain ⟨v, hv, hmacSame, -⟩ := hmac m url hm
    exact ⟨v, hv, hmacSame⟩
  · rw [hm] at hmacos
    exact (Except.ok.inj hmacos).symm
  · obtain rfl := Json.map.inj (hb.symm.trans hp.build)
    obtain ⟨version, hv, hpattern⟩ := hp.android.version
    obtain rfl := Json.str.inj (ht.symm.trans hv)
    obtain rfl := Json.str.inj (ht.symm.trans hsame.version)
    exact (isVersion_iff hpattern).1 hversion
  · obtain ⟨m, url, hm⟩ := hfound (p := p) (Or.inl hp')
    obtain ⟨v, -, hmacSame, hos, -⟩ := hmac m url hm
    obtain ⟨p', hpackage, -, hbuild, -, ⟨os, ho, hpattern⟩, -⟩ := hp.mac m url hm
    obtain rfl := Option.some.inj (hp'.symm.trans hpackage)
    obtain rfl := Json.map.inj (hb.symm.trans hbuild)
    obtain rfl := Json.str.inj (ht.symm.trans ho)
    obtain rfl := Json.str.inj (ht.symm.trans hmacSame.minimumOs)
    exact (isMinimumOs_iff hpattern).1 hos
  · obtain ⟨m, url', hm⟩ := hfound (p := i.package) (Or.inr ⟨url, hurl⟩)
    obtain ⟨v, -, -, -, haccepted⟩ := hmac m url' hm
    obtain ⟨p', -, hasset, -⟩ := hp.mac m url' hm
    obtain rfl := Option.some.inj (hurl.symm.trans hasset)
    exact haccepted

end Arveil.Updates.Signer
