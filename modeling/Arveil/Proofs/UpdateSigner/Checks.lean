import Arveil.Spec.UpdateSigner

/-! What the signer holds an announcement to, part by part, and where the app's own patterns ask the
same. `Prepared` is what `sign` checked before it signed. -/

namespace Arveil.Updates.Signer

variable {py : Python}

theorem all_splitOn {q : Char → Bool} {a : Char} (ha : q a = true) (l : List Char) :
    ((l.splitOn a).all fun p => p.all q) = l.all q := by
  induction l with
  | nil => rfl
  | cons x xs ih =>
    rw [List.splitOn_cons_eq_if_modifyHead]
    by_cases hx : (x == a) = true
    · rw [if_pos hx, List.all_cons, ih, List.all_cons, beq_iff_eq.1 hx, ha]
      rfl
    · rw [if_neg hx, List.all_cons, ← ih]
      cases hs : xs.splitOn a with
      | nil => exact absurd hs (List.splitOn_ne_nil a xs)
      | cons p ps => simp [Bool.and_assoc]

def plainDigits (s : String) : Bool := s.toList.all fun c => c == '.' || isDigit c

def shortParts (s : String) : Bool := (s.toList.splitOn '.').all fun p => p.length ≤ 3

theorem plainDigits_parts (s : String) :
    plainDigits s = (s.toList.splitOn '.').all fun p => p.all fun c => c == '.' || isDigit c := (all_splitOn rfl _).symm

theorem isDecimal_dot : isDecimal '.' = false := by decide

theorem all_digits {p : List Char} (h : p.all isDecimal = true) :
    (p.all fun c => c == '.' || isDigit c) = p.all isDigit := by
  rw [Bool.eq_iff_iff, List.all_eq_true, List.all_eq_true]
  have hdot : ∀ c ∈ p, (c == '.') = false := fun c hc => by
    by_contra hne
    have hc' : c = '.' := by simpa using hne
    have := List.all_eq_true.1 h c hc
    rw [hc', isDecimal_dot] at this
    nomatch this
  exact forall₂_congr fun c hc => by rw [hdot c hc, Bool.false_or]

theorem isVersion_iff {s : String} (h : versionPattern s = true) : isVersion s = true ↔ plainDigits s = true := by
  rw [plainDigits_parts]
  unfold versionPattern at h
  unfold isVersion
  split at h
  case h_1 a b c hs =>
    simp only [hs, List.all_cons, List.all_nil, Bool.and_true, Bool.and_eq_true] at h ⊢
    rw [all_digits h.1.2, all_digits h.2.1.2, all_digits h.2.2.2]
    simp [h.1.1, h.2.1.1, h.2.2.1]
  case h_2 => nomatch h

theorem isMinimumOs_iff {s : String} (h : minimumOsPattern s = true) :
    isMinimumOs s = true ↔ plainDigits s = true ∧ shortParts s = true := by
  have hparts := List.all_eq_true.1 (Bool.and_eq_true_iff.1 h).2
  have hcount := (Bool.and_eq_true_iff.1 h).1
  have hdigits : ∀ p ∈ s.toList.splitOn '.', (p.all fun c => c == '.' || isDigit c) = p.all isDigit := fun p hp =>
    all_digits (Bool.and_eq_true_iff.1 (hparts p hp)).2
  have hfilled : ∀ p ∈ s.toList.splitOn '.', 1 ≤ p.length := fun p hp => by
    have := (Bool.and_eq_true_iff.1 (hparts p hp)).1
    cases p with
    | nil => nomatch this
    | cons c cs => simp
  rw [plainDigits_parts, isMinimumOs, shortParts, Bool.and_eq_true, List.all_eq_true, List.all_eq_true, List.all_eq_true]
  constructor
  · rintro ⟨-, hall⟩
    refine ⟨fun p hp => ?_, fun p hp => ?_⟩
    · rw [hdigits p hp]
      exact (Bool.and_eq_true_iff.1 (hall p hp)).2
    · exact (Bool.and_eq_true_iff.1 (Bool.and_eq_true_iff.1 (hall p hp)).1).2
  · rintro ⟨hplain, hshort⟩
    refine ⟨hcount, fun p hp => ?_⟩
    rw [Bool.and_eq_true, Bool.and_eq_true, ← hdigits p hp]
    exact ⟨⟨decide_eq_true (hfilled p hp), hshort p hp⟩, hplain p hp⟩

theorem sha256Pattern_eq (s : String) : sha256Pattern s = isHex64 s := rfl

theorem applicationId_eq (s : String) : applicationIdPattern s = isApplicationId s := by
  have hletter : asciiLetter = isLetter := funext fun c => Bool.or_comm _ _
  simp only [applicationIdPattern, isApplicationId, hletter, isDigit]

theorem bind_ok {ε α β : Type} {x : Except ε α} {f : α → Except ε β} {b : β} (h : (x >>= f) = .ok b) :
    ∃ a, x = .ok a ∧ f a = .ok b := by
  cases x with
  | error e => nomatch h
  | ok a => exact ⟨a, rfl, h⟩

theorem check_ok {b : Bool} {message : String} {u : Unit} (h : check b message = .ok u) : b = true := by
  unfold check at h
  split_ifs at h with hb
  · exact hb
  · nomatch h

theorem httpsUrl_ok {value url : String} {query : Bool} (h : httpsUrl py value query = .ok url) : url = value := by
  obtain ⟨uri, -, h⟩ := bind_ok h
  obtain ⟨_, -, h⟩ := bind_ok h
  obtain ⟨_, -, h⟩ := bind_ok h
  exact (Except.ok.inj h).symm

theorem releaseAsset_ok {url asset : String} {artifact : File} (h : releaseAsset py url artifact = .ok asset) : asset = url := by
  obtain ⟨u, hu, h⟩ := bind_ok h
  obtain ⟨parsed, -, h⟩ := bind_ok h
  obtain ⟨_, -, h⟩ := bind_ok h
  rw [← Except.ok.inj h]
  exact httpsUrl_ok hu

theorem text_ok {j : Json} {pattern : String → Bool} (h : text j pattern = true) : ∃ s, j = .str s ∧ pattern s = true := by
  cases j with
  | str s => exact ⟨s, rfl, h⟩
  | _ => nomatch h

theorem integer_ok {j : Json} {low high : Int} (h : integer j low high = true) : ∃ n, j = .int n ∧ low ≤ n ∧ n ≤ high := by
  cases j with
  | int n => exact ⟨n, rfl, by simpa [integer] using h⟩
  | _ => nomatch h

structure Packaged (c : Checked) : Prop where
  version : ∃ s, field c.build "version" = .str s ∧ versionPattern s = true
  build : ∃ n, field c.build "build" = .int n ∧ 1 ≤ n ∧ n ≤ 2100000000
  size : 1 ≤ c.artifact.content.length ∧ (c.artifact.content.length : Int) ≤ maxBytes
  sha256 : isHex64 c.sha256 = true

theorem readSums_hex {lines : List String} {sums out : List (String × String)} (hs : ∀ kv ∈ sums, isHex64 kv.2 = true)
    (h : readSums lines sums = .ok out) : ∀ kv ∈ out, isHex64 kv.2 = true := by
  induction lines generalizing sums with
  | nil => exact Except.ok.inj h ▸ hs
  | cons line lines ih =>
    obtain ⟨⟨digest, name⟩, -, h⟩ := bind_ok h
    obtain ⟨_, hc, h⟩ := bind_ok h
    refine ih (fun kv hkv => ?_) h
    rcases List.mem_append.1 hkv with hkv | hkv
    · exact hs kv hkv
    · obtain rfl := List.mem_singleton.1 hkv
      exact (Bool.and_eq_true_iff.1 (check_ok hc)).2

theorem mem_of_lookup {sums : List (String × String)} {name digest : String} (h : sums.lookup name = some digest) :
    (name, digest) ∈ sums := by
  induction sums with
  | nil => nomatch h
  | cons kv sums ih =>
    obtain ⟨k, v⟩ := kv
    rw [List.lookup_cons] at h
    split at h
    case h_1 heq =>
      obtain rfl := beq_iff_eq.1 heq
      obtain rfl := Option.some.inj h
      exact List.mem_cons_self
    case h_2 => exact List.mem_cons_of_mem _ (ih h)

theorem checkedPackage_ok {p : Package} {platform suffix : String} {config : Config} {c : Checked}
    (h : checkedPackage py p platform suffix config = .ok c) : p.build = .map c.build ∧ Packaged c := by
  unfold checkedPackage at h
  split at h
  case h_2 => nomatch h
  case h_1 build hbuild =>
  obtain ⟨_, -, h⟩ := bind_ok h
  split at h
  case h_2 => nomatch h
  case h_1 fields _ =>
  obtain ⟨_, -, h⟩ := bind_ok h
  split at h
  case h_2 => nomatch h
  case h_1 artifact _ =>
  obtain ⟨sums, hsums, h⟩ := bind_ok h
  obtain ⟨_, hmatch, h⟩ := bind_ok h
  obtain ⟨_, hsize, h⟩ := bind_ok h
  obtain ⟨_, hfields, h⟩ := bind_ok h
  obtain rfl := Except.ok.inj h
  have hfields := Bool.and_eq_true_iff.1 (check_ok hfields)
  have hsize := Bool.and_eq_true_iff.1 (check_ok hsize)
  refine ⟨hbuild, text_ok hfields.1, integer_ok hfields.2, ⟨of_decide_eq_true hsize.1, of_decide_eq_true hsize.2⟩, ?_⟩
  have hfound := beq_iff_eq.1 (List.all_eq_true.1 (check_ok hmatch) artifact List.mem_cons_self)
  have hmem := mem_of_lookup hfound
  have hhex := readSums_hex (fun _ hkv => absurd hkv List.not_mem_nil) hsums _ hmem
  rw [hfound, Option.getD_some]
  exact hhex

theorem readEntries_last {entries : List Json} {previous n : Int} {fields : List (String × Json)}
    (h : readEntries previous entries = .ok ()) (hlast : entries.getLast? = some (.map fields))
    (hn : field fields "sequence" = .int n) : previous + 1 ≤ n := by
  induction entries generalizing previous with
  | nil => nomatch hlast
  | cons entry entries ih =>
    unfold readEntries at h
    split at h
    case h_2 => nomatch h
    case h_1 fs =>
    split at h
    case h_2 => nomatch h
    case h_1 k hk =>
    obtain ⟨_, hc, h⟩ := bind_ok h
    have hrise := of_decide_eq_true (Bool.and_eq_true_iff.1 (check_ok hc)).1
    cases entries with
    | nil =>
      obtain rfl := Json.map.inj (Option.some.inj hlast)
      rw [hk] at hn
      obtain rfl := Json.int.inj hn
      exact hrise
    | cons e es =>
      have := ih h (by rw [← hlast]; rfl)
      omega

theorem readChannels_entries {channels : List (String × Json)} {channel : String} {entries : List Json}
    (h : readChannels channels = .ok ()) (he : field channels channel = .list entries) : readEntries 0 entries = .ok () := by
  induction channels with
  | nil => nomatch he
  | cons c channels ih =>
    obtain ⟨name, value⟩ := c
    unfold readChannels at h
    split at h
    case h_2 => nomatch h
    case h_1 es =>
    obtain ⟨_, -, h⟩ := bind_ok h
    obtain ⟨_, hes, h⟩ := bind_ok h
    unfold field at he
    rw [List.lookup_cons] at he
    split at he
    case h_1 =>
      obtain rfl := Json.list.inj he
      exact hes
    case h_2 => exact ih h he

theorem lastSequence_pos {file : LedgerFile} {channels : List (String × Json)} {channel : String} {n : Int}
    (h : readLedger file = .ok channels) (hn : lastSequence channels channel = some n) : 1 ≤ n := by
  unfold lastSequence at hn
  split at hn
  case h_2 => nomatch hn
  case h_1 entries hentries =>
  split at hn
  case h_2 => nomatch hn
  case h_1 fields hlast =>
  split at hn
  case h_2 => nomatch hn
  case h_1 k hk =>
  obtain rfl := Option.some.inj hn
  have hread : readChannels channels = .ok () := by
    unfold readLedger at h
    split at h
    case h_1 =>
      obtain rfl := Except.ok.inj h
      rfl
    case h_2 => nomatch h
    case h_3 fs =>
      split at h
      case h_2 => nomatch h
      case h_1 cs _ =>
      obtain ⟨_, -, h⟩ := bind_ok h
      obtain ⟨_, hcs, h⟩ := bind_ok h
      obtain rfl := Except.ok.inj h
      exact hcs
    case h_4 => nomatch h
  exact readEntries_last (readChannels_entries hread hentries) hlast hk

theorem chooseSequence_ok {last requested : Option Int} {channel : String} {n : Int} (hlast : ∀ k, last = some k → 1 ≤ k)
    (h : chooseSequence last channel requested = .ok n) : 1 ≤ n ∧ n ≤ maxSequence := by
  obtain ⟨k, -, h⟩ := bind_ok h
  obtain ⟨_, hc, h⟩ := bind_ok h
  obtain rfl := Except.ok.inj h
  have hbounds := Bool.and_eq_true_iff.1 (check_ok hc)
  have hlow := of_decide_eq_true hbounds.1
  refine ⟨?_, of_decide_eq_true hbounds.2⟩
  cases last with
  | none => simpa using hlow
  | some l =>
    have := hlast l rfl
    simp only [Option.getD_some] at hlow
    omega

/-- What `prepare` established of an announcement and its inputs. -/
structure Prepared (i : Input) (a : Announcement) : Prop where
  channel : a.channel = "stable" ∨ a.channel = "beta"
  key : a.publicKey.length = 32
  sequence : 1 ≤ a.sequence ∧ a.sequence ≤ maxSequence
  expires : a.expires = i.now + i.validDays * day
  build : i.package.build = .map a.android.build
  android : Packaged a.android
  minimumSdk : ∃ n, field a.android.build "minimum_sdk" = .int n ∧ 21 ≤ n ∧ n ≤ 1000
  applicationId : ∃ s, field a.android.build "application_id" = .str s ∧ applicationIdPattern s = true
  notes : a.notes = i.notes ∧ a.notes.toList.length ≤ maxNotes
  notesUrl : a.notesUrl = i.notesUrl
  androidUrl : a.androidUrl = i.assetUrl
  noMac : a.macos = none → i.macosPackage = none ∧ i.macosAssetUrl = none
  mac : ∀ mac url, a.macos = some (mac, url) → ∃ p, i.macosPackage = some p ∧ i.macosAssetUrl = some url ∧ p.build = .map mac.build ∧
    Packaged mac ∧ (∃ s, field mac.build "minimum_os" = .str s ∧ minimumOsPattern s = true) ∧
    field mac.build "version" = field a.android.build "version"

theorem readConfig_ok {json : Json} {config : Config} {key : Bytes} (h : readConfig py json = .ok (config, key)) :
    (config.channel = "stable" ∨ config.channel = "beta") ∧ key.length = 32 := by
  unfold readConfig at h
  split at h
  case h_2 => nomatch h
  case h_1 fields =>
  split at h
  case h_2 => nomatch h
  case h_1 url k channel _ _ _ =>
  obtain ⟨_, -, h⟩ := bind_ok h
  obtain ⟨_, -, h⟩ := bind_ok h
  obtain ⟨decoded, -, h⟩ := bind_ok h
  obtain ⟨_, hlength, h⟩ := bind_ok h
  obtain ⟨_, hchannel, h⟩ := bind_ok h
  obtain ⟨rfl, rfl⟩ := Prod.mk.inj (Except.ok.inj h)
  exact ⟨by simpa using check_ok hchannel, by simpa using check_ok hlength⟩

theorem sameText_ok {a b : Json} (h : macosEntry.sameText a b = true) : a = b := by
  unfold macosEntry.sameText at h
  split at h
  · rw [beq_iff_eq.1 h]
  · nomatch h

theorem macosEntry_ok {i : Input} {config : Config} {build : List (String × Json)} {out : Option (Checked × String)}
    (h : macosEntry py i config build = .ok out) :
    (out = none → i.macosPackage = none ∧ i.macosAssetUrl = none) ∧
      ∀ mac url, out = some (mac, url) → ∃ p, i.macosPackage = some p ∧ i.macosAssetUrl = some url ∧ p.build = .map mac.build ∧
        Packaged mac ∧ (∃ s, field mac.build "minimum_os" = .str s ∧ minimumOsPattern s = true) ∧
        field mac.build "version" = field build "version" := by
  unfold macosEntry at h
  split at h
  case h_1 hp hu =>
    obtain rfl := Except.ok.inj h
    exact ⟨fun _ => ⟨hp, hu⟩, fun _ _ he => nomatch he⟩
  case h_2 package assetUrl hp hu =>
    obtain ⟨mac, hmac, h⟩ := bind_ok h
    obtain ⟨_, hsame, h⟩ := bind_ok h
    obtain ⟨_, hos, h⟩ := bind_ok h
    obtain ⟨url, hurl, h⟩ := bind_ok h
    obtain rfl := Except.ok.inj h
    refine ⟨fun he => (nomatch he), fun mac' url' he => ?_⟩
    obtain ⟨rfl, rfl⟩ := Prod.mk.inj (Option.some.inj he)
    obtain ⟨hbuild, hpackaged⟩ := checkedPackage_ok hmac
    exact ⟨package, hp, hu.trans (congrArg some (releaseAsset_ok hurl).symm), hbuild, hpackaged, text_ok (check_ok hos),
      sameText_ok (Bool.and_eq_true_iff.1 (check_ok hsame)).1⟩
  case h_3 => nomatch h

theorem prepare_ok {i : Input} {a : Announcement} {config : Config} (h : prepare py i = .ok (a, config)) : Prepared i a := by
  obtain ⟨_, -, h⟩ := bind_ok h
  obtain ⟨⟨config', key⟩, hconfig, h⟩ := bind_ok h
  obtain ⟨channels, hledger, h⟩ := bind_ok h
  obtain ⟨sequence, hsequence, h⟩ := bind_ok h
  obtain ⟨_, -, h⟩ := bind_ok h
  obtain ⟨apk, hapk, h⟩ := bind_ok h
  obtain ⟨_, -, h⟩ := bind_ok h
  obtain ⟨_, hsdk, h⟩ := bind_ok h
  obtain ⟨_, hid, h⟩ := bind_ok h
  obtain ⟨notes, hnotes, h⟩ := bind_ok h
  obtain ⟨notesUrl, hnotesUrl, h⟩ := bind_ok h
  obtain ⟨androidUrl, handroidUrl, h⟩ := bind_ok h
  obtain ⟨macos, hmacos, h⟩ := bind_ok h
  obtain ⟨_, -, h⟩ := bind_ok h
  obtain ⟨text, -, h⟩ := bind_ok h
  obtain ⟨rfl, rfl⟩ := Prod.mk.inj (Except.ok.inj h)
  obtain ⟨hchannel, hkey⟩ := readConfig_ok hconfig
  obtain ⟨hbuild, hpackaged⟩ := checkedPackage_ok hapk
  obtain ⟨hnone, hsome⟩ := macosEntry_ok hmacos
  obtain ⟨_, hlength, hn⟩ := bind_ok hnotes
  have hsame := Except.ok.inj hn
  exact {
    channel := hchannel
    key := hkey
    sequence := chooseSequence_ok (fun k hk => lastSequence_pos hledger hk) hsequence
    expires := rfl
    build := hbuild
    android := hpackaged
    minimumSdk := integer_ok (check_ok hsdk)
    applicationId := text_ok (check_ok hid)
    notes := ⟨hsame.symm, by rw [← hsame]; exact of_decide_eq_true (check_ok hlength)⟩
    notesUrl := httpsUrl_ok hnotesUrl
    androidUrl := releaseAsset_ok handroidUrl
    noMac := hnone
    mac := hsome }

end Arveil.Updates.Signer
