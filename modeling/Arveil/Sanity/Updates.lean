import Arveil.Spec.UpdateController

/-! An announcement with its signature, and libraries that know the texts in it. -/

namespace Arveil.Updates.Demo

def payloadText : String :=
    "\x7b\"schema\":1,\"channel\":\"beta\",\"sequence\":7,\"expires\":\"2026-08-01T00:00:00Z\",\"platform" ++
    "s\":\x7b\"android-arm64\":\x7b\"version\":\"0.2.0\",\"build\":20,\"minimum_sdk\":26,\"application_id" ++
    "\":\"io.github.ulzuhan.arveil\",\"url\":\"https://github.com/a/b/releases/download/clients-v0.2.0/a." ++
    "apk\",\"size\":1000,\"sha256\":\"0000000000000000000000000000000000000000000000000000000000000000\"," ++
    "\"notes\":\"\",\"notes_url\":\"https://example.org/n\"\x7d\x7d\x7d"

def payload64 : String :=
    "eyJzY2hlbWEiOjEsImNoYW5uZWwiOiJiZXRhIiwic2VxdWVuY2UiOjcsImV4cGlyZXMiOiIyMDI2LTA4LTAxVDAwOjAwOjAwWiIs" ++
    "InBsYXRmb3JtcyI6eyJhbmRyb2lkLWFybTY0Ijp7InZlcnNpb24iOiIwLjIuMCIsImJ1aWxkIjoyMCwibWluaW11bV9zZGsiOjI2" ++
    "LCJhcHBsaWNhdGlvbl9pZCI6ImlvLmdpdGh1Yi51bHp1aGFuLmFydmVpbCIsInVybCI6Imh0dHBzOi8vZ2l0aHViLmNvbS9hL2Iv" ++
    "cmVsZWFzZXMvZG93bmxvYWQvY2xpZW50cy12MC4yLjAvYS5hcGsiLCJzaXplIjoxMDAwLCJzaGEyNTYiOiIwMDAwMDAwMDAwMDAw" ++
    "MDAwMDAwMDAwMDAwMDAwMDAwMDAwMDAwMDAwMDAwMDAwMDAwMDAwMDAwMDAwMDAwMDAwIiwibm90ZXMiOiIiLCJub3Rlc191cmwi" ++
    "OiJodHRwczovL2V4YW1wbGUub3JnL24ifX19"

def signature64 : String :=
    "8g7zeaFYqsgQ00qSUaeMKvmU+t/mzxr226lPXxcoSWr+g8be5Fz01PmgnQ9IYFMJ1RGEop03kLuDn4+RcApaCw=="

/-- The envelope, as the signing tool lays it out. -/
def wire : Bytes := utf8 ("\x7b\n  \"schema\": 1,\n  \"payload\": \"" ++ payload64 ++ "\",\n  \"signature\": \"" ++ signature64 ++ "\"\n\x7d\n")

def publicKey : Bytes :=
    [122, 44, 188, 18, 243, 143, 56, 160, 178, 159, 16, 251, 48, 158, 71, 35, 168, 71, 18, 226, 186, 255, 167, 128,
    199, 124, 157, 17, 195, 80, 3, 95]

def signature : Bytes :=
    [242, 14, 243, 121, 161, 88, 170, 200, 16, 211, 74, 146, 81, 167, 140, 42, 249, 148, 250, 223, 230, 207, 26, 246,
    219, 169, 79, 95, 23, 40, 73, 106, 254, 131, 198, 222, 228, 92, 244, 212, 249, 160, 157, 15, 72, 96, 83, 9,
    213, 17, 132, 162, 157, 55, 144, 187, 131, 159, 143, 145, 112, 10, 90, 11]

def packageHash : String := "0000000000000000000000000000000000000000000000000000000000000000"

def envelope : Json := .map [("schema", .int 1), ("payload", .str payload64), ("signature", .str signature64)]

def phone : Json :=
  .map [("version", .str "0.2.0"), ("build", .int 20), ("minimum_sdk", .int 26), ("application_id", .str "io.github.ulzuhan.arveil"),
    ("url", .str "https://github.com/a/b/releases/download/clients-v0.2.0/a.apk"), ("size", .int 1000), ("sha256", .str packageHash),
    ("notes", .str ""), ("notes_url", .str "https://example.org/n")]

def data : Json :=
  .map [("schema", .int 1), ("channel", .str "beta"), ("sequence", .int 7), ("expires", .str "2026-08-01T00:00:00Z"),
    ("platforms", .map [("android-arm64", phone)])]

/-- One second before the announcement expires, the moment it does, and a second later. -/
def early : Int := 1785542399000000
def expires : Int := 1785542400000000
def late : Int := 1785542401000000

def earlyText : String := "2026-07-31T23:59:59.000Z"

/-- Any other time, with a mark for each of its microseconds. -/
def marks (t : Int) : List Char := (if t < 0 then 'm' else 'p') :: List.replicate t.natAbs 'i'

def unmark : List Char → Option DateTime
  | 'm' :: l => some ⟨-l.length, true⟩
  | 'p' :: l => some ⟨l.length, true⟩
  | _ => none

def toIso8601String (t : Int) : String := if t = early then earlyText else String.ofList (marks t)

def parseDate (s : String) : Option DateTime :=
  if s = earlyText then some ⟨early, true⟩
  else if s = "2026-08-01T00:00:00Z" then some ⟨expires, true⟩
  else unmark s.toList

theorem unmark_marks (t : Int) : unmark (marks t) = some ⟨t, true⟩ := by
  unfold marks
  by_cases ht : t < 0
  · rw [if_pos ht]
    simp only [unmark, List.length_replicate]
    rw [show -(t.natAbs : Int) = t by omega]
  · rw [if_neg ht]
    simp only [unmark, List.length_replicate]
    rw [show (t.natAbs : Int) = t by omega]

theorem parse_iso (t : Int) : parseDate (toIso8601String t) = some ⟨t, true⟩ := by
  unfold toIso8601String
  by_cases ht : t = early
  · rw [if_pos ht, ht]
    rfl
  · have hother : ∀ s : String, unmark s.toList = none → String.ofList (marks t) ≠ s := by
      rintro s hs rfl
      rw [String.toList_ofList, unmark_marks] at hs
      nomatch hs
    rw [if_neg ht, parseDate, if_neg (hother _ (by decide)), if_neg (hother _ (by decide)), String.toList_ofList, unmark_marks]

def uri (host text : String) : Uri := ⟨"https", host, "", false, false, text⟩

def tryParse (s : String) : Option Uri :=
  if s = "https://example.org/n" then some (uri "example.org" s)
  else if s = "https://github.com/a/b/releases/download/clients-v0.2.0/a.apk" then some (uri "github.com" s)
  else none

def payloadDigest : Hex64 := ⟨"700563d93aecd4660809ae9926117f3bb3c46f6fc64ea5854eb106fc63639fd5", by decide +kernel⟩

def identityDigest : Hex64 := ⟨"a44bc03d89fb64c773110cd1413d98b86108b79f37990791afbcc02276804f4c", by decide +kernel⟩

def cx : Dart where
  jsonDecode b := if b = wire then some envelope else if b = utf8 payloadText then some data else none
  base64Decode s := if s = payload64 then some (utf8 payloadText) else if s = signature64 then some signature else none
  parseDate := parseDate
  toIso8601String := toIso8601String
  parse_iso := parse_iso
  tryParse := tryParse
  parseInt _ := none
  verifier p s k := some (p = utf8 payloadText && s = signature && k = publicKey)
  sha256 b := if b = utf8 payloadText then payloadDigest else identityDigest

theorem beta_named : "beta" = "stable" ∨ "beta" = "beta" := Or.inr rfl

def config : UpdateConfig where
  feed := uri "updates.example.org" "https://updates.example.org/clients-beta.json"
  publicKey := publicKey
  channel := "beta"
  plain := rfl
  length := by decide
  named := beta_named

def device : UpdateDevice := ⟨19, 34, "io.github.ulzuhan.arveil", true, none⟩

/-- An offer that expires while the installation waits for the platform. -/
def slowInstall : List Event :=
  [.check, .answer .done, .answer (.device device), .answer (.wire wire), .answer .done, .download, .answer (.file "update.apk"),
    .answer (.allowed true), .install, .answer (.device device), .clock late, .answer (.allowed true)]

end Arveil.Updates.Demo
