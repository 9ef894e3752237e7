import Arveil.Spec.Store

/-! Routes as the roster and the contact cards carry them: one line of text for
each device. The lines are handled as the bytes of their text. -/

namespace Arveil

structure Route where
  identityId : Bytes
  deviceId : Bytes
  credentialHash : Bytes
  rootPublic : Bytes
  mailboxId : Bytes
  writeCapability : Bytes
  hpkePublic : Bytes
deriving DecidableEq, Repr

namespace Route

/-- The lines of a text whose current line, read backwards, is `line`. -/
def linesFrom (line : Bytes) : Bytes → List Bytes
  | [] => if line.isEmpty then [] else [line.reverse]
  | b :: bs =>
      if b = 10 then
        let stripped := match line with
          | 13 :: rest => rest
          | other => other
        stripped.reverse :: linesFrom [] bs
      else linesFrom (b :: line) bs

/-- `str::lines`: a carriage return goes only before a line feed, and a final line
feed opens no line. -/
def lines (text : Bytes) : List Bytes := linesFrom [] text

def hexField (context : String) (text : Bytes) : Except CliError Bytes :=
  match hexDecode text with
  | .ok b => .ok b
  | .error e => .error (domainError context e)

def root (cx : Crypto) (r : Route) : Except CliError Bytes :=
  if r.rootPublic.length ≠ 32 then .error (.domain "route: root key length")
  else match Identity.verifyingKey cx r.rootPublic with
    | none => .error (domainError "route: root key" "signature error: Cannot decompress Edwards point")
    | some key => .ok key

def fields (parts : List Bytes) : Except CliError Route :=
  match parts with
  | [p0, p1, p2, p3, p4, p5, p6, p7, p8] =>
      if p0 ≠ utf8 "arveil-route" ∨ p1 ≠ utf8 "v1" then .error (.domain "not an arveil-route:v1 string")
      else do
        let identityId ← hexField "identity id" p2
        let deviceId ← hexField "device id" p3
        let credentialHash ← hexField "credential hash" p4
        let rootPublic ← hexField "root key" p5
        let mailboxId ← hexField "mailbox id" p6
        let writeCapability ← hexField "write capability" p7
        let hpkePublic ← hexField "hpke key" p8
        pure ⟨identityId, deviceId, credentialHash, rootPublic, mailboxId, writeCapability, hpkePublic⟩
  | _ => .error (.domain "not an arveil-route:v1 string")

/-- A route is refused unless its identity id derives from its root key. -/
def parse (cx : Crypto) (line : Bytes) : Except CliError Route := do
  let route ← fields (line.splitOn 58)
  let key ← root cx route
  if Identity.identityId cx key ≠ route.identityId then
    .error (.domain "route: identity id does not derive from its root key")
  else pure route

def text (identity device hash rootPublic mailbox cap hpke : Bytes) : Bytes :=
  [58].intercalate [utf8 "arveil-route", utf8 "v1", hexEncode identity, hexEncode device, hexEncode hash,
    hexEncode rootPublic, hexEncode mailbox, hexEncode cap, hexEncode hpke]

end Route

open Client

/-- A device as a route describes it; what a roster brings is never revoked. -/
def peerFromRoute (r : Route) : Peer :=
  ⟨r.identityId, r.deviceId, r.credentialHash, r.rootPublic, some r.mailboxId, some r.writeCapability,
    some r.hpkePublic, false⟩

def routeOfPeer (p : Peer) : Option Bytes :=
  match p.mailbox, p.writeCap, p.hpke with
  | some m, some w, some h => some (Route.text p.identity p.deviceId p.credentialHash p.rootPublic m w h)
  | _, _, _ => none

end Arveil
