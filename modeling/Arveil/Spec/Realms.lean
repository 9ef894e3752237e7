import Arveil.Spec.Identity

/-! The realms a profile has heard of (`client.rs`, `channel/endpoints.rs`) and the
onboarding attempts that write them. Every attempt leaves a row under its realm's id; the
reader takes one row of the table. -/

namespace Arveil

structure Endpoint where
  kind : String
  url : String
  priority : UInt8
deriving DecidableEq, Repr

structure RealmEndpointList where
  version : UInt8
  realmId : Bytes
  sequence : UInt64
  realmNoisePublicKey : Bytes
  endpoints : List Endpoint
deriving DecidableEq, Repr

inductive EndpointListError where
  | decode (e : String)
  | wrongContext (got : String)
  | badSignature
  | unsupportedVersion (v : UInt8)
  | realmMismatch
  | rollback (got known : UInt64)
  | empty
deriving DecidableEq, Repr

def endpointListContext : String := "arveil/endpoint-list/v1"
def endpointListVersion : UInt8 := 1

structure RealmRow where
  realmId : Bytes
  signingPublic : Bytes
  noisePublic : Bytes
  bootstrapUrl : String
  endpointList : Option Bytes
  enrolled : Bool
deriving DecidableEq, Repr

theorem RealmRow.listed_key (signed : Bytes) (list : RealmEndpointList) (r : RealmRow) :
    ({ r with endpointList := some signed, noisePublic := list.realmNoisePublicKey } : RealmRow).realmId = r.realmId := rfl

structure StoredRealm where
  realmId : Bytes
  signingPublic : Bytes
  noisePublic : Bytes
  bootstrapUrl : String
  endpointList : Option RealmEndpointList
  enrolled : Bool
deriving DecidableEq, Repr

structure Bootstrap where
  realmId : Bytes
  signingKey : Bytes
  noisePublic : Bytes
  url : String
deriving DecidableEq, Repr

namespace Realm

inductive Error where
  | noDevice
  | endpointList (e : EndpointListError)
deriving DecidableEq, Repr

/-- Rows in the order they were first written; an update leaves a row where it is. -/
abbrev Realms := Table RealmRow.realmId

abbrev Act (α : Type) := Prog Realms Error α

variable (cx : Crypto) (decodeList : Bytes → Except String RealmEndpointList)

/-- `endpoints::verify`: under the realm's key, for the realm, above the known sequence. -/
def verify (signed key realmId : Bytes) (known : Option UInt64) : Except EndpointListError RealmEndpointList :=
  match Identity.verify cx signed endpointListContext key with
  | .error (.wrongContext _ got) => .error (.wrongContext got)
  | .error .badSignature => .error .badSignature
  | .error e => .error (.decode e.message)
  | .ok body =>
      match decodeList body with
      | .error e => .error (.decode (SignedError.decode e).message)
      | .ok list =>
          if list.version ≠ endpointListVersion then .error (.unsupportedVersion list.version)
          else if list.realmId ≠ realmId then .error .realmMismatch
          else match known.filter (list.sequence ≤ ·) with
          | some known => .error (.rollback list.sequence known)
          | none => if list.endpoints = [] then .error .empty else .ok list

/-- Remember a realm from its bootstrap. -/
def realmSave (b : Bootstrap) : Act Unit := Prog.modify fun t =>
  t.upsert (fun r new => { r with signingPublic := new.signingPublic, noisePublic := new.noisePublic, bootstrapUrl := new.bootstrapUrl })
    (fun _ _ => rfl) ⟨b.realmId, b.signingKey, b.noisePublic, b.url, none, false⟩

/-- A stored list is verified again each time it is read. -/
def readRow (r : RealmRow) : Except Error StoredRealm :=
  match r.endpointList with
  | none => .ok ⟨r.realmId, r.signingPublic, r.noisePublic, r.bootstrapUrl, none, r.enrolled⟩
  | some signed =>
      match verify cx decodeList signed r.signingPublic r.realmId none with
      | .error e => .error (.endpointList e)
      | .ok list => .ok ⟨r.realmId, r.signingPublic, r.noisePublic, r.bootstrapUrl, some list, r.enrolled⟩

/-- `SELECT … FROM realm LIMIT 1`, without an order: the first row of the table. -/
def realm : Act (Option StoredRealm) := do
  match (← Prog.read fun t => t.rows.head?) with
  | none => pure none
  | some r => do pure (some (← Prog.ofExcept (readRow cx decodeList r)))

/-- Verify and store a newer endpoint list; the list already stored is accepted again. -/
def realmAcceptEndpointList (realmId signed : Bytes) : Act RealmEndpointList := do
  let realm ← Prog.ofOption .noDevice (← realm cx decodeList)
  let stored ← Prog.read fun t => (t.get? realmId).bind (·.endpointList)
  let known := if stored = some signed then none else realm.endpointList.map (·.sequence)
  let list ← Prog.ofExcept ((verify cx decodeList signed realm.signingPublic realmId known).mapError .endpointList)
  Prog.modify fun t => t.update (fun r => r.realmId = realmId)
    (fun r => { r with endpointList := some signed, noisePublic := list.realmNoisePublicKey }) (RealmRow.listed_key signed list)
  pure list

def realmMarkEnrolled (realmId : Bytes) : Act Unit := Prog.modify fun t =>
  t.update (fun r => r.realmId = realmId) (fun r => { r with enrolled := true }) fun _ => rfl

/-- `enroll` and the completion of a link: the realm is saved, its list fetched and
accepted, and the realm marked. -/
def onboard (b : Bootstrap) (signed : Bytes) : Act Unit := do
  realmSave b
  let _ ← realmAcceptEndpointList cx decodeList b.realmId signed
  realmMarkEnrolled b.realmId

/-- An attempt and how far it got. -/
inductive Attempt where
  /-- a pairing, a link or a recovery begun, or an enrollment that found nobody -/
  | begins (b : Bootstrap)
  /-- the list came, and the attempt stopped there -/
  | stops (b : Bootstrap) (signed : Bytes)
  | onboards (b : Bootstrap) (signed : Bytes)
  /-- a recovery goes on with the realm it reads -/
  | resumes (signed : Bytes)

def Attempt.realmId : Attempt → Option Bytes
  | .begins b | .stops b _ | .onboards b _ => some b.realmId
  | .resumes _ => none

def Attempt.prog : Attempt → Act Unit
  | .begins b => realmSave b
  | .stops b signed => do
      realmSave b
      let _ ← realmAcceptEndpointList cx decodeList b.realmId signed
  | .onboards b signed => onboard cx decodeList b signed
  | .resumes signed => do
      let realm ← Prog.ofOption .noDevice (← realm cx decodeList)
      let _ ← realmAcceptEndpointList cx decodeList realm.realmId signed
      realmMarkEnrolled realm.realmId

def after (t : Realms) (a : Attempt) : Realms := (a.prog cx decodeList t).2

end Realm

end Arveil
