import Arveil.Proofs.Members.Writers

/-! What holds between the relay's sessions. `Later` is what the store never takes back,
`Allowed` what a handler has checked before it calls (with what is given of the
manifests), `Consistent` what the members' tables
always are. A handler that is sound against these keeps them whatever the other sessions do
between two of its calls. -/

namespace Arveil.RelayServer

open RelayStore Prog

variable {cx : Crypto} {items : CborItems} {Fair : DeviceManifest → Prop}
variable {Cond : Call → Db → Prop} {Q : Outcome → Db → Prop}

/-- What `Q` must hold for when a frame ends: nobody admitted, a redemption made now or
before, a recovery. -/
structure Admission (cx : Crypto) (items : CborItems) (Cond : Call → Db → Prop) (Q : Session → Outcome → Db → Prop) : Prop where
  nobody : ∀ s o db, o.device = none → Q s o db
  redeem : ∀ s token credential manifest now v m db r db', Consistent cx items db →
    Presented cx items s credential manifest now v m →
    Cond (.redeemInvite (cx.sha256 token) now (enrollment v credential manifest m.manifestSequence)) db →
    redeemInvite (cx.sha256 token) now (enrollment v credential manifest m.manifestSequence) db = (r, db') →
    r = .ok () ∨ r = .error .alreadyRedeemed → ∀ a, Q s ⟨a, some (admitted v)⟩ db'
  recover : ∀ s credential manifest now v m db n db', Consistent cx items db →
    Presented cx items s credential manifest now v m →
    Cond (.recoverIdentity (enrollment v credential manifest m.manifestSequence) m.revokedCredentialHashes now) db →
    RelayStore.recoverIdentity (enrollment v credential manifest m.manifestSequence) m.revokedCredentialHashes now db =
      (.ok n, db') → ∀ a, Q s ⟨a, some (admitted v)⟩ db'

section runs

variable {Q : Session → Outcome → Db → Prop} {Qh : Option Session → Db → Prop}

theorem sound_dispatch (ha : Admission cx items Cond Q) {s : Session} {f : Frame} (hf : f.Honest cx items Fair) (now : Int) (db : Db) :
    SoundHandler cx items Fair Cond (Q s) (dispatch cx items s f now) db := by
  have hnone := ha.nobody s
  unfold dispatch
  split
  · cases f <;> exact hnone _ _ rfl
  · by_cases hplain : f.plain = true
    · exact sound_of_plain hnone (plain_dispatchSession hplain) db
    · cases f with
      | inviteRedeem token credential manifest => exact sound_inviteRedeem hnone hf (ha.redeem s token credential manifest now)
      | credentialPut credential => exact sound_credentialPut hnone
      | manifestPut manifest => exact sound_manifestPut hnone
      | recoverIdentity credential manifest => exact sound_recoverIdentity hnone hf (ha.recover s credential manifest now)
      | _ => exact absurd rfl hplain

/-- What `Qh` must hold for when a handshake ends: nobody admitted, or the device whose
active credential has the key. -/
structure Handshake (Qh : Option Session → Db → Prop) : Prop where
  nobody : ∀ o db, (∀ s, o = some s → s.device = none) → Qh o db
  known : ∀ c db, c ∈ db.credentials → c.status = .active → Qh (some ⟨c.transportKey, some c.device, none⟩) db

theorem deviceByTransportKey_some {key : Bytes} {d : Device} {db db' : Db}
    (h : deviceByTransportKey key db = (.ok (some d), db')) :
    db = db' ∧ ∃ c ∈ db.credentials, c.transportKey = key ∧ c.device = d := by
  rw [deviceByTransportKey, read_eq_ok] at h
  obtain ⟨c, hc, hd⟩ := Option.map_eq_some_iff.1 h.1
  exact ⟨h.2, c, List.mem_of_find?_eq_some hc, by simpa using List.find?_some hc, hd⟩

theorem sound_authorize (hh : Handshake Qh) (key : Bytes) (now : Int) (db : Db) :
    SoundHandler cx items Fair Cond Qh (authorize cx key now) db := by
  refine sound_call fun db₁ _ => ⟨trivial, fun r db₂ hcall _ => ?_⟩
  rcases r with e | _ | d
  · exact hh.nobody _ _ fun s hs => by cases hs
  · refine sound_call fun db₃ _ => ⟨trivial, fun r db₄ _ _ => ?_⟩
    rcases r with e | ⟨_ | w, _ | _⟩
    · exact hh.nobody _ _ fun s hs => by cases hs
    · exact hh.nobody _ _ fun s hs => by cases hs; rfl
    · exact hh.nobody _ _ fun s hs => by cases hs
    · exact hh.nobody _ _ fun s hs => by cases hs; rfl
    · exact hh.nobody _ _ fun s hs => by cases hs; rfl
  · dsimp only
    split
    · exact hh.nobody _ _ fun s hs => by cases hs
    · next hactive =>
      obtain ⟨rfl, c, hc, rfl, rfl⟩ := deviceByTransportKey_some hcall
      exact hh.known c db₁ hc (not_not.1 fun h => hactive (Or.inl h))

def Connection.Good (items : CborItems) (Fair : DeviceManifest → Prop) (Cond : Call → Db → Prop) (Q : Session → Outcome → Db → Prop)
    (Qh : Option Session → Db → Prop) (db : Db) : Connection cx → Prop
  | .handshake c k => SoundHandler cx items Fair Cond Qh (.call c k) db
  | .busy s _ _ c k => SoundHandler cx items Fair Cond (Q s) (.call c k) db
  | _ => True

structure Running (items : CborItems) (Fair : DeviceManifest → Prop) (Cond : Call → Db → Prop) (Q : Session → Outcome → Db → Prop)
    (Qh : Option Session → Db → Prop) (w : World cx) : Prop where
  db : Consistent cx items w.db
  connections : ∀ conn ∈ w.connections, conn.Good items Fair Cond Q Qh w.db

def Connection.next : Connection cx → Option Call
  | .handshake c _ | .busy _ _ _ c _ => some c
  | _ => none

def NextCall (P : Call → Db → Prop) (w : World cx) : Event → Prop
  | .advance i => ∀ conn c, w.connections[i]? = some conn → conn.next = some c → P c w.db
  | _ => True

theorem NextCall.and {P P' : Call → Db → Prop} {w : World cx} {e : Event} (h : NextCall P w e) (h' : NextCall P' w e) :
    NextCall (fun c db => P c db ∧ P' c db) w e := by
  cases e with
  | advance i => exact fun conn c hi hc => ⟨h conn c hi hc, h' conn c hi hc⟩
  | _ => trivial

def Event.Honest (cx : Crypto) (items : CborItems) (Fair : DeviceManifest → Prop) : Event → Prop
  | .frame _ f _ => f.Honest cx items Fair
  | _ => True

theorem nextCall_any (w : World cx) (e : Event) : NextCall (fun _ _ => True) w e := by
  cases e <;> first | trivial | exact fun _ _ _ _ => trivial

theorem admission_any (Cond : Call → Db → Prop) : Admission cx items Cond fun _ _ _ => True :=
  ⟨fun _ _ _ _ => trivial, fun _ _ _ _ _ _ _ _ _ _ _ _ _ _ _ _ => trivial, fun _ _ _ _ _ _ _ _ _ _ _ _ _ _ => trivial⟩

theorem handshake_any : Handshake fun _ _ => True := ⟨fun _ _ _ => trivial, fun _ _ _ _ => trivial⟩

theorem honest_any (e : Event) : e.Honest cx items fun _ => True := by
  cases e with
  | frame i f now => cases f <;> first | trivial | exact fun _ _ _ => trivial
  | _ => trivial

theorem good_later {conn : Connection cx} {db db' : Db} (hr : Reached cx items db db') (h : conn.Good items Fair Cond Q Qh db) :
    conn.Good items Fair Cond Q Qh db' := by
  cases conn with
  | handshake c k =>
    have hs : SoundHandler cx items Fair Cond Qh (.call c k) db := h
    exact hs.later Reached.trans hr
  | busy s f found c k =>
    have hs : SoundHandler cx items Fair Cond (Q s) (.call c k) db := h
    exact hs.later Reached.trans hr
  | idle s => trivial
  | closed => trivial

theorem good_handshakeGoes {h : Handles cx (Option Session)} {db : Db} (hs : SoundHandler cx items Fair Cond Qh h db) :
    (handshakeGoes cx h).Good items Fair Cond Q Qh db := by
  rcases h with (_ | s) | ⟨c, k⟩
  · trivial
  · trivial
  · exact hs

theorem good_frameGoes {s : Session} {f : Frame} {found : Db} {h : Handles cx Outcome} {db : Db}
    (hs : SoundHandler cx items Fair Cond (Q s) h db) : (frameGoes cx s f found h).Good items Fair Cond Q Qh db := by
  cases h with
  | done o => trivial
  | call c k => exact hs

theorem allowed_chore (c : Chore) (db : Db) : Allowed cx items Fair c.call db := by
  cases c <;> trivial

theorem reached_call {c : Call} {db : Db} (hc : Consistent cx items db) (ha : Allowed cx items Fair c db) :
    Reached cx items db (c.prog cx.sha256 db).2 := ⟨later_call c db, consistent_effect ha (call_effect c db) hc⟩

theorem running_set {w : World cx} {i : Nat} {conn : Connection cx} {db' : Db} (hw : Running items Fair Cond Q Qh w)
    (hr : Reached cx items w.db db') (hconn : conn.Good items Fair Cond Q Qh db') :
    Running items Fair Cond Q Qh ⟨db', w.connections.set i conn⟩ := by
  refine ⟨hr.2, fun conn' hmem => ?_⟩
  rcases List.mem_or_eq_of_mem_set hmem with hmem | rfl
  · exact good_later hr (hw.connections conn' hmem)
  · exact hconn

theorem running_step (ha : Admission cx items Cond Q) (hh : Handshake Qh) {w : World cx} {e : Event}
    (hhonest : e.Honest cx items Fair) (hcond : NextCall Cond w e) (hw : Running items Fair Cond Q Qh w) :
    Running items Fair Cond Q Qh (step cx items w e) := by
  have hrefl : Reached cx items w.db w.db := ⟨Later.refl _, hw.db⟩
  cases e with
  | connect key now =>
    refine ⟨hw.db, fun conn hmem => ?_⟩
    rcases List.mem_append.1 hmem with hmem | hmem
    · exact hw.connections conn hmem
    · rw [List.mem_singleton.1 hmem]
      exact good_handshakeGoes (sound_authorize hh key now w.db)
  | frame i f now =>
    dsimp only [step]
    split
    · exact running_set hw hrefl (good_frameGoes (sound_dispatch ha hhonest now w.db))
    · exact hw
  | advance i =>
    dsimp only [step]
    split
    · next c k hi =>
      have hsound : SoundHandler cx items Fair Cond Qh (.call c k) w.db := hw.connections _ (List.mem_of_getElem? hi)
      obtain ⟨hallowed, hnext⟩ := hsound w.db hrefl
      exact running_set hw (reached_call hw.db hallowed) (good_handshakeGoes (hnext (hcond _ c hi rfl)))
    · next s f found c k hi =>
      have hsound : SoundHandler cx items Fair Cond (Q s) (.call c k) w.db := hw.connections _ (List.mem_of_getElem? hi)
      obtain ⟨hallowed, hnext⟩ := hsound w.db hrefl
      exact running_set hw (reached_call hw.db hallowed) (good_frameGoes (hnext (hcond _ c hi rfl)))
    · exact hw
  | close i => exact running_set hw hrefl trivial
  | chore c =>
    have hallowed : Allowed cx items Fair c.call w.db := allowed_chore c w.db
    have hr := reached_call hw.db hallowed
    exact ⟨hr.2, fun conn hmem => good_later hr (hw.connections conn hmem)⟩

theorem running_start : Running items Fair Cond Q Qh (start cx) := ⟨consistent_empty, fun _ hmem => nomatch hmem⟩

def Event.call (w : World cx) : Event → Option Call
  | .advance i => w.connections[i]?.bind Connection.next
  | .chore c => some c.call
  | _ => none

theorem step_db (w : World cx) (e : Event) :
    (step cx items w e).db = (e.call w).elim w.db fun c => (c.prog cx.sha256 w.db).2 := by
  cases e with
  | frame i f now =>
    dsimp only [step, Event.call]
    split <;> rfl
  | advance i =>
    dsimp only [step, Event.call]
    rcases w.connections[i]? with _ | (_ | _ | _ | _) <;> rfl
  | _ => rfl

theorem call_allowed {w : World cx} {e : Event} {c : Call} (hw : Running items Fair Cond Q Qh w) (hc : e.call w = some c) :
    Allowed cx items Fair c w.db := by
  have hrefl : Reached cx items w.db w.db := ⟨Later.refl _, hw.db⟩
  cases e with
  | advance i =>
    obtain ⟨conn, hi, hnext⟩ := Option.bind_eq_some_iff.1 hc
    have hgood := hw.connections conn (List.mem_of_getElem? hi)
    cases conn with
    | handshake c' k =>
      obtain rfl := Option.some.inj hnext
      have hsound : SoundHandler cx items Fair Cond Qh (.call c' k) w.db := hgood
      exact (hsound w.db hrefl).1
    | busy s f found c' k =>
      obtain rfl := Option.some.inj hnext
      have hsound : SoundHandler cx items Fair Cond (Q s) (.call c' k) w.db := hgood
      exact (hsound w.db hrefl).1
    | idle s => cases hnext
    | closed => cases hnext
  | chore c' =>
    obtain rfl := Option.some.inj hc
    exact allowed_chore c' w.db
  | connect key now => cases hc
  | frame i f now => cases hc
  | close i => cases hc

/-- What an event does to the store: nothing, or one call that was allowed. -/
theorem step_effect {P : Call → Db → Prop} (hchore : ∀ (c : Chore) db, P c.call db) {w : World cx} {e : Event}
    (hnext : NextCall P w e) (hw : Running items Fair Cond Q Qh w) :
    (step cx items w e).db = w.db ∨
      ∃ c, Allowed cx items Fair c w.db ∧ P c w.db ∧ Effect c w.db (step cx items w e).db := by
  have hdb : (step cx items w e).db = _ := step_db w e
  rw [hdb]
  cases hc : e.call w with
  | none => exact Or.inl rfl
  | some c =>
    refine Or.inr ⟨c, call_allowed hw hc, ?_, call_effect c w.db⟩
    cases e with
    | advance i =>
      obtain ⟨conn, hi, hconn⟩ := Option.bind_eq_some_iff.1 hc
      exact hnext conn c hi hconn
    | chore c' =>
      obtain rfl := Option.some.inj hc
      exact hchore c' w.db
    | connect key now => cases hc
    | frame i f now => cases hc
    | close i => cases hc

end runs

/-- The redemption a call makes, the credential it stores after a check made before, the
recovery. -/
def Call.redeems : Call → Option (Bytes × Enrollment)
  | .redeemInvite tokenHash _ e => some (tokenHash, e)
  | _ => none

def Call.stored : Call → Option Enrollment
  | .putCredential e => some e
  | _ => none

def Call.recovers : Call → Option (Enrollment × List Bytes)
  | .recoverIdentity e revoked _ => some (e, revoked)
  | _ => none

instance {P : Call → Db → Prop} [∀ c db, Decidable (P c db)] (w : World cx) (e : Event) : Decidable (NextCall P w e) :=
  match e with
  | .connect _ _ | .frame _ _ _ | .close _ | .chore _ => .isTrue trivial
  | .advance i => decidable_of_iff (∀ c ∈ w.connections[i]?.bind Connection.next, P c w.db) (by
      constructor
      · intro h conn c hi hc
        exact h c (by rw [hi]; exact hc)
      · intro h c hc
        obtain ⟨conn, hi, hnext⟩ := Option.bind_eq_some_iff.1 hc
        exact h conn c hi hnext)

theorem hasRoot_iff {db : Db} {identityId root : Bytes} :
    HasRoot db identityId root ↔ (db.memberships.get? identityId).map (·.rootPublic) = some root := by
  rw [Option.map_eq_some_iff]
  constructor
  · rintro ⟨m, hm, hid, hroot⟩
    exact ⟨m, Table.get?_eq_some.2 ⟨hm, hid⟩, hroot⟩
  · rintro ⟨m, hm, hroot⟩
    exact ⟨m, (Table.get?_eq_some.1 hm).1, (Table.get?_eq_some.1 hm).2, hroot⟩

/-- What a stored manifest says, if it verifies under the member's root. -/
def verifiedBody (cx : Crypto) (items : CborItems) (db : Db) (m : RelayStore.ManifestRow) : Option DeviceManifest :=
  ((db.memberships.get? m.identityId).map (·.rootPublic)).bind fun root => (RelayIdentity.verifyManifest cx items m.signed root).toOption

theorem verifiedBody_eq_some {db : Db} {m : RelayStore.ManifestRow} {body : DeviceManifest} :
    verifiedBody cx items db m = some body ↔ ∃ root, HasRoot db m.identityId root ∧ Signed cx items root m.signed body := by
  simp only [verifiedBody, Option.bind_eq_some_iff, ← hasRoot_iff, Signed]
  constructor
  · rintro ⟨root, hroot, hbody⟩
    cases hv : RelayIdentity.verifyManifest cx items m.signed root with
    | error e => rw [hv] at hbody; cases hbody
    | ok body' =>
      rw [hv] at hbody
      exact ⟨root, hroot, by rw [hv, Option.some.inj hbody]⟩
  · rintro ⟨root, hroot, hbody⟩
    exact ⟨root, hroot, by rw [hbody]; rfl⟩

/-- What a manifest says, whoever signed it. -/
def readManifest (items : CborItems) (signed : Bytes) : Option DeviceManifest :=
  (unmarshal items.signed SignedFields.first signed).bind fun so => unmarshal items.manifest ManifestFields.first so.body

theorem Signed.read {root signed : Bytes} {body : DeviceManifest} (h : Signed cx items root signed body) :
    readManifest items signed = some body := by
  unfold Signed RelayIdentity.verifyManifest RelayIdentity.openSigned at h
  unfold readManifest
  cases hso : unmarshal items.signed SignedFields.first signed with
  | none => rw [hso] at h; cases h
  | some so =>
    rw [hso] at h
    dsimp only at h
    split at h
    · cases h
    · next b hb =>
      split at hb
      · cases hb
      · split at hb
        · cases hb
        · obtain rfl := Except.ok.inj hb
          rw [Option.bind_some]
          split at h
          · cases h
          · next m hm =>
            split at h
            · cases h
            · split at h
              · cases h
              · rw [hm, Except.ok.inj h]

def Frame.manifests : Frame → List Bytes
  | .inviteRedeem _ _ manifest | .manifestPut manifest | .recoverIdentity _ manifest => [manifest]
  | _ => []

def Event.manifests : Event → List Bytes
  | .frame _ f _ => f.manifests
  | _ => []

theorem honest_of_read {e : Event} (h : ∀ m ∈ e.manifests, ∀ body ∈ readManifest items m, Fair body) : e.Honest cx items Fair := by
  cases e with
  | frame i f now =>
    cases f with
    | inviteRedeem token credential manifest | manifestPut manifest | recoverIdentity credential manifest =>
      intro root body hsigned
      exact h manifest List.mem_cons_self body hsigned.read
    | _ => trivial
  | _ => trivial

end Arveil.RelayServer
