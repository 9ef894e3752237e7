import Arveil.Proofs.Approvals
import Arveil.Sanity.Items
import Arveil.Sanity.Platform

/-! What the commands do between two requests, and whole runs: a link that has signed is
never refused, and it ends with its credential registered and its grant put. -/

namespace Arveil.Approvals

open Client RelayStore RelayServer Prog

variable {cx : Crypto} {items : CborItems} {seed key : Bytes}

section link

variable {store store' : Store} {db : Db} {pairs : Rendezvous.Pairs} {r : Requested} {approve : Bool} {l l' : Link cx}
  {now : UInt64} {relayNow : Int}

theorem opens_openConnection (hb : Base cx seed key store db) {h : Handles cx (Option RelayServer.Session)}
    (hopen : openConnection cx store relayNow = some h) : Opens cx seed key h db := by
  obtain ⟨d, hd, hkey⟩ := hb.device
  rw [openConnection, hd] at hopen
  obtain rfl := Option.some.inj hopen
  subst hkey
  exact served_authorize relayNow db

theorem linkOk_answerLink (hb : Base cx seed key store db) :
    LinkOk cx items seed key store db pairs r (answerLink cx store r approve now relayNow) := by
  unfold answerLink
  split
  · rfl
  · cases hopen : openConnection cx store relayNow with
    | none => rfl
    | some h =>
      dsimp only
      split
      · rfl
      · exact opens_openConnection hb hopen

theorem linkOk_declineLink : LinkOk cx items seed key store db pairs r (declineLink cx r relayNow) := by
  unfold declineLink
  split
  · exact fun a' ha' => nomatch ha'
  · split
    · rfl
    · trivial

theorem approveLink_ok (hcx : cx.Lawful) (hitems : items.Reads cx) (hb : Base cx seed key store db) (hroom : Devices.Room store)
    {s : RelayServer.Session} (hs : s.OfMember (ownIdentity cx seed))
    (hrun : approveLink cx items r s now relayNow store = (l', store')) :
    Grows cx seed (fun _ => True) store store' ∧ LinkOk cx items seed key store' db pairs r l' := by
  unfold approveLink at hrun
  rcases ha : deviceAuthorize cx r.device now store with ⟨res, store₁⟩
  rw [ha] at hrun
  cases res with
  | error e =>
    have hsame : store₁ = store := by
      rcases deviceAuthorize_cases cx r.device now store with ⟨e', he⟩ | ⟨_, _, _, _, _, _, _, hok⟩
      · exact (Prod.mk.inj (ha.symm.trans he)).2
      · cases ha.symm.trans hok
    obtain ⟨rfl, rfl⟩ := Prod.mk.inj hrun
    rw [hsame]
    exact ⟨Grows.same hb.ledger rfl rfl rfl, rfl⟩
  | ok p =>
    obtain ⟨credential, manifest⟩ := p
    obtain ⟨hg, hsigned, hlater⟩ := deviceAuthorize_grows hcx hb.ledger hroom ha
    obtain ⟨rfl, rfl⟩ := Prod.mk.inj hrun
    obtain ⟨row, hrow, hrowSigned, hrowSeq⟩ := hsigned.row
    obtain ⟨body, hholds⟩ := hg.ledger.rows row hrow
    have hcurrent : Current (ownIdentity cx seed) (cx.publicKey seed) key (lastSequence store₁) manifest db := by
      refine ⟨hb.enrolled, fun m hm => ?_⟩
      obtain ⟨old, hold, -, holdSeq⟩ := hb.newest m hm
      have hlt := hlater old hold
      exact ⟨by omega, fun heq => by omega⟩
    have hseq : body.manifestSequence = lastSequence store₁ := hholds.sequence.trans hrowSeq
    have hbody := hholds.relay hcx hitems
    rw [hrowSigned] at hbody
    have hserved : Served (ownIdentity cx seed) (Current (ownIdentity cx seed) (cx.publicKey seed) key body.manifestSequence manifest)
        (some (body.manifestSequence, manifest)) (fun _ _ => True)
        (fun o db => o.answer = .ack ∧ ∃ m ∈ db.manifests, m.identityId = ownIdentity cx seed ∧
          m.sequence = body.manifestSequence.toNat)
        (dispatch cx items s (.manifestPut manifest) relayNow) db := served_current hs hbody hholds.fits
    rw [hseq] at hserved
    exact ⟨hg, hs, hsigned, hserved, fun c _ => hcurrent⟩

theorem registers_credentialPut (hcx : cx.Lawful) (hitems : items.Reads cx) {s : RelayServer.Session} {a : Authorization}
    (hs : s.OfMember (ownIdentity cx seed)) (hsigned : SignedFor cx seed store r a)
    (hclock : (validityAt a.signedAt).notBefore ≤ UInt64.ofInt relayNow ∧
      UInt64.ofInt relayNow ≤ (validityAt a.signedAt).notAfter) :
    Registers cx items seed key a (dispatch cx items s (.credentialPut a.credential) relayNow) db := by
  have hissued : a.credential = Identity.issueCredential cx seed r.device (validityAt a.signedAt) allUses := hsigned.credential
  obtain ⟨v, hv, hroot, hid, hhash, -, -⟩ :=
    @RelayIdentity.verifyCredential_issue cx items hcx hitems seed r.device _ allUses _ hclock.1 hclock.2
  rw [← hissued] at hv hhash
  have hserved : Served (ownIdentity cx seed) (Listed cx items (ownIdentity cx seed) (cx.publicKey seed) key v.hash) none StoresFree
      (fun o db => o.answer = .ack ∧ ∃ c ∈ db.credentials, c.credentialHash = v.hash ∧ c.signed = a.credential)
      (dispatch cx items s (.credentialPut a.credential) relayNow) db := served_credentialPut hs hv hroot hid
  rw [hhash] at hserved
  exact hserved

theorem linkOk_sealGrant (hb : Base cx seed key store db) {a : Authorization} (hregistered : Registered cx db a)
    (hgrant : ∀ root ∈ Client.rootPublic store, ∃ sealed ∈ (r.channel.grant r.legacy ⟨a.credential, a.manifest, root⟩).toOption,
      sealed ≠ [] ∧ sealed.length ≤ Rendezvous.maxPairData) :
    LinkOk cx items seed key store db pairs r (sealGrant cx r a relayNow store) := by
  have hroot := Devices.rootPublic_of_holdsRoot hb.ledger.root
  obtain ⟨sealed, hsealed, hfits⟩ := hgrant _ hroot
  unfold sealGrant
  rw [hroot]
  dsimp only
  cases hg : r.channel.grant r.legacy ⟨a.credential, a.manifest, cx.publicKey seed⟩ with
  | error e =>
    rw [hg] at hsealed
    cases hsealed
  | ok sealed' =>
    rw [hg] at hsealed
    obtain rfl := Option.some.inj hsealed
    exact ⟨hregistered, delivered_putSlot hfits relayNow pairs⟩

theorem link_poll (hcx : cx.Lawful) (hitems : items.Reads cx) (hb : Base cx seed key store db) (hroom : Devices.Room store)
    (hclock : ∀ a ∈ Job.publishedLink (.link r approve l), (validityAt a.signedAt).notBefore ≤ UInt64.ofInt relayNow ∧
      UInt64.ofInt relayNow ≤ (validityAt a.signedAt).notAfter)
    (hgrant : ∀ p ∈ Job.registeredLink (.link r approve l), ∀ root ∈ Client.rootPublic store,
      ∃ sealed ∈ (p.1.channel.grant p.1.legacy ⟨p.2.credential, p.2.manifest, root⟩).toOption,
        sealed ≠ [] ∧ sealed.length ≤ Rendezvous.maxPairData)
    (hok : LinkOk cx items seed key store db pairs r l)
    (hrun : l.poll cx items r approve now relayNow store = (l', store')) :
    Grows cx seed (fun _ => True) store store' ∧ LinkOk cx items seed key store' db pairs r l' := by
  have hsame : Grows cx seed (fun _ => True) store store := Grows.same hb.ledger rfl rfl rfl
  cases l with
  | opening req =>
    cases req with
    | call c k =>
      obtain ⟨rfl, rfl⟩ := Prod.mk.inj hrun
      exact ⟨hsame, hok⟩
    | done o =>
      cases o with
      | none =>
        obtain ⟨rfl, rfl⟩ := Prod.mk.inj hrun
        exact ⟨hsame, rfl⟩
      | some s =>
        have hs : s.OfMember (ownIdentity cx seed) := hok s rfl
        cases approve with
        | true => exact approveLink_ok hcx hitems hb hroom hs hrun
        | false =>
          obtain ⟨rfl, rfl⟩ := Prod.mk.inj hrun
          exact ⟨hsame, linkOk_declineLink⟩
  | publishing s a req =>
    cases req with
    | call c k =>
      obtain ⟨rfl, rfl⟩ := Prod.mk.inj hrun
      exact ⟨hsame, hok⟩
    | done o =>
      obtain ⟨hs, hsigned, ⟨hack, hpublished⟩, -⟩ := hok
      simp only [Link.poll, hack, acked] at hrun
      obtain ⟨rfl, rfl⟩ := Prod.mk.inj hrun
      exact ⟨hsame, hsigned, hpublished, registers_credentialPut hcx hitems hs hsigned (hclock a rfl)⟩
  | registering s a req =>
    cases req with
    | call c k =>
      obtain ⟨rfl, rfl⟩ := Prod.mk.inj hrun
      exact ⟨hsame, hok⟩
    | done o =>
      obtain ⟨hsigned, hpublished, hack, hregistered⟩ := hok
      simp only [Link.poll, hack, acked] at hrun
      obtain ⟨rfl, rfl⟩ := Prod.mk.inj hrun
      exact ⟨hsame, linkOk_sealGrant hb hregistered (hgrant (r, a) rfl)⟩
  | granting a req =>
    cases req with
    | call c k =>
      obtain ⟨rfl, rfl⟩ := Prod.mk.inj hrun
      exact ⟨hsame, hok⟩
    | done reply =>
      obtain ⟨hregistered, hack⟩ := hok
      obtain rfl : reply = .ack := hack
      obtain ⟨rfl, rfl⟩ := Prod.mk.inj hrun
      refine ⟨hsame, fun a' ha' => ?_⟩
      obtain rfl := Option.some.inj ha'
      exact hregistered
  | declining req =>
    cases req with
    | call c k =>
      obtain ⟨rfl, rfl⟩ := Prod.mk.inj hrun
      exact ⟨hsame, hok⟩
    | done reply =>
      simp only [Link.poll] at hrun
      cases hr : acked reply with
      | error e =>
        rw [hr] at hrun
        obtain ⟨rfl, rfl⟩ := Prod.mk.inj hrun
        exact ⟨hsame, rfl⟩
      | ok u =>
        rw [hr] at hrun
        obtain ⟨rfl, rfl⟩ := Prod.mk.inj hrun
        exact ⟨hsame, fun a' ha' => nomatch ha'⟩
  | answered a =>
    obtain ⟨rfl, rfl⟩ := Prod.mk.inj hrun
    exact ⟨hsame, hok⟩
  | failed a e =>
    obtain ⟨rfl, rfl⟩ := Prod.mk.inj hrun
    exact ⟨hsame, hok⟩

end link

section publisher

variable {store store' : Store} {db : Db} {p p' : Publisher cx} {locked : Bool} {relayNow : Int}

theorem publisherOk_connect (hb : Base cx seed key store db) : PublisherOk cx seed key store db (connectPublisher cx store relayNow) := by
  unfold connectPublisher
  cases hopen : openConnection cx store relayNow with
  | none => trivial
  | some h => exact opens_openConnection hb hopen

theorem publisherOk_publishManifest (hcx : cx.Lawful) (hitems : items.Reads cx) (hb : Base cx seed key store db)
    {s : RelayServer.Session} (hs : s.OfMember (ownIdentity cx seed)) :
    PublisherOk cx seed key store db (publishManifest cx items s relayNow store) := by
  unfold publishManifest
  dsimp only
  split
  · trivial
  · cases hm : Client.latestManifest store with
    | none => trivial
    | some manifest =>
      obtain ⟨row, hrow, rfl⟩ := Option.map_eq_some_iff.1 hm
      obtain ⟨body, hholds⟩ := hb.ledger.rows row (newestRow_mem hrow)
      have hserved : Served (ownIdentity cx seed) (Enrolled (ownIdentity cx seed) (cx.publicKey seed) key)
          (some (body.manifestSequence, row.signed)) (fun _ _ => True) (fun _ _ => True)
          (dispatch cx items s (.manifestPut row.signed) relayNow) db :=
        served_manifestPut hs (fun _ h => h) (hholds.relay hcx hitems) fun _ _ _ _ _ =>
          ⟨fun _ _ => trivial, fun _ _ _ _ => trivial⟩
      rw [hholds.sequence] at hserved
      exact ⟨row, newestRow_mem hrow, rfl, hserved⟩

/-- What a publisher's poll keeps listed: all but the device it revokes. -/
def KeptBy (store : Store) (p : Publisher cx) (hash : Bytes) : Prop :=
  ∀ device ∈ Job.revokes (.publisher p), ∀ d ∈ store.identityDevices, d.deviceId = device → d.credentialHash ≠ hash

theorem publisher_poll (hcx : cx.Lawful) (hitems : items.Reads cx) (hb : Base cx seed key store db) (hroom : Devices.Room store)
    (hok : PublisherOk cx seed key store db p) (hrun : p.poll cx items locked relayNow store = (p', store')) :
    Grows cx seed (KeptBy store p) store store' ∧ PublisherOk cx seed key store' db p' := by
  have hsame : Grows cx seed (KeptBy store p) store store := Grows.same hb.ledger rfl rfl rfl
  cases p with
  | queued revoke =>
    cases locked with
    | true =>
      obtain ⟨rfl, rfl⟩ := Prod.mk.inj hrun
      exact ⟨hsame, trivial⟩
    | false =>
      cases revoke with
      | none =>
        obtain ⟨rfl, rfl⟩ := Prod.mk.inj hrun
        exact ⟨hsame, publisherOk_connect hb⟩
      | some device =>
        rcases hr : deviceRevoke cx device store with ⟨res, store₁⟩
        have hg : Grows cx seed (KeptBy store (.queued (some device) : Publisher cx)) store store₁ := by
          have hgrows := deviceRevoke_grows hcx hb.ledger hroom hr
          refine ⟨hgrows.ledger, hgrows.device, hgrows.rows, fun row hrow => (hgrows.new row hrow).imp_right ?_⟩
          rintro ⟨hlt, hlists⟩
          exact ⟨hlt, fun b hb hash hkept => hlists b hb hash fun d hd hid => hkept device rfl d hd hid⟩
        simp only [Publisher.poll, Bool.false_eq_true, if_false, hr] at hrun
        cases res with
        | error e =>
          obtain ⟨rfl, rfl⟩ := Prod.mk.inj hrun
          exact ⟨hg, trivial⟩
        | ok x =>
          obtain ⟨rfl, rfl⟩ := Prod.mk.inj hrun
          exact ⟨hg, publisherOk_connect (hb.grows hg)⟩
  | connecting req =>
    cases req with
    | call c k =>
      obtain ⟨rfl, rfl⟩ := Prod.mk.inj hrun
      exact ⟨hsame, hok⟩
    | done o =>
      cases o with
      | none =>
        obtain ⟨rfl, rfl⟩ := Prod.mk.inj hrun
        exact ⟨hsame, trivial⟩
      | some s =>
        obtain ⟨rfl, rfl⟩ := Prod.mk.inj hrun
        exact ⟨hsame, publisherOk_publishManifest hcx hitems hb (hok s rfl)⟩
  | publishing pending manifest req =>
    cases req with
    | call c k =>
      obtain ⟨rfl, rfl⟩ := Prod.mk.inj hrun
      exact ⟨hsame, hok⟩
    | done o =>
      simp only [Publisher.poll] at hrun
      split at hrun
      · obtain ⟨rfl, rfl⟩ := Prod.mk.inj hrun
        exact ⟨Grows.same hb.ledger rfl rfl rfl, trivial⟩
      · obtain ⟨rfl, rfl⟩ := Prod.mk.inj hrun
        exact ⟨hsame, trivial⟩
  | rest =>
    obtain ⟨rfl, rfl⟩ := Prod.mk.inj hrun
    exact ⟨hsame, trivial⟩
  | finished res =>
    obtain ⟨rfl, rfl⟩ := Prod.mk.inj hrun
    exact ⟨hsame, trivial⟩

end publisher

section steps

variable {w : World cx} {i : Nat}

theorem inv_polled (hw : Inv items seed key w) {job : Job cx} {store' : Store} {Kept : Bytes → Prop}
    (hg : Grows cx seed Kept w.store store')
    (hkept : ∀ other ∈ w.jobs, ∀ credential ∈ other.unregistered, Kept (Identity.credentialHash cx credential))
    (hjob : JobOk cx items seed key store' w.db w.pairs job) :
    Inv items seed key { w with store := store', jobs := w.jobs.set i job } := by
  refine ⟨hw.base.grows hg, fun other hmem => ?_⟩
  rcases List.mem_or_eq_of_mem_set hmem with hmem | rfl
  · exact jobOk_grows hw.base.ledger hg (hkept other hmem) (hw.jobs other hmem)
  · exact hjob

theorem inv_poll (hcx : cx.Lawful) (hitems : items.Reads cx) (hw : Inv items seed key w) {now : UInt64} {relayNow : Int}
    (ht : InTime w (.poll i now relayNow)) : Inv items seed key (step cx items w (.poll i now relayNow)) := by
  cases hi : w.jobs[i]? with
  | none =>
    simp only [step, hi]
    exact hw
  | some job =>
    have hok := hw.jobs job (List.mem_of_getElem? hi)
    cases job with
    | link r approve l =>
      rcases hrun : l.poll cx items r approve now relayNow w.store with ⟨l', store'⟩
      obtain ⟨hg, hjob⟩ := link_poll hcx hitems hw.base ht.room (ht.clocks _ rfl _ hi) (ht.grant _ rfl _ hi) hok hrun
      simp only [step, hi, hrun]
      exact inv_polled hw hg (fun _ _ _ _ => trivial) hjob
    | publisher p =>
      rcases hrun : p.poll cx items w.locked relayNow w.store with ⟨p', store'⟩
      obtain ⟨hg, hjob⟩ := publisher_poll hcx hitems hw.base ht.room hok hrun
      simp only [step, hi, hrun]
      refine inv_polled hw hg (fun other hother credential hc device hdevice d hd hid => ?_) hjob
      exact ht.unrevoked _ rfl _ hi device hdevice d hd hid other hother credential hc

theorem inv_added (hw : Inv items seed key w) {job : Job cx} (hjob : JobOk cx items seed key w.store w.db w.pairs job) :
    Inv items seed key { w with jobs := w.jobs ++ [job] } := by
  refine ⟨hw.base, fun other hmem => ?_⟩
  rcases List.mem_append.1 hmem with hold | hnew
  · exact hw.jobs other hold
  · obtain rfl := List.mem_singleton.1 hnew
    exact hjob

theorem identityId_ledger {s : Store} (h : Ledger cx seed s) : Client.identityId s = some (ownIdentity cx seed) := by
  have hroot : s.identity = _ := h.root
  rw [Client.identityId, hroot]
  rfl

theorem inv_step (hcx : cx.Lawful) (hitems : items.Reads cx) (hw : Inv items seed key w) {e : Event} (hs : OnlySigner w e)
    (ht : InTime w e) : Inv items seed key (step cx items w e) := by
  cases e with
  | answerLink r approve now relayNow => exact inv_added hw (linkOk_answerLink hw.base)
  | revokeDevice device => exact inv_added hw trivial
  | sync => exact inv_added hw trivial
  | poll i now relayNow => exact inv_poll hcx hitems hw ht
  | serve i =>
    cases hi : w.jobs[i]? with
    | none =>
      simp only [step, hi]
      exact hw
    | some job =>
      cases job with
      | link r approve l => exact inv_serve_link hcx hitems hw ht hi
      | publisher p => exact inv_serve_publisher hw ht hi
  | stop i e =>
    simp only [step]
    split
    · exact inv_polled hw (Grows.same hw.base.ledger rfl rfl rfl : Grows cx seed (fun _ => True) w.store w.store)
        (fun _ _ _ _ => trivial) trivial
    · exact hw
  | accept signed =>
    have hg := manifestAcceptOwn_grows hcx hw.base.ledger fun body hv =>
      hs.1 signed rfl _ (Devices.rootPublic_of_holdsRoot hw.base.ledger.root) body (by rw [hv]; rfl)
    refine ⟨hw.base.grows hg, fun job hmem => ?_⟩
    exact jobOk_grows hw.base.ledger hg (fun _ _ => trivial) (hw.jobs job hmem)
  | other c =>
    have hmoved := moved_others hw.base (hs.2 c rfl _ (identityId_ledger hw.base.ledger))
    refine ⟨hw.base.moved hmoved, fun job hmem => ?_⟩
    exact jobOk_moved hw.base hmoved (fun _ hf => hf.elim) (hw.jobs job hmem)
  | otherPair c => exact ⟨hw.base, fun job hmem => jobOk_pairs _ (hw.jobs job hmem)⟩

/-- What is promised of a link: once it has signed it never fails, the relay takes its
manifest, its credential and its grant, and when it is answered the credential is
registered. -/
structure Arrives (db : Db) (l : Link cx) : Prop where
  unfailing : ∀ a e, l ≠ .failed (some a) e
  published : ∀ s a o, l = .publishing s a (.done o) → o.answer = .ack
  registered : ∀ s a o, l = .registering s a (.done o) → o.answer = .ack ∧ Registered cx db a
  granted : ∀ a reply, l = .granting a (.done reply) → reply = .ack
  answered : ∀ a, l = .answered (some a) → Registered cx db a

theorem arrives_of_linkOk {store : Store} {db : Db} {pairs : Rendezvous.Pairs} {r : Requested} {l : Link cx}
    (h : LinkOk cx items seed key store db pairs r l) : Arrives db l where
  unfailing a e he := by
    subst he
    cases h
  published s a o he := by
    subst he
    exact h.2.2.1.1
  registered s a o he := by
    subst he
    exact h.2.2
  granted a reply he := by
    subst he
    exact h.2
  answered a he := by
    subst he
    exact h a rfl

/-- From an enrolled administrator on, in every run in which no other device signs and no
signed manifest is overtaken, every link that was approved arrives. -/
theorem approved_links_arrive (hcx : cx.Lawful) (hitems : items.Reads cx) {store : Store} {db : Db}
    (hbase : Base cx seed key store db) (pairs : Rendezvous.Pairs) (events : List Event)
    (hm : Trace.Meets (step cx items) (fun w e => OnlySigner w e ∧ InTime w e) ⟨store, db, pairs, []⟩ events) :
    ∀ r approve l, .link r approve l ∈ (Trace.run (step cx items) ⟨store, db, pairs, []⟩ events).jobs →
      Arrives (Trace.run (step cx items) ⟨store, db, pairs, []⟩ events).db l := by
  have hinv : Inv items seed key (Trace.run (step cx items) ⟨store, db, pairs, []⟩ events) :=
    Trace.invariant (I := Inv items seed key) (fun _ _ hc hw => inv_step hcx hitems hw hc.1 hc.2) hm
      ⟨hbase, fun _ h => absurd h List.not_mem_nil⟩
  exact fun r approve l hl => arrives_of_linkOk (hinv.jobs _ hl)

end steps

section demo

open Demo

theorem demoItems_reads : demoItems.Reads crypto where
  signed so := by simp [unmarshal, demoItems, crypto_lawful.decode_signed, Except.toOption, SignedFields.first]
  credential c := by
    simp [unmarshal, demoItems, crypto_lawful.decode_credential, Except.toOption, CredentialFields.first, ValidityFields.first]
  manifest m := by simp [unmarshal, demoItems, crypto_lawful.decode_manifest, Except.toOption, ManifestFields.first]
  key seed := ⟨by simp [crypto, publicKey], rfl⟩

def demoOwn : Bytes := issuedCredential crypto [9] (keysOf 9).public 0

def demoOwnHash : Bytes := Identity.credentialHash crypto demoOwn

def demoFirst : Bytes := Identity.issueManifest crypto [9] none [demoOwnHash] []

def demoRow : Arveil.ManifestRow := ⟨identityOf 9, 1, demoFirst, Identity.manifestHash crypto demoFirst⟩

def demoStore : Store := { Store.empty with
  identity := some ⟨some [9], publicKey [9], identityOf 9⟩
  device := ⟨[⟨keysOf 9, [9, 2], demoOwn, demoOwnHash⟩], by simp⟩
  identityDevices := ⟨[⟨[9], demoOwnHash, false⟩], by simp⟩
  manifest := ⟨[demoRow], by simp⟩ }

def demoDb : Db := { Db.empty with
  memberships := ⟨[⟨identityOf 9, publicKey [9], "member", .active⟩], by simp⟩
  credentials := ⟨[⟨demoOwnHash, identityOf 9, [9], publicKey [9], demoOwn, .active, 31536000⟩], by simp⟩
  manifests := ⟨[⟨identityOf 9, 1, demoFirst⟩], by simp⟩ }

def demoPairs : Rendezvous.Pairs :=
  ⟨⟨[⟨[70], fingerprint [1], 10000⟩, ⟨[71], fingerprint [2], 10000⟩], by simp⟩, .empty⟩

def demoWorld : World crypto := ⟨demoStore, demoDb, demoPairs, []⟩

def demoChannel : Channel where
  grant _ g := .ok (g.credential ++ g.manifest ++ g.rootPublic)
  declined := .ok [0]

def demoPhone : Requested := ⟨(keysOf 2).public, [70], [1], demoChannel, false, some 10000⟩

def demoTablet : Requested := ⟨(keysOf 3).public, [71], [2], demoChannel, false, some 10000⟩

def demoTurn (i : Nat) : List Event := List.replicate 4 (.serve i) ++ ([.poll i 1000 1000] : List Event)

/-- The requests of two commands are served call by call in turn, and both go on. -/
def demoRound : List Event :=
  (List.replicate 4 ([.serve 0, .serve 1] : List Event)).flatten ++ ([.poll 0 1000 1000, .poll 1 1000 1000] : List Event)

/-- Both links have signed before the first manifest is published. -/
def demoLinks : List Event :=
  .answerLink demoPhone true 1000 1000 :: .answerLink demoTablet true 1000 1000 ::
    (demoRound ++ demoRound ++ demoRound ++ demoRound)

theorem demo_holds : Holds crypto [9] demoRow (Identity.issuedManifest crypto [9] none [demoOwnHash] []) :=
  @holds_issued crypto [9] none [demoOwnHash] [] (Identity.manifestHash crypto demoFirst) (by decide)

theorem demo_own : identityOf 9 = ownIdentity crypto [9] := rfl

theorem demo_base : Base crypto [9] (publicKey [9]) demoStore demoDb where
  ledger := ⟨rfl, fun r hr => ⟨_, List.mem_singleton.1 hr ▸ demo_holds⟩⟩
  device := ⟨_, rfl, rfl⟩
  enrolled :=
    { member := ⟨_, List.mem_singleton.2 rfl, demo_own, rfl, rfl⟩
      known := ⟨_, List.mem_singleton.2 rfl, rfl⟩
      own := fun c hc _ => by
        obtain rfl := List.mem_singleton.1 hc
        exact demo_own }
  newest m hm := by
    obtain ⟨⟨hmem, -⟩, -⟩ := newestManifest_eq_some.1 hm
    obtain rfl := List.mem_singleton.1 hmem
    exact ⟨demoRow, List.mem_singleton.2 rfl, rfl, rfl⟩

def answeredAt (w : World crypto) (i : Nat) : Bool :=
  match w.jobs[i]? with
  | some (.link _ _ (.answered (some _))) => true
  | _ => false

theorem demo_link_arrives : answeredAt (Trace.run (step crypto demoItems) demoWorld demoLinks) 0 = true ∧
    answeredAt (Trace.run (step crypto demoItems) demoWorld demoLinks) 1 = true ∧
    ∀ r approve l, .link r approve l ∈ (Trace.run (step crypto demoItems) demoWorld demoLinks).jobs →
      Arrives (Trace.run (step crypto demoItems) demoWorld demoLinks).db l := by
  have hm : answeredAt (Trace.run (step crypto demoItems) demoWorld demoLinks) 0 = true ∧
      answeredAt (Trace.run (step crypto demoItems) demoWorld demoLinks) 1 = true ∧
      Trace.Meets (step crypto demoItems) (fun w e => OnlySigner w e ∧ InTime w e) demoWorld demoLinks := by decide +kernel
  exact ⟨hm.1, hm.2.1, approved_links_arrive crypto_lawful demoItems_reads demo_base demoPairs demoLinks hm.2.2⟩

/-- The phone is signed first and the tablet published first. -/
def demoOvertaking : List Event :=
  .answerLink demoPhone true 1000 1000 :: demoTurn 0 ++
    .answerLink demoTablet true 1000 1000 :: (demoTurn 1 ++ demoTurn 1 ++ demoTurn 0)

def refusedAt (w : World crypto) (i : Nat) : Bool :=
  match w.jobs[i]? with
  | some (.link _ _ (.failed (some _) (.relay 409 _))) => true
  | _ => false

theorem overtaken_link_is_refused : ¬ ∀ events : List Event,
    Trace.Meets (step crypto demoItems) (fun w e => OnlySigner w e ∧ Unhindered w e) demoWorld events →
      ∀ r approve l, .link r approve l ∈ (Trace.run (step crypto demoItems) demoWorld events).jobs →
        Arrives (Trace.run (step crypto demoItems) demoWorld events).db l := by
  intro h
  have hm : refusedAt (Trace.run (step crypto demoItems) demoWorld demoOvertaking) 0 = true ∧
      Trace.Meets (step crypto demoItems) (fun w e => OnlySigner w e ∧ Unhindered w e) demoWorld demoOvertaking := by
    decide +kernel
  obtain ⟨hrefused, hmeets⟩ := hm
  have hall := h demoOvertaking hmeets
  unfold refusedAt at hrefused
  split at hrefused
  · next hjob => exact (hall _ _ _ (List.mem_of_getElem? hjob)).unfailing _ _ rfl
  · cases hrefused

end demo

end Arveil.Approvals
