import Arveil.Proofs.Approvals.Signing

/-! An approved link, from the signature to the grant. The credential and the manifest are
signed before the relay is asked, and another command of the same profile may publish a
newer manifest meanwhile; the relay then refuses the one that was signed first. Where
nothing overtakes a signed manifest, every device that was approved is registered and gets
its grant. -/

namespace Arveil.Approvals

open Client RelayStore RelayServer

variable {cx : Crypto} {items : CborItems} {seed key : Bytes}

def Job.next : Job cx → Option Call
  | .link _ _ (.opening h) => h.next
  | .link _ _ (.publishing _ _ h) => h.next
  | .link _ _ (.registering _ _ h) => h.next
  | .publisher (.connecting h) => h.next
  | .publisher (.publishing _ _ h) => h.next
  | _ => none

def Job.nextPair : Job cx → Option Rendezvous.Call
  | .link _ _ (.granting _ h) => h.next
  | _ => none

/-- The sequence of a manifest that is signed and not yet at the relay. -/
def Job.unpublished : Job cx → Option UInt64
  | .link _ _ (.publishing _ a h) => h.next.map fun _ => a.sequence
  | _ => none

/-- A credential that is signed and not yet known to be registered. -/
def Job.unregistered : Job cx → Option Bytes
  | .link _ _ (.publishing _ a _) => some a.credential
  | .link _ _ (.registering _ a _) => some a.credential
  | _ => none

def Job.revokes : Job cx → Option Bytes
  | .publisher (.queued device) => device
  | _ => none

/-- A link whose manifest has been answered, and one whose credential has. -/
def Job.publishedLink : Job cx → Option Authorization
  | .link _ _ (.publishing _ a (.done _)) => some a
  | _ => none

def Job.registeredLink : Job cx → Option (Requested × Authorization)
  | .link r _ (.registering _ a (.done _)) => some (r, a)
  | _ => none

def published : Call → Option UInt64
  | .publishManifest _ seq _ _ => some seq
  | _ => none

def Event.polls : Event → Option (Nat × Int)
  | .poll i _ relayNow => some (i, relayNow)
  | _ => none

def Event.serves : Event → Option Nat
  | .serve i => some i
  | _ => none

def Event.accepts : Event → Option Bytes
  | .accept signed => some signed
  | _ => none

def Event.others : Event → Option Call
  | .other c => some c
  | _ => none

/-- No manifest goes to the relay that is newer than one a link still has to publish. -/
def NotOvertaken (w : World cx) (e : Event) : Prop :=
  ∀ i ∈ e.serves, ∀ job ∈ w.jobs[i]?, ∀ c ∈ job.next, ∀ seq ∈ published c, ∀ other ∈ w.jobs, ∀ n ∈ other.unpublished, seq ≤ n

/-- No device is revoked while its link is under way. -/
def NotRevoked (w : World cx) (e : Event) : Prop :=
  ∀ p ∈ e.polls, ∀ job ∈ w.jobs[p.1]?, ∀ device ∈ job.revokes, ∀ d ∈ w.store.identityDevices.rows, d.deviceId = device →
    ∀ other ∈ w.jobs, ∀ credential ∈ other.unregistered, d.credentialHash ≠ Identity.credentialHash cx credential

/-- The relay's clock is within the credential's year, or less than five minutes before it. -/
def ClocksAgree (w : World cx) (e : Event) : Prop :=
  ∀ p ∈ e.polls, ∀ job ∈ w.jobs[p.1]?, ∀ a ∈ job.publishedLink,
    (validityAt a.signedAt).notBefore ≤ UInt64.ofInt p.2 ∧ UInt64.ofInt p.2 ≤ (validityAt a.signedAt).notAfter

/-- The keys of a new device are nobody else's at the relay. -/
def KeysUnused (w : World cx) (e : Event) : Prop :=
  ∀ i ∈ e.serves, ∀ job ∈ w.jobs[i]?, ∀ c ∈ job.next, StoresFree c w.db

/-- The grant can be sealed and fits its slot. -/
def GrantFits (w : World cx) (e : Event) : Prop :=
  ∀ p ∈ e.polls, ∀ job ∈ w.jobs[p.1]?, ∀ link ∈ job.registeredLink, ∀ root ∈ Client.rootPublic w.store,
    ∃ sealed ∈ (link.1.channel.grant link.1.legacy ⟨link.2.credential, link.2.manifest, root⟩).toOption,
      sealed ≠ [] ∧ sealed.length ≤ Rendezvous.maxPairData

/-- The rendezvous of a grant is open, and its slot empty. -/
def RendezvousOpen (w : World cx) (e : Event) : Prop :=
  ∀ i ∈ e.serves, ∀ job ∈ w.jobs[i]?, ∀ c ∈ job.nextPair, Delivers c w.pairs

instance (w : World cx) (e : Event) : Decidable (NotOvertaken w e) :=
  -- of what is there, and not by trying every number
  haveI (seq : UInt64) (other : Job cx) : Decidable (∀ n ∈ other.unpublished, seq ≤ n) := Option.decidableForallMem _
  haveI (c : Call) : Decidable (∀ seq ∈ published c, ∀ other ∈ w.jobs, ∀ n ∈ other.unpublished, seq ≤ n) :=
    Option.decidableForallMem _
  inferInstanceAs (Decidable (∀ i ∈ e.serves, _))

instance (w : World cx) (e : Event) : Decidable (NotRevoked w e) := inferInstanceAs (Decidable (∀ p ∈ e.polls, _))

instance (w : World cx) (e : Event) : Decidable (ClocksAgree w e) := inferInstanceAs (Decidable (∀ p ∈ e.polls, _))

instance (w : World cx) (e : Event) : Decidable (KeysUnused w e) := inferInstanceAs (Decidable (∀ i ∈ e.serves, _))

instance (w : World cx) (e : Event) : Decidable (GrantFits w e) := inferInstanceAs (Decidable (∀ p ∈ e.polls, _))

instance (w : World cx) (e : Event) : Decidable (RendezvousOpen w e) := inferInstanceAs (Decidable (∀ i ∈ e.serves, _))

/-- All but the order in which manifests reach the relay. -/
structure Unhindered (w : World cx) (e : Event) : Prop where
  room : Devices.Room w.store
  unrevoked : NotRevoked w e
  clocks : ClocksAgree w e
  keys : KeysUnused w e
  grant : GrantFits w e
  rendezvous : RendezvousOpen w e

instance (w : World cx) (e : Event) : Decidable (Unhindered w e) :=
  decidable_of_iff (Devices.Room w.store ∧ NotRevoked w e ∧ ClocksAgree w e ∧ KeysUnused w e ∧ GrantFits w e ∧ RendezvousOpen w e)
    ⟨fun ⟨h₁, h₂, h₃, h₄, h₅, h₆⟩ => ⟨h₁, h₂, h₃, h₄, h₅, h₆⟩,
      fun h => ⟨h.room, h.unrevoked, h.clocks, h.keys, h.grant, h.rendezvous⟩⟩

structure InTime (w : World cx) (e : Event) : Prop extends Unhindered w e where
  order : NotOvertaken w e

instance (w : World cx) (e : Event) : Decidable (InTime w e) :=
  decidable_of_iff (Unhindered w e ∧ NotOvertaken w e) ⟨fun h => ⟨h.1, h.2⟩, fun h => ⟨h.toUnhindered, h.order⟩⟩

/-- The identity whose manifest a call publishes or which it recovers. -/
def signsFor : Call → Option Bytes
  | .publishManifest identityId _ _ _ => some identityId
  | .recoverIdentity e _ _ => some e.identityId
  | _ => none

/-- No other device signs manifests of the identity: what the others publish is of other
identities, and a manifest that comes back is one the profile has stored. -/
def OnlySigner (w : World cx) (e : Event) : Prop :=
  (∀ signed ∈ e.accepts, ∀ root ∈ Client.rootPublic w.store, ∀ _body ∈ (Identity.verifyManifest cx signed root).toOption,
    ∃ r ∈ w.store.manifest.rows, r.signed = signed) ∧
  ∀ c ∈ e.others, ∀ id ∈ Client.identityId w.store, id ∉ signsFor c

instance (w : World cx) (e : Event) : Decidable (OnlySigner w e) := inferInstanceAs (Decidable (_ ∧ _))

/-- The profile and the relay know each other, and the relay's newest manifest is one the
profile stored. -/
structure Base (cx : Crypto) (seed key : Bytes) (store : Store) (db : Db) : Prop where
  ledger : Ledger cx seed store
  device : ∃ d, Client.device store = some d ∧ d.keys.noisePublic = key
  enrolled : Enrolled (ownIdentity cx seed) (cx.publicKey seed) key db
  newest : ∀ m, newestManifest db (ownIdentity cx seed) = some m →
    ∃ row ∈ store.manifest, row.signed = m.signed ∧ (sequenceOf row).toNat = m.sequence

def Published (cx : Crypto) (seed : Bytes) (db : Db) (a : Authorization) : Prop :=
  ∃ m ∈ db.manifests, m.identityId = ownIdentity cx seed ∧ m.sequence = a.sequence.toNat

def Registered (cx : Crypto) (db : Db) (a : Authorization) : Prop :=
  ∃ c ∈ db.credentials, c.credentialHash = Identity.credentialHash cx a.credential ∧ c.signed = a.credential

abbrev Opens (cx : Crypto) (seed key : Bytes) (h : Handles cx (Option RelayServer.Session)) (db : Db) : Prop :=
  Served (ownIdentity cx seed) (Enrolled (ownIdentity cx seed) (cx.publicKey seed) key) none (fun _ _ => True)
    (fun o _ => ∀ s, o = some s → s.OfMember (ownIdentity cx seed)) h db

abbrev Publishes (cx : Crypto) (seed key : Bytes) (a : Authorization) (h : Handles cx Outcome) (db : Db) : Prop :=
  Served (ownIdentity cx seed) (Current (ownIdentity cx seed) (cx.publicKey seed) key a.sequence a.manifest)
    (some (a.sequence, a.manifest)) (fun _ _ => True) (fun o db => o.answer = .ack ∧ Published cx seed db a) h db

abbrev Registers (cx : Crypto) (items : CborItems) (seed key : Bytes) (a : Authorization) (h : Handles cx Outcome) (db : Db) : Prop :=
  Served (ownIdentity cx seed)
    (Listed cx items (ownIdentity cx seed) (cx.publicKey seed) key (Identity.credentialHash cx a.credential)) none StoresFree
    (fun o db => o.answer = .ack ∧ Registered cx db a) h db

/-- What a link under way can rely on. One that has signed has not failed. -/
def LinkOk (cx : Crypto) (items : CborItems) (seed key : Bytes) (store : Store) (db : Db) (pairs : Rendezvous.Pairs)
    (r : Requested) : Link cx → Prop
  | .opening h => Opens cx seed key h db
  | .publishing s a h => s.OfMember (ownIdentity cx seed) ∧ SignedFor cx seed store r a ∧ Publishes cx seed key a h db ∧
      ∀ c, h.next = some c → Current (ownIdentity cx seed) (cx.publicKey seed) key a.sequence a.manifest db
  | .registering _ a h => SignedFor cx seed store r a ∧ Published cx seed db a ∧ Registers cx items seed key a h db
  | .granting a h => Registered cx db a ∧ Delivered (· = .ack) h pairs
  | .declining _ => True
  | .answered a => ∀ a', a = some a' → Registered cx db a'
  | .failed a _ => a = none

def PublisherOk (cx : Crypto) (seed key : Bytes) (store : Store) (db : Db) : Publisher cx → Prop
  | .connecting h => Opens cx seed key h db
  | .publishing _ manifest h => ∃ row ∈ store.manifest, row.signed = manifest ∧
      Served (ownIdentity cx seed) (Enrolled (ownIdentity cx seed) (cx.publicKey seed) key) (some (sequenceOf row, manifest))
        (fun _ _ => True) (fun _ _ => True) h db
  | _ => True

def JobOk (cx : Crypto) (items : CborItems) (seed key : Bytes) (store : Store) (db : Db) (pairs : Rendezvous.Pairs) : Job cx → Prop
  | .link r _ l => LinkOk cx items seed key store db pairs r l
  | .publisher p => PublisherOk cx seed key store db p

structure Inv (items : CborItems) (seed key : Bytes) (w : World cx) : Prop where
  base : Base cx seed key w.store w.db
  jobs : ∀ job ∈ w.jobs, JobOk cx items seed key w.store w.db w.pairs job

section grows

variable {Kept : Bytes → Prop} {s s' : Store} {db : Db} {pairs : Rendezvous.Pairs}

theorem Base.grows (h : Base cx seed key s db) (hg : Grows cx seed Kept s s') : Base cx seed key s' db where
  ledger := hg.ledger
  device := hg.device ▸ h.device
  enrolled := h.enrolled
  newest m hm := by
    obtain ⟨row, hrow, hrest⟩ := h.newest m hm
    exact ⟨row, hg.rows row hrow, hrest⟩

theorem jobOk_grows (hl : Ledger cx seed s) (hg : Grows cx seed Kept s s') {job : Job cx}
    (hkept : ∀ credential ∈ job.unregistered, Kept (Identity.credentialHash cx credential))
    (h : JobOk cx items seed key s db pairs job) : JobOk cx items seed key s' db pairs job := by
  rcases job with ⟨r, approve, l⟩ | p
  · cases l with
    | publishing s a req => exact ⟨h.1, h.2.1.grows hl hg (hkept _ rfl), h.2.2⟩
    | registering s a req => exact ⟨h.1.grows hl hg (hkept _ rfl), h.2⟩
    | _ => exact h
  · cases p with
    | publishing pending manifest req =>
      obtain ⟨row, hrow, hrest⟩ := h
      exact ⟨row, hg.rows row hrow, hrest⟩
    | _ => exact h

end grows

section moves

variable {store : Store} {db db' : Db} {pairs : Rendezvous.Pairs} {Sent : UInt64 → Prop}

theorem newest_call {c : Call} {id : Bytes} (hmember : isMember db id)
    (hrecover : ∀ e revoked now, c = .recoverIdentity e revoked now → e.identityId ≠ id) :
    newestManifest (c.prog cx.sha256 db).2 id = newestManifest db id ∨
      ∃ seq signed revoked, c = .publishManifest id seq signed revoked ∧
        newestManifest (c.prog cx.sha256 db).2 id = some ⟨id, seq.toNat, signed⟩ := by
  generalize hdb : (c.prog cx.sha256 db).2 = db₁
  have heffect : Effect c db db₁ := hdb ▸ call_effect c db
  cases heffect with
  | same hs => exact Or.inl (newestManifest_congr fun m _ => by rw [hs.manifests])
  | @redeemed tokenHash now e _ _ hs =>
    exact Or.inl (newestManifest_other hs.manifests fun heq => hs.fresh (show isMember db e.manifest.identityId from heq ▸ hmember))
  | registered hs => exact Or.inl (newestManifest_congr fun m _ => by rw [hs.manifests])
  | @published identityId seq signed revoked _ _ hs =>
    by_cases hid : identityId = id
    · subst hid
      exact Or.inr ⟨seq, signed, revoked, rfl, hs.newest⟩
    · rcases hs.manifests with hsame | hins
      · exact Or.inl (newestManifest_congr fun m _ => by rw [hsame])
      · exact Or.inl (newestManifest_other hins fun heq => hid heq.symm)
  | @recovered e revoked now _ _ hs =>
    exact Or.inl (newestManifest_other hs.manifests fun heq => hrecover e revoked now rfl heq.symm)

structure Moved (cx : Crypto) (seed key : Bytes) (Sent : UInt64 → Prop) (store : Store) (db db' : Db) : Prop where
  later : Later db db'
  enrolled : Enrolled (ownIdentity cx seed) (cx.publicKey seed) key db'
  newest : newestManifest db' (ownIdentity cx seed) = newestManifest db (ownIdentity cx seed) ∨
    ∃ row ∈ store.manifest, Sent (sequenceOf row) ∧
      newestManifest db' (ownIdentity cx seed) = some ⟨ownIdentity cx seed, (sequenceOf row).toNat, row.signed⟩

theorem moved_others (hb : Base cx seed key store db) {c : Call} (hc : ownIdentity cx seed ∉ signsFor c) :
    Moved cx seed key (fun _ => False) store db (c.prog cx.sha256 db).2 := by
  refine ⟨later_call c db, enrolled_call c hb.enrolled, Or.inl ?_⟩
  have hrecover : ∀ e revoked now, c = .recoverIdentity e revoked now → e.identityId ≠ ownIdentity cx seed := by
    rintro e revoked now rfl hid
    exact hc (congrArg some hid)
  rcases @newest_call cx db c _ (isMember_enrolled hb.enrolled) hrecover with hsame | ⟨seq, signed, revoked, rfl, -⟩
  · exact hsame
  · exact absurd rfl hc

theorem moved_sends (hb : Base cx seed key store db) {c : Call} {m : Option (UInt64 × Bytes)}
    (hc : Sends (ownIdentity cx seed) m c)
    (hm : ∀ seq signed, m = some (seq, signed) → ∃ row ∈ store.manifest, row.signed = signed ∧ sequenceOf row = seq) :
    Moved cx seed key (fun seq => published c = some seq) store db (c.prog cx.sha256 db).2 := by
  refine ⟨later_call c db, enrolled_call c hb.enrolled, ?_⟩
  have hrecover : ∀ e revoked now, c = .recoverIdentity e revoked now → e.identityId ≠ ownIdentity cx seed := by
    rintro e revoked now rfl
    exact hc
  rcases @newest_call cx db c _ (isMember_enrolled hb.enrolled) hrecover with hsame | ⟨seq, signed, revoked, rfl, hnewest⟩
  · exact Or.inl hsame
  · obtain ⟨row, hrow, rfl, rfl⟩ := hm seq signed hc.2
    exact Or.inr ⟨row, hrow, rfl, hnewest⟩

theorem Moved.same (hb : Base cx seed key store db) : Moved cx seed key Sent store db db := ⟨Later.refl db, hb.enrolled, Or.inl rfl⟩

theorem Base.moved (hb : Base cx seed key store db) (hm : Moved cx seed key Sent store db db') : Base cx seed key store db' where
  ledger := hb.ledger
  device := hb.device
  enrolled := hm.enrolled
  newest m hnew := by
    rcases hm.newest with hsame | ⟨row, hrow, -, hnewest⟩
    · exact hb.newest m (hsame ▸ hnew)
    · obtain rfl := Option.some.inj (hnewest.symm.trans hnew)
      exact ⟨row, hrow, rfl, rfl⟩

theorem Published.later {a : Authorization} (h : Published cx seed db a) (hl : Later db db') : Published cx seed db' a := by
  obtain ⟨m, hm, hrest⟩ := h
  exact ⟨m, hl.manifests m hm, hrest⟩

theorem Registered.later {a : Authorization} (h : Registered cx db a) (hl : Later db db') : Registered cx db' a := by
  obtain ⟨c, hc, hrest⟩ := h
  rcases hl.credentials c hc with hc | hc
  · exact ⟨c, hc, hrest⟩
  · exact ⟨_, hc, hrest⟩

theorem current_moved {r : Requested} {a : Authorization} (hb : Base cx seed key store db) (hsigned : SignedFor cx seed store r a)
    (hm : Moved cx seed key Sent store db db') (hsent : ∀ seq, Sent seq → seq ≤ a.sequence)
    (h : Current (ownIdentity cx seed) (cx.publicKey seed) key a.sequence a.manifest db) :
    Current (ownIdentity cx seed) (cx.publicKey seed) key a.sequence a.manifest db' := by
  refine ⟨hm.enrolled, fun m hnew => ?_⟩
  rcases hm.newest with hsame | ⟨row, hrow, hrowSent, hnewest⟩
  · exact h.newest m (hsame ▸ hnew)
  · obtain rfl := Option.some.inj (hnewest.symm.trans hnew)
    refine ⟨hsent _ hrowSent, fun heq => ?_⟩
    obtain ⟨own, hown, hmanifest, hseq⟩ := hsigned.row
    have hrows := hb.ledger.row_unique hrow hown ((UInt64.toNat_inj.1 heq).trans hseq.symm)
    rw [← hmanifest, ← hrows]

theorem jobOk_moved (hb : Base cx seed key store db) (hm : Moved cx seed key Sent store db db') {job : Job cx}
    (hsent : ∀ seq, Sent seq → ∀ n ∈ job.unpublished, seq ≤ n) (h : JobOk cx items seed key store db pairs job) :
    JobOk cx items seed key store db' pairs job := by
  rcases job with ⟨r, approve, l⟩ | p
  · cases l with
    | opening req => exact Handler.Sound.elsewhere h fun _ hq => hq
    | publishing s a req =>
      obtain ⟨hs, hsigned, hreq, hcurrent⟩ := h
      refine ⟨hs, hsigned, hreq.elsewhere fun _ hq => ⟨hq.1, hq.2.later hm.later⟩, fun c hc => ?_⟩
      refine current_moved hb hsigned hm (fun seq hseq => hsent seq hseq a.sequence ?_) (hcurrent c hc)
      show req.next.map _ = some a.sequence
      rw [hc]
      rfl
    | registering s a req =>
      exact ⟨h.1, h.2.1.later hm.later, h.2.2.elsewhere fun _ hq => ⟨hq.1, hq.2.later hm.later⟩⟩
    | granting a req => exact ⟨h.1.later hm.later, h.2⟩
    | declining req => trivial
    | answered a => exact fun a' ha' => (h a' ha').later hm.later
    | failed a e => exact h
  · cases p with
    | connecting req => exact Handler.Sound.elsewhere h fun _ hq => hq
    | publishing pending manifest req =>
      obtain ⟨row, hrow, hsigned, hreq⟩ := h
      exact ⟨row, hrow, hsigned, hreq.elsewhere fun _ hq => hq⟩
    | _ => trivial

end moves

/-- What happens at the rendezvous concerns only the grant that is served. -/
theorem jobOk_pairs {store : Store} {db : Db} {pairs : Rendezvous.Pairs} (pairs' : Rendezvous.Pairs) {job : Job cx}
    (h : JobOk cx items seed key store db pairs job) : JobOk cx items seed key store db pairs' job := by
  rcases job with ⟨r, approve, l⟩ | p
  · cases l with
    | granting a req => exact ⟨h.1, h.2.elsewhere fun _ hq => hq⟩
    | _ => exact h
  · exact h

section serve

variable {w : World cx} {i : Nat}

def SentBy (job : Job cx) (seq : UInt64) : Prop := ∃ c, job.next = some c ∧ published c = some seq

theorem sent_in_order (ht : InTime w (.serve i)) {job : Job cx} (hi : w.jobs[i]? = some job) {other : Job cx}
    (hother : other ∈ w.jobs) : ∀ seq, SentBy job seq → ∀ n ∈ other.unpublished, seq ≤ n := by
  rintro seq ⟨c, hc, hseq⟩ n hn
  exact ht.order i rfl job hi c hc seq hseq other hother n hn

theorem moved_step {α : Type} {Ready : Db → Prop} {m : Option (UInt64 × Bytes)} {Cond : Call → Db → Prop} {Q : α → Db → Prop}
    {store : Store} {db : Db} (hb : Base cx seed key store db) {req : Handles cx α}
    (hreq : Served (ownIdentity cx seed) Ready m Cond Q req db) (hready : ∀ c, req.next = some c → Ready db)
    (hm : ∀ seq signed, m = some (seq, signed) → ∃ row ∈ store.manifest, row.signed = signed ∧ sequenceOf row = seq) :
    Moved cx seed key (fun seq => ∃ c, req.next = some c ∧ published c = some seq) store db (req.step db).2 := by
  rcases Handler.step_snd req db with ⟨-, hdb⟩ | ⟨c, hc, hdb⟩
  · rw [hdb]
    exact Moved.same hb
  · rw [hdb]
    have hmoved := moved_sends hb (hreq.pre hc (hready c hc)) hm
    refine ⟨hmoved.later, hmoved.enrolled, hmoved.newest.imp_right ?_⟩
    rintro ⟨row, hrow, hsent, hnewest⟩
    exact ⟨row, hrow, ⟨c, hc, hsent⟩, hnewest⟩

/-- One command is served, the others find what the relay left. -/
theorem inv_served (hw : Inv items seed key w) (ht : InTime w (.serve i)) {job job' : Job cx} (hi : w.jobs[i]? = some job)
    {db' : Db} {pairs' : Rendezvous.Pairs} (hmoved : Moved cx seed key (SentBy job) w.store w.db db')
    (hjob : JobOk cx items seed key w.store db' pairs' job') :
    Inv items seed key { w with db := db', pairs := pairs', jobs := w.jobs.set i job' } := by
  refine ⟨hw.base.moved hmoved, fun other hmem => ?_⟩
  rcases List.mem_or_eq_of_mem_set hmem with hmem | rfl
  · exact jobOk_pairs pairs' (jobOk_moved hw.base hmoved (sent_in_order ht hi hmem) (hw.jobs other hmem))
  · exact hjob

theorem nothing_sent : ∀ seq signed, (none : Option (UInt64 × Bytes)) = some (seq, signed) →
    ∃ row ∈ w.store.manifest, row.signed = signed ∧ sequenceOf row = seq := fun _ _ h => nomatch h

theorem listed_of_published (hcx : cx.Lawful) (hitems : items.Reads cx) {store : Store} {db : Db} (hb : Base cx seed key store db)
    {r : Requested} {a : Authorization} (hsigned : SignedFor cx seed store r a) (hpublished : Published cx seed db a) :
    Listed cx items (ownIdentity cx seed) (cx.publicKey seed) key (Identity.credentialHash cx a.credential) db := by
  refine ⟨hb.enrolled, ?_⟩
  obtain ⟨m, hm, hid, hseq⟩ := hpublished
  cases hn : newestManifest db (ownIdentity cx seed) with
  | none => exact absurd hid (newestManifest_eq_none.1 hn m hm)
  | some m' =>
    obtain ⟨row, hrow, hrowSigned, hrowSeq⟩ := hb.newest m' hn
    have hle := (newestManifest_eq_some.1 hn).2 m hm hid
    obtain ⟨body, hholds, hlisted⟩ := hsigned.listed row hrow (by omega)
    exact ⟨m', body, rfl, hrowSigned ▸ hholds.relay hcx hitems, hlisted⟩

theorem inv_serve_link (hcx : cx.Lawful) (hitems : items.Reads cx) (hw : Inv items seed key w) (ht : InTime w (.serve i))
    {r : Requested} {approve : Bool} {l : Link cx} (hi : w.jobs[i]? = some (.link r approve l)) :
    Inv items seed key (step cx items w (.serve i)) := by
  have hok : LinkOk cx items seed key w.store w.db w.pairs r l := hw.jobs _ (List.mem_of_getElem? hi)
  simp only [step, hi]
  cases l with
  | opening req =>
    exact inv_served hw ht hi (moved_step hw.base hok (fun _ _ => hw.base.enrolled) nothing_sent)
      (Handler.Sound.step hok fun c _ => ⟨hw.base.enrolled, trivial⟩)
  | publishing s a req =>
    obtain ⟨hs, hsigned, hreq, hcurrent⟩ := hok
    have hmoved := moved_step hw.base hreq hcurrent fun seq signed hm => by
      obtain ⟨rfl, rfl⟩ := Prod.mk.inj (Option.some.inj hm)
      exact hsigned.row
    refine inv_served hw ht hi hmoved ⟨hs, hsigned, hreq.step fun c hc => ⟨hcurrent c hc, trivial⟩, fun c hc => ?_⟩
    -- there is a call left only where one was made before, so the link still waits
    rcases Handler.step_snd req w.db with ⟨hnone, -⟩ | ⟨c₀, hc₀, -⟩
    · cases req with
      | done o => cases hc
      | call c k => cases hnone
    · refine current_moved hw.base hsigned hmoved (fun seq hseq => ?_) (hcurrent c₀ hc₀)
      refine sent_in_order ht hi (List.mem_of_getElem? hi) seq hseq a.sequence ?_
      show req.next.map _ = some a.sequence
      rw [hc₀]
      rfl
  | registering s a req =>
    obtain ⟨hsigned, hpublished, hreq⟩ := hok
    have hlisted := listed_of_published hcx hitems hw.base hsigned hpublished
    have hmoved := moved_step hw.base hreq (fun _ _ => hlisted) nothing_sent
    exact inv_served hw ht hi hmoved ⟨hsigned, hpublished.later hmoved.later,
      hreq.step fun c hc => ⟨hlisted, ht.keys i rfl _ hi c hc⟩⟩
  | granting a req =>
    exact inv_served hw ht hi (Moved.same hw.base)
      ⟨hok.1, hok.2.step fun c hc => ⟨trivial, ht.rendezvous i rfl _ hi c hc⟩⟩
  | declining req => exact inv_served hw ht hi (Moved.same hw.base) trivial
  | answered a => exact inv_served hw ht hi (Moved.same hw.base) hok
  | failed a e => exact inv_served hw ht hi (Moved.same hw.base) hok

theorem inv_serve_publisher (hw : Inv items seed key w) (ht : InTime w (.serve i)) {p : Publisher cx}
    (hi : w.jobs[i]? = some (.publisher p)) : Inv items seed key (step cx items w (.serve i)) := by
  have hok : PublisherOk cx seed key w.store w.db p := hw.jobs _ (List.mem_of_getElem? hi)
  simp only [step, hi]
  cases p with
  | connecting req =>
    exact inv_served hw ht hi (moved_step hw.base hok (fun _ _ => hw.base.enrolled) nothing_sent)
      (Handler.Sound.step hok fun c _ => ⟨hw.base.enrolled, trivial⟩)
  | publishing pending manifest req =>
    obtain ⟨row, hrow, hsigned, hreq⟩ := hok
    have hmoved := moved_step hw.base hreq (fun _ _ => hw.base.enrolled) fun seq signed hm => by
      obtain ⟨rfl, rfl⟩ := Prod.mk.inj (Option.some.inj hm)
      exact ⟨row, hrow, hsigned, rfl⟩
    exact inv_served hw ht hi hmoved ⟨row, hrow, hsigned, hreq.step fun c _ => ⟨hw.base.enrolled, trivial⟩⟩
  | queued revoke => exact inv_served hw ht hi (Moved.same hw.base) trivial
  | rest => exact inv_served hw ht hi (Moved.same hw.base) trivial
  | finished res => exact inv_served hw ht hi (Moved.same hw.base) trivial

end serve

end Arveil.Approvals
