import Arveil.Proofs.Manifests.Chains

/-! Manifests over two channels. The realm and the groups bring the same chain of
manifests, and a manifest older than the recorded one is refused as a rollback. The
refresh reports that and goes on; in the receive loop it fails the envelope, on this sync
and on every later one. -/

namespace Arveil.Manifests

open Client Delivery Receive Prog Identity Notices

variable {pf : Platform} {s : Session} {root : Bytes} {ms : List Bytes}

/-- The envelope brings the manifest as an event a leaf sent to a group. -/
def Carries (pf : Platform) (s : Session) (st : Store) (mailbox : Bytes) (item : EnvelopeItem) (m : Bytes) : Prop :=
  ∃ msg gid group leaf kind, openedMessage pf s mailbox item = .ok msg ∧ SentBy pf msg st gid group leaf ⟨kind, m⟩ ∧
    appKind kind = .manifest

def Known (st : Store) (mailbox : Bytes) (item : EnvelopeItem) : Prop :=
  ∃ r ∈ st.inbox, r.mailboxId = mailbox ∧ r.deliveryId = item.deliveryId

theorem handleManifest_iff (h : Chain pf.crypto root ms) {m : Bytes} (hm : m ∈ ms) {group gid : Bytes} {leaf : UInt32}
    {st st' : Store} :
    (∃ ch, handleManifest pf s group gid leaf m st = (.ok ch, st')) ↔
      ∃ r, accept pf s (Identity.identityId pf.crypto root) m ((pf.memberAtIndex group leaf).bind (·.deviceId)) st =
        (.ok r, st') := by
  obtain ⟨i, body, -, hv, -⟩ := h.body hm
  have hid : manifestIdentityUnverified pf.crypto m = some (Identity.identityId pf.crypto root) := by
    obtain ⟨hpeek, hident⟩ := peekManifest_of_verify hv
    rw [manifestIdentityUnverified, hpeek, Option.map_some, hident]
  have hgroup (r : DeviceManifest × Bool) : acceptGroupManifest pf s group gid leaf m st = (.ok r, st') ↔
      accept pf s (Identity.identityId pf.crypto root) m ((pf.memberAtIndex group leaf).bind (·.deviceId)) st =
        (.ok r, st') := by
    unfold accept
    by_cases hown : Identity.identityId pf.crypto root = s.identityId
    · rw [if_pos hown]
      unfold acceptGroupManifest
      simp only [hid, hown, ne_eq, not_true_eq_false, if_false]
      exact domain_eq_ok
    · rw [if_neg hown]
      exact acceptGroupManifest_ok_iff hid hown
  unfold handleManifest
  constructor
  · rintro ⟨ch, hr⟩
    obtain ⟨r, st₁, h1, hr⟩ := bind_eq_ok.1 hr
    obtain rfl := (Prod.mk.inj hr).2
    exact ⟨r, (hgroup r).1 h1⟩
  · rintro ⟨r, hr⟩
    rw [bind_ok ((hgroup r).2 hr)]
    exact ⟨_, rfl⟩

theorem receiveUnit_manifest (h : Chain pf.crypto root ms) {m : Bytes} (hm : m ∈ ms) {st : Store} {mailbox : Bytes}
    {item : EnvelopeItem} (hc : Carries pf s st mailbox item m) (hfresh : ¬ Known st mailbox item) (now : Int) :
    ∃ t group carrier, (∃ e, Sync.receiveUnit pf s now mailbox item st = (.error e, st) ∧
        ∀ r st', accept pf s (Identity.identityId pf.crypto root) m carrier (pf.writeGroup group none { st with inbox := t }) ≠
          (.ok r, st')) ∨
      ∃ ch r st', Sync.receiveUnit pf s now mailbox item st = (.ok (some ch), st') ∧
        accept pf s (Identity.identityId pf.crypto root) m carrier (pf.writeGroup group none { st with inbox := t }) =
          (.ok r, st') := by
  obtain ⟨msg, gid, group, leaf, kind, hopen, hsent, hkind⟩ := hc
  obtain ⟨t, ht⟩ : ∃ t, st.inbox.insert ⟨mailbox, item.deliveryId, item.seq.toInt64, false⟩ = some t := by
    cases hi : st.inbox.insert ⟨mailbox, item.deliveryId, item.seq.toInt64, false⟩ with
    | some t => exact ⟨t, rfl⟩
    | none =>
      obtain ⟨r, hr, hk⟩ := Table.insert_eq_none.1 hi
      obtain ⟨hmailbox, hid⟩ := Prod.mk.inj hk
      exact absurd ⟨r, hr, hmailbox, hid⟩ hfresh
  have hsent' : SentBy pf msg { st with inbox := t } gid group leaf ⟨kind, m⟩ := by
    obtain ⟨data, ⟨hformat, hgid, htaken, hproc⟩, hevent⟩ := hsent
    exact ⟨data, ⟨hformat, hgid, htaken, hproc⟩, hevent⟩
  have hmls : handleMls pf s now msg item.deliveryId { st with inbox := t } =
      handleManifest pf s group gid leaf m (pf.writeGroup group none { st with inbox := t }) := by
    rw [handleMls_sent hsent', handleEvent, hkind]
  have hrun : Sync.receiveUnit pf s now mailbox item st = _ := receiveUnit_run ht hopen
  rw [hmls] at hrun
  refine ⟨t, group, (pf.memberAtIndex group leaf).bind (·.deviceId), ?_⟩
  rcases hh : handleManifest pf s group gid leaf m (pf.writeGroup group none { st with inbox := t }) with ⟨_ | ch, st'⟩
  · rw [hh] at hrun
    refine Or.inl ⟨_, hrun, fun r st'' hr => ?_⟩
    obtain ⟨ch, hok⟩ : ∃ ch, handleManifest pf s group gid leaf m (pf.writeGroup group none { st with inbox := t }) =
      (.ok ch, st'') := (handleManifest_iff h hm).2 ⟨r, hr⟩
    rw [hok] at hh
    cases hh
  · rw [hh] at hrun
    obtain ⟨r, hr⟩ := (handleManifest_iff h hm).1 ⟨ch, hh⟩
    exact Or.inr ⟨ch, r, st', hrun, hr⟩

theorem receiveUnit_known {st : Store} {mailbox : Bytes} {item : EnvelopeItem} (hk : Known st mailbox item) (now : Int) :
    Sync.receiveUnit pf s now mailbox item st = (.ok none, st) := by
  obtain ⟨r, hr, hmailbox, hid⟩ := hk
  have hi : st.inbox.insert ⟨mailbox, item.deliveryId, item.seq.toInt64, false⟩ = none :=
    Table.insert_eq_none.2 ⟨r, hr, by simp [hmailbox, hid]⟩
  have hrec : delivery "inbox" (recordIncoming mailbox item.deliveryId item.seq.toInt64) st = (.ok false, st) := by
    simp only [delivery, Prog.mapError, recordIncoming, hi]
  unfold Sync.receiveUnit
  rw [unitOfWork_eq_ok, bind_ok hrec]
  rfl

theorem receiveUnit_failed {now : Int} {mailbox : Bytes} {item : EnvelopeItem} {st : Store}
    (h : (Sync.receiveUnit pf s now mailbox item st).1.toOption = none) :
    ∃ e, Sync.receiveUnit pf s now mailbox item st = (.error e, st) := by
  rcases hr : Sync.receiveUnit pf s now mailbox item st with ⟨e | r, st'⟩
  · obtain rfl := unitOfWork_error hr
    exact ⟨e, rfl⟩
  · rw [hr] at h
    cases h

/-- What the profile knows of the identity stays as it is. -/
def Aside (pf : Platform) (s : Session) (id : Bytes) (st st' : Store) : Prop :=
  rootOf pf.crypto s id st' = rootOf pf.crypto s id st ∧ recorded s id st' = recorded s id st

/-- A manifest of the chain from the realm or from a group, or anything that does not
touch what is known of the identity. -/
def Delivers (pf : Platform) (s : Session) (root : Bytes) (ms : List Bytes) (w : World) (a : Act) : Prop :=
  (∃ m ∈ ms, a = .refresh (Identity.identityId pf.crypto root) m) ∨
  (∃ now mailbox item, ∃ m ∈ ms, a = .receive now mailbox item ∧ Carries pf s w.store mailbox item m) ∨
  Aside pf s (Identity.identityId pf.crypto root) w.store (Act.step pf s w a).store

/-- An event of a group with a manifest of the chain is passed. -/
def Passes (pf : Platform) (s : Session) (ms : List Bytes) (w : World) (a : Act) : Prop :=
  ∀ now mailbox item, ∀ m ∈ ms, a = .receive now mailbox item → Carries pf s w.store mailbox item m →
    ∃ r st', Sync.receiveUnit pf s now mailbox item w.store = (.ok r, st')

/-- It was passed before, or it comes in turn. -/
def InOrder (pf : Platform) (s : Session) (root : Bytes) (ms : List Bytes) (w : World) (a : Act) : Prop :=
  ∀ now mailbox item, ∀ m ∈ ms, a = .receive now mailbox item → Carries pf s w.store mailbox item m →
    Known w.store mailbox item ∨ ∀ body, verifyManifest pf.crypto m root = .ok body →
      InTurn pf s (Identity.identityId pf.crypto root) w.store body

/-- The recorded manifest is at least this new. -/
def Reached (s : Session) (id : Bytes) (n : UInt64) (st : Store) : Prop :=
  ∃ k, recorded s id st = some k ∧ n ≤ k.sequence

section runs

variable (h : Chain pf.crypto root ms)

include h

theorem accept_keeps {st st' : Store} (hf : Follows pf s root ms st) {m : Bytes} (hm : m ∈ ms) {carrier : Option Bytes}
    {r : DeviceManifest × Bool} (hr : accept pf s (Identity.identityId pf.crypto root) m carrier st = (.ok r, st')) :
    Follows pf s root ms st' ∧ ∀ n, Reached s (Identity.identityId pf.crypto root) n st →
      Reached s (Identity.identityId pf.crypto root) n st' := by
  obtain ⟨i, body, hi, hv, hseq⟩ := h.body hm
  have hafter := accept_after h hf hm hv hr
  refine ⟨⟨(accept_root hr).trans hf.rooted, ?_⟩, ?_⟩
  · intro k hk
    rw [hafter] at hk
    obtain rfl := Option.some.inj hk
    exact ⟨i, m, hi, hseq, rfl⟩
  · rintro n ⟨k, hk, hn⟩
    have hturn := (accept_iff h hf hm hv carrier).1 ⟨r, st', hr⟩
    exact ⟨_, hafter, UInt64.le_trans hn (hturn.1 k hk)⟩

theorem receive_keeps {w : World} {now : Int} {mailbox : Bytes} {item : EnvelopeItem} {m : Bytes} (hm : m ∈ ms)
    (hc : Carries pf s w.store mailbox item m) (hf : Follows pf s root ms w.store) :
    Follows pf s root ms (Sync.receiveUnit pf s now mailbox item w.store).2 ∧
      ∀ n, Reached s (Identity.identityId pf.crypto root) n w.store →
        Reached s (Identity.identityId pf.crypto root) n (Sync.receiveUnit pf s now mailbox item w.store).2 := by
  by_cases hk : Known w.store mailbox item
  · rw [receiveUnit_known hk now]
    exact ⟨hf, fun _ hn => hn⟩
  · obtain ⟨t, group, carrier, ⟨e, hrun, -⟩ | ⟨ch, r, st', hrun, hr⟩⟩ := receiveUnit_manifest h hm hc hk now
    · rw [hrun]
      exact ⟨hf, fun _ hn => hn⟩
    · rw [hrun]
      -- the inbox and the group are no part of what is known of an identity
      have hf' : Follows pf s root ms (pf.writeGroup group none { w.store with inbox := t }) := ⟨hf.rooted, hf.onChain⟩
      obtain ⟨hkept, hreached⟩ := accept_keeps h hf' hm hr
      exact ⟨hkept, fun n hn => hreached n hn⟩

theorem step_keeps {w : World} {a : Act} (hd : Delivers pf s root ms w a) (hf : Follows pf s root ms w.store) :
    Follows pf s root ms (Act.step pf s w a).store ∧
      ∀ n, Reached s (Identity.identityId pf.crypto root) n w.store →
        Reached s (Identity.identityId pf.crypto root) n (Act.step pf s w a).store := by
  rcases hd with ⟨m, hm, rfl⟩ | ⟨now, mailbox, item, m, hm, rfl, hc⟩ | ⟨hroot, hsame⟩
  · have hstep : (Act.step pf s w (.refresh (Identity.identityId pf.crypto root) m)).store =
        (accept pf s (Identity.identityId pf.crypto root) m none w.store).2 := by
      rw [step_refresh, refreshPeer_eq]
      rfl
    rw [hstep]
    rcases hr : accept pf s (Identity.identityId pf.crypto root) m none w.store with ⟨_ | r, st'⟩
    · obtain rfl := accept_error hr
      exact ⟨hf, fun _ hn => hn⟩
    · exact accept_keeps h hf hm hr
  · rw [step_receive]
    exact receive_keeps h hm hc hf
  · refine ⟨⟨hroot.trans hf.rooted, hsame ▸ hf.onChain⟩, ?_⟩
    rintro n ⟨k, hk, hn⟩
    exact ⟨k, hsame.trans hk, hn⟩

/-- A fresh event of a group is passed exactly when its manifest comes in turn. -/
theorem receiveUnit_passes_iff {st : Store} (hf : Follows pf s root ms st) {mailbox : Bytes} {item : EnvelopeItem} {m : Bytes}
    (hm : m ∈ ms) (hc : Carries pf s st mailbox item m) (hfresh : ¬ Known st mailbox item) (now : Int)
    {body : DeviceManifest} (hv : verifyManifest pf.crypto m root = .ok body) :
    (∃ r st', Sync.receiveUnit pf s now mailbox item st = (.ok r, st')) ↔
      InTurn pf s (Identity.identityId pf.crypto root) st body := by
  obtain ⟨t, group, carrier, hrun⟩ := receiveUnit_manifest h hm hc hfresh now
  have hf' : Follows pf s root ms (pf.writeGroup group none { st with inbox := t }) := ⟨hf.rooted, hf.onChain⟩
  have hturn : (∃ r st', accept pf s (Identity.identityId pf.crypto root) m carrier
      (pf.writeGroup group none { st with inbox := t }) = (.ok r, st')) ↔
        InTurn pf s (Identity.identityId pf.crypto root) st body := accept_iff h hf' hm hv carrier
  rw [← hturn]
  rcases hrun with ⟨e, hrun, hno⟩ | ⟨ch, r, st', hrun, hr⟩
  · constructor
    · rintro ⟨r, st', hok⟩
      rw [hrun] at hok
      cases hok
    · rintro ⟨r, st', hok⟩
      exact absurd hok (hno r st')
  · exact ⟨fun _ => ⟨r, st', hr⟩, fun _ => ⟨some ch, st', hrun⟩⟩

theorem passes_iff {w : World} {a : Act} (hf : Follows pf s root ms w.store) :
    Passes pf s ms w a ↔ InOrder pf s root ms w a := by
  refine forall_congr' fun now => forall_congr' fun mailbox => forall_congr' fun item => forall_congr' fun m =>
    forall_congr' fun hm => forall_congr' fun _ => forall_congr' fun hc => ?_
  by_cases hk : Known w.store mailbox item
  · exact ⟨fun _ => Or.inl hk, fun _ => ⟨none, w.store, receiveUnit_known hk now⟩⟩
  · obtain ⟨i, body, -, hv, -⟩ := h.body hm
    rw [receiveUnit_passes_iff h hf hm hc hk now hv]
    constructor
    · intro hturn
      refine Or.inr fun body' hv' => ?_
      obtain rfl := Except.ok.inj (hv.symm.trans hv')
      exact hturn
    · rintro (hknown | hturn)
      · exact absurd hknown hk
      · exact hturn body hv

/-- An event older than what is recorded is passed neither now nor after any deliveries. -/
theorem late_fails {w : World} {acts : List Act} (hf : Follows pf s root ms w.store)
    (hd : Trace.Meets (Act.step pf s) (Delivers pf s root ms) w acts) {m : Bytes} (hm : m ∈ ms) {body : DeviceManifest}
    (hv : verifyManifest pf.crypto m root = .ok body) {k : ManifestState}
    (hk : recorded s (Identity.identityId pf.crypto root) w.store = some k) (hlate : body.manifestSequence < k.sequence)
    {mailbox : Bytes} {item : EnvelopeItem} (now : Int)
    (hc : Carries pf s (Trace.run (Act.step pf s) w acts).store mailbox item m)
    (hfresh : ¬ Known (Trace.run (Act.step pf s) w acts).store mailbox item) :
    ∃ e, Sync.receiveUnit pf s now mailbox item (Trace.run (Act.step pf s) w acts).store =
      (.error e, (Trace.run (Act.step pf s) w acts).store) := by
  have hinv := Trace.invariant
    (I := fun w : World => Follows pf s root ms w.store ∧ Reached s (Identity.identityId pf.crypto root) k.sequence w.store)
    (fun w a hd hi => ⟨(step_keeps h hd hi.1).1, (step_keeps h hd hi.1).2 _ hi.2⟩) hd ⟨hf, k, hk, UInt64.le_refl _⟩
  obtain ⟨hf', k', hk', hle⟩ := hinv
  apply receiveUnit_failed
  rcases hrun : Sync.receiveUnit pf s now mailbox item (Trace.run (Act.step pf s) w acts).store with ⟨e | r, st'⟩
  · rfl
  · have hturn := (receiveUnit_passes_iff h hf' hm hc hfresh now hv).1 ⟨r, st', hrun⟩
    exact absurd (UInt64.lt_of_lt_of_le hlate (UInt64.le_trans hle (hturn.1 k' hk'))) (UInt64.lt_irrefl _)

end runs

/-- Over every order in which a chain of manifests arrives, the events of groups are all
passed exactly when none comes after a newer manifest was recorded (and the notices of
each newer one fit). One that does is never passed, whatever is delivered later. -/
theorem manifests_pass_exactly_in_order (h : Chain pf.crypto root ms) (w : World) (acts : List Act)
    (hf : Follows pf s root ms w.store) (hd : Trace.Meets (Act.step pf s) (Delivers pf s root ms) w acts) :
    (Trace.Meets (Act.step pf s) (Passes pf s ms) w acts ↔ Trace.Meets (Act.step pf s) (InOrder pf s root ms) w acts) ∧
    ∀ m ∈ ms, ∀ body k, verifyManifest pf.crypto m root = .ok body →
      recorded s (Identity.identityId pf.crypto root) w.store = some k → body.manifestSequence < k.sequence →
      ∀ now mailbox item, Carries pf s (Trace.run (Act.step pf s) w acts).store mailbox item m →
        ¬ Known (Trace.run (Act.step pf s) w acts).store mailbox item →
        ∃ e, Sync.receiveUnit pf s now mailbox item (Trace.run (Act.step pf s) w acts).store =
          (.error e, (Trace.run (Act.step pf s) w acts).store) := by
  refine ⟨?_, fun m hm body k hv hk hlate now mailbox item hc hfresh =>
    late_fails h hf hd hm hv hk hlate now hc hfresh⟩
  have hinv := hd.with_invariant (I := fun w : World => Follows pf s root ms w.store)
    (fun w a hd hf => (step_keeps h hd hf).1) hf
  exact hinv.congr fun w a hi => passes_iff h hi.2

section demo

open Demo

def demoItem (id : UInt8) (m : Bytes) : EnvelopeItem := item 1 id (eventFrom [7] 2 "manifest" m)

def demoRefreshed : List Act := [.refresh (identityOf 2) demoSecond]

theorem demo_chain : Chain crypto (publicKey [2]) [demoFirst, demoSecond] where
  genuine i m hi := by
    have hv : (verifyManifest crypto demoFirst (publicKey [2])).toOption = some ⟨1, identityOf 2, 1, [], [[2, 3]], []⟩ ∧
        (verifyManifest crypto demoSecond (publicKey [2])).toOption = some Notices.demoBody := by decide +kernel
    rcases i with _ | _ | i
    · obtain rfl := Option.some.inj hi
      exact ⟨_, ok_of_toOption hv.1, rfl⟩
    · obtain rfl := Option.some.inj hi
      exact ⟨_, ok_of_toOption hv.2, rfl⟩
    · simp at hi
  linked i p m body hp hm hv := by
    rcases i with _ | i
    · obtain rfl := Option.some.inj hp
      obtain rfl := Option.some.inj hm
      have hbody : (verifyManifest crypto demoSecond (publicKey [2])).toOption = some Notices.demoBody := by decide +kernel
      obtain rfl := Except.ok.inj (hv.symm.trans (ok_of_toOption hbody))
      rfl
    · simp at hm
  fits := by decide

theorem demo_follows : Follows platform (sessionOf 9) (publicKey [2]) [demoFirst, demoSecond] demoWorld.store where
  rooted := by decide +kernel
  onChain k hk := by
    have hrec : recorded (sessionOf 9) (identityOf 2) demoWorld.store = some ⟨1, manifestHash crypto demoFirst⟩ := by
      decide +kernel
    have hk : recorded (sessionOf 9) (identityOf 2) demoWorld.store = some k := hk
    obtain rfl := Option.some.inj (hrec.symm.trans hk)
    exact ⟨0, demoFirst, rfl, rfl, rfl⟩

/-- The state of the group and of the profile in which the events below arrive. -/
def demoLater : Store := (Trace.run (Act.step platform (sessionOf 9)) demoWorld demoRefreshed).store

theorem demo_carries {id : UInt8} {m : Bytes}
    (hopen : (openedMessage platform (sessionOf 9) [8] (demoItem id m)).toOption = some (eventFrom [7] 2 "manifest" m))
    (hproc : (process (deviceRevoked demoLater) (group.write demoGroup) (eventFrom [7] 2 "manifest" m)).toOption =
      some (group.write demoGroup, .applicationMessage 2 (appEvent.write ⟨"manifest", m⟩))) :
    Carries platform (sessionOf 9) demoLater [8] (demoItem id m) m := by
  have hgroup : demoLater.mlsGroups.get? [7] = some ⟨[7], group.write demoGroup⟩ := by decide +kernel
  have htaken : declined demoLater [7] = false := by decide +kernel
  exact ⟨_, [7], _, 2, "manifest", ok_of_toOption hopen,
    ⟨_, ⟨Or.inl rfl, rfl, htaken, _, hgroup, ok_of_toOption hproc⟩, appEvent.decode_write _⟩, rfl⟩

theorem demo_first_carried : Carries platform (sessionOf 9) demoLater [8] (demoItem 1 demoFirst) demoFirst :=
  demo_carries (by decide +kernel) (by decide +kernel)

theorem demo_second_carried : Carries platform (sessionOf 9) demoLater [8] (demoItem 1 demoSecond) demoSecond :=
  demo_carries (by decide +kernel) (by decide +kernel)

/-- The realm brought the second manifest first. The event with the first one fails on
every try, and what stands behind it in the mailbox is not reached. -/
theorem late_manifest_is_never_passed :
    Chain crypto (publicKey [2]) [demoFirst, demoSecond] ∧
    Follows platform (sessionOf 9) (publicKey [2]) [demoFirst, demoSecond] demoWorld.store ∧
    Trace.Meets (Act.step platform (sessionOf 9)) (Delivers platform (sessionOf 9) (publicKey [2]) [demoFirst, demoSecond])
      demoWorld (demoRefreshed ++ [Act.receive 3 [8] (demoItem 1 demoFirst)]) ∧
    ¬ Trace.Meets (Act.step platform (sessionOf 9)) (Passes platform (sessionOf 9) [demoFirst, demoSecond])
      demoWorld (demoRefreshed ++ [Act.receive 3 [8] (demoItem 1 demoFirst)]) ∧
    ∀ n text, Sync.receiveItems platform (sessionOf 9) 3 [8] 0 [demoItem 1 demoFirst, item 2 2 (eventFrom [7] 2 "text" text)]
        (Trace.run (Act.step platform (sessionOf 9)) demoWorld
          (demoRefreshed ++ List.replicate n (.receive 3 [8] (demoItem 1 demoFirst)))).store = (.ok 0, demoLater) := by
  have hfails : (Sync.receiveUnit platform (sessionOf 9) 3 [8] (demoItem 1 demoFirst) demoLater).1.toOption = none := by
    decide +kernel
  obtain ⟨e, hunit⟩ : ∃ e, Sync.receiveUnit platform (sessionOf 9) 3 [8] (demoItem 1 demoFirst) demoLater =
      (.error e, demoLater) := receiveUnit_failed hfails
  refine ⟨demo_chain, demo_follows, ?_, ?_, ?_⟩
  · rw [Trace.meets_append]
    exact ⟨⟨Or.inl ⟨demoSecond, by simp, rfl⟩, trivial⟩,
      Or.inr (Or.inl ⟨3, [8], demoItem 1 demoFirst, demoFirst, by simp, rfl, demo_first_carried⟩), trivial⟩
  · rw [Trace.meets_append]
    rintro ⟨-, hpass, -⟩
    obtain ⟨r, st', hr⟩ := hpass 3 [8] (demoItem 1 demoFirst) demoFirst (by simp) rfl demo_first_carried
    cases hunit.symm.trans hr
  · intro n text
    have hstay : ∀ w : World, w.store = demoLater →
        (Trace.run (Act.step platform (sessionOf 9)) w (List.replicate n (.receive 3 [8] (demoItem 1 demoFirst)))).store =
          demoLater := by
      induction n with
      | zero => exact fun w hw => hw
      | succ n ih =>
        intro w hw
        rw [List.replicate_succ, Trace.run_cons]
        apply ih
        rw [step_receive, hw, hunit]
    rw [Trace.run_append, hstay _ rfl]
    simp only [Sync.receiveItems, bind_run, attempt, hunit, pure_run]

/-- The second manifest from the realm, and then again from the group. -/
theorem repeated_manifest_is_passed :
    Trace.Meets (Act.step platform (sessionOf 9)) (Passes platform (sessionOf 9) [demoFirst, demoSecond]) demoWorld
      (demoRefreshed ++ [Act.receive 3 [8] (demoItem 1 demoSecond)]) := by
  have hdelivers : Trace.Meets (Act.step platform (sessionOf 9))
      (Delivers platform (sessionOf 9) (publicKey [2]) [demoFirst, demoSecond]) demoWorld
      (demoRefreshed ++ [Act.receive 3 [8] (demoItem 1 demoSecond)]) := by
    rw [Trace.meets_append]
    exact ⟨⟨Or.inl ⟨demoSecond, by simp, rfl⟩, trivial⟩,
      Or.inr (Or.inl ⟨3, [8], demoItem 1 demoSecond, demoSecond, by simp, rfl, demo_second_carried⟩), trivial⟩
  refine (manifests_pass_exactly_in_order demo_chain demoWorld _ demo_follows hdelivers).1.2 ?_
  rw [Trace.meets_append]
  have hrefresh : InOrder platform (sessionOf 9) (publicKey [2]) [demoFirst, demoSecond] demoWorld
      (.refresh (identityOf 2) demoSecond) := by
    intro now mailbox item m hm ha
    cases ha
  refine ⟨⟨hrefresh, trivial⟩, ?_, trivial⟩
  intro now mailbox item m hm ha hc
  obtain ⟨rfl, rfl, rfl⟩ := Act.receive.inj ha
  refine Or.inr fun body hv => ?_
  have hrecorded : recorded (sessionOf 9) (identityOf 2) demoLater = some ⟨2, manifestHash crypto demoSecond⟩ := by
    decide +kernel
  have hheard : (heard platform (sessionOf 9) demoLater [8] (demoItem 1 demoSecond)).map (·.2.2.2.body) = some demoSecond := by
    decide +kernel
  obtain ⟨msg, gid, group, leaf, kind, hopen, hsent, -⟩ := hc
  have hsame : some m = some demoSecond := by
    rw [← hheard]
    exact (congrArg (Option.map (·.2.2.2.body)) (heard_of_sentBy hopen hsent)).symm
  obtain rfl := Option.some.inj hsame
  have hbody : (verifyManifest crypto demoSecond (publicKey [2])).toOption = some Notices.demoBody := by decide +kernel
  obtain rfl := Except.ok.inj (hv.symm.trans (ok_of_toOption hbody))
  refine ⟨fun k hk => ?_, fun _ hnew => absurd ?_ hnew⟩
  · obtain rfl := Option.some.inj (hrecorded.symm.trans hk)
    decide
  · have hsequence := congrArg (Option.map (·.sequence)) hrecorded
    exact hsequence

end demo

end Arveil.Manifests
