import Arveil.Lib.Trace
import Arveil.Proofs.Invitations
import Arveil.Proofs.Members
import Arveil.Sanity.Realm

/-! The chain of manifests a relay keeps of an identity. Invites, publications and
recoveries advance it, each under an ordering rule of its own; what they store they never
take back, so that a number stands for the same signed bytes in every later store. -/

namespace Arveil.RelayServer

open RelayStore Prog

variable {sha256 : Bytes → Bytes} {items : CborItems}

/-- The number of the newest manifest of an identity, zero if it has none. -/
def newestSequence (db : Db) (identityId : Bytes) : Nat := ((newestManifest db identityId).map (·.sequence)).getD 0

def Call.chains : Call → Bool
  | .redeemInvite _ _ _ | .publishManifest _ _ _ _ | .recoverIdentity _ _ _ => true
  | _ => false

def sequenceIn (items : CborItems) (signed : Bytes) : Option UInt64 := do
  let so ← unmarshal items.signed SignedFields.first signed
  let m ← unmarshal items.manifest ManifestFields.first so.body
  pure m.manifestSequence

/-- The number a transaction is given is the one its manifest carries. -/
def Numbered (items : CborItems) : Call → Prop
  | .redeemInvite _ _ e | .recoverIdentity e _ _ => sequenceIn items e.signedManifest = some e.manifestSeq
  | .publishManifest _ seq signed _ => sequenceIn items signed = some seq
  | _ => True

theorem Signed.sequenceIn {cx : Crypto} {root signed : Bytes} {body : DeviceManifest} (h : Signed cx items root signed body) :
    sequenceIn items signed = some body.manifestSequence := by
  have hsequence : RelayServer.sequenceIn items signed = (readManifest items signed).map (·.manifestSequence) := by
    unfold RelayServer.sequenceIn readManifest
    cases unmarshal items.signed SignedFields.first signed with
    | none => rfl
    | some so => cases hm : unmarshal items.manifest ManifestFields.first so.body <;> simp [hm]
  rw [hsequence, h.read]
  rfl

/-- A handler gives each transaction the number of its manifest. -/
theorem numbered_of_allowed {cx : Crypto} {Fair : DeviceManifest → Prop} {c : Call} {db : Db} (h : Allowed cx items Fair c db) :
    Numbered items c := by
  cases c with
  | redeemInvite tokenHash now e =>
    obtain ⟨-, -, body, hsigned, -, -, hseq⟩ := h
    exact hsigned.sequenceIn.trans (congrArg some hseq)
  | publishManifest identityId seq signed revoked =>
    obtain ⟨root, body, -, hsigned, -, hseq⟩ := h
    exact hsigned.sequenceIn.trans (congrArg some hseq)
  | recoverIdentity e revoked now =>
    obtain ⟨-, root, body, -, hsigned, -, -, -, hseq⟩ := h
    exact hsigned.sequenceIn.trans (congrArg some hseq)
  | _ => trivial

/-- A manifest row a transaction is acknowledged for. -/
def Acknowledges (c : Call) (db : Db) (m : RelayStore.ManifestRow) : Prop :=
  match c with
  | .redeemInvite tokenHash now e => m = e.manifest ∧ ∃ db', redeemInvite tokenHash now e db = (.ok (), db')
  | .publishManifest identityId seq signed revoked =>
      m = ⟨identityId, seq.toNat, signed⟩ ∧ ∃ n db', publishManifest identityId seq signed revoked db = (.ok n, db')
  | .recoverIdentity e revoked now => m = e.manifest ∧ ∃ n db', RelayStore.recoverIdentity e revoked now db = (.ok n, db')
  | _ => False

/-- The recovery of a credential stands, with the previous number it was answered with. -/
def Recorded (identityId hash signedCred signedManifest : Bytes) (previous : Nat) (db : Db) : Prop :=
  ⟨hash, signedManifest, previous⟩ ∈ db.recoveries ∧
    ∃ c ∈ db.credentials, c.credentialHash = hash ∧ c.identityId = identityId ∧ c.signed = signedCred

theorem recoveryOf_eq_some {hash : Bytes} {db : Db} {r : RecoveryRow} {c : CredentialRow} :
    recoveryOf hash db = some (r, c) ↔ (r ∈ db.recoveries ∧ r.credentialHash = hash) ∧ c ∈ db.credentials ∧ c.credentialHash = hash := by
  unfold recoveryOf
  simp only [Option.bind_eq_bind, Option.bind_eq_some_iff, Option.pure_def, Option.some.injEq, Prod.mk.injEq, ← Table.get?_eq_some]
  constructor
  · rintro ⟨r', hr, c', hc, rfl, rfl⟩
    exact ⟨hr, hc⟩
  · rintro ⟨hr, hc⟩
    exact ⟨r, hr, c, hc, rfl, rfl⟩

theorem addRecovery_eq_some {row : RecoveryRow} {db db' : Db} (h : addRecovery row db = some db') :
    ∃ t, db.recoveries.insert row = some t ∧ db' = { db with recoveries := t } := by
  unfold addRecovery at h
  split at h
  · cases h
  · obtain ⟨t, ht, rfl⟩ := Option.map_eq_some_iff.1 h
    exact ⟨t, ht, rfl⟩

theorem recover_recorded {e : Enrollment} {revoked : List Bytes} {now : Int} {previous : Nat} {db : Db}
    (h : Recorded e.identityId e.credentialHash e.signedCred e.signedManifest previous db) :
    ∃ c ∈ db.credentials, c.credentialHash = e.credentialHash ∧
      RelayStore.recoverIdentity e revoked now db =
        if c.status = .active ∧ now < c.notAfter then (.ok previous, db) else (.error .requestConflict, db) := by
  obtain ⟨hr, c, hc, hhash, hid, hsigned⟩ := h
  refine ⟨c, hc, hhash, ?_⟩
  have hof : recoveryOf e.credentialHash db = some (⟨e.credentialHash, e.signedManifest, previous⟩, c) :=
    recoveryOf_eq_some.2 ⟨⟨hr, rfl⟩, hc, hhash⟩
  unfold RelayStore.recoverIdentity unitOfWork
  rw [bind_ok (read_run _ _), hof]
  dsimp only
  by_cases hactive : c.status = .active ∧ now < c.notAfter
  · rw [if_pos hactive, if_neg]
    · rfl
    · simp only [ne_eq, not_true_eq_false, hid, hsigned, hactive.1, false_or, not_le]
      exact hactive.2
  · rw [if_neg hactive, if_pos]
    · rfl
    · by_cases hstatus : c.status = .active
      · exact Or.inr (Or.inr (Or.inr (Or.inr (not_lt.1 fun hlt => hactive ⟨hstatus, hlt⟩))))
      · exact Or.inr (Or.inr (Or.inr (Or.inl hstatus)))

theorem recoverIdentity_recorded {e : Enrollment} {revoked : List Bytes} {now : Int} {db db' : Db} {n : Nat}
    (h : RelayStore.recoverIdentity e revoked now db = (.ok n, db')) :
    Recorded e.identityId e.credentialHash e.signedCred e.signedManifest n db' ∧
      (db' = db ∨ (Recovered e revoked db db' ∧ db.recoveries.insert ⟨e.credentialHash, e.signedManifest, n⟩ = some db'.recoveries)) := by
  have hcases := recoverIdentity_ok h
  rw [RelayStore.recoverIdentity, unitOfWork_eq_ok, bind_ok (read_run _ _)] at h
  cases hr : recoveryOf e.credentialHash db with
  | some p =>
    obtain ⟨r, c⟩ := p
    simp only [hr] at h
    split at h
    · exact absurd h fail_ne_ok
    · next hcond =>
      simp only [not_or, not_not, ne_eq] at hcond
      obtain ⟨rfl, rfl⟩ : r.previousSequence = n ∧ db = db' := by simpa using h
      obtain ⟨⟨hmem, hhash⟩, hc, hchash⟩ := recoveryOf_eq_some.1 hr
      refine ⟨⟨?_, c, hc, hchash, hcond.2.1, hcond.2.2.1⟩, Or.inl rfl⟩
      rw [← hhash, ← hcond.1]
      exact hmem
  | none =>
    simp only [hr, bind_eq_ok, read_eq_ok, when_eq_ok, insertCredential, insertRow_eq_ok, modify_eq_ok, pure_run, Prod.mk.injEq] at h
    obtain ⟨previous, db₀, ⟨rfl, rfl⟩, _, db₁, hnewer, -, db₂, hm, -, db₃, hc, -, db₄, rfl, -, db₅, hrec, hprevious, rfl⟩ := h
    rcases hnewer with ⟨-, hfail⟩ | ⟨-, rfl⟩
    · exact absurd hfail fail_ne_ok
    obtain rfl := Except.ok.inj hprevious
    obtain ⟨-, tm, htm, rfl⟩ := addManifest_eq_some hm
    obtain ⟨-, tc, htc, rfl⟩ := addCredential_eq_some hc
    obtain ⟨hrevokes, -⟩ := revokeAgain_spec e.identityId revoked { db with manifests := tm, credentials := tc }
    obtain ⟨t, ht, rfl⟩ := addRecovery_eq_some hrec
    have hrow : ∃ c ∈ (revokeAgain e.identityId revoked { db with manifests := tm, credentials := tc }).credentials,
        c.credentialHash = e.credentialHash ∧ c.identityId = e.identityId ∧ c.signed = e.signedCred := by
      rcases hrevokes.kept _ ((Table.mem_insert htc).2 (Or.inr rfl)) with hkept | hkept
      · exact ⟨_, hkept, rfl, rfl, rfl⟩
      · exact ⟨_, hkept, rfl, rfl, rfl⟩
    refine ⟨⟨(Table.mem_insert ht).2 (Or.inr rfl), hrow⟩, hcases.imp (·.1) fun hrecovered => ⟨hrecovered, ?_⟩⟩
    have hsame := part_of_outside (outside_revokeAgain (by simp : Part.credentials ∈ [.credentials, .capabilities, .watchKeys]) (by simp)
      (by simp) e.identityId revoked { db with manifests := tm, credentials := tc }) (p := .recoveries) (by simp)
    exact (congrArg (fun t => Table.insert t _) hsame).symm.trans ht

theorem recovers_of_writes {c : Call} (h : Part.recoveries ∈ writes c) : ∃ e revoked now, c = .recoverIdentity e revoked now := by
  cases c with
  | recoverIdentity e revoked now => exact ⟨e, revoked, now, rfl⟩
  | _ => simp [writes] at h

theorem recoveries_call (c : Call) (db : Db) : ∀ r ∈ db.recoveries, r ∈ (after sha256 db c).recoveries := by
  intro r hr
  by_cases hc : Part.recoveries ∈ writes c
  · obtain ⟨e, revoked, now, rfl⟩ := recovers_of_writes hc
    show r ∈ (RelayStore.recoverIdentity e revoked now db).2.recoveries
    cases hcall : RelayStore.recoverIdentity e revoked now db with
    | mk result db' =>
    cases result with
    | error x =>
      rw [unitOfWork_error hcall]
      exact hr
    | ok n =>
      rcases (recoverIdentity_recorded hcall).2 with rfl | ⟨-, hins⟩
      · exact hr
      · exact (Table.mem_insert hins).2 (Or.inl hr)
  · have hsame : (after sha256 db c).recoveries = db.recoveries := part_call c db hc
    rw [hsame]
    exact hr

theorem recorded_after {identityId hash signedCred signedManifest : Bytes} {previous : Nat} {db : Db}
    (h : Recorded identityId hash signedCred signedManifest previous db) (c : Call) :
    Recorded identityId hash signedCred signedManifest previous (after sha256 db c) := by
  obtain ⟨hr, row, hrow, hhash, hid, hsigned⟩ := h
  refine ⟨recoveries_call c db _ hr, ?_⟩
  rcases (later_effect (call_effect c db : Effect c db (c.prog sha256 db).2)).credentials row hrow with hkept | hkept
  · exact ⟨row, hkept, hhash, hid, hsigned⟩
  · exact ⟨_, hkept, hhash, hid, hsigned⟩

/-- Every recovery's manifest is stored under the number it carries. -/
def Receipted (items : CborItems) (db : Db) : Prop :=
  ∀ r ∈ db.recoveries, ∃ c ∈ db.credentials, c.credentialHash = r.credentialHash ∧
    ∃ seq, sequenceIn items r.signedManifest = some seq ∧ ⟨c.identityId, seq.toNat, r.signedManifest⟩ ∈ db.manifests

theorem Receipted.row {db db' : Db} (hl : Later db db') {r : RecoveryRow}
    (h : ∃ c ∈ db.credentials, c.credentialHash = r.credentialHash ∧
      ∃ seq, sequenceIn items r.signedManifest = some seq ∧ ⟨c.identityId, seq.toNat, r.signedManifest⟩ ∈ db.manifests) :
    ∃ c ∈ db'.credentials, c.credentialHash = r.credentialHash ∧
      ∃ seq, sequenceIn items r.signedManifest = some seq ∧ ⟨c.identityId, seq.toNat, r.signedManifest⟩ ∈ db'.manifests := by
  obtain ⟨c, hc, hhash, seq, hseq, hmem⟩ := h
  rcases hl.credentials c hc with hkept | hkept
  · exact ⟨c, hkept, hhash, seq, hseq, hl.manifests _ hmem⟩
  · exact ⟨_, hkept, hhash, seq, hseq, hl.manifests _ hmem⟩

theorem receipted_after {db : Db} (h : Receipted items db) {c : Call} (hn : Numbered items c) : Receipted items (after sha256 db c) := by
  have hl : Later db (after sha256 db c) := later_effect (call_effect c db)
  intro r hr
  by_cases hc : Part.recoveries ∈ writes c
  · obtain ⟨e, revoked, now, rfl⟩ := recovers_of_writes hc
    have hafter : after sha256 db (.recoverIdentity e revoked now) = (RelayStore.recoverIdentity e revoked now db).2 := rfl
    rw [hafter] at hr hl ⊢
    cases hcall : RelayStore.recoverIdentity e revoked now db with
    | mk result db' =>
    simp only [hcall] at hr hl
    cases result with
    | error x =>
      obtain rfl : db' = db := unitOfWork_error hcall
      exact h r hr
    | ok n =>
      obtain ⟨hrecorded, hsame | ⟨hrecovered, hins⟩⟩ := recoverIdentity_recorded hcall
      · obtain rfl : db' = db := hsame
        exact h r hr
      · rcases (Table.mem_insert hins).1 hr with hold | rfl
        · exact Receipted.row hl (h r hold)
        · obtain ⟨-, row, hrow, hhash, hid, -⟩ := hrecorded
          refine ⟨row, hrow, hhash, e.manifestSeq, hn, ?_⟩
          rw [hid]
          exact (Table.mem_insert hrecovered.manifests).2 (Or.inr rfl)
  · have hsame : (after sha256 db c).recoveries = db.recoveries := part_call c db hc
    rw [hsame] at hr
    exact Receipted.row hl (h r hr)

theorem acknowledged_stored {db : Db} (h : Receipted items db) {c : Call} (hn : Numbered items c) {m : RelayStore.ManifestRow}
    (hack : Acknowledges c db m) : m ∈ (after sha256 db c).manifests := by
  cases c with
  | redeemInvite tokenHash now e =>
    obtain ⟨rfl, db', hcall⟩ := hack
    show _ ∈ (redeemInvite tokenHash now e db).2.manifests
    rw [hcall]
    exact (Table.mem_insert (redeemInvite_ok hcall).manifests).2 (Or.inr rfl)
  | publishManifest identityId seq signed revoked =>
    obtain ⟨rfl, n, db', hcall⟩ := hack
    show _ ∈ (publishManifest identityId seq signed revoked db).2.manifests
    rw [hcall]
    exact (newestManifest_eq_some.1 (publishManifest_ok hcall).newest).1.1
  | recoverIdentity e revoked now =>
    obtain ⟨rfl, n, db', hcall⟩ := hack
    show _ ∈ (RelayStore.recoverIdentity e revoked now db).2.manifests
    rw [hcall]
    obtain ⟨⟨hr, row, hrow, hhash, hid, -⟩, rfl | ⟨hrecovered, -⟩⟩ := recoverIdentity_recorded hcall
    · obtain ⟨row', hrow', hhash', seq, hseq, hmem⟩ := h _ hr
      obtain rfl := Table.eq_of_key hrow hrow' (hhash.trans hhash'.symm)
      obtain rfl := Option.some.inj (hn.symm.trans hseq)
      rw [hid] at hmem
      exact hmem
    · exact (Table.mem_insert hrecovered.manifests).2 (Or.inr rfl)
  | _ => exact hack.elim

section run

variable (sha256) in
def storeAfter (calls : List Call) : Db := Trace.run (after sha256) .empty calls

theorem storeAfter_append (calls more : List Call) : storeAfter sha256 (calls ++ more) = Trace.run (after sha256) (storeAfter sha256 calls) more :=
  Trace.run_append _ _ _ _

theorem later_run (db : Db) (calls : List Call) : Later db (Trace.run (after sha256) db calls) :=
  Trace.invariant (I := Later db) (fun s c _ hs => hs.trans _ _ _ (later_effect (call_effect c s))) (Trace.meets_true db calls) (.refl db)

theorem recorded_run {identityId hash signedCred signedManifest : Bytes} {previous : Nat} {db : Db}
    (h : Recorded identityId hash signedCred signedManifest previous db) (calls : List Call) :
    Recorded identityId hash signedCred signedManifest previous (Trace.run (after sha256) db calls) :=
  Trace.invariant (I := Recorded identityId hash signedCred signedManifest previous) (fun _ c _ hs => recorded_after hs c)
    (Trace.meets_true db calls) h

theorem receipted_run {calls : List Call} (hn : ∀ c ∈ calls, Numbered items c) : Receipted items (storeAfter sha256 calls) := by
  have hm : Trace.Meets (after sha256) (fun _ c => Numbered items c ∧ True) .empty calls := (Trace.meets_true Db.empty calls).and_mem hn
  refine Trace.invariant (I := Receipted items) (fun db c hc hs => receipted_after hs hc.1) hm ?_
  exact fun r hr => absurd hr (Table.not_mem_empty r)

theorem newestSequence_later {db db' : Db} (h : Later db db') (identityId : Bytes) :
    newestSequence db identityId ≤ newestSequence db' identityId := by
  unfold newestSequence
  cases hn : newestManifest db identityId with
  | none => exact Nat.zero_le _
  | some m =>
    obtain ⟨⟨hm, hid⟩, -⟩ := newestManifest_eq_some.1 hn
    cases hn' : newestManifest db' identityId with
    | none => exact absurd hid (newestManifest_eq_none.1 hn' m (h.manifests m hm))
    | some m' => exact (newestManifest_eq_some.1 hn').2 m (h.manifests m hm) hid

/-- A row that some store of the run held or some transaction of it was acknowledged for. -/
def Stands (sha256 : Bytes → Bytes) (calls : List Call) (m : RelayStore.ManifestRow) : Prop :=
  (∃ before later, calls = before ++ later ∧ m ∈ (storeAfter sha256 before).manifests) ∨
    ∃ before c later, calls = before ++ c :: later ∧ Acknowledges c (storeAfter sha256 before) m

theorem Stands.stored {calls : List Call} (hn : ∀ c ∈ calls, Numbered items c) {m : RelayStore.ManifestRow}
    (h : Stands sha256 calls m) : m ∈ (storeAfter sha256 calls).manifests := by
  rcases h with ⟨before, later, rfl, hm⟩ | ⟨before, c, later, rfl, hack⟩
  · rw [storeAfter_append]
    exact (later_run _ _).manifests m hm
  · have hbefore : Receipted items (storeAfter sha256 before) := receipted_run fun c hc => hn c (List.mem_append_left _ hc)
    have hm : m ∈ (after sha256 (storeAfter sha256 before) c).manifests :=
      acknowledged_stored hbefore (hn c (List.mem_append_right _ List.mem_cons_self)) hack
    rw [storeAfter_append, Trace.run_cons]
    exact (later_run _ _).manifests m hm

/-- The requests carry the same signed bytes. -/
def SameBytes (e e' : Enrollment) : Prop :=
  e'.identityId = e.identityId ∧ e'.credentialHash = e.credentialHash ∧ e'.signedCred = e.signedCred ∧ e'.signedManifest = e.signedManifest

/-- How a relay keeps the chain over a run. -/
structure KeepsChain (sha256 : Bytes → Bytes) (calls : List Call) : Prop where
  increasing : ∀ before later, calls = before ++ later → ∀ identityId,
    newestSequence (storeAfter sha256 before) identityId ≤ newestSequence (storeAfter sha256 calls) identityId
  one : ∀ m m', Stands sha256 calls m → Stands sha256 calls m' → m.identityId = m'.identityId → m.sequence = m'.sequence →
    m.signed = m'.signed
  revoked : ∀ before later, calls = before ++ later → ∀ c ∈ (storeAfter sha256 before).credentials, c.status = .revoked →
    c ∈ (storeAfter sha256 calls).credentials
  repeated : ∀ before later e revoked now n db', calls = before ++ Call.recoverIdentity e revoked now :: later →
    RelayStore.recoverIdentity e revoked now (storeAfter sha256 before) = (.ok n, db') →
    ∀ e' revoked' now', SameBytes e e' → ∃ c ∈ (storeAfter sha256 calls).credentials, c.credentialHash = e.credentialHash ∧
      RelayStore.recoverIdentity e' revoked' now' (storeAfter sha256 calls) =
        if c.status = .active ∧ now' < c.notAfter then (.ok n, storeAfter sha256 calls)
        else (.error .requestConflict, storeAfter sha256 calls)
  refused : ∀ before c later, calls = before ++ c :: later → c.chains = true → ∀ x db',
    c.prog sha256 (storeAfter sha256 before) = (.error x, db') → db' = storeAfter sha256 before

theorem refused_unchanged {c : Call} (hc : c.chains = true) {db db' : Db} {x : StoreError} (h : c.prog sha256 db = (.error x, db')) :
    db' = db := by
  cases c with
  | redeemInvite tokenHash now e => exact unitOfWork_error h
  | publishManifest identityId seq signed revoked => exact unitOfWork_error h
  | recoverIdentity e revoked now => exact unitOfWork_error h
  | _ => cases hc

theorem keepsChain_of_numbered {calls : List Call} (hn : ∀ c ∈ calls, Numbered items c) : KeepsChain sha256 calls where
  increasing before later hcalls identityId := by
    rw [hcalls, storeAfter_append]
    exact newestSequence_later (later_run _ _) identityId
  one m m' hm hm' hid hseq := by
    have heq := Table.eq_of_key (hm.stored hn) (hm'.stored hn) (Prod.ext hid hseq)
    rw [heq]
  revoked before later hcalls c hc hrevoked := by
    rw [hcalls, storeAfter_append]
    rcases (later_run _ later : Later _ (Trace.run (after sha256) _ later)).credentials c hc with hkept | hkept
    · exact hkept
    · rw [← hrevoked] at hkept
      exact hkept
  repeated before later e revoked now n db' hcalls hcall e' revoked' now' hsame := by
    obtain ⟨hid, hhash, hcred, hmanifest⟩ := hsame
    have hafter : after sha256 (storeAfter sha256 before) (.recoverIdentity e revoked now) = db' := congrArg Prod.snd hcall
    have hrecorded : Recorded _ _ _ _ _ (Trace.run (after sha256) _ later) := recorded_run (recoverIdentity_recorded hcall).1 later
    rw [← hafter, ← Trace.run_cons, ← storeAfter_append, ← hcalls, ← hid, ← hhash, ← hcred, ← hmanifest] at hrecorded
    rw [← hhash]
    exact recover_recorded hrecorded
  refused before c later _ hc x db' hcall := refused_unchanged hc hcall

variable {cx : Crypto}

/-- The calls of the store that the sessions of a run make, in the order they are made. -/
def callsMade (items : CborItems) : World cx → List Event → List Call
  | _, [] => []
  | w, e :: evs => (e.call w).toList ++ callsMade items (step cx items w e) evs

theorem run_db (w : World cx) (evs : List Event) :
    (Trace.run (step cx items) w evs).db = Trace.run (after cx.sha256) w.db (callsMade items w evs) := by
  induction evs generalizing w with
  | nil => rfl
  | cons e evs ih =>
    have hdb : (step cx items w e).db = _ := step_db w e
    rw [Trace.run_cons, ih, hdb, callsMade, Trace.run_append]
    cases e.call w <;> rfl

theorem callsMade_numbered {w : World cx} (hw : Running items (fun _ => True) (fun _ _ => True) (fun _ _ _ => True) (fun _ _ => True) w)
    (evs : List Event) : ∀ c ∈ callsMade items w evs, Numbered items c := by
  induction evs generalizing w with
  | nil => exact fun c hc => absurd hc List.not_mem_nil
  | cons e evs ih =>
    intro c hc
    rcases List.mem_append.1 hc with hc | hc
    · exact numbered_of_allowed (call_allowed hw (Option.mem_toList.1 hc))
    · exact ih (running_step (admission_any _) handshake_any (honest_any e) (nextCall_any w e) hw) c hc

/-- A relay keeps the chain whatever its sessions send, in any interleaving. -/
theorem sessions_keep_chain (cx : Crypto) (items : CborItems) (evs : List Event) :
    (Trace.run (step cx items) (start cx) evs).db = storeAfter cx.sha256 (callsMade items (start cx) evs) ∧
      KeepsChain cx.sha256 (callsMade items (start cx) evs) :=
  ⟨run_db (start cx) evs, keepsChain_of_numbered (callsMade_numbered running_start evs)⟩

end run

section example_run

open Demo

def recovering : Enrollment where
  identityId := realmIdentity
  rootPublic := publicKey [2]
  credentialHash := deviceHash 20
  deviceId := [20]
  transportKey := deviceKey 20
  signedCred := deviceCredential 20
  notAfter := 1000
  manifestSeq := 2
  signedManifest := manifestTwo

def recovers : List Call :=
  [.createInvite (fingerprint inviteToken) "member" 1000 1,
    .redeemInvite (fingerprint inviteToken) 5 { recovering with
      credentialHash := deviceHash 10, deviceId := [10], transportKey := deviceKey 10, signedCred := deviceCredential 10,
      manifestSeq := 1, signedManifest := manifestOne },
    .recoverIdentity recovering [] 6, .publishManifest realmIdentity 3 manifestThree [deviceHash 20]]

theorem recovers_numbered : ∀ c ∈ recovers, Numbered cborItems c := by
  intro c hc
  simp only [recovers, List.mem_cons, List.not_mem_nil, or_false] at hc
  rcases hc with rfl | rfl | rfl | rfl
  · trivial
  · show sequenceIn cborItems manifestOne = some 1
    decide +kernel
  · show sequenceIn cborItems manifestTwo = some 2
    decide +kernel
  · show sequenceIn cborItems manifestThree = some 3
    decide +kernel

example : newestSequence (storeAfter fingerprint recovers) realmIdentity = 3 := by decide +kernel

end example_run

end Arveil.RelayServer
