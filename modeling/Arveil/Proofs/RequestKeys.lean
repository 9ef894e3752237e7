import Arveil.Proofs.KeyPackages
import Arveil.Sanity.Store

/-! Request keys act once. A key carries the time it was made at and is taken for seven days;
what it created is remembered for thirty-seven days. Whoever asks again meets the record, and
once the record is swept the key is too old. -/

namespace Arveil.RelayStore

open Prog RelayServer

/-- Times whose sums with the windows are signed 64-bit integers, as the clock's are. -/
def Representable (now : Int) : Prop := -2 ^ 63 + invitationRetention ≤ now ∧ now + 7 * 24 * 3600 < 2 ^ 63

theorem toNat_ofInt (now : Int) : ((UInt64.ofInt now).toNat : Int) = now % 2 ^ 64 := by
  unfold UInt64.ofInt
  rw [UInt64.toNat_ofNat']
  have hlt : (now % 2 ^ 64).toNat < 2 ^ 64 := by omega
  rw [Nat.mod_eq_of_lt hlt]
  omega

def keyTime (key : Bytes) : UInt64 := (key.take 8).foldl (fun n b => n * 256 + b.toUInt64) 0

theorem validRequestKey_window {key : Bytes} {now : Int} (h : validRequestKey key now = true) :
    ((keyTime key).toNat : Int) ≤ (now % 2 ^ 64 + 300) % 2 ^ 64 ∧
      now % 2 ^ 64 ≤ ((keyTime key).toNat + 7 * 24 * 3600) % 2 ^ 64 := by
  unfold validRequestKey at h
  split at h
  · cases h
  · simp only [Bool.and_eq_true, decide_eq_true_eq, UInt64.le_iff_toNat_le, UInt64.toNat_add] at h
    have hn := toNat_ofInt now
    have hk : ((key.take 8).foldl (fun n b => n * 256 + b.toUInt64) (0 : UInt64)) = keyTime key := rfl
    rw [hk] at h
    have h300 : (300 : UInt64).toNat = 300 := rfl
    have httl : invitationTtl.toNat = 604800 := rfl
    rw [h300, httl] at h
    omega

theorem validRequestKey_later {key : Bytes} {earlier now : Int} (h : validRequestKey key earlier = true) (ht : Representable earlier)
    (hn : Representable now) (hlater : earlier + invitationRetention < now) : validRequestKey key now = false := by
  by_contra hvalid
  rw [Bool.not_eq_false] at hvalid
  have h₁ := validRequestKey_window h
  have h₂ := validRequestKey_window hvalid
  have hk := (keyTime key).toNat_lt
  unfold Representable at ht hn
  unfold invitationRetention at ht hn hlater
  omega

/-- Times in order, as a clock gives them that is not set back. -/
structure Clocked (calls : List Call) : Prop where
  ordered : (calls.filterMap clock).Pairwise (· ≤ ·)
  representable : ∀ now ∈ calls.filterMap clock, Representable now

variable {sha256 : Bytes → Bytes}

def IssuedRow.asIssued (i : IssuedRow) : IssuedRow := { i with state := .pending, claimedIdentity := [], claimedAt := 0 }

theorem Moved.row {db db' : Db} {c : Call} (hm : Moved db db' c) {i : IssuedRow} (hi : i ∈ db.issued) :
    (∃ i' ∈ db'.issued, i'.asIssued = i.asIssued) ∨
      ∃ now, clock c = some now ∧ i.expiresAt + invitationRetention < now := by
  have hused : ∀ {hash identityId : Bytes} {now : Int} {t : Table IssuedRow.tokenHash}, t = (markUsed hash identityId now db).issued →
      ∃ i' ∈ t, i'.asIssued = i.asIssued := by
    rintro hash identityId now t rfl
    dsimp only [markUsed]
    by_cases hhash : i.tokenHash = hash
    · exact ⟨_, Table.mem_update_pos hi (decide_eq_true hhash), rfl⟩
    · exact ⟨i, Table.mem_update_neg hi (decide_eq_false hhash), rfl⟩
  cases hm with
  | same hinvites hissued hcounter hredemptions => exact Or.inl ⟨i, hissued ▸ hi, rfl⟩
  | issued hw => exact Or.inl ⟨i, (Table.mem_insert hw.issued).2 (Or.inl hi), rfl⟩
  | redeemed hw => exact Or.inl (hused hw.issued)
  | accepted hw => exact Or.inl (hused hw.issued)
  | @withdrawn credential hash now hw =>
    left
    rw [hw.issued]
    dsimp only [setInvitationState]
    by_cases hhash : i.tokenHash = hash
    · exact ⟨_, Table.mem_update_pos hi (decide_eq_true hhash), rfl⟩
    · exact ⟨i, Table.mem_update_neg hi (decide_eq_false hhash), rfl⟩
  | created hadd =>
    obtain ⟨t, -, rfl⟩ := Option.map_eq_some_iff.1 hadd
    exact Or.inl ⟨i, hi, rfl⟩
  | swept hdb =>
    subst hdb
    exact Or.inl ⟨i, hi, rfl⟩
  | @aged now hdb =>
    subst hdb
    by_cases hold : i.expiresAt < now - invitationRetention ∧ i.claimedAt < now - invitationRetention
    · exact Or.inr ⟨now, rfl, by omega⟩
    · refine Or.inl ⟨i, Table.mem_delete.2 ⟨hi, ?_⟩, rfl⟩
      simpa [not_and] using hold

theorem receipt_after {db : Db} {r : ClaimReceiptRow} (hr : r ∈ db.receipts) (c : Call) :
    r ∈ (after sha256 db c).receipts ∨ ∃ now, clock c = some now ∧ r.createdAt + invitationRetention < now := by
  have hpart : Part.receipts ∉ writes c → r ∈ (after sha256 db c).receipts := by
    intro hw
    have hreceipts : (after sha256 db c).receipts = db.receipts := part_call c db hw
    rw [hreceipts]
    exact hr
  cases c with
  | claimKeyPackageOnce credential key identity device now =>
    left
    have hs : Shelves sha256 db (after sha256 db (.claimKeyPackageOnce credential key identity device now)) _ := shelves_call _ db
    show r ∈ (claimKeyPackageOnce credential key identity device now db).2.receipts
    rcases hrun : claimKeyPackageOnce credential key identity device now db with ⟨_ | bytes, db'⟩
    · unfold claimKeyPackageOnce at hrun
      split at hrun
      · obtain ⟨-, rfl⟩ : _ ∧ db = db' := by simpa using hrun
        exact hr
      · rw [unitOfWork_error hrun]
        exact hr
    · rcases claimKeyPackageOnce_ok hrun with ⟨rfl, -⟩ | ⟨k, -, hclaims⟩
      · exact hr
      · exact (Table.mem_insert hclaims.receipts).2 (Or.inl hr)
  | sweepInvitationHistory now =>
    by_cases hold : r.createdAt < now - invitationRetention
    · exact Or.inr ⟨now, rfl, by omega⟩
    · exact Or.inl (Table.mem_delete.2 ⟨hr, by simpa using hold⟩)
  | _ => exact Or.inl (hpart (by simp [writes]))

theorem issued_run {db : Db} {i : IssuedRow} (hi : i ∈ db.issued) (calls : List Call) :
    (∃ i' ∈ (Trace.run (after sha256) db calls).issued, i'.asIssued = i.asIssued) ∨
      ∃ now ∈ calls.filterMap clock, i.expiresAt + invitationRetention < now := by
  induction calls generalizing db i with
  | nil => exact Or.inl ⟨i, hi, rfl⟩
  | cons c calls ih =>
    rcases (@moved_call sha256 c db).row hi with ⟨i', hi', hsame⟩ | ⟨now, hclock, hlate⟩
    · rcases ih hi' with ⟨i'', hi'', hsame'⟩ | ⟨now, hnow, hlate⟩
      · exact Or.inl ⟨i'', hi'', hsame'.trans hsame⟩
      · have hexp : i'.asIssued.expiresAt = i.asIssued.expiresAt := congrArg IssuedRow.expiresAt hsame
        obtain ⟨c', hc', hclock⟩ := List.mem_filterMap.1 hnow
        exact Or.inr ⟨now, List.mem_filterMap.2 ⟨c', List.mem_cons_of_mem _ hc', hclock⟩, hexp ▸ hlate⟩
    · exact Or.inr ⟨now, List.mem_filterMap.2 ⟨c, List.mem_cons_self, hclock⟩, hlate⟩

theorem receipt_run {db : Db} {r : ClaimReceiptRow} (hr : r ∈ db.receipts) (calls : List Call) :
    r ∈ (Trace.run (after sha256) db calls).receipts ∨ ∃ now ∈ calls.filterMap clock, r.createdAt + invitationRetention < now := by
  induction calls generalizing db with
  | nil => exact Or.inl hr
  | cons c calls ih =>
    rcases @receipt_after sha256 db r hr c with hr' | ⟨now, hclock, hlate⟩
    · refine (ih hr').imp_right ?_
      rintro ⟨now, hnow, hlate⟩
      obtain ⟨c', hc', hclock⟩ := List.mem_filterMap.1 hnow
      exact ⟨now, List.mem_filterMap.2 ⟨c', List.mem_cons_of_mem _ hc', hclock⟩, hlate⟩
    · exact Or.inr ⟨now, List.mem_filterMap.2 ⟨c, List.mem_cons_self, hclock⟩, hlate⟩

theorem Moved.row_from {db db' : Db} {c : Call} (hm : Moved db db' c) {i : IssuedRow} (hi : i ∈ db'.issued) :
    (∃ i₀ ∈ db.issued, i.asIssued = i₀.asIssued) ∨ ∃ hash ttl now, clock c = some now ∧ Issues i.requestKey hash ttl now i db db' := by
  have hused : ∀ {hash identityId : Bytes} {now : Int}, i ∈ (markUsed hash identityId now db).issued →
      ∃ i₀ ∈ db.issued, i.asIssued = i₀.asIssued := by
    intro hash identityId now hmem
    rcases mem_markUsed hmem with ⟨hmem, -⟩ | ⟨i₀, hi₀, -, rfl⟩
    · exact ⟨i, hmem, rfl⟩
    · exact ⟨i₀, hi₀, rfl⟩
  cases hm with
  | same hinvites hissued hcounter hredemptions => exact Or.inl ⟨i, hissued ▸ hi, rfl⟩
  | @issued credential key hash ttl now row hw =>
    rcases (Table.mem_insert hw.issued).1 hi with hi | rfl
    · exact Or.inl ⟨i, hi, rfl⟩
    · have hkey : i.requestKey = key := by rw [hw.row_eq]
      exact Or.inr ⟨hash, ttl, now, rfl, hkey ▸ hw⟩
  | redeemed hw => exact Or.inl (hused (hw.issued ▸ hi))
  | accepted hw => exact Or.inl (hused (hw.issued ▸ hi))
  | withdrawn hw =>
    rw [hw.issued] at hi
    rcases mem_setInvitationState hi with ⟨hi, -⟩ | ⟨i₀, hi₀, -, rfl⟩
    · exact Or.inl ⟨i, hi, rfl⟩
    · exact Or.inl ⟨i₀, hi₀, rfl⟩
  | created hadd =>
    obtain ⟨t, -, rfl⟩ := Option.map_eq_some_iff.1 hadd
    exact Or.inl ⟨i, hi, rfl⟩
  | swept hdb =>
    subst hdb
    exact Or.inl ⟨i, hi, rfl⟩
  | aged hdb =>
    subst hdb
    exact Or.inl ⟨i, (Table.mem_delete.1 hi).1, rfl⟩

def AskedOnce (db : Db) : Prop :=
  ∀ i ∈ db.issued, ∀ i' ∈ db.issued, i.issuer = i'.issuer → i.requestKey = i'.requestKey → i = i'

theorem IssuedRow.asIssued_eq {i i' : IssuedRow} (h : i.asIssued = i'.asIssued) :
    i.seq = i'.seq ∧ i.tokenHash = i'.tokenHash ∧ i.issuer = i'.issuer ∧ i.requestKey = i'.requestKey ∧
      i.expiresAt = i'.expiresAt ∧ i.ttl = i'.ttl := by
  simp only [asIssued, IssuedRow.mk.injEq] at h
  exact ⟨h.1, h.2.1, h.2.2.1, h.2.2.2.1, h.2.2.2.2.2.1, h.2.2.2.2.2.2.1⟩

theorem askedOnce_moved {db db' : Db} {c : Call} (hm : Moved db db' c) (h : AskedOnce db) : AskedOnce db' := by
  -- a row that was there had asked, so no other is issued for it
  have hnew : ∀ {i i' i₀ : IssuedRow} {hash : Bytes} {ttl : UInt64} {now : Int}, i₀ ∈ db.issued → i.asIssued = i₀.asIssued →
      Issues i'.requestKey hash ttl now i' db db' → i.issuer = i'.issuer → i.requestKey ≠ i'.requestKey := by
    intro i i' i₀ hash ttl now hi₀ hsame hw hissuer hkey
    obtain ⟨-, -, hissuer₀, hkey₀, -⟩ := IssuedRow.asIssued_eq hsame
    exact hw.asked i₀ hi₀ (hissuer₀.symm.trans hissuer) (hkey₀.symm.trans hkey)
  intro i hi i' hi' hissuer hkey
  rcases hm.row_from hi with ⟨j, hj, hsame⟩ | ⟨hash, ttl, now, -, hw⟩
  · rcases hm.row_from hi' with ⟨j', hj', hsame'⟩ | ⟨hash', ttl', now', -, hw'⟩
    · obtain ⟨-, hhash, hissuer₁, hkey₁, -⟩ := IssuedRow.asIssued_eq hsame
      obtain ⟨-, hhash', hissuer₂, hkey₂, -⟩ := IssuedRow.asIssued_eq hsame'
      obtain rfl := h j hj j' hj' (by rw [← hissuer₁, ← hissuer₂, hissuer]) (by rw [← hkey₁, ← hkey₂, hkey])
      exact Table.eq_of_key hi hi' (hhash.trans hhash'.symm)
    · exact absurd hkey (hnew hj hsame hw' hissuer)
  · rcases (Table.mem_insert hw.issued).1 hi' with hi' | rfl
    · exact absurd hkey.symm (hnew hi' rfl hw hissuer.symm)
    · rfl

theorem askedOnce_run (calls : List Call) : AskedOnce (Trace.run (after sha256) .empty calls) := by
  have hmeets : Trace.Meets (after sha256) (fun _ _ => True) .empty calls := Trace.meets_true _ calls
  exact Trace.invariant (I := AskedOnce) (fun db c _ h => askedOnce_moved (moved_call c db) h) hmeets
    fun i hi => absurd hi (Table.not_mem_empty i)

/-- In whose name a request for an invitation is made, or why it is refused before anything
is looked up. -/
def issuerOf (credential key hash : Bytes) (ttl : UInt64) (now : Int) (db : Db) : Except StoreError Bytes :=
  if hash.length ≠ 32 ∨ key.length ≠ 24 ∨ ttl = 0 ∨ invitationTtl < ttl then .error .inviteRequest
  else
    match (activeRole credential now db).1 with
    | .error e => .error e
    | .ok (actor, role) => if role ≠ "owner" then .error .invitePermission else .ok actor

/-- Whether a claim under a key is looked up, or why not. -/
def claimantOf (credential key identity device : Bytes) (now : Int) (db : Db) : Except StoreError Unit :=
  if key.length ≠ 24 ∨ identity.length ≠ 32 ∨ device.length ≠ 16 then .error .inviteRequest
  else
    match (activeRole credential now db).1 with
    | .error e => .error e
    | .ok _ => .ok ()

theorem activeRole_run (credential : Bytes) (now : Int) (db : Db) :
    (∃ a, activeRole credential now db = (.ok a, db)) ∨ activeRole credential now db = (.error .invitePermission, db) := by
  rcases h : activeRole credential now db with ⟨e | a, db'⟩
  · obtain rfl : e = .invitePermission :=
      failsOnly_require (P := fun e => e = StoreError.invitePermission) rfl _ db e db' h
    obtain rfl := ends_unchanged (fixes_activeRole credential now) h
    exact Or.inr rfl
  · obtain rfl := ends_unchanged (fixes_activeRole credential now) h
    exact Or.inl ⟨a, rfl⟩

section issue

variable {credential key hash : Bytes} {ttl : UInt64} {now : Int} {db : Db}

theorem issueInvitation_refused {e : StoreError} (h : issuerOf credential key hash ttl now db = .error e) :
    (e = .inviteRequest ∨ e = .invitePermission) ∧ issueInvitation credential key hash ttl now db = (.error e, db) := by
  unfold issuerOf at h
  unfold issueInvitation
  split at h
  · next hshape =>
    rw [if_pos hshape]
    obtain rfl := Except.error.inj h
    exact ⟨Or.inl rfl, rfl⟩
  · next hshape =>
    rw [if_neg hshape]
    rcases activeRole_run credential now db with ⟨⟨actor, role⟩, hrole⟩ | hrole
    · rw [hrole] at h
      dsimp only at h
      split at h
      · next howner =>
        obtain rfl := Except.error.inj h
        refine ⟨Or.inr rfl, ?_⟩
        simp only [unitOfWork, bind_run, hrole, when_pos howner, fail_run]
      · cases h
    · rw [hrole] at h
      obtain rfl := Except.error.inj h
      refine ⟨Or.inr rfl, ?_⟩
      rw [unitOfWork, bind_error hrole]

theorem issuerOf_ok {actor : Bytes} (h : issuerOf credential key hash ttl now db = .ok actor) :
    ¬ (hash.length ≠ 32 ∨ key.length ≠ 24 ∨ ttl = 0 ∨ invitationTtl < ttl) ∧
      activeRole credential now db = (.ok (actor, "owner"), db) := by
  unfold issuerOf at h
  split at h
  · cases h
  · next hshape =>
    refine ⟨hshape, ?_⟩
    rcases activeRole_run credential now db with ⟨⟨actor', role⟩, hrole⟩ | hrole
    · rw [hrole] at h
      dsimp only at h
      split at h
      · cases h
      · next howner =>
        obtain rfl := Except.ok.inj h
        rw [hrole, not_not.1 howner]
    · rw [hrole] at h
      cases h

theorem issueInvitation_recorded (hone : AskedOnce db) {i : IssuedRow} (hi : i ∈ db.issued)
    (h : issuerOf credential i.requestKey hash ttl now db = .ok i.issuer) :
    issueInvitation credential i.requestKey hash ttl now db =
      (if hash ≠ i.tokenHash ∨ ttl ≠ i.ttl then .error .requestConflict else .ok (scanInvitation i now), db) := by
  obtain ⟨hshape, hrole⟩ := issuerOf_ok h
  have hfind : db.issued.rows.find? (fun i' => i'.issuer = i.issuer && i'.requestKey = i.requestKey) = some i := by
    cases hf : db.issued.rows.find? (fun i' => i'.issuer = i.issuer && i'.requestKey = i.requestKey) with
    | none => exact absurd (List.find?_eq_none.1 hf i hi) (by simp)
    | some i' =>
      have hp := List.find?_some hf
      simp only [Bool.and_eq_true, decide_eq_true_eq] at hp
      rw [hone i' (List.mem_of_find?_eq_some hf) i hi hp.1 hp.2]
  unfold issueInvitation
  rw [if_neg hshape]
  by_cases hother : hash ≠ i.tokenHash ∨ ttl ≠ i.ttl
  · simp [unitOfWork, bind_run, hrole, when_neg, hfind, hother]
  · simp [unitOfWork, bind_run, hrole, when_neg, hfind, hother]

theorem issueInvitation_old {actor : Bytes} (h : issuerOf credential key hash ttl now db = .ok actor)
    (hnone : ∀ i ∈ db.issued, i.issuer = actor → i.requestKey ≠ key) (hold : validRequestKey key now = false) :
    issueInvitation credential key hash ttl now db = (.error .inviteInvalid, db) := by
  obtain ⟨hshape, hrole⟩ := issuerOf_ok h
  have hfind : db.issued.rows.find? (fun i' => i'.issuer = actor && i'.requestKey = key) = none := by
    refine List.find?_eq_none.2 fun i hi hp => ?_
    simp only [Bool.and_eq_true, decide_eq_true_eq] at hp
    exact hnone i hi hp.1 hp.2
  unfold issueInvitation
  rw [if_neg hshape]
  simp [unitOfWork, bind_run, hrole, when_neg, when_pos, hfind, hold]

end issue

section claim

variable {credential key identity device : Bytes} {now : Int} {db : Db}

theorem claimKeyPackageOnce_refused {e : StoreError} (h : claimantOf credential key identity device now db = .error e) :
    (e = .inviteRequest ∨ e = .invitePermission) ∧ claimKeyPackageOnce credential key identity device now db = (.error e, db) := by
  unfold claimantOf at h
  unfold claimKeyPackageOnce
  split at h
  · next hshape =>
    rw [if_pos hshape]
    obtain rfl := Except.error.inj h
    exact ⟨Or.inl rfl, rfl⟩
  · next hshape =>
    rw [if_neg hshape]
    rcases activeRole_run credential now db with ⟨a, hrole⟩ | hrole
    · rw [hrole] at h
      cases h
    · rw [hrole] at h
      obtain rfl := Except.error.inj h
      refine ⟨Or.inr rfl, ?_⟩
      rw [unitOfWork, bind_error hrole]

theorem claimantOf_ok (h : claimantOf credential key identity device now db = .ok ()) :
    ¬ (key.length ≠ 24 ∨ identity.length ≠ 32 ∨ device.length ≠ 16) ∧ ∃ a, activeRole credential now db = (.ok a, db) := by
  unfold claimantOf at h
  split at h
  · cases h
  · next hshape =>
    refine ⟨hshape, ?_⟩
    rcases activeRole_run credential now db with hrole | hrole
    · exact hrole
    · rw [hrole] at h
      cases h

theorem claimKeyPackageOnce_recorded {r : ClaimReceiptRow} (hr : r ∈ db.receipts)
    (h : claimantOf r.claimant r.requestKey identity device now db = .ok ()) :
    claimKeyPackageOnce r.claimant r.requestKey identity device now db =
      (if r.identityId ≠ identity ∨ r.deviceId ≠ device then .error .requestConflict else .ok r.package, db) := by
  obtain ⟨hshape, a, hrole⟩ := claimantOf_ok h
  have hget : db.receipts.get? (r.claimant, r.requestKey) = some r := Table.get?_eq_some.2 ⟨hr, rfl⟩
  unfold claimKeyPackageOnce
  rw [if_neg hshape]
  by_cases hother : r.identityId ≠ identity ∨ r.deviceId ≠ device
  · simp [unitOfWork, bind_run, hrole, hget, hother]
  · simp [unitOfWork, bind_run, hrole, hget, hother]

theorem claimKeyPackageOnce_old (h : claimantOf credential key identity device now db = .ok ())
    (hnone : ∀ r ∈ db.receipts, r.claimant = credential → r.requestKey ≠ key) (hold : validRequestKey key now = false) :
    claimKeyPackageOnce credential key identity device now db = (.error .inviteInvalid, db) := by
  obtain ⟨hshape, a, hrole⟩ := claimantOf_ok h
  have hget : db.receipts.get? (credential, key) = none := by
    refine Table.get?_eq_none.2 fun r hr hkey => ?_
    obtain ⟨hclaimant, hrequest⟩ := Prod.mk.inj hkey
    exact hnone r hr hclaimant hrequest
  unfold claimKeyPackageOnce
  rw [if_neg hshape]
  simp [unitOfWork, bind_run, hrole, when_pos, hget, hold]

end claim

/-- A call creates an invitation: a row with a number that no row had. -/
def Creates (sha256 : Bytes → Bytes) (db : Db) (c : Call) (i : IssuedRow) : Prop :=
  i ∈ (after sha256 db c).issued ∧ ∀ j ∈ db.issued, j.seq ≠ i.seq

/-- A claim under a key consumes a package. -/
structure Consumes (sha256 : Bytes → Bytes) (claimant key identity device : Bytes) (db : Db) (c : Call) (k : KeyPackageRow) : Prop where
  call : ∃ now, c = .claimKeyPackageOnce claimant key identity device now
  available : k ∈ db.keyPackages ∧ k.consumed = false
  taken : { k with consumed := true } ∈ (after sha256 db c).keyPackages

theorem Creates.issues {db : Db} {c : Call} {i : IssuedRow} (h : Creates sha256 db c i) :
    ∃ hash ttl now, clock c = some now ∧ Issues i.requestKey hash ttl now i db (after sha256 db c) := by
  refine ((@moved_call sha256 c db).row_from h.1).resolve_left ?_
  rintro ⟨i₀, hi₀, hsame⟩
  exact h.2 i₀ hi₀ (IssuedRow.asIssued_eq hsame).1.symm

theorem Consumes.claims {claimant key identity device : Bytes} {db : Db} {c : Call} {k : KeyPackageRow}
    (h : Consumes sha256 claimant key identity device db c k) :
    ∃ now, clock c = some now ∧ ClaimsOnce claimant key identity device now k db (after sha256 db c) := by
  obtain ⟨now, rfl⟩ := h.call
  obtain ⟨hk, hfree⟩ := h.available
  have hnew : { k with consumed := true } ∉ db.keyPackages := by
    intro hmem
    have hsame := congrArg KeyPackageRow.consumed (Table.eq_of_key hmem hk rfl)
    rw [hfree] at hsame
    cases hsame
  have hs : Shelves sha256 db (after sha256 db (.claimKeyPackageOnce claimant key identity device now)) _ := shelves_call _ db
  refine ⟨now, rfl, ?_⟩
  cases hs with
  | same hpackages hr => exact absurd (hpackages ▸ h.taken) hnew
  | @claimedOnce _ _ _ _ _ k' hclaims =>
    have htaken := h.taken
    rw [hclaims.keyPackages] at htaken
    rcases mem_consume htaken with ⟨hmem, -⟩ | ⟨k₀, hk₀, href, heq⟩
    · exact absurd hmem hnew
    · have hsame : k.ref = k₀.ref := (KeyPackageRow.mk.inj heq).1
      obtain ⟨hmem, -⟩ := oldestPackage_spec hclaims.oldest
      rw [Table.eq_of_key hk hmem (hsame.trans href)]
      exact hclaims

theorem ClaimsOnce.consumes {claimant key identity device : Bytes} {now : Int} {db : Db} {c : Call} {k : KeyPackageRow}
    (h : ClaimsOnce claimant key identity device now k db (after sha256 db c))
    (hc : c = .claimKeyPackageOnce claimant key identity device now) : Consumes sha256 claimant key identity device db c k := by
  obtain ⟨hmem, -, -, hfree⟩ := oldestPackage_spec h.oldest
  refine ⟨⟨now, hc⟩, ⟨hmem, hfree⟩, ?_⟩
  rw [h.keyPackages]
  exact mem_consume_self hmem rfl

theorem Shelves.receipt_from {db db' : Db} {c : Call} (hs : Shelves sha256 db db' c) {r : ClaimReceiptRow} (hr : r ∈ db'.receipts) :
    r ∈ db.receipts ∨ ∃ k, c = .claimKeyPackageOnce r.claimant r.requestKey r.identityId r.deviceId r.createdAt ∧
      ClaimsOnce r.claimant r.requestKey r.identityId r.deviceId r.createdAt k db db' := by
  cases hs with
  | same hk hrec => exact Or.inl (hrec r hr)
  | published hgrown hbound hrec => exact Or.inl (hrec ▸ hr)
  | claimed hold hdb =>
    subst hdb
    exact Or.inl hr
  | @claimedOnce credential key identity device now k hclaims =>
    rcases (Table.mem_insert hclaims.receipts).1 hr with hr | rfl
    · exact Or.inl hr
    · exact Or.inr ⟨k, rfl, hclaims⟩

/-- How a request that has created `i` is answered from then on. It is refused when it is
malformed or its credential may not issue; else it is answered with what it created, or as a
conflict, and once that is swept, as an old key. Nothing is created again, and nothing
changes. -/
structure IssuedOnce (sha256 : Bytes → Bytes) (i : IssuedRow) (db : Db) (c : Call) : Prop where
  once : ∀ i', Creates sha256 db c i' → i'.issuer = i.issuer → i'.requestKey ≠ i.requestKey
  again : ∀ credential hash ttl now, c = .issueInvitation credential i.requestKey hash ttl now →
    match issuerOf credential i.requestKey hash ttl now db with
    | .error e => (e = .inviteRequest ∨ e = .invitePermission) ∧ issueInvitation credential i.requestKey hash ttl now db = (.error e, db)
    | .ok actor => actor = i.issuer →
        (∃ i' ∈ db.issued, i'.asIssued = i.asIssued ∧ issueInvitation credential i.requestKey hash ttl now db =
          (if hash ≠ i.tokenHash ∨ ttl ≠ i.ttl then .error .requestConflict else .ok (scanInvitation i' now), db)) ∨
        ((∀ i' ∈ db.issued, i'.issuer = i.issuer → i'.requestKey ≠ i.requestKey) ∧
          issueInvitation credential i.requestKey hash ttl now db = (.error .inviteInvalid, db))

/-- The same for a claim that has consumed a package. -/
structure ClaimedOnce (sha256 : Bytes → Bytes) (claimant key identity device : Bytes) (k : KeyPackageRow) (db : Db) (c : Call) : Prop where
  once : ∀ identity' device' k', ¬ Consumes sha256 claimant key identity' device' db c k'
  again : ∀ identity' device' now, c = .claimKeyPackageOnce claimant key identity' device' now →
    match claimantOf claimant key identity' device' now db with
    | .error e => (e = .inviteRequest ∨ e = .invitePermission) ∧
        claimKeyPackageOnce claimant key identity' device' now db = (.error e, db)
    | .ok _ =>
        ((∃ r ∈ db.receipts, r.claimant = claimant ∧ r.requestKey = key) ∧ claimKeyPackageOnce claimant key identity' device' now db =
          (if identity ≠ identity' ∨ device ≠ device' then .error .requestConflict else .ok k.bytes, db)) ∨
        ((∀ r ∈ db.receipts, r.claimant = claimant → r.requestKey ≠ key) ∧
          claimKeyPackageOnce claimant key identity' device' now db = (.error .inviteInvalid, db))

section order

variable {before more : List Call} {c c' : Call} (h : Clocked (before ++ c :: (more ++ [c'])))
include h

theorem Clocked.first {now : Int} (hc : clock c = some now) : Representable now :=
  h.representable now (List.mem_filterMap.2 ⟨c, by simp, hc⟩)

theorem Clocked.last {now : Int} (hc : clock c' = some now) : Representable now :=
  h.representable now (List.mem_filterMap.2 ⟨c', by simp, hc⟩)

theorem Clocked.between {now now' : Int} (hc : clock c' = some now') (hnow : now ∈ more.filterMap clock) : now ≤ now' := by
  have hordered := h.ordered
  rw [List.filterMap_append, ← List.singleton_append, List.filterMap_append, List.filterMap_append] at hordered
  have htail := (List.pairwise_append.1 (List.pairwise_append.1 hordered).2.1).2.1
  exact (List.pairwise_append.1 htail).2.2 now hnow now' (List.mem_filterMap.2 ⟨c', by simp, hc⟩)

end order

theorem Clocked.upto {before more more' : List Call} {c d c' : Call} (h : Clocked (before ++ c :: ((more ++ d :: more') ++ [c']))) :
    Clocked (before ++ c :: (more ++ [d])) := by
  have hsub : (before ++ c :: (more ++ [d])).Sublist (before ++ c :: ((more ++ d :: more') ++ [c'])) := by
    simp only [List.append_assoc, List.cons_append]
    refine (List.append_sublist_append_left _).2 (List.Sublist.cons_cons _ ((List.append_sublist_append_left _).2 ?_))
    exact List.Sublist.cons_cons _ (List.nil_sublist _)
  exact ⟨h.ordered.sublist (hsub.filterMap clock), fun now hnow => h.representable now ((hsub.filterMap clock).subset hnow)⟩

section created

variable {before more : List Call} {c c' : Call} {i : IssuedRow}

/-- The row is there, or its key is no longer taken. -/
theorem issued_or_old (h : Clocked (before ++ c :: (more ++ [c']))) (hi : Creates sha256 (Trace.run (after sha256) .empty before) c i) :
    (∃ i' ∈ (Trace.run (after sha256) .empty (before ++ c :: more)).issued, i'.asIssued = i.asIssued) ∨
      ∀ now, clock c' = some now → validRequestKey i.requestKey now = false := by
  obtain ⟨hash, ttl, now, hclock, hissues⟩ := hi.issues
  have hexp : now ≤ i.expiresAt := by
    rw [hissues.row_eq]
    exact Int.le_add_of_nonneg_right (Int.natCast_nonneg _)
  rw [Trace.run_append, Trace.run_cons]
  refine (issued_run hi.1 more).imp_right ?_
  rintro ⟨late, hlate, hpast⟩ now' hclock'
  have hle := h.between hclock' hlate
  exact validRequestKey_later hissues.valid (h.first hclock) (h.last hclock') (by omega)

theorem created_once (h : Clocked (before ++ c :: (more ++ [c']))) (hi : Creates sha256 (Trace.run (after sha256) .empty before) c i)
    {i' : IssuedRow} (hi' : Creates sha256 (Trace.run (after sha256) .empty (before ++ c :: more)) c' i')
    (hissuer : i'.issuer = i.issuer) : i'.requestKey ≠ i.requestKey := by
  intro hkey
  obtain ⟨hash, ttl, now, hclock, hissues⟩ := hi'.issues
  rcases issued_or_old h hi with ⟨j, hj, hsame⟩ | hold
  · obtain ⟨-, -, hissuer₁, hkey₁, -⟩ := IssuedRow.asIssued_eq hsame
    exact hissues.asked j hj (hissuer₁.trans hissuer.symm) (hkey₁.trans hkey.symm)
  · have hvalid := hissues.valid
    rw [hkey, hold now hclock] at hvalid
    cases hvalid

theorem only_created (h : Clocked (before ++ c :: (more ++ [c']))) (hi : Creates sha256 (Trace.run (after sha256) .empty before) c i) :
    ∀ i' ∈ (Trace.run (after sha256) .empty (before ++ c :: more)).issued, i'.issuer = i.issuer → i'.requestKey = i.requestKey →
      i'.asIssued = i.asIssued := by
  have hmeets : Trace.Meets (after sha256) (fun db d => ∀ i', Creates sha256 db d i' → i'.issuer = i.issuer → i'.requestKey ≠ i.requestKey)
      (after sha256 (Trace.run (after sha256) .empty before) c) more := by
    refine Trace.meets_of_splits fun more₁ d more₂ hmore i' hi' hissuer => ?_
    subst hmore
    refine created_once h.upto hi ?_ hissuer
    rw [Trace.run_append, Trace.run_cons]
    exact hi'
  rw [Trace.run_append, Trace.run_cons]
  refine Trace.invariant (I := fun db => Kept db ∧ ∀ i' ∈ db.issued, i'.issuer = i.issuer → i'.requestKey = i.requestKey → i'.asIssued = i.asIssued)
    (fun db d hd ⟨hk, hall⟩ => ⟨kept_after hk d, fun i' hi' hissuer hkey => ?_⟩) hmeets
    ⟨kept_after (kept_run kept_empty before) c, fun i' hi' hissuer hkey => ?_⟩ |>.2
  · rcases (@moved_call sha256 d db).row_from hi' with ⟨i₀, hi₀, hsame⟩ | ⟨hash, ttl, now, -, hissues⟩
    · obtain ⟨-, -, hissuer₁, hkey₁, -⟩ := IssuedRow.asIssued_eq hsame
      exact hsame.trans (hall i₀ hi₀ (hissuer₁.symm.trans hissuer) (hkey₁.symm.trans hkey))
    · refine absurd hkey (hd i' ⟨hi', fun j hj => ?_⟩ hissuer)
      rw [hissues.row_eq]
      exact (hk.counted.below j hj).ne
  · obtain ⟨hash, ttl, now, -, hissues⟩ := hi.issues
    rcases (Table.mem_insert hissues.issued).1 hi' with hold | rfl
    · exact absurd hkey (hissues.asked i' hold hissuer)
    · rfl

theorem issuedOnce_later (h : Clocked (before ++ c :: (more ++ [c']))) (hi : Creates sha256 (Trace.run (after sha256) .empty before) c i) :
    IssuedOnce sha256 i (Trace.run (after sha256) .empty (before ++ c :: more)) c' := by
  refine ⟨fun i' hi' hissuer => created_once h hi hi' hissuer, fun credential hash ttl now hc => ?_⟩
  split
  · next e herror => exact issueInvitation_refused herror
  · next actor hactor =>
    rintro rfl
    by_cases hany : ∃ j ∈ (Trace.run (after sha256) .empty (before ++ c :: more)).issued, j.issuer = i.issuer ∧ j.requestKey = i.requestKey
    · obtain ⟨j, hj, hissuer, hkey⟩ := hany
      have hsame := only_created h hi j hj hissuer hkey
      obtain ⟨-, hhash, -, -, -, httl⟩ := IssuedRow.asIssued_eq hsame
      refine Or.inl ⟨j, hj, hsame, ?_⟩
      rw [← hkey, ← hissuer] at hactor
      rw [← hkey, ← hhash, ← httl]
      exact issueInvitation_recorded (askedOnce_run _) hj hactor
    · have hnone : ∀ j ∈ (Trace.run (after sha256) .empty (before ++ c :: more)).issued, j.issuer = i.issuer →
          j.requestKey ≠ i.requestKey := fun j hj hissuer hkey => hany ⟨j, hj, hissuer, hkey⟩
      refine Or.inr ⟨hnone, issueInvitation_old hactor hnone ?_⟩
      rcases issued_or_old h hi with ⟨j, hj, hsame⟩ | hold
      · obtain ⟨-, -, hissuer, hkey, -⟩ := IssuedRow.asIssued_eq hsame
        exact absurd hkey (hnone j hj hissuer)
      · exact hold now (by rw [hc]; rfl)

end created

section consumed

variable {before more : List Call} {c c' : Call} {claimant key identity device : Bytes} {k : KeyPackageRow}

theorem receipt_or_old (h : Clocked (before ++ c :: (more ++ [c'])))
    (hk : Consumes sha256 claimant key identity device (Trace.run (after sha256) .empty before) c k) :
    (∃ t, ⟨claimant, key, identity, device, k.bytes, t⟩ ∈ (Trace.run (after sha256) .empty (before ++ c :: more)).receipts) ∨
      ∀ now, clock c' = some now → validRequestKey key now = false := by
  obtain ⟨now, hclock, hclaims⟩ := hk.claims
  have hr := (Table.mem_insert hclaims.receipts).2 (Or.inr rfl)
  rw [Trace.run_append, Trace.run_cons]
  rcases receipt_run hr more with hstays | ⟨late, hlate, hpast⟩
  · exact Or.inl ⟨now, hstays⟩
  · refine Or.inr fun now' hclock' => ?_
    have hle := h.between hclock' hlate
    exact validRequestKey_later hclaims.valid (h.first hclock) (h.last hclock') (by dsimp only at hpast; omega)

theorem consumed_once (h : Clocked (before ++ c :: (more ++ [c'])))
    (hk : Consumes sha256 claimant key identity device (Trace.run (after sha256) .empty before) c k) (identity' device' : Bytes)
    (k' : KeyPackageRow) : ¬ Consumes sha256 claimant key identity' device' (Trace.run (after sha256) .empty (before ++ c :: more)) c' k' := by
  intro hk'
  obtain ⟨now, hclock, hclaims⟩ := hk'.claims
  rcases receipt_or_old h hk with ⟨t, hr⟩ | hold
  · exact hclaims.fresh _ hr rfl rfl
  · have hvalid := hclaims.valid
    rw [hold now hclock] at hvalid
    cases hvalid

theorem only_consumed (h : Clocked (before ++ c :: (more ++ [c'])))
    (hk : Consumes sha256 claimant key identity device (Trace.run (after sha256) .empty before) c k) :
    ∀ r ∈ (Trace.run (after sha256) .empty (before ++ c :: more)).receipts, r.claimant = claimant → r.requestKey = key →
      r.identityId = identity ∧ r.deviceId = device ∧ r.package = k.bytes := by
  have hmeets : Trace.Meets (after sha256) (fun db d => ∀ identity' device' k', ¬ Consumes sha256 claimant key identity' device' db d k')
      (after sha256 (Trace.run (after sha256) .empty before) c) more := by
    refine Trace.meets_of_splits fun more₁ d more₂ hmore identity' device' k' hk' => ?_
    subst hmore
    refine consumed_once h.upto hk identity' device' k' ?_
    rw [Trace.run_append, Trace.run_cons]
    exact hk'
  rw [Trace.run_append, Trace.run_cons]
  refine Trace.invariant (I := fun db => ∀ r ∈ db.receipts, r.claimant = claimant → r.requestKey = key →
    r.identityId = identity ∧ r.deviceId = device ∧ r.package = k.bytes) (fun db d hd hall r hr hclaimant hkey => ?_) hmeets
    (fun r hr hclaimant hkey => ?_)
  · rcases (@shelves_call sha256 d db).receipt_from hr with hr | ⟨k', hc, hclaims⟩
    · exact hall r hr hclaimant hkey
    · subst hclaimant hkey
      exact absurd (hclaims.consumes hc) (hd _ _ k')
  · obtain ⟨now, -, hclaims⟩ := hk.claims
    rcases (Table.mem_insert hclaims.receipts).1 hr with hold | rfl
    · exact absurd hkey (hclaims.fresh r hold hclaimant)
    · exact ⟨rfl, rfl, rfl⟩

theorem claimedOnce_later (h : Clocked (before ++ c :: (more ++ [c'])))
    (hk : Consumes sha256 claimant key identity device (Trace.run (after sha256) .empty before) c k) :
    ClaimedOnce sha256 claimant key identity device k (Trace.run (after sha256) .empty (before ++ c :: more)) c' := by
  refine ⟨consumed_once h hk, fun identity' device' now hc => ?_⟩
  split
  · next e herror => exact claimKeyPackageOnce_refused herror
  · next hclaimant =>
    by_cases hany : ∃ r ∈ (Trace.run (after sha256) .empty (before ++ c :: more)).receipts, r.claimant = claimant ∧ r.requestKey = key
    · refine Or.inl ⟨hany, ?_⟩
      obtain ⟨r, hr, rfl, rfl⟩ := hany
      obtain ⟨rfl, rfl, hpackage⟩ := only_consumed h hk r hr rfl rfl
      rw [← hpackage]
      exact claimKeyPackageOnce_recorded hr hclaimant
    · have hnone : ∀ r ∈ (Trace.run (after sha256) .empty (before ++ c :: more)).receipts, r.claimant = claimant → r.requestKey ≠ key :=
        fun r hr hclaimant hkey => hany ⟨r, hr, hclaimant, hkey⟩
      refine Or.inr ⟨hnone, claimKeyPackageOnce_old hclaimant hnone ?_⟩
      rcases receipt_or_old h hk with ⟨t, hr⟩ | hold
      · exact absurd rfl (hnone _ hr rfl)
      · exact hold now (by rw [hc]; rfl)

end consumed

/-- Along a clock that is not set back, one key of an issuer creates one invitation and one key
of a claimant consumes one package; what a call that repeats the key is answered with and
leaves behind. -/
theorem request_keys_act_once (sha256 : Bytes → Bytes) (before more : List Call) (c c' : Call)
    (h : Clocked (before ++ c :: (more ++ [c']))) :
    (∀ i, Creates sha256 (Trace.run (after sha256) .empty before) c i →
      IssuedOnce sha256 i (Trace.run (after sha256) .empty (before ++ c :: more)) c') ∧
    ∀ claimant key identity device k, Consumes sha256 claimant key identity device (Trace.run (after sha256) .empty before) c k →
      ClaimedOnce sha256 claimant key identity device k (Trace.run (after sha256) .empty (before ++ c :: more)) c' :=
  ⟨fun _ hi => issuedOnce_later h hi, fun _ _ _ _ _ hk => claimedOnce_later h hk⟩

section example_run

open Demo

def keyAtTen : Bytes := [0, 0, 0, 0, 0, 0, 0, 10] ++ List.replicate 16 7

def opened : List Call :=
  joins 1 ++ joins 2 ++ ([.makeOwner (memberId 1), .publishKeyPackages (memberId 2) (deviceId 2) [[8, 8]] 6] : List Call)

def issueOne (now : Int) : Call := .issueInvitation [1, 2] keyAtTen (List.replicate 32 5) 3600 now

def claimOne (now : Int) : Call := .claimKeyPackageOnce [1, 2] keyAtTen (memberId 2) (deviceId 2) now

instance (now : Int) : Decidable (Representable now) := inferInstanceAs (Decidable (_ ∧ _))

instance (calls : List Call) : Decidable (Clocked calls) :=
  decidable_of_iff ((calls.filterMap clock).Pairwise (· ≤ ·) ∧ ∀ now ∈ calls.filterMap clock, Representable now)
    ⟨fun h => ⟨h.1, h.2⟩, fun h => ⟨h.1, h.2⟩⟩

def issuedOne : IssuedRow := ⟨1, List.replicate 32 5, memberId 1, keyAtTen, 10, 3610, 3600, .pending, [], 0⟩

/-- The owner asks twice for one invitation, and twice for one package. -/
theorem owner_asks_twice :
    (Creates id (Trace.run (after id) .empty opened) (issueOne 10) issuedOne ∧
      IssuedOnce id issuedOne (Trace.run (after id) .empty (opened ++ issueOne 10 :: [])) (issueOne 20)) ∧
    Consumes id [1, 2] keyAtTen (memberId 2) (deviceId 2) (Trace.run (after id) .empty opened) (claimOne 10)
        ⟨[8, 8], memberId 2, deviceId 2, [8, 8], 6, false⟩ ∧
      ClaimedOnce id [1, 2] keyAtTen (memberId 2) (deviceId 2) ⟨[8, 8], memberId 2, deviceId 2, [8, 8], 6, false⟩
        (Trace.run (after id) .empty (opened ++ claimOne 10 :: [])) (claimOne 20) := by
  have hissued : Creates id (Trace.run (after id) .empty opened) (issueOne 10) issuedOne :=
    ⟨by decide +kernel, by decide +kernel⟩
  have hconsumed : Consumes id [1, 2] keyAtTen (memberId 2) (deviceId 2) (Trace.run (after id) .empty opened) (claimOne 10)
      ⟨[8, 8], memberId 2, deviceId 2, [8, 8], 6, false⟩ := ⟨⟨10, rfl⟩, by decide +kernel, by decide +kernel⟩
  exact ⟨⟨hissued, (request_keys_act_once id opened [] (issueOne 10) (issueOne 20) (by decide +kernel)).1 _ hissued⟩, hconsumed,
    (request_keys_act_once id opened [] (claimOne 10) (claimOne 20) (by decide +kernel)).2 _ _ _ _ _ hconsumed⟩

/-- The owner's device is revoked between the request and its repeat: the invitation is still
recorded, and the repeat is answered with neither it nor a conflict. -/
theorem revoked_owner_asks_again :
    Clocked (opened ++ issueOne 10 :: ([.publishManifest (memberId 1) 2 [9] [[1, 2]]] ++ [issueOne 20])) ∧
    Creates id (Trace.run (after id) .empty opened) (issueOne 10) issuedOne ∧
    issuedOne ∈ (Trace.run (after id) .empty (opened ++ issueOne 10 :: [.publishManifest (memberId 1) 2 [9] [[1, 2]]])).issued ∧
    (issueInvitation [1, 2] keyAtTen (List.replicate 32 5) 3600 20
      (Trace.run (after id) .empty (opened ++ issueOne 10 :: [.publishManifest (memberId 1) 2 [9] [[1, 2]]]))).1 = .error .invitePermission :=
  ⟨by decide +kernel, ⟨by decide +kernel, by decide +kernel⟩, by decide +kernel, by decide +kernel⟩

end example_run

end Arveil.RelayStore
