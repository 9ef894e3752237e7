import Arveil.Proofs.RelayStore
import Arveil.Lib.Trace

/-! What a transaction on invitations does, and that the invites, the issued invitations and the
redemptions agree after every call. -/

namespace Arveil.RelayStore

open Prog RelayServer

/-- A personal invitation is issued: its invite has one use, and nobody has redeemed it. -/
structure Issues (key hash : Bytes) (ttl : UInt64) (now : Int) (row : IssuedRow) (db db' : Db) : Prop where
  row_eq : row = ⟨db.nextIssued, hash, row.issuer, key, now, now + ttl.toNat, ttl, .pending, [], 0⟩
  asked : ∀ i ∈ db.issued, i.issuer = row.issuer → i.requestKey ≠ key
  valid : validRequestKey key now = true
  unredeemed : ∀ r ∈ db.redemptions, r.tokenHash ≠ hash
  invites : db.invites.insert ⟨hash, "member", now + ttl.toNat, 1⟩ = some db'.invites
  issued : db.issued.insert row = some db'.issued
  counter : db'.nextIssued = db.nextIssued + 1
  redemptions : db'.redemptions = db.redemptions

structure Redeems (tokenHash : Bytes) (now : Int) (e : Enrollment) (db db' : Db) : Prop where
  usable : ∃ v ∈ db.invites, v.tokenHash = tokenHash ∧ 0 < v.usesLeft
  invites : db'.invites = (setUsesLeft tokenHash (· - 1) db).invites
  issued : db'.issued = (markUsed tokenHash e.identityId now db).issued
  counter : db'.nextIssued = db.nextIssued
  redemptions : db.redemptions.insert ⟨tokenHash, e.identityId, e.credentialHash⟩ = some db'.redemptions

structure Accepts (hash actor credential : Bytes) (now : Int) (db db' : Db) : Prop where
  pending : ∃ i ∈ db.issued, i.tokenHash = hash ∧ i.state = .pending
  invites : db'.invites = (setUsesLeft hash (fun _ => 0) db).invites
  issued : db'.issued = (markUsed hash actor now db).issued
  counter : db'.nextIssued = db.nextIssued
  redemptions : db.redemptions.insert ⟨hash, actor, credential⟩ = some db'.redemptions

structure Withdraws (hash : Bytes) (db db' : Db) : Prop where
  unused : ∃ i ∈ db.issued, i.tokenHash = hash ∧ i.state ≠ .used ∧ i.state ≠ .revoked
  invites : db'.invites = (setUsesLeft hash (fun _ => 0) db).invites
  issued : db'.issued = (setInvitationState hash .revoked db).issued
  counter : db'.nextIssued = db.nextIssued
  redemptions : db'.redemptions = db.redemptions

theorem activeRole_eq_ok {credential : Bytes} {now : Int} {db db' : Db} {actor : Bytes} {role : String}
    (h : activeRole credential now db = (.ok (actor, role), db')) :
    db = db' ∧ ∃ c ∈ db.credentials, c.credentialHash = credential ∧ c.identityId = actor ∧ c.status = .active ∧ now ≤ c.notAfter := by
  obtain ⟨ha, rfl⟩ := require_eq_ok.1 h
  obtain ⟨c, hc, ha⟩ := Option.bind_eq_some_iff.1 ha
  obtain ⟨m, hm, ha⟩ := Option.bind_eq_some_iff.1 ha
  obtain ⟨hcred, hp⟩ := Option.filter_eq_some_iff.1 hc
  obtain ⟨hmember, -⟩ := Option.filter_eq_some_iff.1 hm
  obtain ⟨hmem, hhash⟩ := Table.get?_eq_some.1 hcred
  obtain ⟨-, hmid⟩ := Table.get?_eq_some.1 hmember
  obtain ⟨rfl, -⟩ := Prod.mk.inj (Option.some.inj ha)
  simp only [Bool.and_eq_true, decide_eq_true_eq] at hp
  exact ⟨rfl, c, hmem, hhash, hmid.symm, hp.1, hp.2⟩

theorem issueInvitation_ok {credential key hash : Bytes} {ttl : UInt64} {now : Int} {db db' : Db} {inv : Invitation}
    (h : issueInvitation credential key hash ttl now db = (.ok inv, db')) :
    (db' = db ∧ ∃ i ∈ db.issued, i.requestKey = key ∧ i.tokenHash = hash ∧ i.ttl = ttl ∧ inv = scanInvitation i now) ∨
      ∃ row, Issues key hash ttl now row db db' := by
  unfold issueInvitation at h
  split at h
  · exact absurd h fail_ne_ok
  rw [unitOfWork_eq_ok, bind_eq_ok] at h
  obtain ⟨⟨actor, role⟩, db₁, hrole, h⟩ := h
  obtain ⟨rfl, -⟩ := activeRole_eq_ok hrole
  simp only [bind_eq_ok, when_eq_ok] at h
  obtain ⟨_, db₁, howner, o, db₂, hread, h⟩ := h
  obtain ⟨-, rfl⟩ : _ ∧ db = db₁ := howner.resolve_left fun hf => absurd hf.2 fail_ne_ok
  obtain ⟨rfl, rfl⟩ := read_eq_ok.1 hread
  cases hfind : db.issued.rows.find? fun i => i.issuer = actor && i.requestKey = key with
  | some i =>
    simp only [hfind] at h
    split at h
    · exact absurd h fail_ne_ok
    · next hsame =>
      obtain ⟨rfl, rfl⟩ : scanInvitation i now = inv ∧ db = db' := by simpa using h
      have hi := List.find?_some hfind
      simp only [Bool.and_eq_true, decide_eq_true_eq] at hi
      simp only [not_or, not_not, ne_eq] at hsame
      exact Or.inl ⟨rfl, i, List.mem_of_find?_eq_some hfind, hi.2, hsame.1.symm, hsame.2.symm, rfl⟩
  | none =>
    right
    simp only [hfind, bind_eq_ok, when_eq_ok, read_eq_ok, insertRow_eq_ok, pure_run, Prod.mk.injEq] at h
    obtain ⟨_, db₁, hvalid, daily, db₂, ⟨-, rfl⟩, pending, db₃, ⟨-, rfl⟩, _, db₄, hquota, redeemed, db₅, ⟨hred, rfl⟩, _, db₆,
      hfresh, _, db₇, hinv, seq, db₈, ⟨rfl, rfl⟩, _, db₉, hiss, -, rfl⟩ := h
    obtain ⟨hkey, rfl⟩ := hvalid.resolve_left fun hf => absurd hf.2 fail_ne_ok
    obtain ⟨-, rfl⟩ := hquota.resolve_left fun hf => absurd hf.2 fail_ne_ok
    obtain ⟨hunredeemed, rfl⟩ := hfresh.resolve_left fun hf => absurd hf.2 fail_ne_ok
    obtain ⟨ti, hti, rfl⟩ := Option.map_eq_some_iff.1 hinv
    obtain ⟨ts, hts, rfl⟩ := Option.map_eq_some_iff.1 hiss
    have hnone := List.find?_eq_none.1 hfind
    refine ⟨_, rfl, fun i hi hissuer hasked => hnone i hi ?_, ?_, fun r hr hh => hunredeemed ?_, hti, hts, rfl, rfl⟩
    · simp [hissuer, hasked]
    · simpa using hkey
    · rw [← hred]
      exact List.any_eq_true.2 ⟨r, hr, by simpa using hh⟩

theorem redeemInvite_redeems {tokenHash : Bytes} {now : Int} {e : Enrollment} {db db' : Db} {u : Unit}
    (h : redeemInvite tokenHash now e db = (.ok u, db')) : Redeems tokenHash now e db db' := by
  rw [redeemInvite, unitOfWork_eq_ok, bind_ok (read_run _ _)] at h
  cases hr : db.redemptions.get? (tokenHash, e.identityId) with
  | some r =>
    simp only [hr] at h
    exact absurd h fail_ne_ok
  | none =>
    simp only [hr, bind_eq_ok, require_eq_ok, modify_eq_ok, insertCredential, insertRow_eq_ok] at h
    obtain ⟨invite, db₁, ⟨hinvite, rfl⟩, -, db₂, rfl, -, db₃, hm, -, db₄, hc, -, db₅, hf, -, db₆, hd, rfl⟩ := h
    obtain ⟨tm, rfl⟩ := insertsInto_membership _ _ _ hm
    obtain ⟨tc, rfl⟩ := insertsInto_credential _ _ _ hc
    obtain ⟨tf, rfl⟩ := insertsInto_manifest _ _ _ hf
    obtain ⟨td, htd, rfl⟩ := Option.map_eq_some_iff.1 hd
    obtain ⟨hget, hp⟩ := Option.filter_eq_some_iff.1 hinvite
    obtain ⟨hmem, hhash⟩ := Table.get?_eq_some.1 hget
    simp only [Bool.and_eq_true, decide_eq_true_eq] at hp
    exact ⟨⟨invite, hmem, hhash, hp.2⟩, rfl, rfl, rfl, htd⟩

theorem acceptInvitation_ok {credential hash : Bytes} {now : Int} {db db' : Db} {inv : Invitation}
    (h : acceptInvitation credential hash now db = (.ok inv, db')) :
    ∃ actor role, activeRole credential now db = (.ok (actor, role), db) ∧
      ((db' = db ∧ ∃ i ∈ db.issued, i.tokenHash = hash ∧ i.state = .used ∧ ∃ r ∈ db.redemptions, r.tokenHash = hash ∧ r.identityId = actor) ∨
        Accepts hash actor credential now db db') := by
  rw [acceptInvitation, unitOfWork_eq_ok, bind_eq_ok] at h
  obtain ⟨⟨actor, role⟩, db₁, hrole, h⟩ := h
  obtain ⟨rfl, -⟩ := activeRole_eq_ok hrole
  refine ⟨actor, role, hrole, ?_⟩
  simp only [bind_eq_ok, require_eq_ok, when_eq_ok] at h
  obtain ⟨row, db₁, ⟨hrow, rfl⟩, _, db₁, hother, h⟩ := h
  obtain ⟨-, rfl⟩ := hother.resolve_left fun hf => absurd hf.2 fail_ne_ok
  obtain ⟨hmem, hhash⟩ := Table.get?_eq_some.1 hrow
  by_cases hused : (scanInvitation row now).state = .used
  · rw [if_pos hused, bind_ok (read_run _ _)] at h
    have hstate : row.state = .used := by
      unfold scanInvitation at hused
      dsimp only at hused
      split at hused
      · cases hused
      · exact hused
    split at h
    · next hmine =>
      obtain ⟨-, rfl⟩ : _ ∧ db = db' := by simpa using h
      obtain ⟨r, hr, -⟩ := (Option.any_eq_true _ _).1 hmine
      obtain ⟨hr, hkey⟩ := Table.get?_eq_some.1 hr
      obtain ⟨hh, hid⟩ := Prod.mk.inj hkey
      exact Or.inl ⟨rfl, row, hmem, hhash, hstate, r, hr, hh, hid⟩
    · exact absurd h fail_ne_ok
  · rw [if_neg hused] at h
    by_cases hpending : (scanInvitation row now).state ≠ .pending
    · rw [if_pos hpending] at h
      exact absurd h fail_ne_ok
    · rw [if_neg hpending] at h
      have hstate : row.state = .pending := by
        unfold scanInvitation at hpending
        dsimp only at hpending
        split at hpending
        · cases hpending (by simp)
        · exact not_not.1 hpending
      simp only [bind_eq_ok, modify_eq_ok, insertRow_eq_ok, pure_run, Prod.mk.injEq] at h
      obtain ⟨-, db₁, rfl, -, db₂, rfl, -, db₃, hd, -, rfl⟩ := h
      obtain ⟨td, htd, rfl⟩ := Option.map_eq_some_iff.1 hd
      exact Or.inr ⟨⟨row, hmem, hhash, hstate⟩, rfl, rfl, rfl, htd⟩

theorem revokeInvitation_ok {credential hash : Bytes} {now : Int} {db db' : Db} {inv : Invitation}
    (h : revokeInvitation credential hash now db = (.ok inv, db')) : db' = db ∨ Withdraws hash db db' := by
  rw [revokeInvitation, unitOfWork_eq_ok, bind_eq_ok] at h
  obtain ⟨⟨actor, role⟩, db₁, hrole, h⟩ := h
  obtain ⟨rfl, -⟩ := activeRole_eq_ok hrole
  simp only [bind_eq_ok, require_eq_ok, when_eq_ok] at h
  obtain ⟨_, db₁, howner, row, db₂, ⟨hrow, rfl⟩, h⟩ := h
  obtain ⟨-, rfl⟩ := howner.resolve_left fun hf => absurd hf.2 fail_ne_ok
  obtain ⟨hget, -⟩ := Option.filter_eq_some_iff.1 hrow
  obtain ⟨hmem, hhash⟩ := Table.get?_eq_some.1 hget
  by_cases hused : (scanInvitation row now).state = .used
  · rw [if_pos hused] at h
    exact absurd h fail_ne_ok
  · rw [if_neg hused] at h
    by_cases hrevoked : (scanInvitation row now).state = .revoked
    · rw [if_pos hrevoked] at h
      obtain ⟨-, rfl⟩ : _ ∧ db = db' := by simpa using h
      exact Or.inl rfl
    · rw [if_neg hrevoked] at h
      simp only [bind_eq_ok, modify_eq_ok, pure_run, Prod.mk.injEq] at h
      obtain ⟨-, db₁, rfl, -, db₂, rfl, -, rfl⟩ := h
      refine Or.inr ⟨⟨row, hmem, hhash, fun hs => hused ?_, fun hs => hrevoked ?_⟩, rfl, rfl, rfl, rfl⟩
      · simp [scanInvitation, hs]
      · simp [scanInvitation, hs]

inductive Moved (db db' : Db) : Call → Prop
  | same {c : Call} (hinvites : db'.invites = db.invites) (hissued : db'.issued = db.issued)
      (hcounter : db'.nextIssued = db.nextIssued) (hredemptions : db'.redemptions = db.redemptions) : Moved db db' c
  | issued {credential key hash : Bytes} {ttl : UInt64} {now : Int} {row : IssuedRow} (h : Issues key hash ttl now row db db') :
      Moved db db' (.issueInvitation credential key hash ttl now)
  | redeemed {tokenHash : Bytes} {now : Int} {e : Enrollment} (h : Redeems tokenHash now e db db') :
      Moved db db' (.redeemInvite tokenHash now e)
  | accepted {credential hash actor : Bytes} {now : Int} (h : Accepts hash actor credential now db db') :
      Moved db db' (.acceptInvitation credential hash now)
  | withdrawn {credential hash : Bytes} {now : Int} (h : Withdraws hash db db') : Moved db db' (.revokeInvitation credential hash now)
  | created {tokenHash : Bytes} {role : String} {expiresAt uses : Int} (h : addInvite ⟨tokenHash, role, expiresAt, uses⟩ db = some db') :
      Moved db db' (.createInvite tokenHash role expiresAt uses)
  | swept {now : Int} (h : db' = sweepInvites now db) : Moved db db' (.sweepInvites now)
  | aged {now : Int} (h : db' = sweepInvitationHistory now db) : Moved db db' (.sweepInvitationHistory now)

theorem Moved.refl (c : Call) (db : Db) : Moved db db c := .same rfl rfl rfl rfl

theorem Moved.of_unit {α : Type} {c : Call} {p : Txn α} {db : Db} (h : ∀ a db', unitOfWork p db = (.ok a, db') → Moved db db' c) :
    Moved db (unitOfWork p db).2 c := by
  rcases hp : unitOfWork p db with ⟨r, db'⟩
  cases r with
  | ok a => exact h a db' hp
  | error e =>
    rw [unitOfWork_error hp]
    exact .refl c db

variable {sha256 : Bytes → Bytes}

theorem Moved.of_parts {c : Call} {db : Db} (hinvites : Part.invites ∉ writes c) (hissued : Part.issued ∉ writes c)
    (hredemptions : Part.redemptions ∉ writes c) : Moved db (c.prog sha256 db).2 c :=
  .same (part_call c db hinvites) (Prod.mk.inj (part_call c db hissued)).1 (Prod.mk.inj (part_call c db hissued)).2
    (part_call c db hredemptions)

theorem moved_call (c : Call) (db : Db) : Moved db (c.prog sha256 db).2 c := by
  cases c with
  | redeemInvite tokenHash now e => exact .of_unit fun _ _ h => .redeemed (redeemInvite_redeems h)
  | issueInvitation credential key hash ttl now =>
    rcases hrun : issueInvitation credential key hash ttl now db with ⟨r, db'⟩
    show Moved db (issueInvitation credential key hash ttl now db).2 _
    rw [hrun]
    cases r with
    | ok inv =>
      rcases issueInvitation_ok hrun with ⟨rfl, -⟩ | ⟨row, hrow⟩
      · exact .refl _ _
      · exact .issued hrow
    | error e =>
      unfold issueInvitation at hrun
      split at hrun
      · obtain ⟨-, rfl⟩ : _ ∧ db = db' := by simpa using hrun
        exact .refl _ _
      · rw [unitOfWork_error hrun]
        exact .refl _ _
  | revokeInvitation credential hash now =>
    refine .of_unit fun _ db' h => ?_
    rcases revokeInvitation_ok h with rfl | h
    · exact .refl _ _
    · exact .withdrawn h
  | acceptInvitation credential hash now =>
    refine .of_unit fun _ db' h => ?_
    obtain ⟨actor, role, -, ⟨rfl, -⟩ | h⟩ := acceptInvitation_ok h
    · exact .refl _ _
    · exact .accepted h
  | createInvite tokenHash role expiresAt uses =>
    rcases hrun : createInvite tokenHash role expiresAt uses db with ⟨r, db'⟩
    show Moved db (createInvite tokenHash role expiresAt uses db).2 _
    rw [hrun]
    cases r with
    | ok u => exact .created (insertRow_eq_ok.1 hrun)
    | error e =>
      rw [insertRow_eq_error hrun]
      exact .refl _ _
  | sweepInvites now => exact .swept rfl
  | sweepInvitationHistory now => exact .aged rfl
  | _ => exact .of_parts (by simp [writes]) (by simp [writes]) (by simp [writes])

/-- What the other tables hold of an issued invitation. -/
structure Agrees (db : Db) (i : IssuedRow) : Prop where
  invite : ∃ v ∈ db.invites, v.tokenHash = i.tokenHash ∧ v.usesLeft = if i.state = .pending then 1 else 0
  state : i.state ≠ .expired
  redeemer : ∀ r ∈ db.redemptions, r.tokenHash = i.tokenHash → i.state = .used ∧ r.identityId = i.claimedIdentity
  redemption : i.state = .used → ∃ r ∈ db.redemptions, r.tokenHash = i.tokenHash ∧ r.identityId = i.claimedIdentity

theorem Agrees.pending_of_usable {db : Db} {i : IssuedRow} (h : Agrees db i) {v : InviteRow} (hv : v ∈ db.invites)
    (hhash : v.tokenHash = i.tokenHash) (huses : 0 < v.usesLeft) : i.state = .pending ∧ v.usesLeft = 1 := by
  obtain ⟨v', hv', hhash', huses'⟩ := h.invite
  obtain rfl := Table.eq_of_key hv hv' (hhash.trans hhash'.symm)
  split at huses'
  · next hs => exact ⟨hs, huses'⟩
  · omega

theorem Agrees.unredeemed {db : Db} {i : IssuedRow} (h : Agrees db i) (hs : i.state ≠ .used) :
    ∀ r ∈ db.redemptions, r.tokenHash ≠ i.tokenHash := fun r hr hhash => hs (h.redeemer r hr hhash).1

theorem Agrees.other {db db' : Db} {i : IssuedRow} (h : Agrees db i)
    (hinvites : ∀ v ∈ db.invites, v.tokenHash = i.tokenHash → v ∈ db'.invites)
    (hredemptions : ∀ r, r.tokenHash = i.tokenHash → (r ∈ db'.redemptions ↔ r ∈ db.redemptions)) : Agrees db' i where
  invite := by
    obtain ⟨v, hv, hhash, huses⟩ := h.invite
    exact ⟨v, hinvites v hv hhash, hhash, huses⟩
  state := h.state
  redeemer r hr hhash := h.redeemer r ((hredemptions r hhash).1 hr) hhash
  redemption hs := by
    obtain ⟨r, hr, hhash, hid⟩ := h.redemption hs
    exact ⟨r, (hredemptions r hhash).2 hr, hhash, hid⟩

theorem mem_setUsesLeft_other {hash : Bytes} {f : Int → Int} {db : Db} {v : InviteRow} (hv : v ∈ db.invites)
    (hhash : v.tokenHash ≠ hash) : v ∈ (setUsesLeft hash f db).invites := by
  dsimp only [setUsesLeft]
  exact Table.mem_update_neg hv (decide_eq_false hhash)

theorem mem_setUsesLeft_self {hash : Bytes} {f : Int → Int} {db : Db} {v : InviteRow} (hv : v ∈ db.invites)
    (hhash : v.tokenHash = hash) : { v with usesLeft := f v.usesLeft } ∈ (setUsesLeft hash f db).invites := by
  dsimp only [setUsesLeft]
  exact Table.mem_update_pos hv (decide_eq_true hhash)

theorem mem_markUsed {hash identityId : Bytes} {now : Int} {db : Db} {i : IssuedRow} (h : i ∈ (markUsed hash identityId now db).issued) :
    (i ∈ db.issued ∧ i.tokenHash ≠ hash) ∨
      ∃ i₀ ∈ db.issued, i₀.tokenHash = hash ∧ i = { i₀ with state := .used, claimedIdentity := identityId, claimedAt := now } := by
  dsimp only [markUsed] at h
  simpa only [decide_eq_false_iff_not, decide_eq_true_eq] using Table.of_mem_update h

theorem mem_setInvitationState {hash : Bytes} {state : InvitationState} {db : Db} {i : IssuedRow}
    (h : i ∈ (setInvitationState hash state db).issued) :
    (i ∈ db.issued ∧ i.tokenHash ≠ hash) ∨ ∃ i₀ ∈ db.issued, i₀.tokenHash = hash ∧ i = { i₀ with state := state } := by
  dsimp only [setInvitationState] at h
  simpa only [decide_eq_false_iff_not, decide_eq_true_eq] using Table.of_mem_update h

theorem agrees_used {hash identityId credential : Bytes} {now : Int} {f : Int → Int} {db db' : Db} (h : ∀ i ∈ db.issued, Agrees db i)
    (hpending : ∀ i ∈ db.issued, i.tokenHash = hash → i.state = .pending) (hf : f 1 = 0)
    (hinvites : db'.invites = (setUsesLeft hash f db).invites) (hissued : db'.issued = (markUsed hash identityId now db).issued)
    (hredemptions : db.redemptions.insert ⟨hash, identityId, credential⟩ = some db'.redemptions) :
    ∀ i ∈ db'.issued, Agrees db' i := by
  intro i hi
  rw [hissued] at hi
  rcases mem_markUsed hi with ⟨hi, hne⟩ | ⟨i₀, hi₀, heq, rfl⟩
  · refine (h i hi).other (fun v hv hhash => ?_) fun r hhash => ?_
    · rw [hinvites]
      exact mem_setUsesLeft_other hv (hhash ▸ hne)
    · rw [Table.mem_insert hredemptions]
      refine ⟨fun hr => hr.resolve_right ?_, Or.inl⟩
      rintro rfl
      exact hne hhash.symm
  · have hstate := hpending i₀ hi₀ heq
    obtain ⟨v, hv, hhash, huses⟩ := (h i₀ hi₀).invite
    rw [if_pos hstate] at huses
    have hnone := (h i₀ hi₀).unredeemed (by rw [hstate]; decide)
    have hspent : { v with usesLeft := f v.usesLeft } ∈ db'.invites := by
      rw [hinvites]
      exact mem_setUsesLeft_self hv (hhash.trans heq)
    refine ⟨⟨_, hspent, hhash, ?_⟩, by simp, fun r hr hhash' => ?_, fun _ => ?_⟩
    · simp [huses, hf]
    · rcases (Table.mem_insert hredemptions).1 hr with hr | rfl
      · exact absurd hhash' (hnone r hr)
      · exact ⟨rfl, rfl⟩
    · exact ⟨_, (Table.mem_insert hredemptions).2 (Or.inr rfl), heq.symm, rfl⟩

theorem agrees_withdrawn {hash : Bytes} {db db' : Db} (h : ∀ i ∈ db.issued, Agrees db i) (hw : Withdraws hash db db') :
    ∀ i ∈ db'.issued, Agrees db' i := by
  intro i hi
  rw [hw.issued] at hi
  rcases mem_setInvitationState hi with ⟨hi, hne⟩ | ⟨i₀, hi₀, heq, rfl⟩
  · refine (h i hi).other (fun v hv hhash => ?_) fun r _ => by rw [hw.redemptions]
    rw [hw.invites]
    exact mem_setUsesLeft_other hv (hhash ▸ hne)
  · obtain ⟨i₁, hi₁, hhash₁, hunused, -⟩ := hw.unused
    obtain rfl := Table.eq_of_key hi₀ hi₁ (heq.trans hhash₁.symm)
    obtain ⟨v, hv, hhash, -⟩ := (h i₀ hi₀).invite
    have hspent : { v with usesLeft := 0 } ∈ db'.invites := by
      rw [hw.invites]
      exact mem_setUsesLeft_self hv (hhash.trans heq)
    refine ⟨⟨_, hspent, hhash, by simp⟩, by simp, fun r hr hhash' => ?_, by simp⟩
    rw [hw.redemptions] at hr
    exact absurd hhash' ((h i₀ hi₀).unredeemed hunused r hr)

theorem agrees_issued {key hash : Bytes} {ttl : UInt64} {now : Int} {row : IssuedRow} {db db' : Db}
    (h : ∀ i ∈ db.issued, Agrees db i) (hw : Issues key hash ttl now row db db') : ∀ i ∈ db'.issued, Agrees db' i := by
  intro i hi
  rcases (Table.mem_insert hw.issued).1 hi with hi | rfl
  · exact (h i hi).other (fun v hv _ => (Table.mem_insert hw.invites).2 (Or.inl hv)) fun r _ => by rw [hw.redemptions]
  · have hrow := hw.row_eq
    have hhash : i.tokenHash = hash := by rw [hrow]
    have hstate : i.state = .pending := by rw [hrow]
    refine ⟨⟨_, (Table.mem_insert hw.invites).2 (Or.inr rfl), hhash.symm, by rw [if_pos hstate]⟩, by rw [hstate]; decide,
      fun r hr hr' => ?_, fun hused => ?_⟩
    · rw [hw.redemptions] at hr
      exact absurd (hr'.trans hhash) (hw.unredeemed r hr)
    · rw [hstate] at hused
      cases hused

theorem agrees_swept {now : Int} {db : Db} (h : ∀ i ∈ db.issued, Agrees db i) :
    ∀ i ∈ (sweepInvites now db).issued, Agrees (sweepInvites now db) i := by
  intro i hi
  refine (h i hi).other (fun v hv hhash => Table.mem_delete.2 ⟨hv, ?_⟩) fun _ _ => Iff.rfl
  have hget : db.issued.get? v.tokenHash = some i := Table.get?_eq_some.2 ⟨hi, hhash.symm⟩
  simp [hget]

theorem agrees_aged {now : Int} {db : Db} (h : ∀ i ∈ db.issued, Agrees db i) :
    ∀ i ∈ (sweepInvitationHistory now db).issued, Agrees (sweepInvitationHistory now db) i := by
  intro i hi
  obtain ⟨hi, hyoung⟩ := Table.mem_delete.1 hi
  refine (h i hi).other (fun v hv hhash => Table.mem_delete.2 ⟨hv, ?_⟩) fun _ _ => Iff.rfl
  have hget : db.issued.get? v.tokenHash = some i := Table.get?_eq_some.2 ⟨hi, hhash.symm⟩
  rw [hget]
  exact hyoung

theorem agrees_moved {db db' : Db} {c : Call} (hm : Moved db db' c) (h : ∀ i ∈ db.issued, Agrees db i) :
    ∀ i ∈ db'.issued, Agrees db' i := by
  cases hm with
  | same hinvites hissued hcounter hredemptions =>
    intro i hi
    rw [hissued] at hi
    exact (h i hi).other (fun v hv _ => by rw [hinvites]; exact hv) fun r _ => by rw [hredemptions]
  | issued hw => exact agrees_issued h hw
  | redeemed hw =>
    refine agrees_used h (fun i hi hhash => ?_) rfl hw.invites hw.issued hw.redemptions
    obtain ⟨v, hv, hhash', huses⟩ := hw.usable
    exact ((h i hi).pending_of_usable hv (hhash'.trans hhash.symm) huses).1
  | accepted hw =>
    refine agrees_used h (fun i hi hhash => ?_) rfl hw.invites hw.issued hw.redemptions
    obtain ⟨i', hi', hhash', hstate⟩ := hw.pending
    rw [Table.eq_of_key hi hi' (hhash.trans hhash'.symm)]
    exact hstate
  | withdrawn hw => exact agrees_withdrawn h hw
  | created hadd =>
    obtain ⟨t, ht, rfl⟩ := Option.map_eq_some_iff.1 hadd
    intro i hi
    exact (h i hi).other (fun v hv _ => (Table.mem_insert ht).2 (Or.inl hv)) fun _ _ => Iff.rfl
  | swept hdb =>
    subst hdb
    exact agrees_swept h
  | aged hdb =>
    subst hdb
    exact agrees_aged h

end Arveil.RelayStore
