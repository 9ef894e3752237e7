import Arveil.Proofs.Invitations.Tables

/-! What the calls of the relay's store do to the invites, the issued invitations and the
redemptions, and what holds between the three tables in every store that a run of calls
leads to. -/

namespace Arveil.RelayStore

open Prog RelayServer

variable {sha256 : Bytes → Bytes}

/-- How an issued invitation may go on: as it was, or from pending to used or revoked. -/
structure GoesOn (i i' : IssuedRow) : Prop where
  kept : { i' with state := i.state, claimedIdentity := i.claimedIdentity, claimedAt := i.claimedAt } = i
  turn : i' = i ∨ (i.state = .pending ∧ (i'.state = .used ∨ i'.state = .revoked))

theorem GoesOn.refl (i : IssuedRow) : GoesOn i i := ⟨rfl, Or.inl rfl⟩

theorem GoesOn.seq {i i' : IssuedRow} (h : GoesOn i i') : i'.seq = i.seq := by rw [← h.kept]

theorem GoesOn.tokenHash {i i' : IssuedRow} (h : GoesOn i i') : i'.tokenHash = i.tokenHash := by rw [← h.kept]

theorem GoesOn.trans {i i' i'' : IssuedRow} (h : GoesOn i i') (h' : GoesOn i' i'') : GoesOn i i'' := by
  rcases h'.turn with rfl | ⟨hpending, -⟩
  · exact h
  · rcases h.turn with rfl | ⟨-, hused | hrevoked⟩
    · exact h'
    · rw [hused] at hpending
      cases hpending
    · rw [hrevoked] at hpending
      cases hpending

structure Counted (db : Db) : Prop where
  below : ∀ i ∈ db.issued, i.seq < db.nextIssued
  distinct : ∀ i ∈ db.issued, ∀ i' ∈ db.issued, i.seq = i'.seq → i = i'

theorem goesOn_moved {db db' : Db} {c : Call} (hm : Moved db db' c) (h : ∀ i ∈ db.issued, Agrees db i) :
    db.nextIssued ≤ db'.nextIssued ∧ ∀ i' ∈ db'.issued, (∃ i ∈ db.issued, GoesOn i i') ∨
      (i'.seq = db.nextIssued ∧ db'.nextIssued = db.nextIssued + 1 ∧ ∀ i ∈ db'.issued, i = i' ∨ i ∈ db.issued) := by
  cases hm with
  | same hinvites hissued hcounter hredemptions =>
    refine ⟨hcounter.ge, fun i' hi' => Or.inl ⟨i', ?_, .refl i'⟩⟩
    rw [← hissued]
    exact hi'
  | issued hw =>
    refine ⟨by rw [hw.counter]; exact Nat.le_succ _, fun i' hi' => ?_⟩
    rcases (Table.mem_insert hw.issued).1 hi' with hi' | rfl
    · exact Or.inl ⟨i', hi', .refl i'⟩
    · refine Or.inr ⟨by rw [hw.row_eq], hw.counter, fun i hi => ?_⟩
      exact ((Table.mem_insert hw.issued).1 hi).symm
  | redeemed hw =>
    refine ⟨hw.counter.ge, fun i' hi' => Or.inl ?_⟩
    rw [hw.issued] at hi'
    rcases mem_markUsed hi' with ⟨hi', -⟩ | ⟨i, hi, hhash, rfl⟩
    · exact ⟨i', hi', .refl i'⟩
    · obtain ⟨v, hv, hhash', huses⟩ := hw.usable
      exact ⟨i, hi, rfl, Or.inr ⟨((h i hi).pending_of_usable hv (hhash'.trans hhash.symm) huses).1, Or.inl rfl⟩⟩
  | accepted hw =>
    refine ⟨hw.counter.ge, fun i' hi' => Or.inl ?_⟩
    rw [hw.issued] at hi'
    rcases mem_markUsed hi' with ⟨hi', -⟩ | ⟨i, hi, hhash, rfl⟩
    · exact ⟨i', hi', .refl i'⟩
    · obtain ⟨i₀, hi₀, hhash', hstate⟩ := hw.pending
      obtain rfl := Table.eq_of_key hi hi₀ (hhash.trans hhash'.symm)
      exact ⟨i, hi, rfl, Or.inr ⟨hstate, Or.inl rfl⟩⟩
  | withdrawn hw =>
    refine ⟨hw.counter.ge, fun i' hi' => Or.inl ?_⟩
    rw [hw.issued] at hi'
    rcases mem_setInvitationState hi' with ⟨hi', -⟩ | ⟨i, hi, hhash, rfl⟩
    · exact ⟨i', hi', .refl i'⟩
    · obtain ⟨i₀, hi₀, hhash', hunused, hunrevoked⟩ := hw.unused
      obtain rfl := Table.eq_of_key hi hi₀ (hhash.trans hhash'.symm)
      refine ⟨i, hi, rfl, Or.inr ⟨?_, Or.inr rfl⟩⟩
      cases hs : i.state with
      | pending => rfl
      | used => exact absurd hs hunused
      | revoked => exact absurd hs hunrevoked
      | expired => exact absurd hs (h i hi).state
  | created hadd =>
    obtain ⟨t, -, rfl⟩ := Option.map_eq_some_iff.1 hadd
    exact ⟨le_rfl, fun i' hi' => Or.inl ⟨i', hi', .refl i'⟩⟩
  | swept hdb =>
    subst hdb
    exact ⟨le_rfl, fun i' hi' => Or.inl ⟨i', hi', .refl i'⟩⟩
  | aged hdb =>
    subst hdb
    exact ⟨le_rfl, fun i' hi' => Or.inl ⟨i', (Table.mem_delete.1 hi').1, .refl i'⟩⟩

theorem counted_moved {db db' : Db} {c : Call} (hm : Moved db db' c) (h : ∀ i ∈ db.issued, Agrees db i) (hc : Counted db) :
    Counted db' := by
  obtain ⟨hmono, hrows⟩ := goesOn_moved hm h
  have hold : ∀ i' ∈ db'.issued, (∃ i ∈ db.issued, GoesOn i i') → i'.seq < db.nextIssued := by
    rintro i' - ⟨i, hi, hgo⟩
    rw [hgo.seq]
    exact hc.below i hi
  refine ⟨fun i' hi' => ?_, fun i₁ hi₁ i₂ hi₂ hseq => ?_⟩
  · rcases hrows i' hi' with hprev | ⟨hseq, hnext, -⟩
    · exact lt_of_lt_of_le (hold i' hi' hprev) hmono
    · rw [hseq, hnext]
      exact Nat.lt_succ_self _
  · rcases hrows i₁ hi₁ with ⟨j₁, hj₁, hgo₁⟩ | ⟨hnew₁, -, honly₁⟩
    · rcases hrows i₂ hi₂ with ⟨j₂, hj₂, hgo₂⟩ | ⟨hnew₂, -, -⟩
      · have hj := hc.distinct j₁ hj₁ j₂ hj₂ (by rw [← hgo₁.seq, ← hgo₂.seq, hseq])
        subst hj
        exact Table.eq_of_key hi₁ hi₂ (hgo₁.tokenHash.trans hgo₂.tokenHash.symm)
      · have hlt := hold i₁ hi₁ ⟨j₁, hj₁, hgo₁⟩
        omega
    · rcases honly₁ i₂ hi₂ with rfl | hi₂
      · rfl
      · have hlt := hc.below i₂ hi₂
        omega

structure Kept (db : Db) : Prop where
  agrees : ∀ i ∈ db.issued, Agrees db i
  counted : Counted db

def after (sha256 : Bytes → Bytes) (db : Db) (c : Call) : Db := (c.prog sha256 db).2

theorem kept_after {db : Db} (h : Kept db) (c : Call) : Kept (after sha256 db c) :=
  ⟨agrees_moved (moved_call c db) h.agrees, counted_moved (moved_call c db) h.agrees h.counted⟩

theorem kept_empty : Kept .empty :=
  ⟨fun i hi => absurd hi (Table.not_mem_empty i), fun i hi => absurd hi (Table.not_mem_empty i),
    fun i hi => absurd hi (Table.not_mem_empty i)⟩

theorem kept_run {db : Db} (h : Kept db) (calls : List Call) : Kept (Trace.run (after sha256) db calls) :=
  Trace.invariant (I := Kept) (fun _ c _ hk => kept_after hk c) (Trace.meets_true db calls) h

theorem goesOn_run {db : Db} (h : Kept db) (calls : List Call) :
    ∀ i' ∈ (Trace.run (after sha256) db calls).issued, i'.seq < db.nextIssued → ∃ i ∈ db.issued, GoesOn i i' := by
  have hmeets : Trace.Meets (after sha256) (fun _ _ => True) db calls := Trace.meets_true db calls
  refine (Trace.invariant (I := fun db' => Kept db' ∧ db.nextIssued ≤ db'.nextIssued ∧
    ∀ i' ∈ db'.issued, i'.seq < db.nextIssued → ∃ i ∈ db.issued, GoesOn i i') (fun db' c _ ⟨hk, hle, hgo⟩ => ?_) hmeets
    ⟨h, le_rfl, fun i' hi' _ => ⟨i', hi', .refl i'⟩⟩).2.2
  obtain ⟨hmono, hrows⟩ := goesOn_moved (moved_call c db') hk.agrees
  refine ⟨kept_after hk c, le_trans hle hmono, fun i' hi' hlt => ?_⟩
  rcases hrows i' hi' with ⟨j, hj, hj'⟩ | ⟨hnew, -, -⟩
  · obtain ⟨i, hi, hi''⟩ := hgo j hj (by rw [← hj'.seq]; exact hlt)
    exact ⟨i, hi, hi''.trans hj'⟩
  · omega

theorem goesOn_same {db : Db} (h : Kept db) (calls : List Call) {i i' : IssuedRow} (hi : i ∈ db.issued)
    (hi' : i' ∈ (Trace.run (after sha256) db calls).issued) (hseq : i'.seq = i.seq) : GoesOn i i' := by
  obtain ⟨j, hj, hgo⟩ := goesOn_run h calls i' hi' (by rw [hseq]; exact h.counted.below i hi)
  rw [h.counted.distinct i hi j hj (hseq.symm.trans hgo.seq)]
  exact hgo

/-- The token and the identity that a call admits or connects. A redemption that was made
before is answered as a success. -/
def admits (db : Db) : Call → Option (Bytes × Bytes)
  | .redeemInvite tokenHash now e =>
      match (redeemInvite tokenHash now e db).1 with
      | .ok _ | .error .alreadyRedeemed => some (tokenHash, e.identityId)
      | .error _ => none
  | .acceptInvitation credential hash now =>
      match (acceptInvitation credential hash now db).1, (activeRole credential now db).1 with
      | .ok _, .ok (actor, _) => some (hash, actor)
      | _, _ => none
  | _ => none

def UsedBy (i : IssuedRow) (identityId : Bytes) : Prop := i.state = .used ∧ i.claimedIdentity = identityId

theorem usedBy_redeemer {db : Db} (h : Kept db) {i : IssuedRow} (hi : i ∈ db.issued) {r : RedemptionRow} (hr : r ∈ db.redemptions)
    (hhash : r.tokenHash = i.tokenHash) : UsedBy i r.identityId := by
  obtain ⟨hused, hid⟩ := (h.agrees i hi).redeemer r hr hhash
  exact ⟨hused, hid.symm⟩

theorem usedBy_markUsed {db : Db} (h : Kept db) {i : IssuedRow} (hi : i ∈ db.issued) {hash identityId : Bytes} {now : Int}
    (hhash : i.tokenHash = hash) : ∀ i' ∈ (markUsed hash identityId now db).issued, i'.seq = i.seq → UsedBy i' identityId := by
  intro i' hi' hseq
  rcases mem_markUsed hi' with ⟨hi', hne⟩ | ⟨i₀, -, -, rfl⟩
  · exact absurd (h.counted.distinct i' hi' i hi hseq ▸ hhash) hne
  · exact ⟨rfl, rfl⟩

/-- An invitation that admits or connects somebody was pending, or used by the same
identity; and it is used afterwards. -/
theorem admits_uses (sha256 : Bytes → Bytes) {db : Db} (h : Kept db) {c : Call} {hash identityId : Bytes}
    (hadmits : admits db c = some (hash, identityId))
    {i : IssuedRow} (hi : i ∈ db.issued) (hhash : i.tokenHash = hash) :
    (i.state = .pending ∨ UsedBy i identityId) ∧
      ∀ i' ∈ (after sha256 db c).issued, i'.seq = i.seq → UsedBy i' identityId := by
  cases c with
  | redeemInvite tokenHash now e =>
    dsimp only [admits] at hadmits
    rcases hrun : redeemInvite tokenHash now e db with ⟨err | _, db'⟩
    · rw [hrun] at hadmits
      have hrepeated : err = .alreadyRedeemed := by
        by_contra hne
        cases err <;> first | exact hne rfl | cases hadmits
      subst hrepeated
      obtain ⟨rfl, rfl⟩ := Prod.mk.inj (Option.some.inj hadmits)
      have hused : UsedBy i e.identityId := usedBy_redeemer h hi (redeemInvite_repeated hrun) hhash.symm
      obtain rfl := unitOfWork_error hrun
      have hafter : after sha256 db' (.redeemInvite tokenHash now e) = db' := congrArg Prod.snd hrun
      refine ⟨Or.inr hused, fun i' hi' hseq => ?_⟩
      rw [hafter] at hi'
      rw [h.counted.distinct i' hi' i hi hseq]
      exact hused
    · rw [hrun] at hadmits
      obtain ⟨rfl, rfl⟩ := Prod.mk.inj (Option.some.inj hadmits)
      have hw := redeemInvite_redeems hrun
      obtain ⟨v, hv, hhash', huses⟩ := hw.usable
      refine ⟨Or.inl ((h.agrees i hi).pending_of_usable hv (hhash'.trans hhash.symm) huses).1, fun i' hi' hseq => ?_⟩
      have hafter : after sha256 db (.redeemInvite tokenHash now e) = db' := congrArg Prod.snd hrun
      rw [hafter, hw.issued] at hi'
      exact usedBy_markUsed h hi hhash i' hi' hseq
  | acceptInvitation credential hash' now =>
    dsimp only [admits] at hadmits
    rcases hrun : acceptInvitation credential hash' now db with ⟨_ | inv, db'⟩
    · rw [hrun] at hadmits
      cases hadmits
    · obtain ⟨actor, role, hrole, haccept⟩ := acceptInvitation_ok hrun
      rw [hrun, hrole] at hadmits
      obtain ⟨rfl, rfl⟩ := Prod.mk.inj (Option.some.inj hadmits)
      have hafter : after sha256 db (.acceptInvitation credential hash' now) = db' := congrArg Prod.snd hrun
      rw [hafter]
      rcases haccept with ⟨rfl, i₀, -, -, -, r, hr, hr', rfl⟩ | hw
      · have hused : UsedBy i r.identityId := usedBy_redeemer h hi hr (hr'.trans hhash.symm)
        refine ⟨Or.inr hused, fun i' hi' hseq => ?_⟩
        rw [h.counted.distinct i' hi' i hi hseq]
        exact hused
      · obtain ⟨i₀, hi₀, hhash₀, hstate⟩ := hw.pending
        obtain rfl := Table.eq_of_key hi hi₀ (hhash.trans hhash₀.symm)
        refine ⟨Or.inl hstate, ?_⟩
        rw [hw.issued]
        exact usedBy_markUsed h hi hhash
  | _ => cases hadmits

theorem admits_one {db : Db} (h : Kept db) {c c' : Call} {more : List Call} {hash identityId identityId' : Bytes}
    (hadmits : admits db c = some (hash, identityId)) {i i' : IssuedRow} (hi : i ∈ db.issued) (hhash : i.tokenHash = hash)
    (hadmits' : admits (Trace.run (after sha256) (after sha256 db c) more) c' = some (hash, identityId'))
    (hi' : i' ∈ (Trace.run (after sha256) (after sha256 db c) more).issued) (hseq : i'.seq = i.seq) : identityId' = identityId := by
  have hkc : Kept (after sha256 db c) := kept_after h c
  have hgo : GoesOn i i' := goesOn_same h (c :: more) hi hi' hseq
  -- the invitation right after the first call, used and so never changed again
  obtain ⟨j, hj, hgoj⟩ := goesOn_run hkc more i' hi' (by
    rw [hseq]
    exact lt_of_lt_of_le (h.counted.below i hi) (goesOn_moved (moved_call c db) h.agrees).1)
  obtain ⟨hstate, hclaimed⟩ := (admits_uses sha256 h hadmits hi hhash).2 j hj (hgoj.seq.symm.trans hseq)
  obtain rfl : i' = j := hgoj.turn.resolve_right fun hp => by
    rw [hstate] at hp
    cases hp.1
  rcases (admits_uses sha256 (kept_run hkc more) hadmits' hi' (hgo.tokenHash.trans hhash)).1 with hpending | ⟨-, hclaimed'⟩
  · rw [hstate] at hpending
    cases hpending
  · exact hclaimed'.symm.trans hclaimed

def hostToken : Call → Option Bytes
  | .createInvite tokenHash _ _ _ => some tokenHash
  | _ => none

/-- A token that only personal invitations carry: its invite goes with its invitation, and
one identity at most has redeemed it. -/
structure Personal (hash : Bytes) (db : Db) : Prop where
  invite : ∀ v ∈ db.invites, v.tokenHash = hash → ∃ i ∈ db.issued, i.tokenHash = hash
  once : ∀ r ∈ db.redemptions, ∀ r' ∈ db.redemptions, r.tokenHash = hash → r'.tokenHash = hash → r = r'

theorem hasInvite_setUsesLeft {hash' : Bytes} {f : Int → Int} {db : Db} (hash : Bytes) :
    (∃ v ∈ (setUsesLeft hash' f db).invites, v.tokenHash = hash) ↔ ∃ v ∈ db.invites, v.tokenHash = hash := by
  dsimp only [setUsesLeft]
  exact Table.exists_key_update

theorem isIssued_markUsed {hash' identityId : Bytes} {now : Int} {db : Db} (hash : Bytes) :
    (∃ i ∈ (markUsed hash' identityId now db).issued, i.tokenHash = hash) ↔ ∃ i ∈ db.issued, i.tokenHash = hash := by
  dsimp only [markUsed]
  exact Table.exists_key_update

theorem isIssued_setInvitationState {hash' : Bytes} {state : InvitationState} {db : Db} (hash : Bytes) :
    (∃ i ∈ (setInvitationState hash' state db).issued, i.tokenHash = hash) ↔ ∃ i ∈ db.issued, i.tokenHash = hash := by
  dsimp only [setInvitationState]
  exact Table.exists_key_update

theorem once_insert {hash : Bytes} {db db' : Db} {new : RedemptionRow}
    (hins : db.redemptions.insert new = some db'.redemptions)
    (hfirst : new.tokenHash = hash → ∀ r ∈ db.redemptions, r.tokenHash ≠ hash)
    (h : ∀ r ∈ db.redemptions, ∀ r' ∈ db.redemptions, r.tokenHash = hash → r'.tokenHash = hash → r = r') :
    ∀ r ∈ db'.redemptions, ∀ r' ∈ db'.redemptions, r.tokenHash = hash → r'.tokenHash = hash → r = r' := by
  intro r hr r' hr' hhash hhash'
  rcases (Table.mem_insert hins).1 hr with hr | rfl
  · rcases (Table.mem_insert hins).1 hr' with hr' | rfl
    · exact h r hr r' hr' hhash hhash'
    · exact absurd hhash (hfirst hhash' r hr)
  · rcases (Table.mem_insert hins).1 hr' with hr' | rfl
    · exact absurd hhash' (hfirst hhash r' hr')
    · rfl

theorem personal_moved {hash : Bytes} {db db' : Db} {c : Call} (hm : Moved db db' c) (h : ∀ i ∈ db.issued, Agrees db i)
    (hhost : hostToken c ≠ some hash) (hp : Personal hash db) : Personal hash db' := by
  have hissuedOf : (∃ v ∈ db.invites, v.tokenHash = hash) → ∃ i ∈ db.issued, i.tokenHash = hash :=
    fun ⟨v, hv, hhash⟩ => hp.invite v hv hhash
  cases hm with
  | same hinvites hissued hcounter hredemptions =>
    refine ⟨?_, ?_⟩
    · rw [hinvites, hissued]
      exact hp.invite
    · rw [hredemptions]
      exact hp.once
  | issued hw =>
    refine ⟨fun v hv hhash => ?_, by rw [hw.redemptions]; exact hp.once⟩
    rcases (Table.mem_insert hw.invites).1 hv with hv | rfl
    · obtain ⟨i, hi, hi'⟩ := hp.invite v hv hhash
      exact ⟨i, (Table.mem_insert hw.issued).2 (Or.inl hi), hi'⟩
    · refine ⟨_, (Table.mem_insert hw.issued).2 (Or.inr rfl), ?_⟩
      rw [hw.row_eq]
      exact hhash
  | redeemed hw =>
    refine ⟨fun v hv hhash => ?_, once_insert hw.redemptions (fun hhash r hr => ?_) hp.once⟩
    · rw [hw.issued, isIssued_markUsed]
      rw [hw.invites] at hv
      exact hissuedOf ((hasInvite_setUsesLeft hash).1 ⟨v, hv, hhash⟩)
    · obtain ⟨v, hv, hhash', huses⟩ := hw.usable
      obtain ⟨i, hi, hi'⟩ := hp.invite v hv (hhash'.trans hhash)
      have hpending := ((h i hi).pending_of_usable hv ((hhash'.trans hhash).trans hi'.symm) huses).1
      rw [← hi']
      exact (h i hi).unredeemed (by rw [hpending]; decide) r hr
  | accepted hw =>
    refine ⟨fun v hv hhash => ?_, once_insert hw.redemptions (fun hhash r hr => ?_) hp.once⟩
    · rw [hw.issued, isIssued_markUsed]
      rw [hw.invites] at hv
      exact hissuedOf ((hasInvite_setUsesLeft hash).1 ⟨v, hv, hhash⟩)
    · obtain ⟨i, hi, hi', hstate⟩ := hw.pending
      rw [← hi'.trans hhash]
      exact (h i hi).unredeemed (by rw [hstate]; decide) r hr
  | withdrawn hw =>
    refine ⟨fun v hv hhash => ?_, by rw [hw.redemptions]; exact hp.once⟩
    rw [hw.issued, isIssued_setInvitationState]
    rw [hw.invites] at hv
    exact hissuedOf ((hasInvite_setUsesLeft hash).1 ⟨v, hv, hhash⟩)
  | created hadd =>
    obtain ⟨t, ht, rfl⟩ := Option.map_eq_some_iff.1 hadd
    refine ⟨fun v hv hhash => ?_, hp.once⟩
    rcases (Table.mem_insert ht).1 hv with hv | rfl
    · exact hp.invite v hv hhash
    · exact absurd (congrArg some hhash) hhost
  | swept hdb =>
    subst hdb
    exact ⟨fun v hv hhash => hp.invite v (Table.mem_delete.1 hv).1 hhash, hp.once⟩
  | aged hdb =>
    subst hdb
    refine ⟨fun v hv hhash => ?_, hp.once⟩
    obtain ⟨hv, hyoung⟩ := Table.mem_delete.1 hv
    obtain ⟨i, hi, hi'⟩ := hp.invite v hv hhash
    refine ⟨i, Table.mem_delete.2 ⟨hi, ?_⟩, hi'⟩
    have hget : db.issued.get? v.tokenHash = some i := Table.get?_eq_some.2 ⟨hi, hi'.trans hhash.symm⟩
    rw [hget] at hyoung
    exact hyoung

theorem personal_run (hash : Bytes) (calls : List Call) (hhost : ∀ c ∈ calls, hostToken c ≠ some hash) :
    Personal hash (Trace.run (after sha256) .empty calls) := by
  have hmeets : Trace.Meets (after sha256) (fun _ c => hostToken c ≠ some hash ∧ True) .empty calls :=
    (Trace.meets_true Db.empty calls).and_mem hhost
  refine (Trace.invariant (I := fun db => Kept db ∧ Personal hash db) (fun db c hc ⟨hk, hp⟩ => ?_) hmeets ⟨kept_empty, ?_⟩).2
  · exact ⟨kept_after hk c, personal_moved (moved_call c db) hk.agrees hc.1 hp⟩
  · exact ⟨fun v hv => absurd hv (Table.not_mem_empty v), fun r hr => absurd hr (Table.not_mem_empty r)⟩

/-- What the invite and the redemptions say in each state of an invitation. -/
structure StateHolds (db : Db) (i : IssuedRow) : Prop where
  pending : i.state = .pending ↔ (∃ v ∈ db.invites, v.tokenHash = i.tokenHash ∧ v.usesLeft = 1) ∧
    ∀ r ∈ db.redemptions, r.tokenHash ≠ i.tokenHash
  revoked : i.state = .revoked → (∃ v ∈ db.invites, v.tokenHash = i.tokenHash ∧ v.usesLeft = 0) ∧
    ∀ r ∈ db.redemptions, r.tokenHash ≠ i.tokenHash
  used : i.state = .used → (∃ v ∈ db.invites, v.tokenHash = i.tokenHash ∧ v.usesLeft = 0) ∧
    ∃ r ∈ db.redemptions, r.tokenHash = i.tokenHash ∧ r.identityId = i.claimedIdentity ∧
      ∀ r' ∈ db.redemptions, r'.tokenHash = i.tokenHash → r' = r

theorem Agrees.stateHolds {db : Db} {i : IssuedRow} (h : Agrees db i) : StateHolds db i := by
  obtain ⟨v, hv, hhash, huses⟩ := h.invite
  refine ⟨⟨fun hs => ⟨⟨v, hv, hhash, by rw [huses, if_pos hs]⟩, h.unredeemed (by rw [hs]; decide)⟩, ?_⟩, fun hs => ?_, fun hs => ?_⟩
  · rintro ⟨⟨v', hv', hhash', huses'⟩, -⟩
    exact (h.pending_of_usable hv' hhash' (by omega)).1
  · exact ⟨⟨v, hv, hhash, by rw [huses, hs]; rfl⟩, h.unredeemed (by rw [hs]; decide)⟩
  · obtain ⟨r, hr, hr', hid⟩ := h.redemption hs
    refine ⟨⟨v, hv, hhash, by rw [huses, hs]; rfl⟩, r, hr, hr', hid, fun r' hmem hh => ?_⟩
    exact Table.eq_of_key hmem hr (Prod.ext (hh.trans hr'.symm) ((h.redeemer r' hmem hh).2.trans hid.symm))

/-- After any calls: the tables agree on every invitation; it goes on from pending to used or
revoked and no other way; who is admitted or connected by one invitation is one identity,
and a revoked one admits nobody; and a token that the host never issued is redeemed by one
identity, also when its invitation has been swept. -/
theorem invitations_are_spent_once (sha256 : Bytes → Bytes) (calls : List Call) :
    (∀ i ∈ (Trace.run (after sha256) .empty calls).issued, StateHolds (Trace.run (after sha256) .empty calls) i) ∧
    (∀ more, ∀ i ∈ (Trace.run (after sha256) .empty calls).issued,
      ∀ i' ∈ (Trace.run (after sha256) .empty (calls ++ more)).issued, i'.seq = i.seq → GoesOn i i') ∧
    (∀ c hash identityId, admits (Trace.run (after sha256) .empty calls) c = some (hash, identityId) →
      ∀ i ∈ (Trace.run (after sha256) .empty calls).issued, i.tokenHash = hash → i.state ≠ .revoked ∧
        ∀ more c' identityId', admits (Trace.run (after sha256) .empty (calls ++ c :: more)) c' = some (hash, identityId') →
          ∀ i' ∈ (Trace.run (after sha256) .empty (calls ++ c :: more)).issued, i'.seq = i.seq → identityId' = identityId) ∧
    (∀ hash, (∀ c ∈ calls, hostToken c ≠ some hash) → ∀ r ∈ (Trace.run (after sha256) .empty calls).redemptions,
      ∀ r' ∈ (Trace.run (after sha256) .empty calls).redemptions, r.tokenHash = hash → r'.tokenHash = hash → r = r') := by
  have hk : Kept (Trace.run (after sha256) .empty calls) := kept_run kept_empty calls
  refine ⟨fun i hi => (hk.agrees i hi).stateHolds, fun more i hi i' hi' hseq => ?_, fun c hash identityId hadmits i hi hhash => ?_,
    fun hash hhost => (personal_run hash calls hhost).once⟩
  · rw [Trace.run_append] at hi'
    exact goesOn_same hk more hi hi' hseq
  · refine ⟨fun hrevoked => ?_, fun more c' identityId' hadmits' i' hi' hseq => ?_⟩
    · rcases (admits_uses sha256 hk hadmits hi hhash).1 with hs | ⟨hs, -⟩
      · rw [hs] at hrevoked
        cases hrevoked
      · rw [hs] at hrevoked
        cases hrevoked
    · rw [Trace.run_append, Trace.run_cons] at hadmits' hi'
      exact admits_one hk hadmits hi hhash hadmits' hi' hseq

end Arveil.RelayStore
