import Arveil.Proofs.Receive
import Arveil.Sanity.Platform
import Arveil.Spec.Policy

/-! Fan-out. A device whose stored key cannot be sealed to makes the fan-out fail
as a whole, and with it the unit of work of the message or of the commit that
would remove the device. Without such a device every fan-out goes through. -/

namespace Arveil.FanOut

open Client Delivery Send

variable {pf : Platform} {s : Session}

theorem swap_perm (l : List Nat) (i j : Nat) : (swap l i j).Perm l := by
  unfold swap
  cases hi : l[i]? with
  | none => exact List.Perm.refl l
  | some a =>
    cases hj : l[j]? with
    | none => exact List.Perm.refl l
    | some b =>
      obtain ⟨hi', rfl⟩ := List.getElem?_eq_some_iff.1 hi
      obtain ⟨hj', rfl⟩ := List.getElem?_eq_some_iff.1 hj
      exact List.set_set_perm hi' hj'

theorem shuffledOrder_perm (n : Nat) (draw : Nat → UInt64) : (shuffledOrder n draw).Perm (List.range n) := by
  have hfold : ∀ (is l : List Nat),
      (is.foldl (fun order i => swap order i ((draw i).toNat % (i + 1))) l).Perm l := by
    intro is
    induction is with
    | nil => exact List.Perm.refl
    | cons i is ih => exact fun l => (ih _).trans (swap_perm l _ _)
  exact hfold _ _

/-- HPKE seals this message for the valid X25519 keys and for no other. -/
structure Seals (pf : Platform) (valid : Bytes → Bool) (mls : Bytes) : Prop where
  length : ∀ key, valid key = true → key.length = 32
  exact : ∀ entropy key ctx, (∃ r, pf.sealEnvelope entropy key ctx kindMls mls = .ok r) ↔ valid key = true

def sealable (valid : Bytes → Bool) (p : Peer) : Bool := p.mailbox.isSome && p.hpke.any valid

/-- A device that is not revoked and has a route, with a key that is none. -/
def Unsealable (valid : Bytes → Bool) (p : Peer) : Prop :=
  p.revoked = false ∧ p.mailbox.isSome = true ∧ ∃ key, p.hpke = some key ∧ valid key = false

def copyFor (pf : Platform) (s : Session) (eventId : Option Bytes) (mls : Bytes) : Peer × Draw → Option OutboxRow
  | (p, d) =>
      if p.revoked then none
      else match p.mailbox, p.hpke with
        | some mailbox, some key =>
            (pf.sealEnvelope d.entropy key ⟨1, s.realmId, mailbox, d.deliveryId⟩ kindMls mls).toOption.map
              fun (enc, ciphertext) => ⟨0, mailbox, d.deliveryId, eventId, enc, ciphertext, .sealed, 0, none⟩
        | _, _ => none

def unnumbered (r : OutboxRow) : OutboxRow := { r with id := 0 }

def deliveryOf (r : OutboxRow) : QueuedDelivery := ⟨r.mailboxId, r.deliveryId⟩

theorem enqueue_run (mailbox enc ciphertext : Bytes) (eventId : Option Bytes) {deliveryId : Bytes} {st : Store}
    (hfresh : ∀ r ∈ st.outbox, r.deliveryId ≠ deliveryId) :
    ∃ t : Table OutboxRow.id, enqueue mailbox deliveryId eventId enc ciphertext st = (.ok (), { st with outbox := t }) ∧
      t.rows = st.outbox.rows ++
        [⟨nextId st.outbox.rows, mailbox, deliveryId, eventId, enc, ciphertext, .sealed, 0, none⟩] := by
  have hany : st.outbox.rows.any (fun r => r.mailboxId = mailbox && r.deliveryId = deliveryId) = false := by
    simp only [List.any_eq_false, Bool.and_eq_true, decide_eq_true_eq, not_and]
    exact fun r hr _ => hfresh r hr
  have hins : ∃ t, st.outbox.insert
      ⟨nextId st.outbox.rows, mailbox, deliveryId, eventId, enc, ciphertext, .sealed, 0, none⟩ = some t := by
    refine Option.ne_none_iff_exists'.1 fun hnone => ?_
    obtain ⟨r, hr, hid⟩ := Table.insert_eq_none.1 hnone
    have hlt := lt_nextId hr
    simp only at hid
    omega
  obtain ⟨t, ht⟩ := hins
  refine ⟨t, ?_, (Table.insert_eq_some ht).1⟩
  simp [enqueue, Prog.tryModify, hany, ht]

theorem enqueueFor_run {valid : Bytes → Bool} {mls : Bytes} (hs : Seals pf valid mls) (eventId : Option Bytes) {p : Peer}
    {d : Draw} {st : Store} (hr : p.revoked = false) (hseal : ¬ Unsealable valid p)
    (hfresh : ∀ r ∈ st.outbox, r.deliveryId ≠ d.deliveryId) :
    (enqueueFor pf s p eventId mls d st = (.ok none, st) ∧ copyFor pf s eventId mls (p, d) = none ∧
        sealable valid p = false) ∨
      ∃ row t, enqueueFor pf s p eventId mls d st = (.ok (some (deliveryOf row)), { st with outbox := t }) ∧
        t.rows = st.outbox.rows ++ [row] ∧ copyFor pf s eventId mls (p, d) = some (unnumbered row) ∧
        sealable valid p = true ∧ row.deliveryId = d.deliveryId := by
  cases hm : p.mailbox with
  | none => exact Or.inl ⟨by simp [enqueueFor, hm], by simp [copyFor, hr, hm], by simp [sealable, hm]⟩
  | some mailbox =>
    cases hk : p.hpke with
    | none => exact Or.inl ⟨by simp [enqueueFor, hm, hk], by simp [copyFor, hr, hm, hk], by simp [sealable, hk]⟩
    | some key =>
      have hvalid : valid key = true := by
        by_contra hbad
        exact hseal ⟨hr, by simp [hm], key, hk, by simpa using hbad⟩
      obtain ⟨⟨enc, ciphertext⟩, hsealed⟩ := (hs.exact d.entropy key ⟨1, s.realmId, mailbox, d.deliveryId⟩).2 hvalid
      obtain ⟨t, henq, hrows⟩ := enqueue_run mailbox enc ciphertext eventId hfresh
      refine Or.inr ⟨_, t, ?_, hrows, by simp [copyFor, hr, hm, hk, hsealed, unnumbered, Except.toOption],
        by simp [sealable, hm, hk, hvalid], rfl⟩
      have hinv : (invalidQuery (.ok (enc, ciphertext)) : Sql (Bytes × Bytes)) st = (.ok (enc, ciphertext), st) := rfl
      simp only [enqueueFor, hm, hk, hsealed]
      rw [Prog.bind_ok hinv]
      simp only
      rw [Prog.bind_ok henq]
      rfl

theorem enqueueFor_unsealable {valid : Bytes → Bool} {mls : Bytes} (hs : Seals pf valid mls) (eventId : Option Bytes)
    {p : Peer} (d : Draw) (st : Store) (h : Unsealable valid p) :
    enqueueFor pf s p eventId mls d st = (.error .invalidQuery, st) := by
  obtain ⟨-, hmailbox, key, hk, hinvalid⟩ := h
  obtain ⟨mailbox, hm⟩ := Option.isSome_iff_exists.1 hmailbox
  cases hsealed : pf.sealEnvelope d.entropy key ⟨1, s.realmId, mailbox, d.deliveryId⟩ kindMls mls with
  | ok r =>
    have := (hs.exact _ _ _).1 ⟨r, hsealed⟩
    simp [hinvalid] at this
  | error e =>
    simp only [enqueueFor, hm, hk, hsealed]
    exact Prog.bind_error rfl

/-- The delivery ids drawn are new and differ. -/
def FreshFor (st : Store) (todo : List (Peer × Draw)) : Prop :=
  (todo.map (·.2.deliveryId)).Nodup ∧ ∀ pd ∈ todo, ∀ r ∈ st.outbox, r.deliveryId ≠ pd.2.deliveryId

theorem FreshFor.tail {st : Store} {p : Peer} {d : Draw} {rest : List (Peer × Draw)} (h : FreshFor st ((p, d) :: rest)) :
    FreshFor st rest :=
  ⟨(List.nodup_cons.1 h.1).2, fun pd hpd => h.2 pd (List.mem_cons_of_mem _ hpd)⟩

theorem FreshFor.enqueued {st : Store} {p : Peer} {d : Draw} {rest : List (Peer × Draw)} {t : Table OutboxRow.id}
    {row : OutboxRow} (h : FreshFor st ((p, d) :: rest)) (ht : t.rows = st.outbox.rows ++ [row])
    (hrow : row.deliveryId = d.deliveryId) : FreshFor { st with outbox := t } rest := by
  refine ⟨h.tail.1, fun pd hpd r hr => ?_⟩
  rw [Table.mem_def, ht, List.mem_append, List.mem_singleton] at hr
  rcases hr with hr | rfl
  · exact h.tail.2 pd hpd r hr
  · rw [hrow]
    exact fun he => (List.nodup_cons.1 h.1).1 (List.mem_map.2 ⟨pd, hpd, he.symm⟩)

/-- Without an unsealable device the loop returns: one row for each device that
can be sealed to, in the order of the list, and the others counted. -/
theorem enqueueEach_run {valid : Bytes → Bool} {mls : Bytes} (hs : Seals pf valid mls) (eventId : Option Bytes)
    {todo : List (Peer × Draw)} {st : Store} (hfresh : FreshFor st todo)
    (hseal : ∀ pd ∈ todo, ¬ Unsealable valid pd.1) (out : FanOut) :
    ∃ new t, enqueueEach pf s eventId mls out todo st =
        (.ok ⟨out.deliveries ++ new.map deliveryOf,
          out.noRoute + (todo.filter fun pd => !pd.1.revoked && !sealable valid pd.1).length,
          out.revoked + (todo.filter fun pd => pd.1.revoked).length⟩, { st with outbox := t }) ∧
      t.rows = st.outbox.rows ++ new ∧ new.map unnumbered = todo.filterMap (copyFor pf s eventId mls) := by
  induction todo generalizing st out with
  | nil => exact ⟨[], st.outbox, by simp [enqueueEach], by simp, rfl⟩
  | cons pd rest ih =>
    obtain ⟨p, d⟩ := pd
    have hrest := fun pd hpd => hseal pd (List.mem_cons_of_mem _ hpd)
    cases hr : p.revoked with
    | true =>
      obtain ⟨new, t, hrun, hrows, hnew⟩ := ih hfresh.tail hrest { out with revoked := out.revoked + 1 }
      refine ⟨new, t, ?_, hrows, by simpa [copyFor, hr] using hnew⟩
      rw [enqueueEach, if_pos hr, hrun]
      simp [hr, Nat.add_assoc, Nat.add_comm 1]
    | false =>
      rw [enqueueEach, if_neg (by simp [hr])]
      rcases enqueueFor_run (s := s) hs eventId hr (hseal (p, d) List.mem_cons_self) (hfresh.2 (p, d) List.mem_cons_self) with
        ⟨hfor, hcopy, hns⟩ | ⟨row, t₁, hfor, hrows₁, hcopy, hsl, hid⟩
      · obtain ⟨new, t, hrun, hrows, hnew⟩ := ih hfresh.tail hrest { out with noRoute := out.noRoute + 1 }
        refine ⟨new, t, ?_, hrows, by simpa [hcopy] using hnew⟩
        rw [Prog.bind_ok hfor]
        simp only
        rw [hrun]
        simp [hr, hns, Nat.add_assoc, Nat.add_comm 1]
      · obtain ⟨new, t, hrun, hrows, hnew⟩ := ih (hfresh.enqueued hrows₁ hid) hrest
          { out with deliveries := out.deliveries ++ [deliveryOf row] }
        refine ⟨row :: new, t, ?_, by rw [hrows, hrows₁, List.append_assoc]; rfl, by simp [hcopy, hnew]⟩
        rw [Prog.bind_ok hfor]
        simp only
        rw [hrun]
        simp [hr, hsl]

theorem enqueueEach_fails {valid : Bytes → Bool} {mls : Bytes} (hs : Seals pf valid mls) (eventId : Option Bytes)
    {todo : List (Peer × Draw)} {pd : Peer × Draw} (hmem : pd ∈ todo) (hbad : Unsealable valid pd.1) (out : FanOut)
    (st : Store) : ∃ e st', enqueueEach pf s eventId mls out todo st = (.error e, st') := by
  induction todo generalizing st out with
  | nil => exact absurd hmem List.not_mem_nil
  | cons qd rest ih =>
    obtain ⟨q, d⟩ := qd
    rw [enqueueEach]
    rcases List.mem_cons.1 hmem with rfl | hrest
    · have hr : q.revoked = false := hbad.1
      rw [if_neg (by simp [hr]), Prog.bind_error (enqueueFor_unsealable hs eventId d st hbad)]
      exact ⟨_, _, rfl⟩
    · split
      · exact ih hrest _ _
      · rcases hfor : enqueueFor pf s q eventId mls d st with ⟨_ | delivery, st'⟩
        · exact ⟨_, _, Prog.bind_error hfor⟩
        · rw [Prog.bind_ok hfor]
          cases delivery with
          | some delivery => exact ih hrest _ _
          | none => exact ih hrest _ _

def copies (peers : List Peer) (draws : Nat → Draw) : List (Peer × Draw) :=
  (List.finRange peers.length).map fun i : Fin peers.length => (peers.get i, draws i)

theorem todo_perm (peers : List Peer) (order : Nat → UInt64) (draws : Nat → Draw) :
    ((shuffledOrder peers.length order).filterMap fun i => peers[i]?.map (·, draws i)).Perm (copies peers draws) := by
  refine ((shuffledOrder_perm peers.length order).filterMap _).trans (List.Perm.of_eq ?_)
  rw [← List.map_coe_finRange_eq_range, List.filterMap_map, copies, ← List.filterMap_eq_map]
  refine List.filterMap_congr fun i _ => ?_
  simp

theorem copies_peers (peers : List Peer) (draws : Nat → Draw) : (copies peers draws).map (·.1) = peers := by
  rw [copies, List.map_map]
  exact List.map_get_finRange peers

theorem copyFor_deliveryId {peers : List Peer} {draws : Nat → Draw} {eventId : Option Bytes} {mls : Bytes}
    {pd : Peer × Draw} {row : OutboxRow} (hpd : pd ∈ copies peers draws)
    (h : copyFor pf s eventId mls pd = some (unnumbered row)) :
    ∃ j < peers.length, row.deliveryId = (draws j).deliveryId := by
  obtain ⟨j, -, rfl⟩ := List.mem_map.1 hpd
  refine ⟨j, j.isLt, ?_⟩
  unfold copyFor at h
  simp only at h
  split at h
  · cases h
  · split at h
    · obtain ⟨_, -, hrow⟩ := Option.map_eq_some_iff.1 h
      exact (congrArg OutboxRow.deliveryId hrow).symm
    · cases h

/-- The system drew delivery ids that are new and differ. -/
def Fresh (st : Store) (n : Nat) (draws : Nat → Draw) : Prop :=
  (∀ i < n, ∀ j < n, (draws i).deliveryId = (draws j).deliveryId → i = j) ∧
    ∀ i < n, ∀ r ∈ st.outbox, r.deliveryId ≠ (draws i).deliveryId

theorem Fresh.copies {st : Store} {peers : List Peer} {draws : Nat → Draw} (h : Fresh st peers.length draws) :
    FreshFor st (copies peers draws) := by
  constructor
  · rw [FanOut.copies, List.map_map]
    exact (List.nodup_finRange _).map_on fun i _ j _ he => Fin.ext (h.1 i i.isLt j j.isLt he)
  · intro pd hpd
    obtain ⟨i, -, rfl⟩ := List.mem_map.1 hpd
    exact h.2 i i.isLt

theorem FreshFor.perm {st : Store} {todo todo' : List (Peer × Draw)} (h : FreshFor st todo) (hp : todo'.Perm todo) :
    FreshFor st todo' :=
  ⟨((hp.map _).nodup_iff).2 h.1, fun pd hpd => h.2 pd (hp.mem_iff.1 hpd)⟩

/-- The fan-out of a message to a list of devices is total: it returns, with one
row for each device that is not revoked and can be sealed to and no other row, and
it counts the devices that cannot be sealed to and the revoked ones. -/
def FansOut (pf : Platform) (s : Session) (valid : Bytes → Bool) (peers : List Peer) (eventId : Option Bytes)
    (mls : Bytes) (order : Nat → UInt64) (draws : Nat → Draw) (st : Store) : Prop :=
  ∃ out new t, enqueueForAll pf s peers eventId mls order draws st = (.ok out, { st with outbox := t }) ∧
    t.rows = st.outbox.rows ++ new ∧ (new.map unnumbered).Perm ((copies peers draws).filterMap (copyFor pf s eventId mls)) ∧
    out.deliveries = new.map deliveryOf ∧ out.noRoute = (peers.filter fun p => !p.revoked && !sealable valid p).length ∧
    out.revoked = (peers.filter (·.revoked)).length

theorem fansOut_of_sealable {valid : Bytes → Bool} {mls : Bytes} (hs : Seals pf valid mls) {peers : List Peer}
    (eventId : Option Bytes) (order : Nat → UInt64) {draws : Nat → Draw} {st : Store}
    (hfresh : Fresh st peers.length draws) (hseal : ∀ p ∈ peers, ¬ Unsealable valid p) :
    FansOut pf s valid peers eventId mls order draws st := by
  have hp := todo_perm peers order draws
  have hcount (f : Peer → Bool) : (((shuffledOrder peers.length order).filterMap fun i =>
      peers[i]?.map (·, draws i)).filter fun pd => f pd.1).length = (peers.filter f).length := by
    rw [(hp.filter _).length_eq]
    conv_rhs => rw [← copies_peers peers draws, List.filter_map, List.length_map]
    rfl
  obtain ⟨new, t, hrun, hrows, hnew⟩ := enqueueEach_run (s := s) hs eventId (hfresh.copies.perm hp)
    (fun pd hpd => hseal pd.1 (by rw [← copies_peers peers draws]; exact List.mem_map_of_mem (hp.mem_iff.1 hpd)))
    ⟨[], 0, 0⟩
  refine ⟨_, new, t, hrun, hrows, hnew ▸ hp.filterMap _, by simp, ?_, ?_⟩
  · exact (Nat.zero_add _).trans (hcount fun p => !p.revoked && !sealable valid p)
  · exact (Nat.zero_add _).trans (hcount (·.revoked))

theorem enqueueForAll_fails {valid : Bytes → Bool} {mls : Bytes} (hs : Seals pf valid mls) {peers : List Peer}
    (eventId : Option Bytes) (order : Nat → UInt64) (draws : Nat → Draw) (st : Store) {p : Peer} (hmem : p ∈ peers)
    (hbad : Unsealable valid p) : ∃ e st', enqueueForAll pf s peers eventId mls order draws st = (.error e, st') := by
  rw [← copies_peers peers draws] at hmem
  obtain ⟨pd, hpd, rfl⟩ := List.mem_map.1 hmem
  exact enqueueEach_fails hs eventId ((todo_perm peers order draws).mem_iff.2 hpd) hbad _ _

theorem fansOut_iff {valid : Bytes → Bool} {mls : Bytes} (hs : Seals pf valid mls) {peers : List Peer}
    (eventId : Option Bytes) (order : Nat → UInt64) {draws : Nat → Draw} {st : Store}
    (hfresh : Fresh st peers.length draws) :
    FansOut pf s valid peers eventId mls order draws st ↔ ∀ p ∈ peers, ¬ Unsealable valid p := by
  constructor
  · rintro ⟨out, new, t, hrun, -⟩ p hmem hbad
    obtain ⟨e, st', hfail⟩ := enqueueForAll_fails (s := s) hs eventId order draws st hmem hbad
    rw [hfail] at hrun
    cases hrun
  · exact fansOut_of_sealable hs eventId order hfresh

/-- A text is ready to be queued: all that is left is its fan-out. -/
def TextReady (pf : Platform) (conv : Conversation) (text eventId entropy mls : Bytes) (st : Store) : Prop :=
  ∃ row state, st.mlsGroups.get? conv.groupId = some row ∧ revokedLeaves pf conv row.state = [] ∧
    pf.mlsEncrypt entropy row.state (pf.encodeEvent ⟨"text", text⟩) = .ok (state, mls) ∧
    ∀ e ∈ st.events, e.eventId ≠ eventId

/-- The commit that removes a revoked device is ready: all that is left is its fan-out. -/
def RemovalReady (pf : Platform) (conv : Conversation) (device entropy mls : Bytes) (st : Store) : Prop :=
  conv.peers.any (fun p => p.deviceId = device && p.revoked) = true ∧
    ∃ row state index, st.mlsGroups.get? conv.groupId = some row ∧
      Groups.removalCommit pf (.domain "that device holds no leaf in this conversation") device entropy row.state st =
        (.ok (state, index, mls), st)

theorem loadGroup_run {gid : Bytes} {st : Store} {row : MlsGroupRow} (h : st.mlsGroups.get? gid = some row) :
    pf.loadGroup gid st = (.ok row.state, st) := by
  unfold Platform.loadGroup
  rw [Prog.bind_ok (Prog.read_run _ st), h]
  rfl

/-- A fan-out that is the last step of a unit decides it. -/
theorem unit_ok_iff {context : String} {p : Sql FanOut} {valid : Bytes → Bool} {peers : List Peer} {mls : Bytes}
    (hs : Seals pf valid mls) (eventId : Option Bytes) (order : Nat → UInt64) {draws : Nat → Draw} {st : Store}
    (st' : Store) (hfresh : Fresh st' peers.length draws)
    (hp : p st = enqueueForAll pf s peers eventId mls order draws st') :
    (∃ out st'', delivery context (Prog.unitOfWork p) st = (.ok out, st'')) ↔ ∀ p ∈ peers, ¬ Unsealable valid p := by
  rw [← fansOut_iff (s := s) hs eventId order hfresh]
  have hunit (out : FanOut) (st'' : Store) : delivery context (Prog.unitOfWork p) st = (.ok out, st'') ↔
      enqueueForAll pf s peers eventId mls order draws st' = (.ok out, st'') := by
    rw [Receive.delivery_eq_ok, Prog.unitOfWork_eq_ok, hp]
  constructor
  · rintro ⟨out, st'', hrun⟩
    refine fansOut_of_sealable hs eventId order hfresh fun q hq hbad => ?_
    obtain ⟨e, _, hfail⟩ := enqueueForAll_fails (s := s) hs eventId order draws st' hq hbad
    rw [hunit, hfail] at hrun
    cases hrun
  · rintro ⟨out, new, t, hrun, -⟩
    exact ⟨out, _, (hunit _ _).2 hrun⟩

theorem queueText_ok_iff {valid : Bytes → Bool} {mls : Bytes} (hs : Seals pf valid mls) {conv : Conversation}
    {text eventId entropy : Bytes} {order : Nat → UInt64} {draws : Nat → Draw} {st : Store}
    (hfresh : Fresh st conv.peers.length draws) (hready : TextReady pf conv text eventId entropy mls st) :
    (∃ out st', queueText pf s conv text eventId entropy order draws st = (.ok out, st')) ↔
      ∀ p ∈ conv.peers, ¬ Unsealable valid p := by
  obtain ⟨row, state, hrow, hleaves, henc, hfree⟩ := hready
  obtain ⟨t, ht⟩ : ∃ t, (pf.writeGroup state none st).events.insert
      ⟨conv.groupId, eventId, .sent, text, some s.device.keys.deviceId, some s.identityId⟩ = some t := by
    refine Option.ne_none_iff_exists'.1 fun hnone => ?_
    obtain ⟨e, he, hid⟩ := Table.insert_eq_none.1 hnone
    exact hfree e he hid
  have hguard : guardRevoked pf conv row.state st = (.ok (), st) := by simp [guardRevoked, hleaves]
  unfold queueText
  rw [Prog.bind_ok (loadGroup_run hrow), Prog.bind_ok hguard]
  refine unit_ok_iff (s := s) hs (some eventId) order { pf.writeGroup state none st with events := t } hfresh ?_
  rw [henc]
  have hrecord : recordEventBy conv.groupId eventId .sent text (some (ownSender s)) (pf.writeGroup state none st) =
      (.ok (), { pf.writeGroup state none st with events := t }) := by
    simp only [recordEventBy, sqlInsert, Prog.tryModify, ownSender, Option.bind_some, ht]
  exact Prog.bind_ok hrecord

theorem remove_ok_iff {valid : Bytes → Bool} {mls : Bytes} (hs : Seals pf valid mls) {conv : Conversation}
    {device : Bytes} {c : Groups.Chance} {st : Store} (hfresh : Fresh st conv.peers.length c.draws)
    (hready : RemovalReady pf conv device c.entropy mls st) :
    (∃ out st', Groups.remove pf s conv device c st = (.ok out, st')) ↔ ∀ p ∈ conv.peers, ¬ Unsealable valid p := by
  obtain ⟨hknown, row, state, index, hrow, hcommit⟩ := hready
  unfold Groups.remove
  rw [if_pos hknown, Prog.bind_ok (loadGroup_run hrow), Prog.bind_ok hcommit]
  exact unit_ok_iff (s := s) hs none c.order (pf.writeGroup state none st) hfresh rfl

open Demo

def valid (key : Bytes) : Bool := key.length = 32

theorem demo_seals (mls : Bytes) : Seals platform valid mls := by
  refine ⟨fun key h => by simpa [valid] using h, fun entropy key ctx => ?_⟩
  simp only [platform, valid, decide_eq_true_eq]
  by_cases h : key.length = 32
  · simp [h]
  · simp [h]

def demoGroup : Group :=
  ⟨[7], 1, 0, [⟨0, some [9], publicKey [9, 2]⟩, ⟨1, some [66], publicKey [66, 2]⟩, ⟨2, some [2], publicKey [2, 2]⟩]⟩

def demoRoster (key : Bytes) : Bytes :=
  Route.text (identityOf 66) [66] [66, 3] (publicKey [66]) [16] [26] key ++ [10] ++ routeOf 2 2 12 22

def demoRun (key : Bytes) : List Act :=
  [.receive 0 [8] (item 1 1 ⟨.welcome, none, welcome.write ([5], demoGroup)⟩),
    .receive 0 [8] (item 2 2 (eventFrom [7] 1 "roster" (demoRoster key)))]

def demoStore (key : Bytes) : Store := (Trace.run (Act.step platform (sessionOf 9)) profile (demoRun key)).store

def demoConversation (key : Bytes) : Conversation where
  groupId := [7]
  creator := false
  peers := [⟨identityOf 2, [2], [2, 3], publicKey [2], some [12], some [22], some (publicKey [2, 1]), false⟩,
    ⟨identityOf 66, [66], [66, 3], publicKey [66], some [16], some [26], some key, false⟩]

def demoMls : Bytes :=
  mlsMessage.write ⟨.privateMessage, some [7], content.write (.application 0 (appEvent.write ⟨"text", utf8 "hi"⟩))⟩

def demoChance : Groups.Chance := ⟨[], fun _ => 0, fun i => ⟨[i.toUInt8], []⟩⟩

theorem demo_fresh {st : Store} (h : st.outbox.rows = []) : Fresh st 2 demoChance.draws := by
  refine ⟨by decide, fun i _ r hr => ?_⟩
  rw [Table.mem_def, h] at hr
  exact absurd hr List.not_mem_nil

end Arveil.FanOut
