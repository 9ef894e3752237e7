import Mathlib.Data.List.Flatten
import Arveil.Proofs.Acts
import Arveil.Proofs.FanOut

/-! Who commits. `i_am_committer` skips every revoked leaf below a device, and the
policy wants one commit to remove them all, while each commit built here removes
one leaf. So a removal passes exactly when it leaves no lower leaf in the group,
and `devices::prepare` returns exactly when each of its removals does. -/

namespace Arveil.Committer

open Client Delivery Groups Prog

variable {pf : Platform} {s : Session}

theorem checkLower_ok {revoked : Bytes → Bool} {removed : List UInt32} {committer : UInt32}
    {direction : CommitDirection} {ms : List Member} :
    Policy.checkLower revoked removed committer direction ms = .ok () ↔
      ∀ m ∈ ms, revoked (Policy.deviceOf m) = true ∧ m.index ∈ removed := by
  induction ms with
  | nil => simp [Policy.checkLower]
  | cons m ms ih =>
    unfold Policy.checkLower
    cases hr : revoked (Policy.deviceOf m) with
    | false => simp [hr]
    | true =>
      by_cases hm : m.index ∈ removed
      · simp [hr, hm, ih]
      · simp [hm]

theorem policyOf_ok {p : Except String (Option UInt8)} :
    Policy.policyOf p = .ok () ↔ p = .ok (some Policy.version) := by
  rcases p with e | _ | v
  · simp [Policy.policyOf]
  · simp [Policy.policyOf]
  · by_cases hv : v = Policy.version <;> simp [Policy.policyOf, hv]

theorem filterProposals_ok {revoked : Bytes → Bool} {direction : CommitDirection} {committer : UInt32}
    {roster : List Member} {policy : Except String (Option UInt8)} {removed : List UInt32} :
    Policy.filterProposals revoked direction (.existingMember committer) roster policy removed = .ok () ↔
      policy = .ok (some Policy.version) ∧
        ∀ m ∈ roster, m.index < committer → revoked (Policy.deviceOf m) = true ∧ m.index ∈ removed := by
  rw [← policyOf_ok]
  unfold Policy.filterProposals
  cases hp : Policy.policyOf policy with
  | error e => simp [bind, Except.bind]
  | ok u =>
    simp only [bind, Except.bind, checkLower_ok, List.mem_filter, decide_eq_true_eq, and_imp, true_and]

theorem lower_revoked {revoked : Bytes → Bool} {roster : List Member} {leaf : UInt32}
    (h : Policy.committerLeaf revoked roster = some leaf) {m : Member} (hm : m ∈ roster) (hlt : m.index < leaf) :
    revoked (Policy.deviceOf m) = true := by
  obtain ⟨c, hfind, rfl⟩ := Option.map_eq_some_iff.1 h
  by_contra hr
  have hsorted : ∀ l : List Member, l.Pairwise (fun a b => a.index ≤ b.index) → m ∈ l →
      l.find? (fun m => !revoked (Policy.deviceOf m)) = some c → c.index ≤ m.index := by
    intro l
    induction l with
    | nil => exact fun _ hml => absurd hml List.not_mem_nil
    | cons a l ih =>
      intro hp hml hf
      rw [List.find?_cons] at hf
      split at hf
      · obtain rfl := Option.some.inj hf
        rcases List.mem_cons.1 hml with rfl | hml
        · exact UInt32.le_refl _
        · exact (List.pairwise_cons.1 hp).1 m hml
      · next ha =>
        rcases List.mem_cons.1 hml with rfl | hml
        · simp [hr] at ha
        · exact ih (List.pairwise_cons.1 hp).2 hml hf
  have hle : c.index ≤ m.index := by
    refine hsorted _ ?_ ((List.mem_insertionSort _).2 hm) hfind
    have : Std.Total (fun a b : Member => a.index ≤ b.index) := ⟨fun a b => UInt32.le_total _ _⟩
    have : IsTrans Member (fun a b => a.index ≤ b.index) := ⟨fun a b c => UInt32.le_trans⟩
    exact List.pairwise_insertionSort _ _
  exact absurd hlt (UInt32.not_lt.2 hle)

section agreement

variable {roster : List Member} {policy : Except String (Option UInt8)} {direction : CommitDirection} {removed : List UInt32}

def accepts (revoked : Bytes → Bool) (roster : List Member) (policy : Except String (Option UInt8)) (direction : CommitDirection)
    (source : CommitSource) (removed : List UInt32) : Bool :=
  Policy.filterProposals revoked direction source roster policy removed = .ok ()

theorem accepts_member {revoked : Bytes → Bool} {committer : UInt32} :
    accepts revoked roster policy direction (.existingMember committer) removed = true ↔
      policy = .ok (some Policy.version) ∧
        ∀ m ∈ roster, m.index < committer → revoked (Policy.deviceOf m) = true ∧ m.index ∈ removed := by
  rw [accepts, decide_eq_true_eq, filterProposals_ok]

theorem refuses_above {revoked : Bytes → Bool} {low high : Member} (hlow : low ∈ roster) (hlt : low.index < high.index)
    (hknown : revoked (Policy.deviceOf low) = false) :
    accepts revoked roster policy direction (.existingMember high.index) removed = false := by
  by_contra h
  obtain ⟨-, hlower⟩ := accepts_member.1 (Bool.eq_true_of_not_eq_false h)
  rw [(hlower low hlow hlt).1] at hknown
  cases hknown

theorem refuses_newMember {revoked : Bytes → Bool} : accepts revoked roster policy direction .newMember removed = false := by
  rw [accepts, decide_eq_false_iff_not, Policy.filterProposals]
  cases Policy.policyOf policy <;> exact fun h => by cases h

theorem refuses_policy {revoked : Bytes → Bool} {source : CommitSource} (h : policy ≠ .ok (some Policy.version)) :
    accepts revoked roster policy direction source removed = false := by
  cases source with
  | newMember => exact refuses_newMember
  | existingMember committer =>
    by_contra ha
    exact h (accepts_member.1 (Bool.eq_true_of_not_eq_false ha)).1

theorem accepts_without_removal {revoked : Bytes → Bool} (hpolicy : policy = .ok (some Policy.version)) {m : Member} :
    accepts revoked roster policy direction (.existingMember m.index) [] = true ↔ ∀ m' ∈ roster, m.index ≤ m'.index := by
  rw [accepts_member]
  constructor
  · rintro ⟨-, h⟩ m' hm'
    by_contra hlt
    exact absurd (h m' hm' (UInt32.not_le.1 hlt)).2 List.not_mem_nil
  · intro h
    exact ⟨hpolicy, fun m' hm' hlt => absurd (h m' hm') (UInt32.not_le.2 hlt)⟩

/-- Two members that accept the commits of two leaves know the lower one as revoked, and the other commit removes it. -/
theorem commit_agreement (roster : List Member) (policy : Except String (Option UInt8)) :
    (∀ revoked₁ revoked₂ direction₁ direction₂ removed₁ removed₂, ∀ c₁ ∈ roster, ∀ c₂ ∈ roster, c₁.index < c₂.index →
      accepts revoked₁ roster policy direction₁ (.existingMember c₁.index) removed₁ = true →
      accepts revoked₂ roster policy direction₂ (.existingMember c₂.index) removed₂ = true →
      revoked₂ (Policy.deviceOf c₁) = true ∧ c₁.index ∈ removed₂) ∧
    (∀ revoked direction removed, ∀ c₁ ∈ roster, revoked (Policy.deviceOf c₁) = false → ∀ c ∈ roster,
      c₁.index < c.index ∨ (c.index ≠ c₁.index ∧ ∀ m ∈ roster, c₁.index ≤ m.index) →
      accepts revoked roster policy direction (.existingMember c.index) removed = false) ∧
    (∀ revoked direction removed, accepts revoked roster policy direction .newMember removed = false) ∧
    (policy ≠ .ok (some Policy.version) → ∀ revoked direction source removed, accepts revoked roster policy direction source removed = false) ∧
    (policy = .ok (some Policy.version) → ∀ revoked direction, ∀ c ∈ roster,
      (accepts revoked roster policy direction (.existingMember c.index) [] = true ↔ ∀ m ∈ roster, c.index ≤ m.index)) := by
  refine ⟨?_, ?_, fun _ _ _ => refuses_newMember, fun h _ _ _ _ => refuses_policy h, fun h _ _ _ _ => accepts_without_removal h⟩
  · intro revoked₁ revoked₂ direction₁ direction₂ removed₁ removed₂ c₁ h₁ c₂ _ hlt _ h
    exact (accepts_member.1 h).2 c₁ h₁ hlt
  · intro revoked direction removed c₁ h₁ hknown c hc hother
    have hlt : c₁.index < c.index := by
      rcases hother with hlt | ⟨hne, hlowest⟩
      · exact hlt
      · exact UInt32.lt_of_le_of_ne (hlowest c hc) hne.symm
    exact refuses_above h₁ hlt hknown

def leaf (index : UInt32) (device : Bytes) : Member := ⟨index, some device, []⟩

theorem two_commits_of_one_epoch : (fun d => d = [10] : Bytes → Bool) (Policy.deviceOf (leaf 0 [10])) = true ∧ (0 : UInt32) ∈ [(0 : UInt32)] :=
  (commit_agreement [leaf 0 [10], leaf 2 [12]] (.ok (some 2))).1 (fun _ => false) (fun d => d = [10]) .receive .receive [] [0]
    (leaf 0 [10]) (by decide) (leaf 2 [12]) (by decide) (by decide) (by decide) (by decide)

/-- Neither member knows of a revocation of leaf 1; one accepts its commit and the other that of leaf 0. -/
theorem lower_leaf_still_commits : ∃ (roster : List Member) (revoked₁ revoked₂ : Bytes → Bool) (c₁ c : Member),
    c₁ ∈ roster ∧ c ∈ roster ∧ c.index ≠ c₁.index ∧ revoked₁ (Policy.deviceOf c₁) = false ∧ revoked₂ (Policy.deviceOf c₁) = false ∧
      accepts revoked₁ roster (.ok (some 2)) .receive (.existingMember c₁.index) [c.index] = true ∧
      accepts revoked₂ roster (.ok (some 2)) .receive (.existingMember c.index) [] = true :=
  ⟨[leaf 0 [10], leaf 1 [11]], fun d => d = [10], fun _ => false, leaf 1 [11], leaf 0 [10], by decide, by decide, by decide, by decide,
    by decide, by decide, by decide⟩

end agreement

/-- A commit that removes this leaf alone leaves no leaf below this device, and
the group carries the policy. -/
def ClearsBelow (pf : Platform) (group : Bytes) (leaf : UInt32) : Prop :=
  pf.mlsPolicy group = .ok (some Policy.version) ∧
    ∀ m ∈ pf.mlsRoster group, m.index < pf.mlsOwnIndex group → m.index = leaf

theorem permitted_iff {st : Store} {group : Bytes} (h : iAmCommitter pf st group = true) (leaf : UInt32) :
    permitted pf st group ⟨[], [leaf]⟩ = .ok () ↔ ClearsBelow pf group leaf := by
  unfold permitted
  rw [filterProposals_ok]
  refine and_congr_right fun _ => forall₃_congr fun m hm hlt => ?_
  simp [lower_revoked (by simpa [iAmCommitter] using h) hm hlt]

def FreshAll (st : Store) (n : Nat) (cs : List Chance) : Prop :=
  (cs.flatMap fun c => (List.range n).map fun i => (c.draws i).deliveryId).Nodup ∧
    ∀ c ∈ cs, ∀ i < n, ∀ r ∈ st.outbox, r.deliveryId ≠ (c.draws i).deliveryId

theorem FreshAll.head {st : Store} {n : Nat} {c : Chance} {cs : List Chance} (h : FreshAll st n (c :: cs)) :
    FanOut.Fresh st n c.draws := by
  have hnodup := (List.nodup_append.1 (by simpa using h.1 : (_ ++ _ : List Bytes).Nodup)).1
  refine ⟨fun i hi j hj he => ?_, h.2 c List.mem_cons_self⟩
  exact List.inj_on_of_nodup_map hnodup (List.mem_range.2 hi) (List.mem_range.2 hj) he

theorem FreshAll.sublist {st : Store} {n : Nat} {cs cs' : List Chance} (h : FreshAll st n cs) (hs : cs'.Sublist cs) :
    FreshAll st n cs' :=
  ⟨h.1.sublist (hs.flatMap _), fun c hc => h.2 c (hs.subset hc)⟩

theorem FreshAll.tail {st : Store} {peers : List Peer} {c : Chance} {cs : List Chance} {t : Table OutboxRow.id}
    {new : List OutboxRow} {eventId : Option Bytes} {mls : Bytes} (h : FreshAll st peers.length (c :: cs))
    (ht : t.rows = st.outbox.rows ++ new)
    (hnew : (new.map FanOut.unnumbered).Perm
      ((FanOut.copies peers c.draws).filterMap (FanOut.copyFor pf s eventId mls))) :
    FreshAll { st with outbox := t } peers.length cs := by
  have hnodup : (((List.range peers.length).map fun i => (c.draws i).deliveryId) ++
      cs.flatMap fun c => (List.range peers.length).map fun i => (c.draws i).deliveryId).Nodup := by
    simpa using h.1
  refine ⟨(List.nodup_append.1 hnodup).2.1, fun c' hc' i hi r hr => ?_⟩
  rw [Table.mem_def, ht, List.mem_append] at hr
  rcases hr with hr | hr
  · exact h.2 c' (List.mem_cons_of_mem _ hc') i hi r hr
  · obtain ⟨pd, hpd, hcopy⟩ := List.mem_filterMap.1 (hnew.mem_iff.1 (List.mem_map_of_mem hr))
    obtain ⟨j, hj, hid⟩ := FanOut.copyFor_deliveryId hpd hcopy
    refine (List.nodup_append.1 hnodup).2.2 r.deliveryId ?_ (c'.draws i).deliveryId ?_
    · exact List.mem_map.2 ⟨j, List.mem_range.2 hj, hid.symm⟩
    · exact List.mem_flatMap.2 ⟨c', hc', List.mem_map.2 ⟨i, List.mem_range.2 hi, rfl⟩⟩

theorem enqueueNotices_run {valid : Bytes → Bool} {peers : List Peer} (hseal : ∀ p ∈ peers, ¬ FanOut.Unsealable valid p)
    (notification : Bytes) {msgs : List (Bytes × Chance)} (hs : ∀ m ∈ msgs, FanOut.Seals pf valid m.1) {st : Store}
    (hfresh : FreshAll st peers.length (msgs.map (·.2))) :
    ∃ n t, enqueueNotices pf s peers notification msgs st = (.ok n, { st with outbox := t }) := by
  induction msgs generalizing st with
  | nil => exact ⟨0, st.outbox, rfl⟩
  | cons m msgs ih =>
    obtain ⟨bytes, c⟩ := m
    obtain ⟨out, new, t, hrun, hrows, hnew, -⟩ := FanOut.fansOut_of_sealable (s := s) (hs _ List.mem_cons_self)
      (some notification) c.order hfresh.head hseal
    obtain ⟨n, t', hrest⟩ := ih (fun m hm => hs m (List.mem_cons_of_mem _ hm)) (hfresh.tail hrows hnew)
    refine ⟨out.noRoute + n, t', ?_⟩
    unfold enqueueNotices
    rw [bind_ok hrun, bind_ok hrest]
    rfl

def EncryptKeeps (pf : Platform) : Prop :=
  ∀ entropy state data state' mls, pf.mlsEncrypt entropy state data = .ok (state', mls) →
    pf.mlsRoster state' = pf.mlsRoster state ∧ pf.mlsOwnIndex state' = pf.mlsOwnIndex state ∧
      pf.mlsPolicy state' = pf.mlsPolicy state

/-- MLS builds the commit that removes this leaf and applies it, if it is asked to. -/
def Builds (pf : Platform) (entropy group : Bytes) (leaf : UInt32) (group' bytes : Bytes) : Prop :=
  pf.mlsPropose group ⟨[], [leaf]⟩ = .ok () ∧ ∃ pending out, pf.mlsBuild entropy group ⟨[], [leaf]⟩ = .ok (pending, out) ∧
    pf.mlsApply pending = .ok group' ∧ pf.mlsToBytes out.commitMessage = .ok bytes

/-- The group and the message after the manifest was announced, if it still had to be. -/
def Announces (pf : Platform) (c : Chance) (queued : Bool) (group manifest group' : Bytes)
    (event : List (Bytes × Chance)) : Prop :=
  if queued then group' = group ∧ event = []
  else ∃ bytes, pf.mlsEncrypt c.entropy group (pf.encodeEvent ⟨"manifest", manifest⟩) = .ok (group', bytes) ∧
    event = [(bytes, c)]

theorem removalCommit_ok {device entropy group : Bytes} {st : Store} {leaf : UInt32} {group' bytes : Bytes}
    (missing : CliError) (hleaf : leafOf pf group device = some leaf) (hb : Builds pf entropy group leaf group' bytes)
    (hp : permitted pf st group ⟨[], [leaf]⟩ = .ok ()) :
    removalCommit pf missing device entropy group st = (.ok (group', leaf, bytes), st) := by
  obtain ⟨hpropose, pending, out, hbuild, happly, hbytes⟩ := hb
  have hcommit : commit pf "mls remove" ⟨[], [leaf]⟩ entropy group st = (.ok (group', out), st) := by
    simp [commit, liftDomain, liftProtocol, bind_run, mapError, Prog.ofExcept, policyText, hpropose, hp, hbuild, happly]
  unfold removalCommit
  rw [hleaf, bind_ok (ofOption_some _ _ st), bind_ok hcommit]
  simp [liftProtocol, bind_run, mapError, Prog.ofExcept, hbytes]

theorem removalCommit_refused {device group : Bytes} {st : Store} {leaf : UInt32} {e : PolicyError}
    (missing : CliError) (entropy : Bytes) (hleaf : leafOf pf group device = some leaf)
    (hp : permitted pf st group ⟨[], [leaf]⟩ = .error e) :
    ∃ e', removalCommit pf missing device entropy group st = (.error e', st) := by
  have hcommit : ∃ e', commit pf "mls remove" ⟨[], [leaf]⟩ entropy group st = (.error e', st) := by
    unfold commit liftDomain
    cases hpropose : pf.mlsPropose group ⟨[], [leaf]⟩ with
    | error e => exact ⟨_, rfl⟩
    | ok u => exact ⟨_, by simp [bind_run, mapError, policyText, hp]; rfl⟩
  obtain ⟨e', he'⟩ := hcommit
  refine ⟨e', ?_⟩
  unfold removalCommit
  rw [hleaf, bind_ok (ofOption_some _ _ st), bind_error he']

/-- One own revocation and one conversation of this profile. -/
abbrev Owed := Revocation × Conversation

variable (pf) in
/-- All that `prepare` does for a revocation in a conversation goes through, the
policy apart: the group is stored, the manifest can be encrypted, MLS can build
the removal, and the fan-out is not stopped. -/
def Ready (valid : Bytes → Bool) (chance : (device group : Bytes) → Bool → Chance) (manifest : Bytes) (st : Store)
    (o : Owed) : Prop :=
  ∃ row group event, st.mlsGroups.get? o.2.groupId = some row ∧
    Announces pf (chance o.1.deviceId o.2.groupId false) (revocationGroupQueued st o.1.deviceId o.2.groupId) row.state
      manifest group event ∧
    (∀ leaf, leafOf pf row.state o.1.deviceId = some leaf → iAmCommitter pf st row.state = true →
      ∃ group' bytes, Builds pf (chance o.1.deviceId o.2.groupId true).entropy group leaf group' bytes ∧
        FanOut.Seals pf valid bytes) ∧
    (∀ m ∈ event, FanOut.Seals pf valid m.1) ∧ (∀ p ∈ o.2.peers, ¬ FanOut.Unsealable valid p) ∧
    FreshAll st o.2.peers.length [chance o.1.deviceId o.2.groupId false, chance o.1.deviceId o.2.groupId true]

variable (pf) in
/-- If this device commits to the group and the revoked device holds a leaf of it,
that leaf is the only one below. -/
def Unblocked (st : Store) (o : Owed) : Prop :=
  ∀ row, st.mlsGroups.get? o.2.groupId = some row → iAmCommitter pf st row.state = true →
    ∀ leaf, leafOf pf row.state o.1.deviceId = some leaf → ClearsBelow pf row.state leaf

theorem leafOf_isSome (group device : Bytes) :
    (leafOf pf group device).isSome = (pf.mlsRoster group).any fun m => m.deviceId = some device := by
  rw [leafOf, Option.isSome_map, List.isSome_find?]

theorem announced_keeps (hk : EncryptKeeps pf) {c : Chance} {queued : Bool} {group manifest group' : Bytes}
    {event : List (Bytes × Chance)} (h : Announces pf c queued group manifest group' event) :
    pf.mlsRoster group' = pf.mlsRoster group ∧ pf.mlsOwnIndex group' = pf.mlsOwnIndex group ∧
      pf.mlsPolicy group' = pf.mlsPolicy group := by
  unfold Announces at h
  split at h
  · rw [h.1]
    exact ⟨rfl, rfl, rfl⟩
  · obtain ⟨bytes, henc, -⟩ := h
    exact hk _ _ _ _ _ henc

theorem revokeUnit_ok {valid : Bytes → Bool} {r : Revocation} {conv : Conversation} {group : Bytes}
    {msgs : List (Bytes × Chance)} {st : Store} (hseal : ∀ p ∈ conv.peers, ¬ FanOut.Unsealable valid p)
    (hs : ∀ m ∈ msgs, FanOut.Seals pf valid m.1) (hfresh : FreshAll st conv.peers.length (msgs.map (·.2))) :
    ∃ st', delivery "revoke unit" (unitOfWork do
      Prog.modify (pf.writeGroup group none)
      let missing ← enqueueNotices pf s conv.peers r.notificationId msgs
      Prog.modify (revocationGroupRecord r.deviceId conv.groupId missing)) st = (.ok (), st') := by
  obtain ⟨n, t, hrun⟩ := enqueueNotices_run (s := s) hseal r.notificationId hs
    (show FreshAll (pf.writeGroup group none st) conv.peers.length (msgs.map (·.2)) from hfresh)
  refine ⟨revocationGroupRecord r.deviceId conv.groupId n { pf.writeGroup group none st with outbox := t }, ?_⟩
  rw [Receive.delivery_eq_ok, unitOfWork_eq_ok, bind_ok (modify_run _ st), bind_ok hrun]
  rfl

theorem announce_run {c : Chance} {queued : Bool} {group manifest group' : Bytes} {event : List (Bytes × Chance)}
    (h : Announces pf c queued group manifest group' event) (st : Store) :
    announce pf c queued group manifest st = (.ok (group', event), st) := by
  unfold Announces at h
  unfold announce
  split at h
  · next hq =>
    rw [if_pos hq, h.1, h.2]
    rfl
  · next hq =>
    obtain ⟨bytes, henc, rfl⟩ := h
    rw [if_neg hq]
    simp [manifestMessage, liftProtocol, bind_run, mapError, Prog.ofExcept, henc]

theorem announced_chance {c : Chance} {queued : Bool} {group manifest group' : Bytes} {event : List (Bytes × Chance)}
    (h : Announces pf c queued group manifest group' event) : (event.map (·.2)).Sublist [c] := by
  unfold Announces at h
  split at h
  · rw [h.2]
    exact List.nil_sublist _
  · obtain ⟨bytes, -, rfl⟩ := h
    exact List.Sublist.refl _

theorem prepareGroup_ok_iff (hk : EncryptKeeps pf) {valid : Bytes → Bool}
    {chance : (device group : Bytes) → Bool → Chance} {manifest : Bytes} {st : Store} {o : Owed}
    (h : Ready pf valid chance manifest st o) :
    (∃ st', prepareGroup pf s (chance o.1.deviceId o.2.groupId) o.1 manifest o.2 st = (.ok (), st')) ↔
      Unblocked pf st o := by
  obtain ⟨r, conv⟩ := o
  obtain ⟨row, group, event, hrow, hann, hbuilds, hevent, hseal, hfresh⟩ := h
  obtain ⟨hroster, hown, hpolicy⟩ := announced_keeps hk hann
  have hleafOf : leafOf pf group r.deviceId = leafOf pf row.state r.deviceId := by simp only [leafOf, hroster]
  have hpermitted (leaf : UInt32) : permitted pf st group ⟨[], [leaf]⟩ = permitted pf st row.state ⟨[], [leaf]⟩ := by
    simp only [permitted, hroster, hown, hpolicy]
  have hunblocked (hr : ((leafOf pf row.state r.deviceId).isSome && iAmCommitter pf st row.state) = false) :
      Unblocked pf st (r, conv) := by
    intro row' hrow' hc leaf hleaf
    obtain rfl := Option.some.inj (hrow.symm.trans hrow')
    rw [hleaf, hc] at hr
    cases hr
  unfold prepareGroup
  rw [bind_ok (read_run _ st), bind_ok (FanOut.loadGroup_run hrow), bind_ok (read_run _ st)]
  simp only
  rw [← leafOf_isSome]
  cases hr : (leafOf pf row.state r.deviceId).isSome && iAmCommitter pf st row.state with
  | false =>
    -- nothing to remove: at most the manifest is queued
    refine ⟨fun _ => hunblocked hr, fun _ => ?_⟩
    split
    · exact ⟨st, rfl⟩
    · rw [bind_ok (announce_run hann st)]
      simp only
      rw [bind_ok (show enact pf (chance r.deviceId conv.groupId true) false r.deviceId group st = (.ok (group, []), st) from rfl)]
      refine revokeUnit_ok hseal (by simpa using hevent) (hfresh.sublist ?_)
      rw [List.append_nil]
      exact (announced_chance hann).trans (by simp)
  | true =>
    rw [Bool.and_eq_true] at hr
    obtain ⟨leaf, hleaf⟩ := Option.isSome_iff_exists.1 hr.1
    have hiff : Unblocked pf st (r, conv) ↔ permitted pf st group ⟨[], [leaf]⟩ = .ok () := by
      rw [hpermitted, permitted_iff hr.2]
      refine ⟨fun hu => hu row hrow hr.2 leaf hleaf, fun hc row' hrow' _ leaf' hleaf' => ?_⟩
      obtain rfl := Option.some.inj (hrow.symm.trans hrow')
      rwa [← Option.some.inj (hleaf.symm.trans hleaf')]
    rw [if_neg (by simp), bind_ok (announce_run hann st), hiff]
    simp only
    constructor
    · rintro ⟨st', hrun⟩
      cases hp : permitted pf st group ⟨[], [leaf]⟩ with
      | ok u => rfl
      | error e =>
        obtain ⟨e', he'⟩ := removalCommit_refused (.domain "revoked device missing from roster")
          (chance r.deviceId conv.groupId true).entropy (hleafOf.trans hleaf) hp
        have henact : enact pf (chance r.deviceId conv.groupId true) true r.deviceId group st = (.error e', st) :=
          bind_error he'
        rw [bind_error henact] at hrun
        cases hrun
    · intro hp
      obtain ⟨group', bytes, hb, hs⟩ := hbuilds leaf hleaf hr.2
      have henact : enact pf (chance r.deviceId conv.groupId true) true r.deviceId group st =
          (.ok (group', [(bytes, chance r.deviceId conv.groupId true)]), st) :=
        bind_ok (removalCommit_ok _ (hleafOf.trans hleaf) hb hp)
      rw [bind_ok henact]
      refine revokeUnit_ok hseal (fun m hm => ?_) (hfresh.sublist ?_)
      · rcases List.mem_append.1 hm with hm | hm
        · exact hevent m hm
        · rw [List.mem_singleton.1 hm]
          exact hs
      · rw [List.map_append]
        exact (announced_chance hann).append (List.Sublist.refl _)

def owed (st : Store) : List Owed := (revocations st).flatMap fun r => (conversations st).map (r, ·)

variable (pf s) in
def prepareOne (chance : (device group : Bytes) → Bool → Chance) (manifest : Bytes) (o : Owed) : App Unit :=
  prepareGroup pf s (chance o.1.deviceId o.2.groupId) o.1 manifest o.2

/-- The pass reads conversations and manifest again for each revocation, and they
are the same each time. -/
theorem prepare_eq {chance : (device group : Bytes) → Bool → Chance} {manifest : Bytes} {st : Store}
    (hm : latestManifest st = some manifest) :
    prepare pf s chance st = forEach (owed st) (prepareOne pf s chance manifest) st := by
  have hpass : ∀ (revs : List Revocation) (st' : Store), ungrouped st' = ungrouped st →
      forEach revs (prepareRevocation pf s chance) st' =
        forEach (revs.flatMap fun r => (conversations st).map (r, ·)) (prepareOne pf s chance manifest) st' := by
    intro revs
    induction revs with
    | nil => exact fun _ _ => rfl
    | cons r revs ih =>
      intro st' hst
      have hm' : latestManifest st' = latestManifest st := by
        have := congrArg latestManifest hst
        exact this
      have hconvs : conversations st' = conversations st := by
        have := congrArg conversations hst
        exact this
      have hone : prepareRevocation pf s chance r st' =
          forEach (conversations st) (fun conv => prepareOne pf s chance manifest (r, conv)) st' := by
        unfold prepareRevocation
        rw [bind_ok (read_run _ st'), hm', hm, bind_ok (ofOption_some _ _ st'), bind_ok (read_run _ st'), hconvs]
        rfl
      have hfix : ungrouped (forEach (conversations st) (fun conv => prepareOne pf s chance manifest (r, conv)) st').2 =
          ungrouped st' := fixes_forEach _ (fun conv _ => fixes_prepareGroup _ _ _ _) st'
      simp only [List.flatMap_cons, forEach_append, forEach_map, forEach_cons]
      rcases hrun : forEach (conversations st) (fun conv => prepareOne pf s chance manifest (r, conv)) st' with ⟨_ | _, st₁⟩
      · rw [bind_error (hone.trans hrun), bind_error hrun]
      · rw [bind_ok (hone.trans hrun), bind_ok hrun]
        rw [hrun] at hfix
        exact ih st₁ (hfix.trans hst)
  unfold prepare
  rw [bind_ok (read_run _ st)]
  exact hpass _ st rfl

/-- A commit that removes one revoked leaf is accepted from the committer exactly
when it leaves no leaf below the committer; and `prepare`, when nothing but the
policy can stop it, returns exactly when each removal it comes to does so. -/
theorem removal_accepted_iff (hk : EncryptKeeps pf) (st : Store) :
    (∀ group leaf, iAmCommitter pf st group = true →
      (permitted pf st group ⟨[], [leaf]⟩ = .ok () ↔ ClearsBelow pf group leaf)) ∧
    ∀ valid chance manifest, latestManifest st = some manifest →
      Trace.Meets (fun st o => (prepareOne pf s chance manifest o st).2) (Ready pf valid chance manifest) st (owed st) →
      ((∃ st', prepare pf s chance st = (.ok (), st')) ↔
        Trace.Meets (fun st o => (prepareOne pf s chance manifest o st).2) (Unblocked pf) st (owed st)) := by
  refine ⟨fun group leaf h => permitted_iff h leaf, fun valid chance manifest hm hready => ?_⟩
  rw [prepare_eq hm, Trace.forEach_ok_iff]
  exact hready.congr fun st o h => prepareGroup_ok_iff hk h

open Demo

/-- Own devices 11 and on are revoked and hold the first leaves, then this device,
then someone else's. -/
def demoGroup (revoked : List UInt8) : Group where
  id := [7]
  epoch := 1
  own := revoked.length.toUInt32
  members := (revoked ++ [9, 2]).zipIdx.map fun di : UInt8 × Nat => ⟨di.2.toUInt32, some [di.1], publicKey [di.1, 2]⟩

def demoPeer (device : UInt8) (identity : UInt8) (revoked : Bool) : PeerRow :=
  ⟨[7], [device], identityOf identity, [device, 3], publicKey [identity], some [device, 5], some [device, 6],
    some (publicKey [device, 1]), revoked⟩

def demoConversation : ConversationRow := ⟨[7], true, 0, none, none, .none, none⟩

def demoStore (revoked : List UInt8) (h : revoked.Nodup ∧ 2 ∉ revoked) : Store :=
  { Store.empty with
    identity := some ⟨none, publicKey [9], identityOf 9⟩
    manifest := ⟨[⟨identityOf 9, 5, [70], [71]⟩], by simp⟩
    identityDevices := ⟨revoked.map fun d => ⟨[d], [d, 3], true⟩,
      by simpa [List.map_map, Function.comp_def] using h.1.map (fun a b he => by simpa using he)⟩
    deviceRevocations := ⟨revoked.map fun d => ⟨[d], [d, 4], true⟩,
      by simpa [List.map_map, Function.comp_def] using h.1.map (fun a b he => by simpa using he)⟩
    conversations := ⟨[demoConversation], by simp⟩
    peers := ⟨demoPeer 2 2 false :: revoked.map fun d => demoPeer d 9 true, by
      have hnodup := h.1.map (fun a b (he : (([7], [a]) : Bytes × Bytes) = ([7], [b])) => by simpa using he)
      simpa [List.map_map, Function.comp_def, demoPeer, hnodup] using h.2⟩
    mlsGroups := ⟨[⟨[7], group.write (demoGroup revoked)⟩], by simp⟩ }

def demoChance (device _group : Bytes) (removal : Bool) : Chance :=
  ⟨[], fun _ => 0, fun i => ⟨device ++ [if removal then 1 else 0, i.toUInt8], []⟩⟩

theorem demo_encryptKeeps : EncryptKeeps platform := by
  intro entropy state data state' mls h
  obtain rfl := (Prod.mk.inj (Except.ok.inj h)).1
  exact ⟨rfl, rfl, rfl⟩

theorem demo_builds (entropy state : Bytes) (leaf : UInt32)
    (hm : (groupOf state).members.any (fun m => m.index = leaf) = true) (hne : (groupOf state).own ≠ leaf) :
    ∃ state' bytes, Builds platform entropy state leaf state' bytes := by
  refine ⟨_, _, ?_, _, _, if_neg ?_, rfl, rfl⟩
  · simp only [platform, List.all_cons, List.all_nil, Bool.and_true, hm, if_true]
  · simpa using hne

/-- Both phones are revoked and hold the two lowest leaves: no removal passes the
policy, and every synchronisation stops before it connects. -/
theorem two_revoked_leaves_block :
    iAmCommitter platform (demoStore [11, 12] (by decide)) (group.write (demoGroup [11, 12])) = true ∧
    (¬ ∀ device leaf, deviceRevoked (demoStore [11, 12] (by decide)) device = true →
      leafOf platform (group.write (demoGroup [11, 12])) device = some leaf →
      permitted platform (demoStore [11, 12] (by decide)) (group.write (demoGroup [11, 12])) ⟨[], [leaf]⟩ = .ok ()) ∧
    ¬ ∃ st', prepare platform (sessionOf 9) demoChance (demoStore [11, 12] (by decide)) = (.ok (), st') := by
  have hrun : (prepare platform (sessionOf 9) demoChance (demoStore [11, 12] (by decide))).1.toOption = none := by
    decide +kernel
  refine ⟨by decide +kernel, fun h => ?_, fun ⟨st', h⟩ => ?_⟩
  · exact absurd (h [11] 0 (by decide +kernel) (by decide +kernel)) (by decide +kernel)
  · rw [h] at hrun
    cases hrun

/-- With one phone the removal passes and the pass returns. -/
theorem one_revoked_leaf_passes :
    ∃ st', prepare platform (sessionOf 9) demoChance (demoStore [11] (by decide)) = (.ok (), st') := by
  have howed : owed (demoStore [11] (by decide)) =
      [(⟨[11], [11, 4], true⟩, ⟨[7], true, peersOf (demoStore [11] (by decide)) [7]⟩)] := by decide +kernel
  have hleaf : leafOf platform (group.write (demoGroup [11])) [11] = some 0 := by decide +kernel
  have hrow : (demoStore [11] (by decide)).mlsGroups.get? [7] = some ⟨[7], group.write (demoGroup [11])⟩ := by
    decide +kernel
  refine ((removal_accepted_iff demo_encryptKeeps (demoStore [11] (by decide))).2 FanOut.valid demoChance [70]
    (by decide +kernel) ?_).2 ?_
  · rw [howed]
    refine ⟨⟨_, group.write (demoGroup [11]), _, hrow, ⟨_, rfl, rfl⟩, fun leaf hl _ => ?_,
      fun m _ => FanOut.demo_seals m.1, ?_, ?_⟩, trivial⟩
    · obtain rfl := Option.some.inj (hleaf.symm.trans hl)
      obtain ⟨state', bytes, hb⟩ := demo_builds (demoChance [11] [7] true).entropy (group.write (demoGroup [11])) 0
        (by decide +kernel) (by decide +kernel)
      exact ⟨state', bytes, hb, FanOut.demo_seals bytes⟩
    · have hall : ∀ p ∈ peersOf (demoStore [11] (by decide)) [7], p.hpke.all FanOut.valid = true := by decide +kernel
      rintro p hp ⟨-, -, key, hk, hbad⟩
      simp only at hp
      have := hall p hp
      rw [hk, Option.all_some, hbad] at this
      cases this
    · exact ⟨by decide +kernel, fun _ _ _ _ r hr => absurd hr List.not_mem_nil⟩
  · rw [howed]
    refine ⟨fun row hrow' _ leaf hl => ?_, trivial⟩
    obtain rfl := Option.some.inj (hrow.symm.trans hrow')
    obtain rfl := Option.some.inj (hleaf.symm.trans hl)
    exact ⟨rfl, by decide +kernel⟩

end Arveil.Committer
