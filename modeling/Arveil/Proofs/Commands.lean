import Mathlib.Data.Prod.Lex
import Arveil.Sanity.Platform
import Arveil.Spec.Commands

/-! No update of a group is lost. Between the load of a group and the unit that writes it
no command waits, so what it writes was computed from what is stored. A group that begins,
created here or joined from a Welcome, is written over whatever was stored under its id. -/

namespace Arveil.Commands

open Prog Client

variable {pf : Platform} {generation : Bytes → Nat}

inductive Derived (pf : Platform) : Bytes → Bytes → Prop
  | refl (a : Bytes) : Derived pf a a
  | encrypt {a b c entropy data m : Bytes} (h : Derived pf a b) (he : pf.mlsEncrypt entropy b data = .ok (c, m)) :
      Derived pf a c
  | process {a b c : Bytes} {revoked : Bytes → Bool} {msg : MlsMessage} {r : ReceivedMessage} (h : Derived pf a b)
      (hp : pf.mlsProcess revoked b msg = .ok (c, r)) : Derived pf a c
  | commit {a b c entropy pending : Bytes} {p : Proposals} {out : CommitOutput} (h : Derived pf a b)
      (hb : pf.mlsBuild entropy b p = .ok (pending, out)) (ha : pf.mlsApply pending = .ok c) : Derived pf a c

theorem Derived.trans {a b c : Bytes} (h : Derived pf a b) (h' : Derived pf b c) : Derived pf a c := by
  induction h' with
  | refl => exact h
  | encrypt _ he ih => exact ih.encrypt he
  | process _ hp ih => exact ih.process hp
  | commit _ hb ha ih => exact ih.commit hb ha

/-- The key a state encrypts the next message with: its epoch and its generation. -/
def position (pf : Platform) (generation : Bytes → Nat) (state : Bytes) : ℕ ×ₗ ℕ :=
  toLex ((pf.mlsEpoch state).toNat, generation state)

/-- MLS keeps the id of a group, never goes back to an earlier epoch, and spends one
generation of the sender's key for each message it encrypts. -/
structure MlsLaws (pf : Platform) (generation : Bytes → Nat) : Prop where
  encrypt : ∀ {entropy a data b m}, pf.mlsEncrypt entropy a data = .ok (b, m) →
    pf.mlsGroupId b = pf.mlsGroupId a ∧ position pf generation a < position pf generation b
  process : ∀ {revoked a msg b r}, pf.mlsProcess revoked a msg = .ok (b, r) →
    pf.mlsGroupId b = pf.mlsGroupId a ∧ position pf generation a ≤ position pf generation b
  commit : ∀ {entropy a p pending out b}, pf.mlsBuild entropy a p = .ok (pending, out) → pf.mlsApply pending = .ok b →
    pf.mlsGroupId b = pf.mlsGroupId a ∧ position pf generation a ≤ position pf generation b

variable (laws : MlsLaws pf generation)

include laws in
theorem Derived.groupId {a b : Bytes} (h : Derived pf a b) : pf.mlsGroupId b = pf.mlsGroupId a := by
  induction h with
  | refl => rfl
  | encrypt _ he ih => exact (laws.encrypt he).1.trans ih
  | process _ hp ih => exact (laws.process hp).1.trans ih
  | commit _ hb ha ih => exact (laws.commit hb ha).1.trans ih

include laws in
theorem Derived.position_le {a b : Bytes} (h : Derived pf a b) : position pf generation a ≤ position pf generation b := by
  induction h with
  | refl => exact le_refl _
  | encrypt _ he ih => exact ih.trans (laws.encrypt he).2.le
  | process _ hp ih => exact ih.trans (laws.process hp).2
  | commit _ hb ha ih => exact ih.trans (laws.commit hb ha).2

/-- The keys spent on a group's messages since the group last began. -/
def keysOf (g : Bytes) (log : List Write) : List Bytes :=
  log.foldl (fun keys w =>
    if w.groupId ≠ g then keys
    else match w.origin with
      | .loaded _ => keys ++ w.sent.map (·.key)
      | _ => w.sent.map (·.key)) []

structure Inv (pf : Platform) (generation : Bytes → Nat) (s : Mls) : Prop where
  filed : ∀ g a, s.groups g = some a → pf.mlsGroupId a = g
  based : ∀ w ∈ s.log, ∀ a, w.origin = .loaded a → w.found = some a ∧ Derived pf a w.state
  keys : ∀ g, ((keysOf g s.log).map (position pf generation)).Pairwise (· < ·)
  spent : ∀ g, ∀ k ∈ keysOf g s.log, ∃ a, s.groups g = some a ∧ position pf generation k < position pf generation a

/-- From one state to a later one: the log grows, and a group that does not begin anew
goes on from what was stored. -/
def Extends (pf : Platform) (s s' : Mls) : Prop :=
  ∃ ws, s'.log = s.log ++ ws ∧ ∀ g, (∀ w ∈ ws, w.groupId = g → ∃ a, w.origin = .loaded a) →
    ∀ a, s.groups g = some a → ∃ b, s'.groups g = some b ∧ Derived pf a b

def Keeps (pf : Platform) (generation : Bytes → Nat) (s s' : Mls) : Prop :=
  Inv pf generation s → Inv pf generation s' ∧ Extends pf s s'

theorem Extends.refl (s : Mls) : Extends pf s s := ⟨[], by simp, fun _ _ a ha => ⟨a, ha, .refl a⟩⟩

theorem Extends.trans {s s' s'' : Mls} (h : Extends pf s s') (h' : Extends pf s' s'') : Extends pf s s'' := by
  obtain ⟨ws, hlog, hg⟩ := h
  obtain ⟨ws', hlog', hg'⟩ := h'
  refine ⟨ws ++ ws', by rw [hlog', hlog, List.append_assoc], fun g hws a ha => ?_⟩
  obtain ⟨b, hb, hab⟩ := hg g (fun w hw => hws w (List.mem_append_left _ hw)) a ha
  obtain ⟨c, hc, hbc⟩ := hg' g (fun w hw => hws w (List.mem_append_right _ hw)) b hb
  exact ⟨c, hc, hab.trans hbc⟩

theorem keeps_refl (s : Mls) : Keeps pf generation s s := fun h => ⟨h, .refl s⟩

theorem keeps_trans (a b c : Mls) (h : Keeps pf generation a b) (h' : Keeps pf generation b c) : Keeps pf generation a c := by
  intro ha
  obtain ⟨hb, hab⟩ := h ha
  obtain ⟨hc, hbc⟩ := h' hb
  exact ⟨hc, hab.trans hbc⟩

/-- A group in memory, while nothing else has run since it was loaded, and the messages
encrypted on it so far. -/
structure Holds (pf : Platform) (generation : Bytes → Nat) (s : Mls) (h : Handle) (sent : List Sent) : Prop where
  stored : ∀ a, h.origin = .loaded a → s.groups (pf.mlsGroupId h.state) = some a ∧ Derived pf a h.state
  ordered : ((sent.map (·.key)).map (position pf generation)).Pairwise (· < ·)
  after : ∀ m ∈ sent, ∀ a, h.origin = .loaded a → position pf generation a ≤ position pf generation m.key
  before : ∀ m ∈ sent, position pf generation m.key < position pf generation h.state

theorem holds_created (s : Mls) {h : Handle} (hn : ∀ a, h.origin ≠ .loaded a) : Holds pf generation s h [] :=
  ⟨fun a ha => absurd ha (hn a), by simp, by simp, by simp⟩

theorem loadGroup_ok {context : String} {gid : Bytes} {s s' : Mls} {h : Handle}
    (hl : loadGroup pf context gid s = (.ok h, s')) :
    s' = s ∧ (Inv pf generation s → Holds pf generation s h []) := by
  unfold loadGroup at hl
  rw [bind_ok (read_run _ s)] at hl
  cases hg : s.groups gid with
  | none => rw [hg] at hl; cases hl
  | some state =>
    rw [hg] at hl
    obtain ⟨hr, rfl⟩ := Prod.mk.inj hl
    obtain rfl := (Except.ok.inj hr).symm
    refine ⟨rfl, fun hi => ⟨fun a ha => ?_, by simp, by simp, by simp⟩⟩
    obtain rfl := Origin.loaded.inj ha
    exact ⟨by simpa only [hi.filed gid _ hg] using hg, .refl _⟩

include laws in
theorem encrypt_holds {entropy data : Bytes} {s : Mls} {h h' : Handle} {sent : List Sent} {m : Sent}
    (he : encrypt pf entropy data h = .ok (h', m)) (hh : Holds pf generation s h sent) :
    Holds pf generation s h' (sent ++ [m]) := by
  unfold encrypt at he
  cases hr : pf.mlsEncrypt entropy h.state data with
  | error e => rw [hr] at he; cases he
  | ok r =>
    obtain ⟨state, message⟩ := r
    rw [hr] at he
    obtain ⟨rfl, rfl⟩ := Prod.mk.inj (Except.ok.inj he)
    obtain ⟨hid, hlt⟩ := laws.encrypt hr
    refine ⟨fun a ha => ?_, ?_, fun m hm a ha => ?_, fun m hm => ?_⟩
    · obtain ⟨hs, hd⟩ := hh.stored a ha
      exact ⟨by simpa only [hid] using hs, hd.encrypt hr⟩
    · rw [List.map_append, List.map_append, List.pairwise_append]
      refine ⟨hh.ordered, by simp, fun x hx y hy => ?_⟩
      simp only [List.map_map, List.mem_map, Function.comp] at hx
      obtain ⟨m', hm', rfl⟩ := hx
      obtain rfl : y = position pf generation h.state := by simpa using hy
      exact hh.before m' hm'
    · rcases List.mem_append.1 hm with hm | hm
      · exact hh.after m hm a ha
      · obtain rfl := List.mem_singleton.1 hm
        exact (hh.stored a ha).2.position_le laws
    · rcases List.mem_append.1 hm with hm | hm
      · exact (hh.before m hm).trans hlt
      · obtain rfl := List.mem_singleton.1 hm
        exact hlt

include laws in
theorem Holds.moves {s : Mls} {h : Handle} {sent : List Sent} {state : Bytes} (hh : Holds pf generation s h sent)
    (hd : Derived pf h.state state) : Holds pf generation s { h with state := state } sent where
  stored a ha := by
    obtain ⟨hs, hbase⟩ := hh.stored a ha
    exact ⟨by simpa only [hd.groupId laws] using hs, hbase.trans hd⟩
  ordered := hh.ordered
  after := hh.after
  before m hm := (hh.before m hm).trans_le (hd.position_le laws)

theorem lift_eq_ok {α : Type} {error : String → CliError} {r : Except String α} {s s' : Mls} {a : α} :
    lift error r s = (.ok a, s') ↔ r = .ok a ∧ s' = s := by
  unfold lift
  rw [mapError_eq_ok, ofExcept_eq_ok]
  simp only [eq_comm]

theorem commit_ok {what : String} {revoked : Bytes → Bool} {p : Proposals} {entropy : Bytes} {h h' : Handle}
    {out : CommitOutput} {s s' : Mls} (hc : commit pf what revoked p entropy h s = (.ok (h', out), s')) :
    s' = s ∧ ∃ state, Derived pf h.state state ∧ h' = { h with state := state } := by
  unfold commit at hc
  obtain ⟨_, s₁, h1, hc1⟩ := bind_eq_ok.1 hc
  obtain ⟨_, s₂, h2, hc2⟩ := bind_eq_ok.1 hc1
  obtain ⟨⟨pending, out'⟩, s₃, h3, hc3⟩ := bind_eq_ok.1 hc2
  obtain ⟨state, s₄, h4, hc4⟩ := bind_eq_ok.1 hc3
  obtain ⟨-, rfl⟩ := lift_eq_ok.1 h1
  obtain ⟨-, rfl⟩ := lift_eq_ok.1 h2
  obtain ⟨hb, rfl⟩ := lift_eq_ok.1 h3
  obtain ⟨ha, rfl⟩ := lift_eq_ok.1 h4
  obtain ⟨hr, rfl⟩ := Prod.mk.inj hc4
  obtain ⟨rfl, -⟩ := Prod.mk.inj (Except.ok.inj hr)
  exact ⟨rfl, state, (Derived.refl _).commit hb ha, rfl⟩

theorem removalCommit_ok {missing : CliError} {revoked : Bytes → Bool} {device entropy : Bytes} {h h' : Handle}
    {s s' : Mls} (hc : removalCommit pf missing revoked device entropy h s = (.ok h', s')) :
    s' = s ∧ ∃ state, Derived pf h.state state ∧ h' = { h with state := state } := by
  unfold removalCommit at hc
  obtain ⟨index, s₁, h1, hc1⟩ := bind_eq_ok.1 hc
  obtain ⟨⟨g, out⟩, s₂, h2, hc2⟩ := bind_eq_ok.1 hc1
  obtain ⟨_, s₃, h3, hc3⟩ := bind_eq_ok.1 hc2
  obtain ⟨-, rfl⟩ := ofOption_eq_ok.1 h1
  obtain ⟨rfl, hd⟩ := commit_ok h2
  obtain ⟨-, rfl⟩ := lift_eq_ok.1 h3
  obtain ⟨hr, rfl⟩ := Prod.mk.inj hc3
  obtain rfl := Except.ok.inj hr
  exact ⟨rfl, hd⟩

theorem keysOf_append (g : Bytes) (log : List Write) (w : Write) :
    keysOf g (log ++ [w]) = if w.groupId ≠ g then keysOf g log
      else match w.origin with
        | .loaded _ => keysOf g log ++ w.sent.map (·.key)
        | _ => w.sent.map (·.key) := by
  simp only [keysOf, List.foldl_append, List.foldl_cons, List.foldl_nil]

include laws in
theorem write_keeps {s : Mls} {h : Handle} {sent : List Sent} (hh : Holds pf generation s h sent) :
    Keeps pf generation s (write pf h sent s) := by
  intro hi
  have hown : (write pf h sent s).groups (pf.mlsGroupId h.state) = some h.state := by simp [write]
  have hother : ∀ g, pf.mlsGroupId h.state ≠ g → (write pf h sent s).groups g = s.groups g :=
    fun g hg => by simp [write, Function.update_of_ne (Ne.symm hg)]
  refine ⟨⟨fun g a ha => ?_, fun w hw a ha => ?_, fun g => ?_, fun g k hk => ?_⟩, ?_⟩
  · by_cases hg : pf.mlsGroupId h.state = g
    · subst hg
      obtain rfl := Option.some.inj (hown.symm.trans ha)
      rfl
    · exact hi.filed g a (hother g hg ▸ ha)
  · rcases List.mem_append.1 hw with hw | hw
    · exact hi.based w hw a ha
    · obtain rfl := List.mem_singleton.1 hw
      exact hh.stored a ha
  · rw [write, keysOf_append]
    split
    next => exact hi.keys g
    next hg =>
      have hg : pf.mlsGroupId h.state = g := not_not.1 hg
      dsimp only
      split
      next a ha =>
        rw [List.map_append, List.pairwise_append]
        refine ⟨hi.keys g, hh.ordered, fun x hx y hy => ?_⟩
        obtain ⟨k, hk, rfl⟩ := List.mem_map.1 hx
        simp only [List.map_map, List.mem_map, Function.comp] at hy
        obtain ⟨m, hm, rfl⟩ := hy
        obtain ⟨b, hb, hlt⟩ := hi.spent g k hk
        obtain rfl : b = a := Option.some.inj (hb.symm.trans (hg ▸ (hh.stored a ha).1))
        exact hlt.trans_le (hh.after m hm b ha)
      next => exact hh.ordered
  · rw [write, keysOf_append] at hk
    split at hk
    next hg =>
      rw [hother g hg]
      exact hi.spent g k hk
    next hg =>
      have hg : pf.mlsGroupId h.state = g := not_not.1 hg
      refine ⟨h.state, hg ▸ hown, ?_⟩
      have hsent : k ∈ sent.map (·.key) → position pf generation k < position pf generation h.state := by
        intro hk
        obtain ⟨m, hm, rfl⟩ := List.mem_map.1 hk
        exact hh.before m hm
      dsimp only at hk
      split at hk
      next a ha =>
        rcases List.mem_append.1 hk with hk | hk
        · obtain ⟨b, hb, hlt⟩ := hi.spent g k hk
          obtain ⟨hs, hd⟩ := hh.stored a ha
          obtain rfl : b = a := Option.some.inj (hb.symm.trans (hg ▸ hs))
          exact hlt.trans_le (hd.position_le laws)
        · exact hsent hk
      next => exact hsent hk
  · refine ⟨[⟨pf.mlsGroupId h.state, h.origin, s.groups (pf.mlsGroupId h.state), h.state, sent⟩], rfl, fun g hws a ha => ?_⟩
    by_cases hg : pf.mlsGroupId h.state = g
    · obtain ⟨b, hb⟩ := hws _ (List.mem_singleton_self _) hg
      obtain ⟨hs, hd⟩ := hh.stored b hb
      obtain rfl : b = a := Option.some.inj (hs.symm.trans (hg ▸ ha))
      exact ⟨h.state, hg ▸ hown, hd⟩
    · exact ⟨a, (hother g hg).trans ha, .refl a⟩

include laws in
theorem writeUnit_keeps {s : Mls} {h : Handle} {sent : List Sent} (rest : Outcome)
    (hh : Inv pf generation s → Holds pf generation s h sent) :
    Keeps pf generation s (writeUnit pf h sent rest s).2 := by
  unfold writeUnit
  refine unitOfWork_snd (keeps_refl s) fun hi => ?_
  rw [bind_ok (modify_run _ s)]
  cases rest with
  | ok u => exact write_keeps laws (hh hi) hi
  | error e => exact write_keeps laws (hh hi) hi

theorem fixes_lift {α : Type} (error : String → CliError) (r : Except String α) : Fixes id (lift error r : Local α) :=
  fixes_mapError _ (fixes_ofExcept r)

theorem fixes_loadGroup (context : String) (gid : Bytes) : Fixes id (loadGroup pf context gid) := by
  refine fixes_bind (fixes_read _) fun stored => ?_
  cases stored with
  | none => exact fixes_fail _
  | some state => exact fixes_pure _

theorem fixes_guardRevoked (conv : Conversation) (h : Handle) : Fixes id (guardRevoked pf conv h) := by
  unfold guardRevoked
  simp only
  split
  · exact fixes_pure _
  · exact fixes_fail _

theorem fixes_commit (what : String) (revoked : Bytes → Bool) (p : Proposals) (entropy : Bytes) (h : Handle) :
    Fixes id (commit pf what revoked p entropy h) :=
  fixes_bind (fixes_lift _ _) fun _ => fixes_bind (fixes_lift _ _) fun _ => fixes_bind (fixes_lift _ _) fun _ =>
    fixes_bind (fixes_lift _ _) fun _ => fixes_pure _

theorem fixes_removalCommit (missing : CliError) (revoked : Bytes → Bool) (device entropy : Bytes) (h : Handle) :
    Fixes id (removalCommit pf missing revoked device entropy h) :=
  fixes_bind (fixes_ofOption _ _) fun _ => fixes_bind (fixes_commit _ _ _ _ _) fun _ =>
    fixes_bind (fixes_lift _ _) fun _ => fixes_pure _

include laws in
theorem sendEvent_keeps (load unit : String) (e : Event) :
    Prog.Keeps (Keeps pf generation) (sendEvent pf load unit e) := by
  intro s
  unfold sendEvent
  refine bind_fixed (fixes_ofExcept _) (keeps_refl s) fun conv _ => ?_
  refine bind_fixed (fixes_loadGroup _ _) (keeps_refl s) fun group hload => ?_
  refine bind_fixed (fixes_guardRevoked _ _) (keeps_refl s) fun _ _ => ?_
  refine bind_fixed (fixes_lift _ _) (keeps_refl s) fun sealed henc => ?_
  exact writeUnit_keeps laws e.rest fun hi => encrypt_holds laws (lift_eq_ok.1 henc).1 ((loadGroup_ok hload).2 hi)

include laws in
theorem announce_holds {o : Owed} {h h' : Handle} {sent : List Sent} {s s' : Mls}
    (ha : announce pf o h s = (.ok (h', sent), s')) (hh : Holds pf generation s h []) :
    Holds pf generation s h' sent := by
  unfold announce at ha
  split at ha
  · obtain ⟨rfl, rfl⟩ := Prod.mk.inj (Except.ok.inj (Prod.mk.inj ha).1)
    exact hh
  · obtain ⟨⟨group, m⟩, s₁, henc, hr⟩ := bind_eq_ok.1 ha
    obtain ⟨rfl, rfl⟩ := Prod.mk.inj (Except.ok.inj (Prod.mk.inj hr).1)
    exact encrypt_holds laws (lift_eq_ok.1 henc).1 hh

include laws in
theorem enact_holds {o : Owed} {remove : Bool} {h h' : Handle} {sent : List Sent} {s s' : Mls}
    (he : enact pf o remove h s = (.ok h', s')) (hh : Holds pf generation s h sent) : Holds pf generation s h' sent := by
  unfold enact at he
  split at he
  · obtain ⟨-, state, hd, rfl⟩ := removalCommit_ok he
    exact hh.moves laws hd
  · obtain rfl := Except.ok.inj (Prod.mk.inj he).1
    exact hh

theorem fixes_announce (o : Owed) (h : Handle) : Fixes id (announce pf o h) := by
  unfold announce
  split
  · exact fixes_pure _
  · exact fixes_bind (fixes_lift _ _) fun _ => fixes_pure _

theorem fixes_enact (o : Owed) (remove : Bool) (h : Handle) : Fixes id (enact pf o remove h) := by
  unfold enact
  split
  · exact fixes_removalCommit _ _ _ _ _
  · exact fixes_pure _

include laws in
theorem prepare_keeps (owed : List Owed) : Prog.Keeps (Keeps pf generation) (prepare pf owed) := by
  refine keeps_forEach keeps_refl keeps_trans owed fun o _ s => ?_
  unfold prepareGroup
  refine bind_fixed (fixes_loadGroup _ _) (keeps_refl s) fun group hload => ?_
  simp only
  split
  · exact keeps_refl s
  refine bind_fixed (fixes_announce _ _) (keeps_refl s) fun announced hann => ?_
  refine bind_fixed (fixes_enact _ _ _) (keeps_refl s) fun enacted hen => ?_
  exact writeUnit_keeps laws o.rest fun hi =>
    enact_holds laws hen (announce_holds laws hann ((loadGroup_ok hload).2 hi))

theorem written_keeps {s : Mls} {h : Handle} {rest : Outcome} (hw : Keeps pf generation s (write pf h [] s)) :
    Keeps pf generation s ((Prog.modify (write pf h []) >>= fun _ => (Prog.ofExcept rest : Local Unit)) s).2 := by
  rw [bind_ok (modify_run _ s)]
  cases rest with
  | ok u => exact hw
  | error e => exact hw

include laws in
theorem handleWelcome_keeps (i : Incoming) (msg : MlsMessage) :
    Prog.Keeps (Keeps pf generation) (handleWelcome pf i msg) := by
  intro s
  unfold handleWelcome
  refine bind_fixed (fixes_lift _ _) (keeps_refl s) fun joined _ => ?_
  exact written_keeps (write_keeps laws (holds_created s (by simp)))

include laws in
theorem handleGroupMessage_keeps (i : Incoming) (msg : MlsMessage) :
    Prog.Keeps (Keeps pf generation) (handleGroupMessage pf i msg) := by
  intro s
  unfold handleGroupMessage
  refine bind_fixed (fixes_ofOption _ _) (keeps_refl s) fun gid _ => ?_
  split
  · exact keeps_refl s
  refine bind_fixed (fixes_loadGroup _ _) (keeps_refl s) fun group hload => ?_
  refine bind_fixed (fixes_lift _ _) (keeps_refl s) fun processed hproc => ?_
  refine written_keeps fun hi => ?_
  have hheld : Holds pf generation s group [] := (loadGroup_ok hload).2 hi
  exact write_keeps laws (hheld.moves laws ((Derived.refl _).process (lift_eq_ok.1 hproc).1)) hi

include laws in
theorem receiveUnit_keeps (i : Incoming) : Prog.Keeps (Keeps pf generation) (receiveUnit pf i) := by
  refine keeps_unitOfWork keeps_refl (keeps_bind keeps_trans (keeps_ofExcept keeps_refl _) fun new => ?_)
  split
  · refine keeps_bind keeps_trans (keeps_ofExcept keeps_refl _) fun msg => ?_
    unfold handleMls
    split
    · exact handleWelcome_keeps laws i msg
    · exact handleGroupMessage_keeps laws i msg
    · exact handleGroupMessage_keeps laws i msg
    · exact keeps_fail keeps_refl _
  · exact keeps_pure keeps_refl _

include laws in
theorem receiveItems_keeps (items : List Incoming) : Prog.Keeps (Keeps pf generation) (receiveItems pf items) := by
  induction items with
  | nil => exact keeps_pure keeps_refl _
  | cons i rest ih =>
    refine keeps_bind keeps_trans (keeps_attempt (receiveUnit_keeps laws i)) fun r => ?_
    cases r with
    | ok u => exact ih
    | error e => exact keeps_pure keeps_refl _

theorem sound_waits (outcomes : List Outcome) : Task.Sound (Keeps pf generation) (Task.waits outcomes : Command Unit) :=
  Task.sound_waits keeps_refl keeps_trans outcomes

theorem sound_fixed {α : Type} {p : Local α} (h : Fixes id p) : Task.Sound (Keeps pf generation) (Task.call p) := by
  refine Task.sound_call fun s => ?_
  have hs : (p s).2 = s := h s
  rw [hs]
  exact keeps_refl s

include laws in
theorem send_sound (e : Event) (publish : List Outcome) : Task.Sound (Keeps pf generation) (send pf e publish) :=
  Task.sound_bind keeps_trans (Task.sound_call (sendEvent_keeps laws _ _ e)) fun _ => sound_waits publish

include laws in
/-- A transfer, and then the event: `send_file` and an upload. -/
theorem transfer_sound (load unit : String) (transfer : List Outcome) (e : Event) (publish : List Outcome) :
    Task.Sound (Keeps pf generation) (do
      Task.waits transfer
      let conv ← Task.call (Prog.ofExcept e.conversation)
      let group ← Task.call (loadGroup pf load conv.groupId)
      Task.call (guardRevoked pf conv group)
      let (group, sent) ← Task.call (lift (fun _ => storageError unit SqlError.invalidQuery.message)
        (encrypt pf e.entropy e.data group))
      Task.call (writeUnit pf group [sent] e.rest)
      Task.waits publish : Command Unit) := by
  refine Task.sound_bind keeps_trans (sound_waits transfer) fun _ s => ?_
  refine Task.wp_call_fixed (fixes_ofExcept _) (keeps_refl s) fun conv _ => ?_
  refine Task.wp_call_fixed (fixes_loadGroup _ _) (keeps_refl s) fun group hload => ?_
  refine Task.wp_call_fixed (fixes_guardRevoked _ _) (keeps_refl s) fun _ _ => ?_
  refine Task.wp_call_fixed (fixes_lift _ _) (keeps_refl s) fun sealed henc => ?_
  refine Task.wp_call_sound keeps_trans (writeUnit_keeps laws e.rest fun hi => ?_) fun _ => sound_waits publish
  exact encrypt_holds laws (lift_eq_ok.1 henc).1 ((loadGroup_ok hload).2 hi)

theorem queueAttachment_sound (c : Except CliError Conversation) :
    Task.Sound (Keeps pf generation) (queueAttachment pf c) :=
  Task.sound_bind keeps_trans (sound_fixed (fixes_ofExcept _)) fun _ =>
    Task.sound_bind keeps_trans (sound_fixed (fixes_loadGroup _ _)) fun _ => sound_fixed (fixes_guardRevoked _ _)

include laws in
theorem add_sound (a : Add) : Task.Sound (Keeps pf generation) (add pf a) := by
  refine Task.sound_bind keeps_trans (sound_waits a.claim) fun _ s => ?_
  refine Task.wp_call_fixed (fixes_ofExcept _) (keeps_refl s) fun conv _ => ?_
  refine Task.wp_call_fixed (fixes_loadGroup _ _) (keeps_refl s) fun group hload => ?_
  refine Task.wp_call_fixed (fixes_commit _ _ _ _ _) (keeps_refl s) fun made hmade => ?_
  obtain ⟨group', out⟩ := made
  obtain ⟨-, state, hd, rfl⟩ := commit_ok hmade
  refine Task.wp_call_fixed (fixes_ofOption _ _) (keeps_refl s) fun _ _ => ?_
  refine Task.wp_call_fixed (fixes_lift _ _) (keeps_refl s) fun _ _ => ?_
  refine Task.wp_call_fixed (fixes_lift _ _) (keeps_refl s) fun _ _ => ?_
  refine Task.wp_call_fixed (fixes_lift _ _) (keeps_refl s) fun sealed henc => ?_
  refine Task.wp_call_sound keeps_trans (writeUnit_keeps laws a.rest fun hi => ?_) fun _ => sound_waits a.publish
  have hheld : Holds pf generation s group [] := (loadGroup_ok hload).2 hi
  exact encrypt_holds laws (lift_eq_ok.1 henc).1 (hheld.moves laws hd)

include laws in
theorem remove_sound (r : Remove) : Task.Sound (Keeps pf generation) (remove pf r) := by
  refine Task.sound_bind keeps_trans (sound_waits r.connect) fun _ s => ?_
  refine Task.wp_call_fixed (fixes_ofExcept _) (keeps_refl s) fun conv _ => ?_
  split
  · refine Task.wp_call_fixed (fixes_loadGroup _ _) (keeps_refl s) fun group hload => ?_
    refine Task.wp_call_fixed (fixes_removalCommit _ _ _ _ _) (keeps_refl s) fun group' hmade => ?_
    obtain ⟨-, state, hd, rfl⟩ := removalCommit_ok hmade
    refine Task.wp_call_sound keeps_trans (writeUnit_keeps laws r.rest fun hi => ?_) fun _ => sound_waits r.publish
    have hheld : Holds pf generation s group [] := (loadGroup_ok hload).2 hi
    exact hheld.moves laws hd
  · exact keeps_refl s

include laws in
theorem encryptHello_holds {hello : Option (Bytes × Bytes)} {h h' : Handle} {sent sent' : List Sent} {s s' : Mls}
    (he : encryptHello pf hello h s = (.ok (h', sent'), s')) (hh : Holds pf generation s h sent) :
    Holds pf generation s h' (sent ++ sent') := by
  cases hello with
  | none =>
    obtain ⟨rfl, rfl⟩ := Prod.mk.inj (Except.ok.inj (Prod.mk.inj he).1)
    rw [List.append_nil]
    exact hh
  | some hello =>
    obtain ⟨⟨group, m⟩, s₁, henc, hr⟩ := bind_eq_ok.1 he
    obtain ⟨rfl, rfl⟩ := Prod.mk.inj (Except.ok.inj (Prod.mk.inj hr).1)
    exact encrypt_holds laws (lift_eq_ok.1 henc).1 hh

theorem fixes_encryptHello (hello : Option (Bytes × Bytes)) (h : Handle) : Fixes id (encryptHello pf hello h) := by
  cases hello with
  | none => exact fixes_pure _
  | some hello => exact fixes_bind (fixes_lift _ _) fun _ => fixes_pure _

include laws in
theorem start_sound (a : Start) : Task.Sound (Keeps pf generation) (start pf a) := by
  refine Task.sound_bind keeps_trans (sound_waits a.claim) fun _ s => ?_
  refine Task.wp_call_fixed (fixes_commit _ _ _ _ _) (keeps_refl s) fun made hmade => ?_
  obtain ⟨group', out⟩ := made
  obtain ⟨-, state, hd, rfl⟩ := commit_ok hmade
  refine Task.wp_call_fixed (fixes_ofOption _ _) (keeps_refl s) fun _ _ => ?_
  refine Task.wp_call_fixed (fixes_lift _ _) (keeps_refl s) fun _ _ => ?_
  refine Task.wp_call_fixed (fixes_lift _ _) (keeps_refl s) fun roster hroster => ?_
  refine Task.wp_call_fixed (fixes_encryptHello _ _) (keeps_refl s) fun hello hhello => ?_
  refine Task.wp_call_sound keeps_trans (writeUnit_keeps laws a.rest fun _ => ?_) fun _ => sound_waits a.publish
  have hbegun : Holds pf generation s ⟨.created, state⟩ [] := holds_created s (by simp)
  exact encryptHello_holds laws hhello (encrypt_holds laws (lift_eq_ok.1 hroster).1 hbegun)

include laws in
theorem sync_sound (a : Sync) : Task.Sound (Keeps pf generation) (sync pf a) := by
  refine Task.sound_bind keeps_trans (Task.sound_call (prepare_keeps laws a.before)) fun _ => ?_
  refine Task.sound_bind keeps_trans (sound_waits a.fetch) fun _ => ?_
  refine Task.sound_bind keeps_trans (Task.sound_call (receiveItems_keeps laws a.items)) fun _ => ?_
  refine Task.sound_bind keeps_trans ?_ fun _ => ?_
  · refine Task.sound_forEach keeps_refl keeps_trans fun look => ?_
    exact Task.sound_bind keeps_trans (sound_fixed (fixes_attempt (fixes_loadGroup _ _))) fun _ => sound_waits _
  refine Task.sound_bind keeps_trans (sound_waits a.acknowledge) fun _ => ?_
  exact Task.sound_bind keeps_trans (Task.sound_call (prepare_keeps laws a.after)) fun _ => sound_waits a.publish

include laws in
theorem command_sound (c : ClientCommand) : Task.Sound (Keeps pf generation) (c.task pf) := by
  cases c with
  | start a => exact start_sound laws a
  | invitations before a after =>
    refine Task.sound_bind keeps_trans (sound_waits before) fun _ => ?_
    cases a with
    | none => exact sound_waits after
    | some a => exact Task.sound_bind keeps_trans (start_sound laws a) fun _ => sound_waits after
  | add a => exact add_sound laws a
  | remove r => exact remove_sound laws r
  | queueText e => exact Task.sound_call (sendEvent_keeps laws _ _ e)
  | send e publish => exact send_sound laws e publish
  | sendFile transfer e publish => exact transfer_sound laws _ _ transfer e publish
  | queueAttachment c => exact queueAttachment_sound c
  | resumeAttachment transfer e publish => exact transfer_sound laws _ _ transfer e publish
  | sync a => exact sync_sound laws a
  | revokeDevice owed publish =>
    exact Task.sound_bind keeps_trans (Task.sound_call (prepare_keeps laws owed)) fun _ => sound_waits publish
  | queryDevices groups =>
    refine Task.sound_forEach keeps_refl keeps_trans fun gid => ?_
    exact Task.sound_bind keeps_trans (sound_fixed (fixes_loadGroup _ _)) fun _ => Task.sound_pure keeps_refl _
  | elsewhere locks outcomes => exact sound_waits outcomes

include laws in
theorem step_keeps {x : Executor} (h : x.AllSound (Keeps pf generation)) (a : Action) :
    Keeps pf generation x.state (step pf x a).state ∧ (step pf x a).AllSound (Keeps pf generation) := by
  cases a with
  | submit c => exact ⟨keeps_refl _, Pool.submit_sound h (command_sound laws c)⟩
  | poll i => exact Pool.poll_sound keeps_refl h i

include laws in
theorem run_keeps (acts : List Action) {x : Executor} (h : x.AllSound (Keeps pf generation)) :
    Keeps pf generation x.state (Trace.run (step pf) x acts).state ∧
      (Trace.run (step pf) x acts).AllSound (Keeps pf generation) := by
  induction acts generalizing x with
  | nil => exact ⟨keeps_refl _, h⟩
  | cons a acts ih =>
    obtain ⟨hstep, hsound⟩ := step_keeps laws h a
    obtain ⟨hrun, hleft⟩ := ih hsound
    exact ⟨keeps_trans _ _ _ hstep hrun, hleft⟩

theorem epoch_le {a b : Bytes} (h : position pf generation a ≤ position pf generation b) :
    pf.mlsEpoch a ≤ pf.mlsEpoch b := by
  rw [position, position, Prod.Lex.toLex_le_toLex] at h
  rw [UInt64.le_iff_toNat_le]
  rcases h with h | h
  · exact h.le
  · exact h.1.le

def opened (groups : Bytes → Option Bytes) : Executor := ⟨⟨groups, []⟩, []⟩

theorem opened_inv {groups : Bytes → Option Bytes} (hfiled : ∀ g a, groups g = some a → pf.mlsGroupId a = g) :
    Inv pf generation (opened groups).state :=
  ⟨hfiled, by simp [opened], by simp [opened, keysOf], by simp [opened, keysOf]⟩

/-- Whatever the commands and however they interleave: a state that was loaded is written
over itself; from any moment of the run to any later one a group that does not begin anew
goes on from what was stored, in no earlier epoch; and no key is spent on two messages. -/
theorem groups_go_on_from_what_is_stored (laws : MlsLaws pf generation) {groups : Bytes → Option Bytes}
    (hfiled : ∀ g a, groups g = some a → pf.mlsGroupId a = g) (acts acts' : List Action) :
    let s := (Trace.run (step pf) (opened groups) acts).state
    let s' := (Trace.run (step pf) (opened groups) (acts ++ acts')).state
    (∀ w ∈ s.log, ∀ a, w.origin = .loaded a → w.found = some a ∧ Derived pf a w.state) ∧
    (∃ ws, s'.log = s.log ++ ws ∧ ∀ g, (∀ w ∈ ws, w.groupId = g → ∃ a, w.origin = .loaded a) →
      ∀ a, s.groups g = some a → ∃ b, s'.groups g = some b ∧ Derived pf a b ∧ pf.mlsEpoch a ≤ pf.mlsEpoch b) ∧
    ∀ g, ((keysOf g s.log).map fun k => (pf.mlsEpoch k, generation k)).Nodup := by
  intro s s'
  have hempty : (opened groups).AllSound (Keeps pf generation) := by simp [opened, Pool.AllSound]
  obtain ⟨hkeeps, hsound⟩ := run_keeps laws acts hempty
  obtain ⟨hinv, -⟩ := hkeeps (opened_inv hfiled)
  have hmore : Keeps pf generation s s' := by
    have hrun := (run_keeps laws acts' hsound).1
    rwa [← Trace.run_append] at hrun
  obtain ⟨-, ws, hlog, hgroups⟩ := hmore hinv
  refine ⟨hinv.based, ⟨ws, hlog, fun g hws a ha => ?_⟩, fun g => ?_⟩
  · obtain ⟨b, hb, hd⟩ := hgroups g hws a ha
    exact ⟨b, hb, hd, epoch_le (hd.position_le laws)⟩
  · have hlt := hinv.keys g
    rw [List.pairwise_map] at hlt
    rw [List.Nodup, List.pairwise_map]
    refine hlt.imp fun hk he => ?_
    obtain ⟨hepoch, hgen⟩ := Prod.mk.inj he
    exact absurd hk (by simp [position, hepoch, hgen])

section demo

/-- Groups in the open: a state is the id of the group and its marks, the latest first; 0
is a message this device encrypted, 1 a commit. -/
def marks (state : Bytes) : Bytes := state.drop 1

def committed (state : Bytes) : Except String Bytes :=
  match state with
  | [] => .error "no group"
  | g :: ms => if ms.count 1 + 1 < 2 ^ 64 then .ok (g :: 1 :: ms) else .error "last epoch"

def counting : Platform :=
  { Demo.platform with
    mlsJoin := fun _ msg => .ok (msg.content, none)
    mlsProcess := fun _ state msg =>
      if msg.content = [] then .ok (state, .applicationMessage 0 [])
      else match committed state with
        | .ok state => .ok (state, .commit 0)
        | .error e => .error e
    mlsGroupId := fun state => state.take 1
    mlsEpoch := fun state => ((marks state).count 1).toUInt64
    mlsRoster := fun _ => []
    mlsEncrypt := fun _ state data =>
      match state with
      | [] => .error "no group"
      | g :: ms => .ok (g :: 0 :: ms, data)
    mlsBuild := fun _ state _ =>
      match committed state with
      | .ok state => .ok (state, ⟨⟨.publicMessage, some (state.take 1), [1]⟩, []⟩)
      | .error e => .error e
    mlsApply := .ok }

def countingGeneration (state : Bytes) : Nat := ((marks state).takeWhile (· = 0)).length

theorem committed_position {a b : Bytes} (h : committed a = .ok b) :
    b.take 1 = a.take 1 ∧ position counting countingGeneration a ≤ position counting countingGeneration b := by
  unfold committed at h
  split at h
  · cases h
  · next g ms =>
    split at h
    next hcount =>
      obtain rfl := Except.ok.inj h
      refine ⟨rfl, le_of_lt ?_⟩
      rw [position, position, Prod.Lex.toLex_lt_toLex]
      left
      have hb : (counting.mlsEpoch (g :: 1 :: ms)).toNat = ms.count 1 + 1 := by
        simpa [counting, marks] using Nat.mod_eq_of_lt hcount
      have ha : (counting.mlsEpoch (g :: ms)).toNat ≤ ms.count 1 := by
        simp [counting, marks, Nat.mod_le]
      omega
    next => cases h

theorem counting_laws : MlsLaws counting countingGeneration where
  encrypt {entropy a data b m} h := by
    cases a with
    | nil => cases h
    | cons g ms =>
      obtain ⟨rfl, -⟩ := Prod.mk.inj (Except.ok.inj h)
      refine ⟨rfl, ?_⟩
      rw [position, position, Prod.Lex.toLex_lt_toLex]
      right
      simp [counting, marks, countingGeneration]
  process {revoked a msg b r} h := by
    simp only [counting] at h
    split at h
    · obtain ⟨rfl, -⟩ := Prod.mk.inj (Except.ok.inj h)
      exact ⟨rfl, le_refl _⟩
    · split at h
      next state hc =>
        obtain ⟨rfl, -⟩ := Prod.mk.inj (Except.ok.inj h)
        exact committed_position hc
      next => cases h
  commit {entropy a p pending out b} hb ha := by
    obtain rfl := Except.ok.inj ha
    simp only [counting] at hb
    split at hb
    next state hc =>
      obtain ⟨rfl, -⟩ := Prod.mk.inj (Except.ok.inj hb)
      exact committed_position hc
    next => cases hb

def demoGroups (g : Bytes) : Option Bytes := if g = [7] then some [7, 1, 1] else none

theorem demoGroups_filed (g a : Bytes) (h : demoGroups g = some a) : counting.mlsGroupId a = g := by
  unfold demoGroups at h
  split at h
  next hg =>
    obtain rfl := Option.some.inj h
    exact hg.symm
  next => cases h

def demoEvent (data : Bytes) : Event := ⟨.ok ⟨[7], true, []⟩, data, [], .ok ()⟩

def demoSync (msg : MlsMessage) : ClientCommand :=
  .sync ⟨[], [.ok ()], [⟨.ok true, .ok msg, [], false, fun _ => false, .ok ()⟩], [], [], [], []⟩

/-- A text is queued and a commit arrives while a file is under way. -/
def demoActs : List Action :=
  [.submit (.sendFile [.ok ()] (demoEvent [2]) []), .poll 0, .submit (.queueText (demoEvent [1])), .poll 1,
    .submit (demoSync ⟨.publicMessage, some [7], [1]⟩), .poll 2, .poll 2, .poll 2, .poll 0]

theorem file_waits_for_nobody :
    keysOf [7] (Trace.run (step counting) (opened demoGroups) demoActs).state.log = [[7, 1, 1], [7, 1, 0, 1, 1]] ∧
    ([([7, 1, 1] : Bytes), [7, 1, 0, 1, 1]].map fun k => (counting.mlsEpoch k, countingGeneration k)).Nodup := by
  have hkeys : keysOf [7] (Trace.run (step counting) (opened demoGroups) demoActs).state.log =
      [[7, 1, 1], [7, 1, 0, 1, 1]] := by decide +kernel
  refine ⟨hkeys, ?_⟩
  rw [← hkeys]
  exact (groups_go_on_from_what_is_stored counting_laws demoGroups_filed demoActs []).2.2 [7]

/-- A Welcome for a group that is stored is written over it, and was not computed from it. -/
theorem welcome_replaces_a_stored_group :
    let s := (Trace.run (step counting) (opened demoGroups)
      [.submit (demoSync ⟨.welcome, none, [7, 1]⟩), .poll 0, .poll 0, .poll 0]).state
    s.log = [⟨[7], .joined, some [7, 1, 1], [7, 1], []⟩] ∧
      (s.groups [7]).map counting.mlsEpoch = some 1 ∧ (demoGroups [7]).map counting.mlsEpoch = some 2 := by
  decide +kernel

end demo

end Arveil.Commands
