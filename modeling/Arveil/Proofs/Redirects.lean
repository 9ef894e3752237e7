import Arveil.Proofs.Acts
import Arveil.Sanity.Platform

/-! The route of a device. A save finds a device by its id alone: it keeps the
identity of the row and replaces the route, whichever identity the new route
names. Where every saved route names the identity and the root its device is
stored with, a route changes only by the word of its own identity. -/

namespace Arveil.Redirects

open Client

variable {pf : Platform} {s : Session}

def route (p : PeerRow) : Option Bytes × Option Bytes × Option Bytes := (p.mailbox, p.writeCap, p.hpke)

/-- A saved device is the row's, with the identity and the root the row has. -/
def Names (gid : Bytes) (q : Peer) (p : PeerRow) : Prop :=
  p.groupId = gid ∧ q.deviceId = p.deviceId ∧ q.identity = p.peerIdentity ∧ q.rootPublic = p.rootPublic

/-- Device by device, what a save overwrites is overwritten by a route that names
the identity and the root of the row. -/
def SaveStable (st : Store) (gid : Bytes) (ps : List Peer) : Prop :=
  ∀ ps₁ q ps₂, ps = ps₁ ++ q :: ps₂ → ∀ p ∈ (savePeers gid ps₁ st).peers,
    ∀ p' ∈ (savePeer gid q (savePeers gid ps₁ st)).peers, p'.groupId = p.groupId → p'.deviceId = p.deviceId →
      route p' ≠ route p → Names gid q p

/-- An act leaves every route as it was, or it saves devices and the save is stable. -/
def Stable (pf : Platform) (s : Session) (w : World) (a : Act) : Prop :=
  (∀ p ∈ w.store.peers, ∀ p' ∈ (Act.step pf s w a).store.peers, p'.groupId = p.groupId → p'.deviceId = p.deviceId →
      route p' = route p) ∨
    ∃ gid ps, Saves pf s w.store a gid ps ∧ (Act.step pf s w a).store.peers = (savePeers gid ps w.store).peers ∧
      SaveStable w.store gid ps

/-- Every device of a save is named as it is stored in that conversation, and as
the save itself names it elsewhere. -/
structure Faithful (st : Store) (gid : Bytes) (ps : List Peer) : Prop where
  stored : ∀ q ∈ ps, ∀ p ∈ st.peers, p.groupId = gid → p.deviceId = q.deviceId →
    q.identity = p.peerIdentity ∧ q.rootPublic = p.rootPublic
  saved : ∀ q ∈ ps, ∀ q' ∈ ps, q.deviceId = q'.deviceId → q.identity = q'.identity ∧ q.rootPublic = q'.rootPublic

def SavesFaithfully (pf : Platform) (s : Session) (w : World) (a : Act) : Prop :=
  ∀ gid ps, Saves pf s w.store a gid ps → Faithful w.store gid ps

theorem mem_savePeers_origin {gid : Bytes} {ps : List Peer} {st : Store} {p' : PeerRow}
    (h : p' ∈ (savePeers gid ps st).peers) :
    (∃ p ∈ st.peers, p.origin = p'.origin) ∨ ∃ q ∈ ps, (peerRow gid q).origin = p'.origin := by
  induction ps generalizing st with
  | nil => exact Or.inl ⟨p', h, rfl⟩
  | cons q ps ih =>
    rcases ih (show p' ∈ (savePeers gid ps (savePeer gid q st)).peers from h) with ⟨p₁, hp₁, ho⟩ | ⟨q', hq', ho⟩
    · rcases mem_savePeer hp₁ with ⟨p, hp, -, -, rfl⟩ | ⟨hp, -⟩ | ⟨rfl, -⟩
      · exact Or.inl ⟨p, hp, ho⟩
      · exact Or.inl ⟨p₁, hp, ho⟩
      · exact Or.inr ⟨q, List.mem_cons_self, ho⟩
    · exact Or.inr ⟨q', List.mem_cons_of_mem q hq', ho⟩

theorem savePeer_route {gid : Bytes} {q : Peer} {st : Store} {p p' : PeerRow} (hp : p ∈ st.peers)
    (hp' : p' ∈ (savePeer gid q st).peers) (hg : p'.groupId = p.groupId) (hd : p'.deviceId = p.deviceId)
    (hne : route p' ≠ route p) : p.groupId = gid ∧ q.deviceId = p.deviceId := by
  rcases mem_savePeer hp' with ⟨p₀, hp₀, hg₀, hd₀, rfl⟩ | ⟨hold, -⟩ | ⟨rfl, hfree⟩
  · obtain rfl := Table.eq_of_key hp₀ hp (Prod.ext hg hd)
    exact ⟨hg₀, hd₀.symm⟩
  · exact absurd (congrArg route (Table.eq_of_key hold hp (Prod.ext hg hd))) hne
  · exact absurd (Prod.ext hg.symm hd.symm) (hfree p hp)

theorem stable_of_faithful {gid : Bytes} {ps : List Peer} {st : Store} (h : Faithful st gid ps) :
    SaveStable st gid ps := by
  intro ps₁ q ps₂ hps p hp p' hp' hg hd hne
  have hq : q ∈ ps := by rw [hps]; simp
  obtain ⟨hgid, hdev⟩ := savePeer_route hp hp' hg hd hne
  rcases mem_savePeers_origin hp with ⟨p₀, hp₀, ho⟩ | ⟨q', hq', ho⟩
  · obtain ⟨hog, hod, hoi, -, hor⟩ := by simpa only [PeerRow.origin, Prod.mk.injEq] using ho
    obtain ⟨hi, hr⟩ := h.stored q hq p₀ hp₀ (hog.trans hgid) (hod.trans hdev.symm)
    exact ⟨hgid, hdev, hi.trans hoi, hr.trans hor⟩
  · obtain ⟨-, hod, hoi, -, hor⟩ := by simpa only [PeerRow.origin, peerRow, Prod.mk.injEq] using ho
    obtain ⟨hi, hr⟩ := h.saved q hq q' (by rw [hps]; exact List.mem_append_left _ hq') (hdev.trans hod.symm)
    exact ⟨hgid, hdev, hi.trans hoi, hr.trans hor⟩

theorem Names.congr {gid : Bytes} {q : Peer} {p p' : PeerRow} (h : Names gid q p') (ho : p'.origin = p.origin) :
    Names gid q p := by
  obtain ⟨hg, hd, hi, -, hr⟩ := by simpa only [PeerRow.origin, Prod.mk.injEq] using ho
  exact ⟨hg.symm.trans h.1, h.2.1.trans hd, h.2.2.1.trans hi, h.2.2.2.trans hr⟩

theorem key_of_origin {p p' : PeerRow} (ho : p'.origin = p.origin) : p'.groupId = p.groupId ∧ p'.deviceId = p.deviceId :=
  ⟨congrArg (·.1) ho, congrArg (·.2.1) ho⟩

/-- The row of a device after a stable save: the route it had, unless a saved route
names the row's identity and root. -/
theorem savePeers_route {gid : Bytes} {ps : List Peer} {st : Store} (hs : SaveStable st gid ps) {p : PeerRow}
    (hp : p ∈ st.peers) : ∃ p' ∈ (savePeers gid ps st).peers, p'.origin = p.origin ∧
      (route p' = route p ∨ ∃ q ∈ ps, Names gid q p) := by
  induction ps generalizing st p with
  | nil => exact ⟨p, hp, rfl, Or.inl rfl⟩
  | cons q ps ih =>
    obtain ⟨p₁, hp₁, ho₁⟩ := savePeer_keeps gid q hp
    have hrest : SaveStable (savePeer gid q st) gid ps := fun ps₁ q' ps₂ he => hs (q :: ps₁) q' ps₂ (by rw [he]; rfl)
    obtain ⟨p', hp', ho, hroute⟩ := ih hrest hp₁
    refine ⟨p', hp', ho.trans ho₁, ?_⟩
    rcases hroute with hroute | ⟨q', hq', hn⟩
    · by_cases hr : route p₁ = route p
      · exact Or.inl (hroute.trans hr)
      · obtain ⟨hg, hd⟩ := key_of_origin ho₁
        exact Or.inr ⟨q, List.mem_cons_self, hs [] q ps rfl p hp p₁ hp₁ hg hd hr⟩
    · exact Or.inr ⟨q', List.mem_cons_of_mem q hq', hn.congr ho₁⟩

theorem step_stable {w : World} {a : Act} (h : SavesFaithfully pf s w a) : Stable pf s w a := by
  rcases step_peers pf s w a with ⟨hashes, hp⟩ | ⟨gid, ps, hsave, hp⟩
  · refine Or.inl fun p hmem p' hmem' hg hd => ?_
    rw [hp] at hmem'
    obtain ⟨p₀, hp₀, rfl⟩ := mem_markAll_peers.1 hmem'
    have hkey : p₀.groupId = p.groupId ∧ p₀.deviceId = p.deviceId := by
      split at hg <;> exact ⟨hg, by split at hd <;> exact hd⟩
    obtain rfl := Table.eq_of_key hp₀ hmem (Prod.ext hkey.1 hkey.2)
    split <;> rfl
  · exact Or.inr ⟨gid, ps, hsave, hp, stable_of_faithful (h gid ps hsave)⟩

def Renews (pf : Platform) (s : Session) (p : PeerRow) (w : World) (a : Act) : Prop :=
  ∃ gid ps, Saves pf s w.store a gid ps ∧ ∃ q ∈ ps, Names gid q p

theorem step_route {w : World} {a : Act} (h : SavesFaithfully pf s w a) {p : PeerRow} (hp : p ∈ w.store.peers) :
    ∃ p' ∈ (Act.step pf s w a).store.peers, p'.origin = p.origin ∧ (route p' = route p ∨ Renews pf s p w a) := by
  rcases step_peers pf s w a with ⟨hashes, hpeers⟩ | ⟨gid, ps, hsave, hpeers⟩
  · rw [hpeers]
    refine ⟨_, mem_markAll_peers.2 ⟨p, hp, rfl⟩, ?_⟩
    split <;> exact ⟨rfl, Or.inl rfl⟩
  · rw [hpeers]
    obtain ⟨p', hp', ho, hr⟩ := savePeers_route (stable_of_faithful (h gid ps hsave)) hp
    exact ⟨p', hp', ho, hr.imp_right fun hq => ⟨gid, ps, hsave, hq⟩⟩

/-- In every run whose saves name each device as it is stored, every step is stable,
and at the end every row has the route it had at the start unless its own identity
renewed it. -/
theorem routes_change_by_their_identity (w : World) (acts : List Act)
    (h : Trace.Meets (Act.step pf s) (SavesFaithfully pf s) w acts) :
    Trace.Meets (Act.step pf s) (Stable pf s) w acts ∧
    ∀ p ∈ w.store.peers, ∃ p' ∈ (Trace.run (Act.step pf s) w acts).store.peers, p'.origin = p.origin ∧
      (route p' = route p ∨ Trace.Occurs (Act.step pf s) (Renews pf s p) w acts) := by
  induction acts generalizing w with
  | nil => exact ⟨trivial, fun p hp => ⟨p, hp, rfl, Or.inl rfl⟩⟩
  | cons a acts ih =>
    obtain ⟨hstable, hroutes⟩ := ih (Act.step pf s w a) h.2
    refine ⟨⟨step_stable h.1, hstable⟩, fun p hp => ?_⟩
    obtain ⟨p₁, hp₁, ho₁, hr₁⟩ := step_route h.1 hp
    obtain ⟨p', hp', ho, hr⟩ := hroutes p₁ hp₁
    refine ⟨p', hp', ho.trans ho₁, ?_⟩
    rcases hr₁ with hr₁ | hr₁
    · rcases hr with hr | hr
      · exact Or.inl (hr.trans hr₁)
      · refine Or.inr (Or.inr (hr.mono fun w' a' hren => ?_))
        obtain ⟨gid, ps, hsave, q, hq, hn⟩ := hren
        exact ⟨gid, ps, hsave, q, hq, hn.congr ho₁⟩
    · exact Or.inr (Or.inl hr₁)

section demo

open Demo

def demoGroup : Group :=
  ⟨[7], 1, 0, [⟨0, some [9], publicKey [9, 2]⟩, ⟨1, some [66], publicKey [66, 2]⟩, ⟨2, some [2], publicKey [2, 2]⟩]⟩

def demoPeer : Peer := ⟨identityOf 2, [2], [2, 3], publicKey [2], some [12], some [22], some (publicKey [2, 1]), false⟩

def demoWorld : World where
  store := { profile.store with
    mlsGroups := ⟨[⟨[7], group.write demoGroup⟩], by simp⟩
    conversations := ⟨[⟨[7], false, 1, none, none, .none, none⟩], by simp⟩
    peers := ⟨[peerRow [7] demoPeer], by simp⟩ }
  sent := []

/-- Identity 66 sends a roster in which an identity has device 2, with this mailbox. -/
def demoRoster (identity mailbox : UInt8) : Act :=
  .receive 3 [8] (item 1 1 (eventFrom [7] 1 "roster" (routeOf identity 2 mailbox 99)))

def demoSaved (identity mailbox : UInt8) : Peer :=
  ⟨identityOf identity, [2], [2, 3], publicKey [identity], some [mailbox], some [99], some (publicKey [2, 1]), false⟩

/-- The device is named under identity 66: the row keeps identity 2, and what is
sealed for it from now on goes to the mailbox of identity 66. -/
theorem member_redirects_a_device :
    ¬ Trace.Meets (Act.step platform (sessionOf 9)) (Stable platform (sessionOf 9)) demoWorld [demoRoster 66 16] := by
  rintro ⟨hstable, -⟩
  have hrun : savedBy platform (sessionOf 9) demoWorld.store [8] (item 1 1 (eventFrom [7] 1 "roster" (routeOf 66 2 16 99))) =
        some ([7], [demoSaved 66 16]) ∧
      (∃ p' ∈ (Act.step platform (sessionOf 9) demoWorld (demoRoster 66 16)).store.peers.rows, p'.groupId = [7] ∧
        p'.deviceId = [2] ∧ p'.mailbox = some [16]) ∧ identityOf 66 ≠ identityOf 2 := by decide +kernel
  obtain ⟨hsaved, ⟨p', hp', hg, hd, hm⟩, hne⟩ := hrun
  have hroute : route p' ≠ route (peerRow [7] demoPeer) := by
    intro he
    have hmail : p'.mailbox = some [12] := congrArg (·.1) he
    rw [hm] at hmail
    cases hmail
  rcases hstable with hsame | ⟨gid, ps, hsave, hpeers, hstable⟩
  · exact hroute (hsame _ List.mem_cons_self p' hp' hg hd)
  · obtain ⟨rfl, rfl⟩ := Prod.mk.inj (Option.some.inj ((savedBy_of_saves hsave).symm.trans hsaved))
    rw [← Table.mem_def, hpeers] at hp'
    exact hne (hstable [] (demoSaved 66 16) [] rfl _ List.mem_cons_self p' hp' hg hd hroute).2.2.1

/-- Named under its own identity, the device moves to a new mailbox. -/
theorem identity_moves_its_device :
    Trace.Meets (Act.step platform (sessionOf 9)) (Stable platform (sessionOf 9)) demoWorld [demoRoster 2 13] := by
  refine (routes_change_by_their_identity demoWorld [demoRoster 2 13] ⟨fun gid ps hsave => ?_, trivial⟩).1
  have hsaved : savedBy platform (sessionOf 9) demoWorld.store [8]
      (item 1 1 (eventFrom [7] 1 "roster" (routeOf 2 2 13 99))) = some ([7], [demoSaved 2 13]) := by decide +kernel
  obtain ⟨rfl, rfl⟩ := Prod.mk.inj (Option.some.inj ((savedBy_of_saves hsave).symm.trans hsaved))
  refine ⟨fun q hq p hp _ _ => ?_, fun q hq q' hq' _ => ?_⟩
  · rw [List.mem_singleton.1 hq, List.mem_singleton.1 hp]
    exact ⟨rfl, rfl⟩
  · rw [List.mem_singleton.1 hq, List.mem_singleton.1 hq']
    exact ⟨rfl, rfl⟩

end demo

end Arveil.Redirects
