import Mathlib.Data.List.Pairwise
import Arveil.Proofs.Realms

/-! One realm's endpoint lists over any order of saves and acceptances. What is accepted only
rises. A save from a code writes the code's Noise key over the one the newest list names. -/

namespace Arveil.Realm

open Prog

variable {cx : Crypto} {decodeList : Bytes → Except String RealmEndpointList} {realmId key : Bytes}

namespace Endpoints

inductive Op where
  | save (noisePublic : Bytes) (url : String)
  | accept (signed : Bytes)
deriving DecidableEq, Repr

structure World where
  realms : Realms
  accepted : List (Bytes × RealmEndpointList)

def start : World := ⟨.empty, []⟩

/-- One call for the realm with the id `realmId` and the signing key `key`. -/
def step (cx : Crypto) (decodeList : Bytes → Except String RealmEndpointList) (realmId key : Bytes) (w : World) : Op → World
  | .save noisePublic url => { w with realms := (realmSave ⟨realmId, key, noisePublic, url⟩ w.realms).2 }
  | .accept signed =>
    match realmAcceptEndpointList cx decodeList realmId signed w.realms with
    | (.ok list, t) => ⟨t, w.accepted ++ [(signed, list)]⟩
    | (.error _, t) => { w with realms := t }

/-- A code that is saved names the Noise key of the list that is stored. -/
def Agrees (cx : Crypto) (decodeList : Bytes → Except String RealmEndpointList) (w : World) : Op → Prop
  | .save noisePublic _ => ∀ s, (realm cx decodeList w.realms).1 = .ok (some s) →
      ∀ list ∈ s.endpointList, noisePublic = list.realmNoisePublicKey
  | .accept _ => True

theorem fixes_id_realm : Fixes id (realm cx decodeList) := by
  refine fixes_bind (fixes_read _) fun o => ?_
  cases o with
  | none => exact fixes_pure _
  | some r => exact fixes_bind (fixes_ofExcept _) fun _ => fixes_pure _

/-- A program that has changed nothing when it fails. -/
def Clean {α : Type} (p : Act α) : Prop := ∀ t e t', p t = (.error e, t') → t' = t

theorem clean_bind {α β : Type} {x : Act α} {g : α → Act β} (hx : Fixes id x) (hg : ∀ a, Clean (g a)) : Clean (x >>= g) := by
  intro t e t' h
  rcases hr : x t with ⟨r, t₁⟩
  obtain rfl := ends_unchanged hx hr
  cases r with
  | error e₁ =>
    rw [bind_error hr] at h
    exact (congrArg Prod.snd h).symm
  | ok a =>
    rw [bind_ok hr] at h
    exact hg a t₁ e t' h

theorem clean_accept (realmId signed : Bytes) : Clean (realmAcceptEndpointList cx decodeList realmId signed) := by
  refine clean_bind fixes_id_realm fun o => clean_bind (fixes_ofOption _ o) fun s => clean_bind (fixes_read _) fun stored => ?_
  refine clean_bind (fixes_ofExcept _) fun list t e t' h => ?_
  exact absurd (congrArg Prod.fst h) nofun

structure Inv (cx : Crypto) (decodeList : Bytes → Except String RealmEndpointList) (realmId key : Bytes) (w : World) : Prop where
  row : ∀ r ∈ w.realms, r.realmId = realmId ∧ r.signingPublic = key ∧ r.endpointList = w.accepted.getLast?.map (·.1)
  filled : w.accepted ≠ [] → w.realms.rows ≠ []
  verified : ∀ p ∈ w.accepted, verify cx decodeList p.1 key realmId none = .ok p.2
  rising : w.accepted.Pairwise fun p q => p = q ∨ p.2.sequence < q.2.sequence

theorem inv_start : Inv cx decodeList realmId key start where
  row r hr := absurd hr (Table.not_mem_empty r)
  filled h := absurd rfl h
  verified := nofun
  rising := List.Pairwise.nil

theorem Inv.reads {w : World} (h : Inv cx decodeList realmId key w) {r : RealmRow} (hr : r ∈ w.realms) :
    readRow cx decodeList r =
      .ok ⟨realmId, key, r.noisePublic, r.bootstrapUrl, w.accepted.getLast?.map (·.2), r.enrolled⟩ := by
  obtain ⟨hid, hkey, hlist⟩ := h.row r hr
  unfold readRow
  cases hlast : w.accepted.getLast? with
  | none =>
    rw [hlast] at hlist
    rw [hlist, hid, hkey]
    rfl
  | some p =>
    rw [hlast] at hlist
    rw [hlist]
    dsimp only [Option.map_some]
    rw [hid, hkey, h.verified p (List.mem_of_getLast? hlast)]

theorem Inv.newest {w : World} (h : Inv cx decodeList realmId key w) {p : Bytes × RealmEndpointList}
    (hp : w.accepted.getLast? = some p) : ∀ q ∈ w.accepted, q = p ∨ q.2.sequence < p.2.sequence := by
  obtain ⟨l, hl⟩ := List.getLast?_eq_some_iff.1 hp
  intro q hq
  rw [hl] at hq
  rcases List.mem_append.1 hq with hq | hq
  · have hrise := h.rising
    rw [hl, List.pairwise_append] at hrise
    exact hrise.2.2 q hq p (List.mem_singleton_self p)
  · exact Or.inl (List.mem_singleton.1 hq)

theorem accepted_above {w : World} (h : Inv cx decodeList realmId key w) {signed : Bytes} {list : RealmEndpointList} {t : Realms}
    (ha : realmAcceptEndpointList cx decodeList realmId signed w.realms = (.ok list, t)) :
    verify cx decodeList signed key realmId none = .ok list ∧ t = listed realmId signed list w.realms ∧ w.realms.rows ≠ [] ∧
      ∀ p, w.accepted.getLast? = some p → p = (signed, list) ∨ p.2.sequence < list.sequence := by
  obtain ⟨r, s, hhead, hread, hverify, rfl⟩ := accept_eq_ok.1 ha
  have hr : r ∈ w.realms := List.mem_of_mem_head? hhead
  obtain ⟨hid, hkey, hlist⟩ := h.row r hr
  have hs := Except.ok.inj (hread.symm.trans (h.reads hr))
  have hget : w.realms.get? realmId = some r := Table.get?_eq_some.2 ⟨hr, hid⟩
  obtain ⟨hnone, hknown⟩ := verify_known.1 hverify
  rw [hkey] at hnone
  refine ⟨hnone, rfl, fun hnil => ?_, fun p hp => ?_⟩
  · rw [hnil] at hhead
    exact absurd hhead nofun
  · rw [knownFor, hget, Option.bind_some, hlist, hs, hp] at hknown
    dsimp only [Option.map_some] at hknown
    split at hknown
    · next heq =>
      obtain rfl := Option.some.inj heq
      have hsame := hnone.symm.trans (h.verified p (List.mem_of_getLast? hp))
      exact Or.inl (Prod.ext rfl (Except.ok.inj hsame).symm)
    · exact Or.inr (hknown p.2.sequence rfl)

theorem mem_listed {signed : Bytes} {list : RealmEndpointList} {t : Realms} {r : RealmRow}
    (hr : r ∈ listed realmId signed list t) (hrows : ∀ r' ∈ t, r'.realmId = realmId) :
    ∃ r' ∈ t, r = { r' with endpointList := some signed, noisePublic := list.realmNoisePublicKey } := by
  unfold listed at hr
  obtain ⟨r', hr', hlisted⟩ := Table.mem_update.1 hr
  rw [if_pos (decide_eq_true (hrows r' hr'))] at hlisted
  exact ⟨r', hr', hlisted.symm⟩

theorem inv_accept {w : World} (h : Inv cx decodeList realmId key w) {signed : Bytes} {list : RealmEndpointList} {t : Realms}
    (ha : realmAcceptEndpointList cx decodeList realmId signed w.realms = (.ok list, t)) :
    Inv cx decodeList realmId key ⟨t, w.accepted ++ [(signed, list)]⟩ := by
  obtain ⟨hverify, rfl, hfilled, habove⟩ := accepted_above h ha
  refine ⟨fun r hr => ?_, fun _ => ?_, fun p hp => ?_, ?_⟩
  · show _ ∧ _ ∧ r.endpointList = (w.accepted ++ [(signed, list)]).getLast?.map (·.1)
    rw [List.getLast?_concat]
    obtain ⟨r', hr', rfl⟩ := mem_listed hr fun r' hr' => (h.row r' hr').1
    obtain ⟨hid, hkey, -⟩ := h.row r' hr'
    exact ⟨hid, hkey, rfl⟩
  · show (w.realms.rows.map _) ≠ []
    exact fun hnil => hfilled (List.map_eq_nil_iff.1 hnil)
  · rcases List.mem_append.1 hp with hp | hp
    · exact h.verified p hp
    · obtain rfl := List.mem_singleton.1 hp
      exact hverify
  · refine List.pairwise_append.2 ⟨h.rising, List.pairwise_singleton _ _, fun q hq p hp => ?_⟩
    obtain rfl := List.mem_singleton.1 hp
    obtain ⟨last, hlast⟩ := List.getLast?_isSome.2 (List.ne_nil_of_mem hq) |> Option.isSome_iff_exists.1
    rcases h.newest hlast q hq with rfl | hlt
    · exact habove q hlast
    · rcases habove last hlast with rfl | hlt'
      · exact Or.inr hlt
      · exact Or.inr (UInt64.lt_trans hlt hlt')

theorem inv_save {w : World} (h : Inv cx decodeList realmId key w) (noisePublic : Bytes) (url : String) :
    Inv cx decodeList realmId key { w with realms := (realmSave ⟨realmId, key, noisePublic, url⟩ w.realms).2 } := by
  refine ⟨fun r hr => ?_, fun hne => ?_, h.verified, h.rising⟩
  · rcases Table.mem_upsert hr with ⟨r', hr', -, rfl⟩ | ⟨hr', hne⟩ | ⟨rfl, hne⟩
    · obtain ⟨hid, -, hlist⟩ := h.row r' hr'
      exact ⟨hid, rfl, hlist⟩
    · exact absurd (h.row r hr').1 hne
    · refine ⟨rfl, rfl, ?_⟩
      have hnil : w.accepted = [] := by
        by_contra hacc
        obtain ⟨r', rest, hrows⟩ := List.exists_cons_of_ne_nil (h.filled hacc)
        have hr' : r' ∈ w.realms := (Table.mem_def _ _).2 (hrows ▸ List.mem_cons_self)
        exact hne r' hr' (h.row r' hr').1
      rw [hnil]
      rfl
  · obtain ⟨r', rest, hrows⟩ := List.exists_cons_of_ne_nil (h.filled hne)
    have hr' : r' ∈ w.realms := (Table.mem_def _ _).2 (hrows ▸ List.mem_cons_self)
    exact List.ne_nil_of_mem ((Table.mem_def _ _).1 (Table.mem_upsert_of_mem hr'))

theorem inv_step {w : World} (h : Inv cx decodeList realmId key w) (op : Op) :
    Inv cx decodeList realmId key (step cx decodeList realmId key w op) := by
  cases op with
  | save noisePublic url => exact inv_save h noisePublic url
  | accept signed =>
    unfold step
    dsimp only
    rcases ha : realmAcceptEndpointList cx decodeList realmId signed w.realms with ⟨e | list, t⟩
    · obtain rfl := clean_accept realmId signed w.realms _ t ha
      exact h
    · exact inv_accept h ha

/-- The Noise key that is used is the one the newest list names. -/
def KeyOfNewest (w : World) : Prop :=
  ∀ p ∈ w.accepted.getLast?, ∀ r ∈ w.realms, r.noisePublic = p.2.realmNoisePublicKey

theorem key_step {w : World} {op : Op} (hc : Agrees cx decodeList w op) (h : Inv cx decodeList realmId key w)
    (hk : KeyOfNewest w) : KeyOfNewest (step cx decodeList realmId key w op) := by
  cases op with
  | save noisePublic url =>
    intro p hp r hr
    have hne : w.accepted ≠ [] := List.ne_nil_of_mem (List.mem_of_getLast? hp)
    obtain ⟨head, rest, hrows⟩ := List.exists_cons_of_ne_nil (h.filled hne)
    have hhead : w.realms.rows.head? = some head := by rw [hrows]; rfl
    have hmem : head ∈ w.realms := List.mem_of_mem_head? hhead
    have hsaved : noisePublic = p.2.realmNoisePublicKey := by
      refine hc _ (congrArg Prod.fst (realm_eq_ok.2 ⟨head, hhead, h.reads hmem, rfl⟩)) p.2 ?_
      exact congrArg (Option.map (·.2)) hp
    rcases Table.mem_upsert hr with ⟨r', hr', -, rfl⟩ | ⟨hr', -⟩ | ⟨rfl, -⟩
    · exact hsaved
    · exact hk p hp r hr'
    · exact hsaved
  | accept signed =>
    unfold step
    dsimp only
    rcases ha : realmAcceptEndpointList cx decodeList realmId signed w.realms with ⟨e | list, t⟩
    · obtain rfl := clean_accept realmId signed w.realms _ t ha
      exact hk
    · obtain ⟨-, rfl, -, -⟩ := accepted_above h ha
      intro p hp r hr
      have hp : (w.accepted ++ [(signed, list)]).getLast? = some p := hp
      rw [List.getLast?_concat] at hp
      obtain rfl := Option.some.inj hp
      obtain ⟨r', -, rfl⟩ := mem_listed hr fun r' hr' => (h.row r' hr').1
      rfl

/-- What the list of a realm is for. -/
structure Kept (cx : Crypto) (decodeList : Bytes → Except String RealmEndpointList) (realmId : Bytes) (w : World) : Prop where
  rising : (w.accepted.map (·.2.sequence)).Pairwise (· ≤ ·)
  unique : ∀ p ∈ w.accepted, ∀ q ∈ w.accepted, p.2.sequence = q.2.sequence → p.1 = q.1
  stored : ∀ s, (realm cx decodeList w.realms).1 = .ok (some s) → s.endpointList = w.accepted.getLast?.map (·.2)
  refused : ∀ signed e t, realmAcceptEndpointList cx decodeList realmId signed w.realms = (.error e, t) → t = w.realms
  noise : ∀ p ∈ w.accepted.getLast?, ∃ s, realm cx decodeList w.realms = (.ok (some s), w.realms) ∧
    s.noisePublic = p.2.realmNoisePublicKey

theorem Inv.kept {w : World} (h : Inv cx decodeList realmId key w) (hk : KeyOfNewest w) : Kept cx decodeList realmId w := by
  refine ⟨?_, fun p hp q hq hseq => ?_, fun s hs => ?_, fun signed e t ht => clean_accept realmId signed _ e t ht, fun p hp => ?_⟩
  · refine List.pairwise_map.2 (h.rising.imp fun {p q} hpq => ?_)
    rcases hpq with rfl | hlt
    · exact UInt64.le_refl _
    · exact UInt64.le_of_lt hlt
  · have hsymm : Std.Symm fun p q : Bytes × RealmEndpointList => p.2.sequence = q.2.sequence → p.1 = q.1 :=
      ⟨fun p q hpq heq => (hpq heq.symm).symm⟩
    refine List.Pairwise.forall_of_forall (R := fun p q => p.2.sequence = q.2.sequence → p.1 = q.1) (fun _ _ _ => rfl) ?_ hp hq hseq
    refine h.rising.imp fun {p q} hpq heq => ?_
    rcases hpq with rfl | hlt
    · rfl
    · exact absurd (heq ▸ hlt) (UInt64.lt_irrefl _)
  · rcases hread : realm cx decodeList w.realms with ⟨r, t⟩
    rw [hread] at hs
    obtain rfl : r = .ok (some s) := hs
    obtain ⟨r, hhead, hr, -⟩ := realm_eq_ok.1 hread
    have hs := Except.ok.inj (hr.symm.trans (h.reads (List.mem_of_mem_head? hhead)))
    rw [hs]
  · have hne : w.accepted ≠ [] := List.ne_nil_of_mem (List.mem_of_getLast? hp)
    obtain ⟨head, rest, hrows⟩ := List.exists_cons_of_ne_nil (h.filled hne)
    have hhead : w.realms.rows.head? = some head := by rw [hrows]; rfl
    have hmem : head ∈ w.realms := List.mem_of_mem_head? hhead
    exact ⟨_, realm_eq_ok.2 ⟨head, hhead, h.reads hmem, rfl⟩, hk p hp head hmem⟩

/-- Where every code that is saved agrees with the stored list, the realm's lists are kept. -/
theorem endpoint_lists_are_kept (cx : Crypto) (decodeList : Bytes → Except String RealmEndpointList) (realmId key : Bytes)
    {ops : List Op} (hm : Trace.Meets (step cx decodeList realmId key) (Agrees cx decodeList) start ops) :
    Kept cx decodeList realmId (Trace.run (step cx decodeList realmId key) start ops) := by
  have hboth := Trace.invariant (I := fun w => Inv cx decodeList realmId key w ∧ KeyOfNewest w)
    (fun w op hc h => ⟨inv_step h.1 op, key_step hc h.1 h.2⟩) hm ⟨inv_start, nofun⟩
  exact hboth.1.kept hboth.2

namespace Demo

open Arveil.Demo

def code (noise : UInt8) : Op := .save [noise] "wss://b"

/-- The realm's list is accepted, and an older code is used once more. -/
def again : List Op := [code 8, .accept (listOf 5), code 9]

/-- The same code is used once more, and a newer list is accepted. -/
def same : List Op := [code 8, .accept (listOf 5), code 8, .accept (listOf 6)]

def world (ops : List Op) : World := Trace.run (step crypto endpointLists.decode realmB (publicKey [2])) start ops

end Demo

def Demo.noise (ops : List Op) : Option Bytes :=
  ((realm Arveil.Demo.crypto endpointLists.decode (Demo.world ops).realms).1.toOption.bind id).map (·.noisePublic)

/-- The code's key is used, not the one the accepted list names. -/
theorem old_code_replaces_key :
    (Demo.noise Demo.again, (Demo.world Demo.again).accepted.map (·.2.realmNoisePublicKey)) = (some [9], [[8]]) ∧
      ¬Kept Arveil.Demo.crypto endpointLists.decode realmB (Demo.world Demo.again) := by
  have hend : (Demo.noise Demo.again, (Demo.world Demo.again).accepted.map (·.2.realmNoisePublicKey)) = (some [9], [[8]]) := by
    decide +kernel
  refine ⟨hend, fun h => ?_⟩
  obtain ⟨hused, hnamed⟩ := Prod.mk.inj hend
  obtain ⟨p, hp, hkey⟩ := List.map_eq_singleton_iff.1 hnamed
  have hlast : (Demo.world Demo.again).accepted.getLast? = some p := by rw [hp]; rfl
  obtain ⟨s, hs, hnoise⟩ := h.noise p hlast
  unfold Demo.noise at hused
  rw [hs] at hused
  have hsame : s.noisePublic = [9] := Option.some.inj hused
  rw [hnoise, hkey] at hsame
  exact absurd hsame (by decide)

theorem same_code_is_kept : Kept Arveil.Demo.crypto endpointLists.decode realmB (Demo.world Demo.same) := by
  refine endpoint_lists_are_kept Arveil.Demo.crypto endpointLists.decode realmB (Arveil.Demo.publicKey [2]) ⟨?_, trivial, ?_, trivial, trivial⟩
  · intro s hs
    obtain ⟨r, hhead, -⟩ := realm_eq_ok.1 (Prod.ext hs rfl)
    exact absurd hhead nofun
  · intro s hs list hlist
    have hread : ((realm Arveil.Demo.crypto endpointLists.decode (step Arveil.Demo.crypto endpointLists.decode realmB
        (Arveil.Demo.publicKey [2]) (step Arveil.Demo.crypto endpointLists.decode realmB (Arveil.Demo.publicKey [2]) start
          (Demo.code 8)) (.accept (listOf 5))).realms).1.toOption.bind id).bind (·.endpointList.map (·.realmNoisePublicKey)) =
        some [8] := by decide +kernel
    rw [hs] at hread
    have hnamed : s.endpointList.map (·.realmNoisePublicKey) = some [8] := hread
    rw [Option.mem_def.1 hlist] at hnamed
    exact (Option.some.inj hnamed).symm

end Endpoints

end Arveil.Realm
