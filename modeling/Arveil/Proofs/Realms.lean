import Arveil.Lib.Trace
import Arveil.Sanity.Demo
import Arveil.Spec.Realms

/-! Realm isolation. The first realm a profile ever tried stays the first row, and every
reader takes that row: its key and its list's sequence decide what is accepted for any
realm. -/

namespace Arveil.Realm

open Prog

variable {cx : Crypto} {decodeList : Bytes → Except String RealmEndpointList}

def headId (t : Realms) : Option Bytes := t.rows.head?.map (·.realmId)

theorem head_update {p : RealmRow → Bool} {f : RealmRow → RealmRow} {hf : ∀ r, (f r).realmId = r.realmId} (t : Realms) :
    (t.update p f hf).rows.head? = t.rows.head?.map fun r => if p r then f r else r := by
  simp only [Table.update, List.head?_map]

theorem headId_update {p : RealmRow → Bool} {f : RealmRow → RealmRow} {hf : ∀ r, (f r).realmId = r.realmId} (t : Realms) :
    headId (t.update p f hf) = headId t := by
  rw [headId, headId, head_update, Option.map_map]
  congr 1
  funext r
  simp only [Function.comp_apply]
  split
  · exact hf r
  · rfl

theorem headId_save (b : Bootstrap) (t : Realms) : headId (realmSave b t).2 = (headId t).or (some b.realmId) := by
  simp only [realmSave, modify_run, Table.upsert]
  cases hi : t.insert ⟨b.realmId, b.signingKey, b.noisePublic, b.url, none, false⟩ with
  | some t' =>
    simp only [headId, (Table.insert_eq_some hi).1, List.head?_append]
    cases t.rows.head? <;> rfl
  | none =>
    rw [headId_update]
    obtain ⟨r, hr, -⟩ := Table.insert_eq_none.1 hi
    cases hrows : t.rows with
    | nil => rw [Table.mem_def, hrows] at hr; cases hr
    | cons r' rows => simp [headId, hrows]

theorem fixes_realm : Fixes headId (realm cx decodeList) := by
  refine fixes_bind (fixes_read _) fun o => ?_
  cases o with
  | none => exact fixes_pure _
  | some r => exact fixes_bind (fixes_ofExcept _) fun _ => fixes_pure _

theorem fixes_accept (realmId signed : Bytes) : Fixes headId (realmAcceptEndpointList cx decodeList realmId signed) := by
  refine fixes_bind fixes_realm fun o => fixes_bind (fixes_ofOption _ o) fun s => fixes_bind (fixes_read _) fun stored => ?_
  refine fixes_bind (fixes_ofExcept _) fun list => fixes_bind (fixes_modify fun t => ?_) fun _ => fixes_pure _
  exact headId_update t

theorem fixes_mark (realmId : Bytes) : Fixes headId (realmMarkEnrolled realmId) := fixes_modify fun t => headId_update t

theorem headId_saved {α : Type} (b : Bootstrap) {p : Act α} (hp : Fixes headId p) (t : Realms) :
    headId ((realmSave b >>= fun _ => p) t).2 = (headId t).or (some b.realmId) := by
  have hsave : realmSave b t = (.ok (), (realmSave b t).2) := rfl
  rw [bind_ok hsave, hp, headId_save]

theorem headId_after (t : Realms) (a : Attempt) : headId (after cx decodeList t a) = (headId t).or a.realmId := by
  cases a with
  | begins b => exact headId_save b t
  | stops b signed => exact headId_saved b (fixes_bind (fixes_accept _ _) fun _ => fixes_pure _) t
  | onboards b signed => exact headId_saved b (fixes_bind (fixes_accept _ _) fun _ => fixes_mark _) t
  | resumes signed =>
    have hfixes : Fixes headId (Attempt.prog cx decodeList (.resumes signed)) :=
      fixes_bind fixes_realm fun o => fixes_bind (fixes_ofOption _ o) fun s =>
        fixes_bind (fixes_accept _ _) fun _ => fixes_mark _
    simp only [Attempt.realmId, Option.or_none]
    exact hfixes t

theorem headId_run (t : Realms) (attempts : List Attempt) :
    headId (Trace.run (after cx decodeList) t attempts) = (headId t).or (attempts.filterMap Attempt.realmId).head? := by
  induction attempts generalizing t with
  | nil => simp
  | cons a attempts ih =>
    rw [Trace.run_cons, ih, headId_after, Option.or_assoc]
    cases ha : a.realmId with
    | none => simp [ha]
    | some id => simp [ha]

theorem realm_eq_ok {t t' : Realms} {s : StoredRealm} :
    realm cx decodeList t = (.ok (some s), t') ↔ ∃ r, t.rows.head? = some r ∧ readRow cx decodeList r = .ok s ∧ t = t' := by
  rw [realm, bind_ok (read_run _ _)]
  cases t.rows.head? with
  | none => simp
  | some r =>
    simp only [bind_eq_ok, ofExcept_eq_ok, pure_run, Prod.mk.injEq, Except.ok.injEq, Option.some.injEq]
    constructor
    · rintro ⟨s', t₁, ⟨hr, rfl⟩, rfl, rfl⟩
      exact ⟨r, rfl, hr, rfl⟩
    · rintro ⟨r', rfl, hr, rfl⟩
      exact ⟨s, t, ⟨hr, rfl⟩, rfl, rfl⟩

theorem readRow_realmId {r : RealmRow} {s : StoredRealm} (h : readRow cx decodeList r = .ok s) :
    s.realmId = r.realmId ∧ s.signingPublic = r.signingPublic := by
  unfold readRow at h
  split at h
  · obtain rfl := Except.ok.inj h
    exact ⟨rfl, rfl⟩
  · split at h
    · cases h
    · obtain rfl := Except.ok.inj h
      exact ⟨rfl, rfl⟩

/-- The sequence that must be exceeded: the first row's, whatever the realm. -/
def knownFor (t : Realms) (realmId signed : Bytes) (s : StoredRealm) : Option UInt64 :=
  if (t.get? realmId).bind (·.endpointList) = some signed then none else s.endpointList.map (·.sequence)

def listed (realmId signed : Bytes) (list : RealmEndpointList) (t : Realms) : Realms :=
  t.update (fun r => r.realmId = realmId)
    (fun r => { r with endpointList := some signed, noisePublic := list.realmNoisePublicKey }) (RealmRow.listed_key signed list)

theorem accept_eq_ok {t t' : Realms} {realmId signed : Bytes} {list : RealmEndpointList} :
    realmAcceptEndpointList cx decodeList realmId signed t = (.ok list, t') ↔
      ∃ r s, t.rows.head? = some r ∧ readRow cx decodeList r = .ok s ∧
        verify cx decodeList signed r.signingPublic realmId (knownFor t realmId signed s) = .ok list ∧
        t' = listed realmId signed list t := by
  have hmap : ∀ r : Except EndpointListError RealmEndpointList, r.mapError Error.endpointList = .ok list ↔ r = .ok list := by
    intro r
    cases r <;> simp [Except.mapError]
  simp only [realmAcceptEndpointList, bind_eq_ok, read_eq_ok, ofOption_eq_ok, ofExcept_eq_ok, modify_eq_ok, pure_run,
    Prod.mk.injEq, Except.ok.injEq]
  constructor
  · rintro ⟨o, t₁, hrealm, s, t₂, ⟨rfl, rfl⟩, stored, t₃, ⟨rfl, rfl⟩, list', t₄, ⟨hverify, rfl⟩, u, t₅, rfl, rfl, rfl⟩
    obtain ⟨r, hhead, hread, rfl⟩ := realm_eq_ok.1 hrealm
    rw [hmap, (readRow_realmId hread).2] at hverify
    exact ⟨r, s, hhead, hread, hverify, rfl⟩
  · rintro ⟨r, s, hhead, hread, hverify, rfl⟩
    rw [← (readRow_realmId hread).2] at hverify
    exact ⟨some s, t, realm_eq_ok.2 ⟨r, hhead, hread, rfl⟩, s, t, ⟨rfl, rfl⟩, _, t, ⟨rfl, rfl⟩, list, t, ⟨(hmap _).2 hverify, rfl⟩,
      (), _, rfl, rfl, rfl⟩

theorem verify_known {signed key realmId : Bytes} {known : Option UInt64} {list : RealmEndpointList} :
    verify cx decodeList signed key realmId known = .ok list ↔
      verify cx decodeList signed key realmId none = .ok list ∧ ∀ k ∈ known, k < list.sequence := by
  unfold verify
  split
  · simp
  · simp
  · simp
  · split
    · simp
    · next list' _ =>
      split
      · simp
      · split
        · simp
        · cases known with
          | none => simp
          | some k =>
            by_cases hk : list'.sequence ≤ k
            · have hno : ¬ k < list'.sequence := UInt64.not_lt.2 hk
              simp only [Option.filter_some, hk, decide_true, if_true, reduceCtorEq, Option.filter_none, Option.mem_def,
                Option.some.injEq, forall_eq', false_iff, not_and]
              split
              · simp
              · intro h
                rwa [← Except.ok.inj h]
            · have hyes : k < list'.sequence := UInt64.not_le.1 hk
              simp only [Option.filter_some, hk, decide_false, Bool.false_eq_true, if_false, Option.filter_none, Option.mem_def,
                Option.some.injEq, forall_eq']
              split
              · simp
              · simp only [Except.ok.injEq]
                exact ⟨fun h => ⟨h, h ▸ hyes⟩, fun h => h.1⟩

/-- The list verifies under the realm's own key for its own id, and is newer than the
realm's own list or that list. -/
def Fits (cx : Crypto) (decodeList : Bytes → Except String RealmEndpointList) (r : RealmRow) (s : StoredRealm) (signed : Bytes) :
    Prop :=
  ∃ list, verify cx decodeList signed r.signingPublic r.realmId none = .ok list ∧
    (r.endpointList = some signed ∨ ∀ known ∈ s.endpointList, known.sequence < list.sequence)

/-- The realm is the one that is read, and nothing but its own row decides its lists. -/
def Isolated (cx : Crypto) (decodeList : Bytes → Except String RealmEndpointList) (t : Realms) (realmId : Bytes) : Prop :=
  ∃ r s, t.get? realmId = some r ∧ readRow cx decodeList r = .ok s ∧ realm cx decodeList t = (.ok (some s), t) ∧
    ∀ signed, (∃ list t', realmAcceptEndpointList cx decodeList realmId signed t = (.ok list, t')) ↔ Fits cx decodeList r s signed

theorem isolated_headId {t : Realms} {realmId : Bytes} (h : Isolated cx decodeList t realmId) : headId t = some realmId := by
  obtain ⟨r, s, hget, hread, hrealm, -⟩ := h
  obtain ⟨r', hhead, hread', -⟩ := realm_eq_ok.1 hrealm
  have hid : r'.realmId = r.realmId := (readRow_realmId hread').1.symm.trans (readRow_realmId hread).1
  rw [headId, hhead, Option.map_some, hid, (Table.get?_eq_some.1 hget).2]

/-- A realm whose row comes first is isolated, as long as its row can be read. -/
theorem isolated_of_first {t : Realms} {r : RealmRow} {s : StoredRealm} (hhead : t.rows.head? = some r)
    (hread : readRow cx decodeList r = .ok s) : Isolated cx decodeList t r.realmId := by
  have hget : t.get? r.realmId = some r := Table.get?_eq_some.2 ⟨List.mem_of_mem_head? hhead, rfl⟩
  refine ⟨r, s, hget, hread, realm_eq_ok.2 ⟨r, hhead, hread, rfl⟩, fun signed => ?_⟩
  have haccept : (∃ list t', realmAcceptEndpointList cx decodeList r.realmId signed t = (.ok list, t')) ↔
      ∃ list, verify cx decodeList signed r.signingPublic r.realmId (knownFor t r.realmId signed s) = .ok list := by
    simp only [accept_eq_ok]
    constructor
    · rintro ⟨list, t', r', s', hhead', hread', hverify, -⟩
      obtain rfl := Option.some.inj (hhead.symm.trans hhead')
      obtain rfl := Except.ok.inj (hread.symm.trans hread')
      exact ⟨list, hverify⟩
    · rintro ⟨list, hverify⟩
      exact ⟨list, _, r, s, hhead, hread, hverify, rfl⟩
  rw [haccept]
  refine exists_congr fun list => ?_
  rw [verify_known, knownFor, hget, Option.bind_some]
  refine and_congr_right fun _ => ?_
  split
  · next heq => simp [heq]
  · next hne =>
    simp only [hne, false_or, Option.mem_def, Option.map_eq_some_iff]
    constructor
    · exact fun h known hknown => h known.sequence ⟨known, hknown, rfl⟩
    · rintro h k ⟨known, hknown, rfl⟩
      exact h known hknown

theorem onboard_first {t t' : Realms} {b : Bootstrap} {signed : Bytes} (h : onboard cx decodeList b signed t = (.ok (), t'))
    (hfirst : headId t' = some b.realmId) :
    ∃ r s, t'.rows.head? = some r ∧ readRow cx decodeList r = .ok s ∧ r.realmId = b.realmId := by
  have hsave : realmSave b t = (.ok (), (realmSave b t).2) := rfl
  rw [onboard, bind_ok hsave, bind_eq_ok] at h
  obtain ⟨list, t₂, haccept, hmark⟩ := h
  obtain rfl := modify_eq_ok.1 hmark
  obtain ⟨r, s, hhead, hread, hverify, rfl⟩ := accept_eq_ok.1 haccept
  rw [headId_update, listed, headId_update, headId, hhead, Option.map_some, Option.some.injEq] at hfirst
  have hnew := (verify_known.1 hverify).1
  refine ⟨{ r with endpointList := some signed, noisePublic := list.realmNoisePublicKey, enrolled := true },
    ⟨r.realmId, r.signingPublic, list.realmNoisePublicKey, r.bootstrapUrl, some list, true⟩, ?_, ?_, hfirst⟩
  · rw [head_update, listed, head_update, hhead]
    simp [hfirst]
  · simp only [readRow, hfirst, hnew]

/-- Once a profile is onboarded into a realm, the realm is isolated exactly when no earlier
attempt was made at another realm first. -/
theorem onboarded_isolated_iff (cx : Crypto) (decodeList : Bytes → Except String RealmEndpointList) (earlier : List Attempt)
    (b : Bootstrap) (signed : Bytes) (t : Realms)
    (h : onboard cx decodeList b signed (Trace.run (after cx decodeList) .empty earlier) = (.ok (), t)) :
    Isolated cx decodeList t b.realmId ↔ ∀ id ∈ (earlier.filterMap Attempt.realmId).head?, id = b.realmId := by
  have hhead : headId t = (earlier.filterMap Attempt.realmId).head?.or (some b.realmId) := by
    have ht : after cx decodeList (Trace.run (after cx decodeList) .empty earlier) (.onboards b signed) = t := congrArg Prod.snd h
    rw [← ht, headId_after, headId_run]
    rfl
  constructor
  · intro hiso id hid
    rw [isolated_headId hiso, Option.mem_def.1 hid, Option.some_or] at hhead
    exact (Option.some.inj hhead).symm
  · intro hfirst
    have hb : headId t = some b.realmId := by
      rw [hhead]
      cases hid : (earlier.filterMap Attempt.realmId).head? with
      | none => rfl
      | some id => rw [Option.some_or, hfirst id hid]
    obtain ⟨r, s, hr, hread, hrid⟩ := onboard_first h hb
    exact hrid ▸ isolated_of_first hr hread

open Demo

def endpointLists : Wire RealmEndpointList :=
  (Wire.byte.both (Wire.bytes.both (Wire.uint64.both (Wire.bytes.both
    (((Wire.text.both (Wire.text.both Wire.byte)).via (fun p => (⟨p.1, p.2.1, p.2.2⟩ : Endpoint))
      (fun e => (e.kind, e.url, e.priority)) (fun _ => rfl)).list))))).via
    (fun p => ⟨p.1, p.2.1, p.2.2.1, p.2.2.2.1, p.2.2.2.2⟩)
    (fun l => (l.version, l.realmId, l.sequence, l.realmNoisePublicKey, l.endpoints)) (fun _ => rfl)

def bootstrapOf (id : Bytes) : Bootstrap := ⟨id, publicKey [2], [8], "wss://b"⟩

def realmB : Bytes := List.replicate 32 1

def mistyped : Bytes := List.replicate 31 1 ++ [2]

def listOf (sequence : UInt64) : Bytes :=
  Identity.sign crypto endpointListContext (endpointLists.write ⟨1, realmB, sequence, [8], [⟨"lan", "wss://b", 0⟩]⟩) [2]

/-- The realm that was tried under a mistyped id is the one that is read. -/
theorem mistyped_realm_is_read :
    ¬ ∀ (earlier : List Attempt) (b : Bootstrap) (signed : Bytes) (t : Realms),
      onboard crypto endpointLists.decode b signed (Trace.run (after crypto endpointLists.decode) .empty earlier) = (.ok (), t) →
      Isolated crypto endpointLists.decode t b.realmId := by
  intro h
  have hrun : (onboard crypto endpointLists.decode (bootstrapOf realmB) (listOf 5)
      (Trace.run (after crypto endpointLists.decode) .empty [.begins (bootstrapOf mistyped)])).1.toOption = some () := by
    decide +kernel
  have hfirst : headId (onboard crypto endpointLists.decode (bootstrapOf realmB) (listOf 5)
      (Trace.run (after crypto endpointLists.decode) .empty [.begins (bootstrapOf mistyped)])).2 = some mistyped := by decide +kernel
  have hiso := isolated_headId (h _ (bootstrapOf realmB) (listOf 5) _ (run_of_toOption hrun))
  rw [hfirst] at hiso
  have hne : mistyped ≠ realmB := by decide
  exact hne (Option.some.inj hiso)

theorem first_realm_is_isolated : Isolated crypto endpointLists.decode
    (onboard crypto endpointLists.decode (bootstrapOf realmB) (listOf 5)
      (Trace.run (after crypto endpointLists.decode) .empty [.begins (bootstrapOf realmB), .begins (bootstrapOf mistyped)])).2 realmB := by
  have hrun : (onboard crypto endpointLists.decode (bootstrapOf realmB) (listOf 5) (Trace.run (after crypto endpointLists.decode)
      .empty [.begins (bootstrapOf realmB), .begins (bootstrapOf mistyped)])).1.toOption = some () := by decide +kernel
  have hfirst : ∀ id ∈ ([Attempt.begins (bootstrapOf realmB), .begins (bootstrapOf mistyped)].filterMap Attempt.realmId).head?,
      id = (bootstrapOf realmB).realmId := by decide
  exact (onboarded_isolated_iff crypto endpointLists.decode _ (bootstrapOf realmB) (listOf 5) _ (run_of_toOption hrun)).2 hfirst

end Arveil.Realm
