import Arveil.Proofs.Invitations
import Arveil.Sanity.Demo

/-! Key packages. A package is a row under the hash of its bytes; no row goes away, and none
that is consumed becomes available again. So whatever is published again and whoever claims,
the same bytes are handed out twice only to who repeats the request they were first handed
out for. -/

namespace Arveil.RelayStore

open Prog RelayServer

/-- Rows are only added, all of one device, available, and from the batch. -/
def Grown (sha256 : Bytes → Bytes) (identityId deviceId : Bytes) (packages : List Bytes) (db db' : Db) : Prop :=
  ∃ new, db'.keyPackages.rows = db.keyPackages.rows ++ new ∧ ∀ k ∈ new,
    k.identityId = identityId ∧ k.deviceId = deviceId ∧ k.consumed = false ∧ k.ref = sha256 k.bytes ∧ k.bytes ∈ packages

section publishing

variable {sha256 : Bytes → Bytes} {identityId deviceId : Bytes} {packages : List Bytes}

theorem grown_refl (db : Db) : Grown sha256 identityId deviceId packages db db := ⟨[], by simp, by simp⟩

theorem grown_trans (a b c : Db) (h : Grown sha256 identityId deviceId packages a b)
    (h' : Grown sha256 identityId deviceId packages b c) : Grown sha256 identityId deviceId packages a c := by
  obtain ⟨new, hrows, hnew⟩ := h
  obtain ⟨new', hrows', hnew'⟩ := h'
  refine ⟨new ++ new', by rw [hrows', hrows, List.append_assoc], fun k hk => ?_⟩
  rcases List.mem_append.1 hk with hk | hk
  · exact hnew k hk
  · exact hnew' k hk

theorem grown_publishOne {package : Bytes} (hp : package ∈ packages) (now : Int) :
    Keeps (Grown sha256 identityId deviceId packages) (publishOne sha256 identityId deviceId now package) := by
  refine keeps_bind grown_trans (keeps_when grown_refl _ (keeps_fail grown_refl _)) fun _ =>
    keeps_bind grown_trans (keeps_read grown_refl _) fun _ =>
    keeps_bind grown_trans (keeps_when grown_refl _ (keeps_fail grown_refl _)) fun _ => keeps_modify fun db => ?_
  dsimp only [Grown, Table.insertOrIgnore]
  cases hi : db.keyPackages.insert ⟨sha256 package, identityId, deviceId, package, now, false⟩ with
  | none => exact ⟨[], by simp, by simp⟩
  | some t => exact ⟨_, (Table.insert_eq_some hi).1, by simpa using hp⟩

/-- A batch that is taken leaves the device within its bound. -/
theorem publishKeyPackages_ok {now : Int} {db db' : Db} {u : Unit}
    (h : publishKeyPackages sha256 identityId deviceId packages now db = (.ok u, db')) :
    Grown sha256 identityId deviceId packages db db' ∧ available deviceId db' ≤ maxKeyPackagesPerDevice := by
  unfold publishKeyPackages at h
  split at h
  · exact absurd h fail_ne_ok
  · rw [unitOfWork_eq_ok, bind_eq_ok] at h
    obtain ⟨_, db₁, hall, h⟩ := h
    have hgrown : Grown sha256 identityId deviceId packages db (forEach packages (publishOne sha256 identityId deviceId now) db).2 :=
      keeps_forEach grown_refl grown_trans packages (fun package hp => grown_publishOne hp now) db
    rw [hall] at hgrown
    simp only [bind_eq_ok, read_eq_ok, when_eq_ok] at h
    obtain ⟨n, db₂, ⟨rfl, rfl⟩, hbound⟩ := h
    obtain ⟨hfits, rfl⟩ := hbound.resolve_left fun hf => absurd hf.2 fail_ne_ok
    exact ⟨hgrown, not_lt.1 hfits⟩

end publishing

theorem oldestPackage_spec {identityId deviceId : Bytes} {db : Db} {k : KeyPackageRow} (h : oldestPackage identityId deviceId db = some k) :
    k ∈ db.keyPackages ∧ k.identityId = identityId ∧ (deviceId = [] ∨ k.deviceId = deviceId) ∧ k.consumed = false := by
  have hmem := List.mem_of_mem_head? h
  rw [List.mem_insertionSort, List.mem_filter] at hmem
  simpa [and_assoc, Table.mem_def] using hmem

theorem claimKeyPackage_ok {identityId deviceId bytes : Bytes} {db db' : Db}
    (h : claimKeyPackage identityId deviceId db = (.ok bytes, db')) :
    ∃ k, oldestPackage identityId deviceId db = some k ∧ bytes = k.bytes ∧ db' = consume k.ref db := by
  rw [claimKeyPackage, unitOfWork_eq_ok] at h
  simp only [bind_eq_ok, require_eq_ok, modify_eq_ok, pure_run, Prod.mk.injEq, Except.ok.injEq] at h
  obtain ⟨k, db₁, ⟨hk, rfl⟩, _, db₂, rfl, rfl, rfl⟩ := h
  exact ⟨k, hk, rfl, rfl⟩

/-- A package is consumed and the answer recorded. -/
structure ClaimsOnce (credential key identity device : Bytes) (now : Int) (k : KeyPackageRow) (db db' : Db) : Prop where
  fresh : ∀ r ∈ db.receipts, r.claimant = credential → r.requestKey ≠ key
  valid : validRequestKey key now = true
  device_named : device ≠ []
  oldest : oldestPackage identity device db = some k
  keyPackages : db'.keyPackages = (consume k.ref db).keyPackages
  receipts : db.receipts.insert ⟨credential, key, identity, device, k.bytes, now⟩ = some db'.receipts

theorem claimKeyPackageOnce_ok {credential key identity device bytes : Bytes} {now : Int} {db db' : Db}
    (h : claimKeyPackageOnce credential key identity device now db = (.ok bytes, db')) :
    (db' = db ∧ device ≠ [] ∧ ∃ r ∈ db.receipts, r.claimant = credential ∧ r.requestKey = key ∧ r.identityId = identity ∧
      r.deviceId = device ∧ r.package = bytes) ∨ ∃ k, k.bytes = bytes ∧ ClaimsOnce credential key identity device now k db db' := by
  unfold claimKeyPackageOnce at h
  split at h
  · exact absurd h fail_ne_ok
  next hshape =>
  have hdevice : device ≠ [] := by
    rintro rfl
    exact hshape (Or.inr (Or.inr (by decide)))
  rw [unitOfWork_eq_ok, bind_eq_ok] at h
  obtain ⟨⟨actor, role⟩, db₁, hrole, h⟩ := h
  obtain ⟨rfl, -⟩ := activeRole_eq_ok hrole
  rw [bind_ok (read_run _ _)] at h
  cases hr : db.receipts.get? (credential, key) with
  | some r =>
    simp only [hr] at h
    obtain ⟨hmem, hkey⟩ := Table.get?_eq_some.1 hr
    obtain ⟨hclaimant, hrequest⟩ := Prod.mk.inj hkey
    split at h
    · exact absurd h fail_ne_ok
    · next hsame =>
      simp only [not_or, not_not, ne_eq] at hsame
      obtain ⟨rfl, rfl⟩ : r.package = bytes ∧ db = db' := by simpa using h
      exact Or.inl ⟨rfl, hdevice, r, hmem, hclaimant, hrequest, hsame.1, hsame.2, rfl⟩
  | none =>
    simp only [hr, bind_eq_ok, when_eq_ok, read_eq_ok, require_eq_ok, modify_eq_ok, insertRow_eq_ok, pure_run, Prod.mk.injEq,
      Except.ok.injEq] at h
    obtain ⟨_, db₁, hvalid, count, db₂, ⟨-, rfl⟩, _, db₃, hquota, k, db₄, ⟨hk, rfl⟩, _, db₅, rfl, _, db₆, hrec, rfl, rfl⟩ := h
    obtain ⟨hkey, rfl⟩ := hvalid.resolve_left fun hf => absurd hf.2 fail_ne_ok
    obtain ⟨-, rfl⟩ := hquota.resolve_left fun hf => absurd hf.2 fail_ne_ok
    obtain ⟨t, ht, rfl⟩ := Option.map_eq_some_iff.1 hrec
    refine Or.inr ⟨k, rfl, fun r hr' hclaimant hrequest => ?_, by simpa using hkey, hdevice, hk, rfl, ht⟩
    exact Table.get?_eq_none.1 hr r hr' (Prod.ext hclaimant hrequest)

inductive Shelves (sha256 : Bytes → Bytes) (db db' : Db) : Call → Prop
  | same {c : Call} (hk : db'.keyPackages = db.keyPackages) (hr : ∀ r ∈ db'.receipts, r ∈ db.receipts) : Shelves sha256 db db' c
  | published {identityId deviceId : Bytes} {packages : List Bytes} {now : Int}
      (h : Grown sha256 identityId deviceId packages db db') (hbound : available deviceId db' ≤ maxKeyPackagesPerDevice)
      (hr : db'.receipts = db.receipts) : Shelves sha256 db db' (.publishKeyPackages identityId deviceId packages now)
  | claimed {identityId deviceId : Bytes} {k : KeyPackageRow} (hk : oldestPackage identityId deviceId db = some k)
      (hdb : db' = consume k.ref db) : Shelves sha256 db db' (.claimKeyPackage identityId deviceId)
  | claimedOnce {credential key identity device : Bytes} {now : Int} {k : KeyPackageRow}
      (h : ClaimsOnce credential key identity device now k db db') :
      Shelves sha256 db db' (.claimKeyPackageOnce credential key identity device now)

theorem Shelves.refl (sha256 : Bytes → Bytes) (db : Db) (c : Call) : Shelves sha256 db db c := .same rfl fun _ hr => hr

variable {sha256 : Bytes → Bytes}

theorem Shelves.of_parts {c : Call} {db : Db} (hk : Part.keyPackages ∉ writes c) (hr : Part.receipts ∉ writes c) :
    Shelves sha256 db (c.prog sha256 db).2 c := by
  refine .same (part_call c db hk) fun r hmem => ?_
  have hreceipts : (c.prog sha256 db).2.receipts = db.receipts := part_call c db hr
  exact hreceipts ▸ hmem

theorem shelves_call (c : Call) (db : Db) : Shelves sha256 db (c.prog sha256 db).2 c := by
  cases c with
  | publishKeyPackages identityId deviceId packages now =>
    have hreceipts : (publishKeyPackages sha256 identityId deviceId packages now db).2.receipts = db.receipts :=
      @part_call sha256 (.publishKeyPackages identityId deviceId packages now) db .receipts (by simp [writes])
    show Shelves sha256 db (publishKeyPackages sha256 identityId deviceId packages now db).2 _
    rcases hrun : publishKeyPackages sha256 identityId deviceId packages now db with ⟨r, db'⟩
    rw [hrun] at hreceipts
    cases r with
    | ok u => exact .published (publishKeyPackages_ok hrun).1 (publishKeyPackages_ok hrun).2 hreceipts
    | error e =>
      unfold publishKeyPackages at hrun
      split at hrun
      · obtain ⟨-, rfl⟩ : _ ∧ db = db' := by simpa using hrun
        exact .refl _ _ _
      · rw [unitOfWork_error hrun]
        exact .refl _ _ _
  | claimKeyPackage identityId deviceId =>
    show Shelves sha256 db (claimKeyPackage identityId deviceId db).2 _
    rcases hrun : claimKeyPackage identityId deviceId db with ⟨r, db'⟩
    cases r with
    | ok bytes =>
      obtain ⟨k, hk, -, hdb⟩ := claimKeyPackage_ok hrun
      exact .claimed hk hdb
    | error e =>
      rw [unitOfWork_error hrun]
      exact .refl _ _ _
  | claimKeyPackageOnce credential key identity device now =>
    show Shelves sha256 db (claimKeyPackageOnce credential key identity device now db).2 _
    rcases hrun : claimKeyPackageOnce credential key identity device now db with ⟨r, db'⟩
    cases r with
    | ok bytes =>
      rcases claimKeyPackageOnce_ok hrun with ⟨rfl, -⟩ | ⟨k, -, hclaims⟩
      · exact .refl _ _ _
      · exact .claimedOnce hclaims
    | error e =>
      unfold claimKeyPackageOnce at hrun
      split at hrun
      · obtain ⟨-, rfl⟩ : _ ∧ db = db' := by simpa using hrun
        exact .refl _ _ _
      · rw [unitOfWork_error hrun]
        exact .refl _ _ _
  | sweepInvitationHistory now => exact .same rfl fun r hr => (Table.mem_delete.1 hr).1
  | _ => exact .of_parts (by simp [writes]) (by simp [writes])

structure Shelved (sha256 : Bytes → Bytes) (db : Db) : Prop where
  ref : ∀ k ∈ db.keyPackages, k.ref = sha256 k.bytes
  bound : ∀ deviceId, available deviceId db ≤ maxKeyPackagesPerDevice
  receipt : ∀ r ∈ db.receipts, ∃ k ∈ db.keyPackages, k.bytes = r.package ∧ k.consumed = true ∧ k.identityId = r.identityId ∧
    k.deviceId = r.deviceId
  once : ∀ r ∈ db.receipts, ∀ r' ∈ db.receipts, r.package = r'.package → r = r'

theorem Shelved.eq_of_bytes {db : Db} (h : Shelved sha256 db) {k k' : KeyPackageRow} (hk : k ∈ db.keyPackages)
    (hk' : k' ∈ db.keyPackages) (hb : k.bytes = k'.bytes) : k = k' :=
  Table.eq_of_key hk hk' (by rw [h.ref k hk, h.ref k' hk', hb])

theorem Shelved.no_receipt {db : Db} (h : Shelved sha256 db) {k : KeyPackageRow} (hk : k ∈ db.keyPackages) (hfree : k.consumed = false) :
    ∀ r ∈ db.receipts, r.package ≠ k.bytes := by
  intro r hr hb
  obtain ⟨k₀, hk₀, hbytes, hconsumed, -⟩ := h.receipt r hr
  rw [h.eq_of_bytes hk₀ hk (hbytes.trans hb), hfree] at hconsumed
  cases hconsumed

theorem mem_consume {ref : Bytes} {db : Db} {k : KeyPackageRow} (h : k ∈ (consume ref db).keyPackages) :
    (k ∈ db.keyPackages ∧ k.ref ≠ ref) ∨ ∃ k₀ ∈ db.keyPackages, k₀.ref = ref ∧ k = { k₀ with consumed := true } := by
  dsimp only [consume] at h
  simpa only [decide_eq_false_iff_not, decide_eq_true_eq] using Table.of_mem_update h

theorem mem_consume_self {ref : Bytes} {db : Db} {k : KeyPackageRow} (hk : k ∈ db.keyPackages) (href : k.ref = ref) :
    { k with consumed := true } ∈ (consume ref db).keyPackages := by
  dsimp only [consume]
  exact Table.mem_update_pos hk (decide_eq_true href)

theorem mem_consume_other {ref : Bytes} {db : Db} {k : KeyPackageRow} (hk : k ∈ db.keyPackages) (href : k.ref ≠ ref) :
    k ∈ (consume ref db).keyPackages := by
  dsimp only [consume]
  exact Table.mem_update_neg hk (decide_eq_false href)

theorem available_consume (deviceId ref : Bytes) (db : Db) : available deviceId (consume ref db) ≤ available deviceId db := by
  simp only [available, consume, Table.update, List.filter_map, List.length_map]
  refine (List.monotone_filter_right _ fun k hk => ?_).length_le
  simp only [Function.comp_apply] at hk
  split at hk
  · simp at hk
  · exact hk

theorem available_grown {identityId deviceId d : Bytes} {packages : List Bytes} {db db' : Db}
    (h : Grown sha256 identityId deviceId packages db db') (hd : d ≠ deviceId) : available d db' = available d db := by
  obtain ⟨new, hrows, hnew⟩ := h
  have hnone : new.filter (fun k => k.deviceId = d && k.consumed = false) = [] := by
    refine List.filter_eq_nil_iff.2 fun k hk => ?_
    simp [(hnew k hk).2.1, hd.symm]
  rw [available, hrows, List.filter_append, hnone, List.append_nil, available]

theorem Shelves.row {db db' : Db} {c : Call} (hs : Shelves sha256 db db' c) {k : KeyPackageRow} (hk : k ∈ db.keyPackages) :
    k ∈ db'.keyPackages ∨ (k.consumed = false ∧ { k with consumed := true } ∈ db'.keyPackages) := by
  have hconsume : ∀ {k₀ : KeyPackageRow}, k₀ ∈ db.keyPackages → k₀.consumed = false → ∀ {t : Table KeyPackageRow.ref},
      t = (consume k₀.ref db).keyPackages → k ∈ t ∨ (k.consumed = false ∧ { k with consumed := true } ∈ t) := by
    rintro k₀ hk₀ hfree t rfl
    by_cases href : k.ref = k₀.ref
    · obtain rfl := Table.eq_of_key hk hk₀ href
      exact Or.inr ⟨hfree, mem_consume_self hk rfl⟩
    · exact Or.inl (mem_consume_other hk href)
  cases hs with
  | same hk' hr => exact Or.inl (hk' ▸ hk)
  | published h hbound hr =>
    obtain ⟨new, hrows, -⟩ := h
    refine Or.inl ?_
    rw [Table.mem_def, hrows]
    exact List.mem_append_left _ hk
  | claimed hold hdb =>
    obtain ⟨hmem, -, -, hfree⟩ := oldestPackage_spec hold
    exact hconsume hmem hfree (by rw [hdb])
  | claimedOnce h =>
    obtain ⟨hmem, -, -, hfree⟩ := oldestPackage_spec h.oldest
    exact hconsume hmem hfree h.keyPackages

theorem Shelves.row_from {db db' : Db} {c : Call} (hs : Shelves sha256 db db' c) {k : KeyPackageRow} (hk : k ∈ db'.keyPackages) :
    (∃ k₀ ∈ db.keyPackages, k₀.ref = k.ref ∧ k₀.bytes = k.bytes ∧ k₀.identityId = k.identityId ∧ k₀.deviceId = k.deviceId) ∨
      (k.ref = sha256 k.bytes ∧ ∃ packages now, c = .publishKeyPackages k.identityId k.deviceId packages now ∧ k.bytes ∈ packages) := by
  have hconsume : ∀ {ref : Bytes}, k ∈ (consume ref db).keyPackages →
      ∃ k₀ ∈ db.keyPackages, k₀.ref = k.ref ∧ k₀.bytes = k.bytes ∧ k₀.identityId = k.identityId ∧ k₀.deviceId = k.deviceId := by
    intro ref hmem
    rcases mem_consume hmem with ⟨hmem, -⟩ | ⟨k₀, hk₀, -, rfl⟩
    · exact ⟨k, hmem, rfl, rfl, rfl, rfl⟩
    · exact ⟨k₀, hk₀, rfl, rfl, rfl, rfl⟩
  cases hs with
  | same hk' hr => exact Or.inl ⟨k, hk' ▸ hk, rfl, rfl, rfl, rfl⟩
  | published h hbound hr =>
    obtain ⟨new, hrows, hnew⟩ := h
    rw [Table.mem_def, hrows] at hk
    rcases List.mem_append.1 hk with hk | hk
    · exact Or.inl ⟨k, hk, rfl, rfl, rfl, rfl⟩
    · obtain ⟨rfl, rfl, -, href, hbytes⟩ := hnew k hk
      exact Or.inr ⟨href, _, _, rfl, hbytes⟩
  | claimed hold hdb =>
    rw [hdb] at hk
    exact Or.inl (hconsume hk)
  | claimedOnce h =>
    rw [h.keyPackages] at hk
    exact Or.inl (hconsume hk)

section kept

variable {db db' : Db} {c : Call} (h : Shelved sha256 db) (hs : Shelves sha256 db db' c)
include h hs

theorem ref_kept : ∀ k ∈ db'.keyPackages, k.ref = sha256 k.bytes := by
  intro k hk
  rcases hs.row_from hk with ⟨k₀, hk₀, href, hbytes, -⟩ | ⟨href, -⟩
  · rw [← href, h.ref k₀ hk₀, hbytes]
  · exact href

theorem bound_kept (d : Bytes) : available d db' ≤ maxKeyPackagesPerDevice := by
  cases hs with
  | same hk hr =>
    rw [available, hk]
    exact h.bound d
  | @published identityId deviceId packages now hgrown hbound hr =>
    by_cases hd : d = deviceId
    · rw [hd]
      exact hbound
    · rw [available_grown hgrown hd]
      exact h.bound d
  | claimed hold hdb =>
    rw [hdb]
    exact le_trans (available_consume _ _ _) (h.bound d)
  | claimedOnce hclaims =>
    rw [available, hclaims.keyPackages]
    exact le_trans (available_consume _ _ _) (h.bound d)

theorem receipt_kept : ∀ r ∈ db'.receipts, ∃ k ∈ db'.keyPackages, k.bytes = r.package ∧ k.consumed = true ∧
    k.identityId = r.identityId ∧ k.deviceId = r.deviceId := by
  have hrow : ∀ r ∈ db.receipts, ∃ k ∈ db'.keyPackages, k.bytes = r.package ∧ k.consumed = true ∧
      k.identityId = r.identityId ∧ k.deviceId = r.deviceId := by
    intro r hr
    obtain ⟨k, hk, hbytes, hconsumed, hid, hdev⟩ := h.receipt r hr
    rcases hs.row hk with hk' | ⟨hfree, -⟩
    · exact ⟨k, hk', hbytes, hconsumed, hid, hdev⟩
    · rw [hconsumed] at hfree
      cases hfree
  intro r hr
  cases hs with
  | same hk hrec => exact hrow r (hrec r hr)
  | published hgrown hbound hrec => exact hrow r (hrec ▸ hr)
  | claimed hold hdb =>
    subst hdb
    exact hrow r hr
  | @claimedOnce credential key identity device now k hclaims =>
    rcases (Table.mem_insert hclaims.receipts).1 hr with hr | rfl
    · exact hrow r hr
    · obtain ⟨hmem, hid, hdev, -⟩ := oldestPackage_spec hclaims.oldest
      have hconsumed : { k with consumed := true } ∈ db'.keyPackages := by
        rw [hclaims.keyPackages]
        exact mem_consume_self hmem rfl
      exact ⟨_, hconsumed, rfl, rfl, hid, hdev.resolve_left hclaims.device_named⟩

theorem once_kept : ∀ r ∈ db'.receipts, ∀ r' ∈ db'.receipts, r.package = r'.package → r = r' := by
  intro r hr r' hr' hp
  cases hs with
  | same hk hrec => exact h.once r (hrec r hr) r' (hrec r' hr') hp
  | published hgrown hbound hrec =>
    rw [hrec] at hr hr'
    exact h.once r hr r' hr' hp
  | claimed hold hdb =>
    subst hdb
    exact h.once r hr r' hr' hp
  | @claimedOnce credential key identity device now k hclaims =>
    obtain ⟨hmem, -, -, hfree⟩ := oldestPackage_spec hclaims.oldest
    have hnone := h.no_receipt hmem hfree
    rcases (Table.mem_insert hclaims.receipts).1 hr with hr | rfl
    · rcases (Table.mem_insert hclaims.receipts).1 hr' with hr' | rfl
      · exact h.once r hr r' hr' hp
      · exact absurd hp (hnone r hr)
    · rcases (Table.mem_insert hclaims.receipts).1 hr' with hr' | rfl
      · exact absurd hp.symm (hnone r' hr')
      · rfl

theorem Shelves.kept : Shelved sha256 db' := ⟨ref_kept h hs, bound_kept h hs, receipt_kept h hs, once_kept h hs⟩

end kept

theorem shelved_after {db : Db} (h : Shelved sha256 db) (c : Call) : Shelved sha256 (after sha256 db c) := (shelves_call c db).kept h

theorem shelved_empty : Shelved sha256 .empty :=
  ⟨fun k hk => absurd hk (Table.not_mem_empty k), fun _ => Nat.zero_le _, fun r hr => absurd hr (Table.not_mem_empty r),
    fun r hr => absurd hr (Table.not_mem_empty r)⟩

theorem shelved_run {db : Db} (h : Shelved sha256 db) (calls : List Call) : Shelved sha256 (Trace.run (after sha256) db calls) :=
  Trace.invariant (I := Shelved sha256) (fun _ c _ hs => shelved_after hs c) (Trace.meets_true db calls) h

def handsOut (db : Db) : Call → Option Bytes
  | .claimKeyPackage identityId deviceId => (claimKeyPackage identityId deviceId db).1.toOption
  | .claimKeyPackageOnce credential key identity device now => (claimKeyPackageOnce credential key identity device now db).1.toOption
  | _ => none

/-- The request of a claim that is recorded: who asks, under which key, and for which device. -/
def request : Call → Option (Bytes × Bytes × Bytes × Bytes)
  | .claimKeyPackageOnce credential key identity device _ => some (credential, key, identity, device)
  | _ => none

def ClaimReceiptRow.request (r : ClaimReceiptRow) : Bytes × Bytes × Bytes × Bytes := (r.claimant, r.requestKey, r.identityId, r.deviceId)

/-- The bytes were handed out: they are consumed, and a receipt of them is that of the
request. -/
structure Handed (bytes : Bytes) (req : Option (Bytes × Bytes × Bytes × Bytes)) (db : Db) : Prop where
  consumed : ∃ k ∈ db.keyPackages, k.bytes = bytes ∧ k.consumed = true
  receipt : ∀ r ∈ db.receipts, r.package = bytes → some r.request = req

/-- A call hands out a package that is available and consumes it, or repeats a receipt of its
own request. -/
theorem handsOut_cases (sha256 : Bytes → Bytes) {db : Db} {c : Call} {bytes : Bytes} (h : handsOut db c = some bytes) :
    (∃ k ∈ db.keyPackages, k.bytes = bytes ∧ k.consumed = false ∧ (∃ k' ∈ (after sha256 db c).keyPackages, k' = { k with consumed := true }) ∧
        ∀ r ∈ (after sha256 db c).receipts, r ∈ db.receipts ∨ some r.request = request c) ∨
      (∃ r ∈ db.receipts, r.package = bytes ∧ some r.request = request c ∧ after sha256 db c = db) := by
  cases c with
  | claimKeyPackage identityId deviceId =>
    have hrun : claimKeyPackage identityId deviceId db = (.ok bytes, _) := Prod.ext (Demo.ok_of_toOption h) rfl
    obtain ⟨k, hk, rfl, hdb⟩ := claimKeyPackage_ok hrun
    obtain ⟨hmem, -, -, hfree⟩ := oldestPackage_spec hk
    have hafter : after sha256 db (.claimKeyPackage identityId deviceId) = consume k.ref db := hdb
    rw [hafter]
    exact Or.inl ⟨k, hmem, rfl, hfree, ⟨_, mem_consume_self hmem rfl, rfl⟩, fun r hr => Or.inl hr⟩
  | claimKeyPackageOnce credential key identity device now =>
    have hrun : claimKeyPackageOnce credential key identity device now db = (.ok bytes, _) := Prod.ext (Demo.ok_of_toOption h) rfl
    rcases claimKeyPackageOnce_ok hrun with ⟨hdb, -, r, hr, rfl, rfl, rfl, rfl, rfl⟩ | ⟨k, rfl, hclaims⟩
    · exact Or.inr ⟨r, hr, rfl, rfl, hdb⟩
    · obtain ⟨hmem, -, -, hfree⟩ := oldestPackage_spec hclaims.oldest
      refine Or.inl ⟨k, hmem, rfl, hfree, ⟨_, ?_, rfl⟩, fun r hr => ?_⟩
      · have hpackages : (after sha256 db (.claimKeyPackageOnce credential key identity device now)).keyPackages = _ := hclaims.keyPackages
        rw [hpackages]
        exact mem_consume_self hmem rfl
      · rcases (Table.mem_insert hclaims.receipts).1 hr with hr | rfl
        · exact Or.inl hr
        · exact Or.inr rfl
  | _ => cases h

theorem handed_after {db : Db} (h : Shelved sha256 db) {c : Call} {bytes : Bytes} (hout : handsOut db c = some bytes) :
    Handed bytes (request c) (after sha256 db c) := by
  rcases handsOut_cases sha256 hout with ⟨k, hk, rfl, hfree, ⟨k', hk', rfl⟩, hnew⟩ | ⟨r, hr, rfl, hreq, hsame⟩
  · refine ⟨⟨_, hk', rfl, rfl⟩, fun r hr hp => ?_⟩
    exact (hnew r hr).resolve_left fun hold => h.no_receipt hk hfree r hold hp
  · rw [hsame]
    obtain ⟨k, hk, hbytes, hconsumed, -⟩ := h.receipt r hr
    refine ⟨⟨k, hk, hbytes, hconsumed⟩, fun r' hr' hp => ?_⟩
    rw [h.once r' hr' r hr hp]
    exact hreq

theorem consumed_after {db : Db} {k : KeyPackageRow} (hk : k ∈ db.keyPackages) (hconsumed : k.consumed = true) (c : Call) :
    k ∈ (after sha256 db c).keyPackages := by
  rcases (@shelves_call sha256 c db).row hk with hk' | ⟨hfree, -⟩
  · exact hk'
  · rw [hconsumed] at hfree
    cases hfree

theorem Handed.after {db : Db} (h : Shelved sha256 db) {bytes : Bytes} {req : Option (Bytes × Bytes × Bytes × Bytes)}
    (hh : Handed bytes req db) (c : Call) : Handed bytes req (after sha256 db c) := by
  obtain ⟨k, hk, rfl, hconsumed⟩ := hh.consumed
  refine ⟨⟨k, consumed_after hk hconsumed c, rfl, hconsumed⟩, fun r hr hp => ?_⟩
  have hs : Shelves sha256 db (RelayStore.after sha256 db c) c := shelves_call c db
  cases hs with
  | same hk' hrec => exact hh.receipt r (hrec r hr) hp
  | published hgrown hbound hrec => exact hh.receipt r (hrec ▸ hr) hp
  | claimed hold hdb =>
    rw [hdb] at hr
    exact hh.receipt r hr hp
  | @claimedOnce credential key identity device now k₀ hclaims =>
    rcases (Table.mem_insert hclaims.receipts).1 hr with hr | rfl
    · exact hh.receipt r hr hp
    · obtain ⟨hmem, -, -, hfree⟩ := oldestPackage_spec hclaims.oldest
      rw [h.eq_of_bytes hmem hk hp, hconsumed] at hfree
      cases hfree

theorem handed_run {db : Db} (h : Shelved sha256 db) {bytes : Bytes} {req : Option (Bytes × Bytes × Bytes × Bytes)}
    (hh : Handed bytes req db) (calls : List Call) : Handed bytes req (Trace.run (RelayStore.after sha256) db calls) := by
  have hmeets : Trace.Meets (RelayStore.after sha256) (fun _ _ => True) db calls := Trace.meets_true db calls
  refine (Trace.invariant (I := fun db => Shelved sha256 db ∧ Handed bytes req db) (fun db' c _ ⟨hs, hh'⟩ => ?_) hmeets ⟨h, hh⟩).2
  exact ⟨shelved_after hs c, hh'.after hs c⟩

theorem consumed_run {db : Db} {k : KeyPackageRow} (hk : k ∈ db.keyPackages) (hconsumed : k.consumed = true) (calls : List Call) :
    k ∈ (Trace.run (RelayStore.after sha256) db calls).keyPackages := by
  have hmeets : Trace.Meets (RelayStore.after sha256) (fun _ _ => True) db calls := Trace.meets_true db calls
  exact Trace.invariant (I := fun db => k ∈ db.keyPackages) (fun db' c _ hk' => consumed_after hk' hconsumed c) hmeets hk

theorem handed_again {db : Db} (h : Shelved sha256 db) {bytes : Bytes} {req : Option (Bytes × Bytes × Bytes × Bytes)}
    (hh : Handed bytes req db) {c : Call} (hout : handsOut db c = some bytes) : request c = req ∧ req ≠ none := by
  rcases handsOut_cases sha256 hout with ⟨k, hk, hbytes, hfree, -⟩ | ⟨r, hr, hp, hreq, -⟩
  · obtain ⟨k', hk', hbytes', hconsumed⟩ := hh.consumed
    rw [h.eq_of_bytes hk' hk (hbytes'.trans hbytes.symm), hfree] at hconsumed
    cases hconsumed
  · rw [← hreq, ← hh.receipt r hr hp]
    exact ⟨rfl, Option.some_ne_none _⟩

/-- The identity and the device that a claim is for; the device may be left open. -/
def claimFor : Call → Option (Bytes × Bytes)
  | .claimKeyPackage identityId deviceId => some (identityId, deviceId)
  | .claimKeyPackageOnce _ _ identity device _ => some (identity, device)
  | _ => none

theorem handsOut_row {db : Db} (h : Shelved sha256 db) {c : Call} {bytes : Bytes} (hout : handsOut db c = some bytes) :
    ∃ identityId deviceId, claimFor c = some (identityId, deviceId) ∧ ∃ k ∈ db.keyPackages, k.bytes = bytes ∧
      k.identityId = identityId ∧ (deviceId = [] ∨ k.deviceId = deviceId) := by
  cases c with
  | claimKeyPackage identityId deviceId =>
    have hrun : claimKeyPackage identityId deviceId db = (.ok bytes, _) := Prod.ext (Demo.ok_of_toOption hout) rfl
    obtain ⟨k, hk, rfl, -⟩ := claimKeyPackage_ok hrun
    obtain ⟨hmem, hid, hdev, -⟩ := oldestPackage_spec hk
    exact ⟨_, _, rfl, k, hmem, rfl, hid, hdev⟩
  | claimKeyPackageOnce credential key identity device now =>
    have hrun : claimKeyPackageOnce credential key identity device now db = (.ok bytes, _) := Prod.ext (Demo.ok_of_toOption hout) rfl
    refine ⟨_, _, rfl, ?_⟩
    rcases claimKeyPackageOnce_ok hrun with ⟨-, -, r, hr, -, -, hid, hdev, rfl⟩ | ⟨k, rfl, hclaims⟩
    · obtain ⟨k, hk, hbytes, -, hkid, hkdev⟩ := h.receipt r hr
      exact ⟨k, hk, hbytes, hkid.trans hid, Or.inr (hkdev.trans hdev)⟩
    · obtain ⟨hmem, hid, hdev, -⟩ := oldestPackage_spec hclaims.oldest
      exact ⟨k, hmem, rfl, hid, hdev⟩
  | _ => cases hout

theorem published_run (calls : List Call) {k : KeyPackageRow} (hk : k ∈ (Trace.run (RelayStore.after sha256) .empty calls).keyPackages) :
    ∃ packages now, .publishKeyPackages k.identityId k.deviceId packages now ∈ calls ∧ k.bytes ∈ packages := by
  have hmeets : Trace.Meets (RelayStore.after sha256) (fun _ _ => True) .empty calls := Trace.meets_true _ calls
  have hfrom := Trace.provenance (I := fun _ => True)
    (Q := fun db => ∃ k' ∈ db.keyPackages, k'.bytes = k.bytes ∧ k'.identityId = k.identityId ∧ k'.deviceId = k.deviceId)
    (P := fun _ c => ∃ packages now, c = .publishKeyPackages k.identityId k.deviceId packages now ∧ k.bytes ∈ packages)
    (fun _ _ _ _ => trivial) (fun db c _ _ ⟨k', hk', hbytes, hid, hdev⟩ => ?_) hmeets trivial ⟨k, hk, rfl, rfl, rfl⟩
  · rcases (@shelves_call sha256 c db).row_from hk' with ⟨k₀, hk₀, -, hbytes₀, hid₀, hdev₀⟩ | ⟨-, packages, now, hc, hb⟩
    · exact Or.inl ⟨k₀, hk₀, hbytes₀.trans hbytes, hid₀.trans hid, hdev₀.trans hdev⟩
    · rw [hid, hdev] at hc
      exact Or.inr ⟨packages, now, hc, hbytes ▸ hb⟩
  · rcases hfrom with ⟨k', hk', -⟩ | hoccurs
    · exact absurd hk' (Table.not_mem_empty k')
    · obtain ⟨before, c, later, rfl, packages, now, rfl, hb⟩ := Trace.occurs_iff.1 hoccurs
      exact ⟨packages, now, by simp, hb⟩

/-- After any calls: bytes that a claim hands out are handed out again only to who repeats
its request; a consumed package stays, and no other row has its bytes; a claim is answered
from the packages of its identity, and of its device if it names one, which that device
published; and no device has more packages available than its bound. -/
theorem packages_are_handed_out_once (sha256 : Bytes → Bytes) (calls : List Call) :
    (∀ c bytes, handsOut (Trace.run (after sha256) .empty calls) c = some bytes →
      ∀ more c', handsOut (Trace.run (after sha256) .empty (calls ++ c :: more)) c' = some bytes →
        request c' = request c ∧ request c ≠ none) ∧
    (∀ k ∈ (Trace.run (after sha256) .empty calls).keyPackages, k.consumed = true →
      ∀ more, k ∈ (Trace.run (after sha256) .empty (calls ++ more)).keyPackages ∧
        ∀ k' ∈ (Trace.run (after sha256) .empty (calls ++ more)).keyPackages, k'.bytes = k.bytes → k' = k) ∧
    (∀ c bytes, handsOut (Trace.run (after sha256) .empty calls) c = some bytes →
      ∃ identityId deviceId, claimFor c = some (identityId, deviceId) ∧
        ∃ k ∈ (Trace.run (after sha256) .empty calls).keyPackages, k.bytes = bytes ∧ k.identityId = identityId ∧
          (deviceId = [] ∨ k.deviceId = deviceId) ∧
          ∃ packages now, .publishKeyPackages k.identityId k.deviceId packages now ∈ calls ∧ bytes ∈ packages) ∧
    ∀ deviceId, available deviceId (Trace.run (after sha256) .empty calls) ≤ maxKeyPackagesPerDevice := by
  have hs : ∀ calls, Shelved sha256 (Trace.run (after sha256) .empty calls) := shelved_run shelved_empty
  refine ⟨fun c bytes hout more c' hout' => ?_, fun k hk hconsumed more => ?_, fun c bytes hout => ?_, (hs calls).bound⟩
  · have hlater := hs (calls ++ c :: more)
    rw [Trace.run_append, Trace.run_cons] at hout' hlater
    exact handed_again hlater (handed_run (shelved_after (hs calls) c) (handed_after (hs calls) hout) more) hout'
  · have hstays : k ∈ (Trace.run (after sha256) .empty (calls ++ more)).keyPackages := by
      rw [Trace.run_append]
      exact consumed_run hk hconsumed more
    exact ⟨hstays, fun k' hk' hb => (hs _).eq_of_bytes hk' hstays hb⟩
  · obtain ⟨identityId, deviceId, hfor, k, hk, hbytes, hid, hdev⟩ := handsOut_row (hs calls) hout
    obtain ⟨packages, now, hmem, hb⟩ := published_run calls hk
    exact ⟨identityId, deviceId, hfor, k, hk, hbytes, hid, hdev, packages, now, hmem, hbytes ▸ hb⟩

end Arveil.RelayStore
