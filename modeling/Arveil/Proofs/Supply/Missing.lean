import Mathlib.Data.Finset.Card
import Arveil.Lib.Log
import Arveil.Proofs.KeyPackages
import Arveil.Spec.Supply

/-! What the client's units do to its batches, and what the relay still misses of a batch. Nothing
gets missing, and what a publication adds was missing before it. -/

namespace Arveil.Supply

open Prog RelayStore RelayServer

section client

variable {draw : Nat → Except String Bytes}

theorem keyPackages_ok {n : Nat} {p p' : Profile} {packages : List Bytes} (h : keyPackages draw n p = (.ok packages, p')) :
    packages.length = n ∧ p' = { p with generated := p.generated ++ packages } := by
  induction n generalizing p p' packages with
  | zero =>
    obtain ⟨rfl, rfl⟩ : [] = packages ∧ p = p' := by simpa [keyPackages] using h
    simp
  | succ n ih =>
    rw [keyPackages, bind_eq_ok] at h
    obtain ⟨packages', p₁, hrest, h⟩ := h
    obtain ⟨hlength, rfl⟩ := ih hrest
    simp only [bind_eq_ok, ofExcept_eq_ok, modify_eq_ok, pure_run, Prod.mk.injEq, Except.ok.injEq] at h
    obtain ⟨package, p₂, ⟨-, rfl⟩, -, p₃, rfl, rfl, rfl⟩ := h
    simp [hlength]

theorem initialKeyPackages_cases (draw : Nat → Except String Bytes) (p : Profile) :
    (∃ e, initialKeyPackages draw p = (.error e, p)) ∨
    (∃ batch, p.initial = some batch ∧ initialKeyPackages draw p = (.ok batch, p)) ∨
    (p.initial = none ∧ initialKeyPackages draw p = (.ok none, { p with initial := some none })) ∨
    ∃ packages, p.initial = none ∧ packages.length = initialKeyPackageCount ∧
      initialKeyPackages draw p =
        (.ok (some packages), { p with initial := some (some packages), generated := p.generated ++ packages }) := by
  rcases hrun : initialKeyPackages draw p with ⟨e | batch, p'⟩
  · obtain rfl : p' = p := unitOfWork_error hrun
    exact Or.inl ⟨e, rfl⟩
  · rw [initialKeyPackages, unitOfWork_eq_ok, bind_ok (read_run _ _)] at hrun
    cases hi : p.initial with
    | some stored =>
      simp only [hi, pure_run, Prod.mk.injEq, Except.ok.injEq] at hrun
      obtain ⟨rfl, rfl⟩ := hrun
      exact Or.inr (Or.inl ⟨stored, rfl, rfl⟩)
    | none =>
      simp only [hi, bind_ok (read_run _ _)] at hrun
      split at hrun
      · simp only [bind_eq_ok, modify_eq_ok, pure_run, Prod.mk.injEq, Except.ok.injEq] at hrun
        obtain ⟨-, p₁, rfl, rfl, rfl⟩ := hrun
        exact Or.inr (Or.inr (Or.inl ⟨rfl, rfl⟩))
      · simp only [bind_eq_ok, modify_eq_ok, pure_run, Prod.mk.injEq, Except.ok.injEq] at hrun
        obtain ⟨packages, p₁, hpackages, -, p₂, rfl, rfl, rfl⟩ := hrun
        obtain ⟨hlength, rfl⟩ := keyPackages_ok hpackages
        exact Or.inr (Or.inr (Or.inr ⟨packages, rfl, hlength, rfl⟩))

theorem prepareKeyPackageReplenishment_cases (draw : Nat → Except String Bytes) (available : Nat) (p : Profile) :
    (∃ e, prepareKeyPackageReplenishment draw available p = (.error e, p)) ∨
    prepareKeyPackageReplenishment draw available p = (.ok none, p) ∨
    (∃ pending, p.replenishment = some pending ∧ prepareKeyPackageReplenishment draw available p = (.ok (some pending), p)) ∨
    ∃ packages, p.replenishment = none ∧ available ≤ keyPackageFloor ∧ packages.length = keyPackageTarget - available ∧
      prepareKeyPackageReplenishment draw available p = (.ok (some ⟨packages, available⟩),
        { p with replenishment := some ⟨packages, available⟩, generated := p.generated ++ packages }) := by
  rcases hrun : prepareKeyPackageReplenishment draw available p with ⟨e | batch, p'⟩
  · obtain rfl : p' = p := unitOfWork_error hrun
    exact Or.inl ⟨e, rfl⟩
  · rw [prepareKeyPackageReplenishment, unitOfWork_eq_ok, bind_ok (read_run _ _)] at hrun
    cases hr : p.replenishment with
    | some pending =>
      simp only [hr, pure_run, Prod.mk.injEq, Except.ok.injEq] at hrun
      obtain ⟨rfl, rfl⟩ := hrun
      exact Or.inr (Or.inr (Or.inl ⟨pending, rfl, rfl⟩))
    | none =>
      simp only [hr] at hrun
      split at hrun
      · simp only [pure_run, Prod.mk.injEq, Except.ok.injEq] at hrun
        obtain ⟨rfl, rfl⟩ := hrun
        exact Or.inr (Or.inl rfl)
      · next hlow =>
        simp only [bind_eq_ok, modify_eq_ok, pure_run, Prod.mk.injEq, Except.ok.injEq] at hrun
        obtain ⟨packages, p₁, hpackages, -, p₂, rfl, rfl, rfl⟩ := hrun
        obtain ⟨hlength, rfl⟩ := keyPackages_ok hpackages
        exact Or.inr (Or.inr (Or.inr ⟨packages, rfl, by omega, hlength, rfl⟩))

end client

section missing

variable (sha256 : Bytes → Bytes) (identityId deviceId : Bytes)

/-- The packages of a batch that are no rows. -/
def missing (db : Db) (batch : List Bytes) : Finset Bytes :=
  (batch.map sha256).toFinset.filter fun r => r ∉ db.keyPackages.rows.map (·.ref)

/-- Nothing gets missing, and what becomes available was missing of the batch. -/
structure Fills (batch : List Bytes) (db db' : Db) : Prop where
  less : ∀ batch', missing sha256 db' batch' ⊆ missing sha256 db batch'
  count : available deviceId db' + (missing sha256 db' batch).card ≤ available deviceId db + (missing sha256 db batch).card

variable {sha256 identityId deviceId} {db db' : Db} {batch : List Bytes}

theorem missing_card_le (db : Db) (batch : List Bytes) : (missing sha256 db batch).card ≤ batch.length := by
  calc (missing sha256 db batch).card ≤ ((batch.map sha256).toFinset).card := Finset.card_filter_le _ _
    _ ≤ (batch.map sha256).length := List.toFinset_card_le _
    _ = batch.length := List.length_map _

theorem missing_eq_empty : missing sha256 db batch = ∅ ↔ ∀ package ∈ batch, ∃ k ∈ db.keyPackages, k.ref = sha256 package := by
  simp [missing, Finset.filter_eq_empty_iff, Table.mem_def]

theorem missing_subset (h : ∀ k ∈ db.keyPackages, ∃ k' ∈ db'.keyPackages, k'.ref = k.ref) (batch : List Bytes) :
    missing sha256 db' batch ⊆ missing sha256 db batch := by
  intro r hr
  simp only [missing, Finset.mem_filter, List.mem_map, not_exists, not_and] at hr ⊢
  refine ⟨hr.1, fun k hk href => ?_⟩
  obtain ⟨k', hk', href'⟩ := h k hk
  exact hr.2 k' hk' (href'.trans href)

theorem fills_grown (h : Grown sha256 identityId deviceId batch db db') : Fills sha256 deviceId batch db db' := by
  obtain ⟨new, hrows, hnew⟩ := h
  have hless : ∀ batch', missing sha256 db' batch' ⊆ missing sha256 db batch' := missing_subset fun k hk =>
    ⟨k, by rw [Table.mem_def, hrows]; exact List.mem_append_left _ hk, rfl⟩
  refine ⟨hless, ?_⟩
  have hnodup := db'.keyPackages.nodup
  rw [hrows, List.map_append, List.nodup_append] at hnodup
  obtain ⟨-, hnodup, hapart⟩ := hnodup
  -- the references of the new rows were missing and are not any more
  have hsub : (new.map (·.ref)).toFinset ∪ missing sha256 db' batch ⊆ missing sha256 db batch := by
    refine Finset.union_subset (fun r hr => ?_) (hless batch)
    obtain ⟨k, hk, rfl⟩ := List.mem_map.1 (List.mem_toFinset.1 hr)
    obtain ⟨-, -, -, href, hbytes⟩ := hnew k hk
    refine Finset.mem_filter.2 ⟨?_, fun hold => hapart _ hold _ (List.mem_map_of_mem hk) rfl⟩
    rw [List.mem_toFinset, href]
    exact List.mem_map_of_mem hbytes
  have hdisjoint : Disjoint (new.map (·.ref)).toFinset (missing sha256 db' batch) := by
    refine Finset.disjoint_left.2 fun r hr hmiss => (Finset.mem_filter.1 hmiss).2 ?_
    rw [hrows, List.map_append]
    exact List.mem_append_right _ (List.mem_toFinset.1 hr)
  have hcard := Finset.card_le_card hsub
  rw [Finset.card_union_of_disjoint hdisjoint, List.toFinset_card_of_nodup hnodup, List.length_map] at hcard
  have hcount : available deviceId db' ≤ available deviceId db + new.length := by
    rw [available, hrows, List.filter_append, List.length_append]
    exact Nat.add_le_add_left (List.length_filter_le _ _) _
  omega

theorem fills_relay {c : Call} (hc : publishes deviceId c = false) (db : Db) :
    Fills sha256 deviceId [] db (RelayStore.after sha256 db c) := by
  have hs : Shelves sha256 db (RelayStore.after sha256 db c) c := shelves_call c db
  refine ⟨missing_subset fun k hk => ?_, ?_⟩
  · rcases hs.row hk with hk' | ⟨-, hk'⟩
    · exact ⟨k, hk', rfl⟩
    · exact ⟨_, hk', rfl⟩
  · suffices available deviceId (RelayStore.after sha256 db c) ≤ available deviceId db by simpa [missing]
    cases hs with
    | same hk hr => rw [available, hk, available]
    | @published _ device _ _ h hbound hr =>
      have hne : device ≠ deviceId := of_decide_eq_false hc
      exact (available_grown h hne.symm).le
    | claimed hk hdb =>
      rw [hdb]
      exact available_consume _ _ _
    | claimedOnce h =>
      rw [available, h.keyPackages]
      exact available_consume _ _ _

theorem publishOne_present {package : Bytes} {now : Int} {db db' : Db} {u : Unit}
    (h : publishOne sha256 identityId deviceId now package db = (.ok u, db')) : ∃ k ∈ db'.keyPackages, k.ref = sha256 package := by
  simp only [publishOne, bind_eq_ok, when_eq_ok, read_eq_ok, modify_eq_ok] at h
  obtain ⟨-, db₁, -, -, db₂, -, -, db₃, -, rfl⟩ := h
  dsimp only [Table.insertOrIgnore]
  cases hi : db₃.keyPackages.insert ⟨sha256 package, identityId, deviceId, package, now, false⟩ with
  | some t => exact ⟨_, (Table.mem_insert hi).2 (Or.inr rfl), rfl⟩
  | none =>
    obtain ⟨k, hk, href⟩ := Table.insert_eq_none.1 hi
    exact ⟨k, hk, href⟩

theorem grown_forEach {now : Int} {u : Unit} (h : forEach batch (publishOne sha256 identityId deviceId now) db = (.ok u, db')) :
    Grown sha256 identityId deviceId batch db db' := by
  have hkeeps : Keeps (Grown sha256 identityId deviceId batch) (forEach batch (publishOne sha256 identityId deviceId now)) :=
    keeps_forEach grown_refl grown_trans batch fun package hp => grown_publishOne hp now
  have hdb := hkeeps db
  rwa [h] at hdb

theorem forEach_present {now : Int} (packages : List Bytes) : ∀ {db db' : Db} {u : Unit},
    forEach packages (publishOne sha256 identityId deviceId now) db = (.ok u, db') →
      ∀ package ∈ packages, ∃ k ∈ db'.keyPackages, k.ref = sha256 package := by
  induction packages with
  | nil => exact fun _ package hp => absurd hp List.not_mem_nil
  | cons p packages ih =>
    intro db db' u h package hp
    rw [forEach_cons, bind_eq_ok] at h
    obtain ⟨_, db₁, hone, hrest⟩ := h
    rcases List.mem_cons.1 hp with rfl | hp
    · obtain ⟨k, hk, href⟩ := publishOne_present hone
      obtain ⟨new, hrows, -⟩ := grown_forEach hrest
      exact ⟨k, by rw [Table.mem_def, hrows]; exact List.mem_append_left _ hk, href⟩
    · exact ih hrest package hp

theorem publishOne_fails {now : Int} (package : Bytes) :
    FailsOnly (· ≠ .keyPackageBatch) (publishOne sha256 identityId deviceId now package) := by
  have hwhen : ∀ (c : Prop) [Decidable c] (e : StoreError), e ≠ .keyPackageBatch →
      FailsOnly (σ := Db) (· ≠ .keyPackageBatch) (Prog.when c (Prog.fail e)) := by
    intro c _ e he s e' s' h
    unfold Prog.when at h
    split at h
    · obtain ⟨rfl, -⟩ : e = e' ∧ s = s' := by simpa using h
      exact he
    · simp at h
  exact failsOnly_bind (hwhen _ _ (by decide)) fun _ => failsOnly_bind (failsOnly_read _) fun _ =>
    failsOnly_bind (hwhen _ _ (by decide)) fun _ => failsOnly_modify _

theorem failsOnly_forEach_publishOne {now : Int} (packages : List Bytes) :
    FailsOnly (· ≠ .keyPackageBatch) (forEach packages (publishOne sha256 identityId deviceId now)) := by
  induction packages with
  | nil => exact fun s e s' h => by simp at h
  | cons package packages ih => exact failsOnly_bind (publishOne_fails package) fun _ => ih

/-- What a publication does: on a store within reach of the batch it is never refused for the
count, and once it is taken every package of it is a row. -/
theorem publishKeyPackages_cases (identityId : Bytes) (now : Int) (hlength : batch.length ≤ maxKeyPackagesPerDevice)
    (hroom : available deviceId db + (missing sha256 db batch).card ≤ maxKeyPackagesPerDevice) :
    (∃ e, e ≠ .keyPackageBatch ∧ publishKeyPackages sha256 identityId deviceId batch now db = (.error e, db)) ∨
      ∃ db', publishKeyPackages sha256 identityId deviceId batch now db = (.ok (), db') ∧
        Grown sha256 identityId deviceId batch db db' ∧ missing sha256 db' batch = ∅ := by
  rcases hrun : publishKeyPackages sha256 identityId deviceId batch now db with ⟨e | u, db'⟩
  · refine Or.inl ⟨e, ?_, ?_⟩
    all_goals
      rw [publishKeyPackages, if_neg (by omega)] at hrun
    · obtain ⟨db₁, hfail⟩ := unitOfWork_eq_error hrun
      rcases hall : forEach batch (publishOne sha256 identityId deviceId now) db with ⟨e' | _, db₂⟩
      · rw [bind_error hall] at hfail
        obtain ⟨rfl, -⟩ : e' = e ∧ db₂ = db₁ := by simpa using hfail
        exact failsOnly_forEach_publishOne batch _ _ _ hall
      · have hcount := (fills_grown (grown_forEach hall)).count
        rw [bind_ok hall, bind_ok (read_run _ _), when_neg (by omega)] at hfail
        simp at hfail
    · rw [unitOfWork_error hrun]
  · refine Or.inr ⟨db', rfl, (publishKeyPackages_ok hrun).1, missing_eq_empty.2 ?_⟩
    rw [publishKeyPackages, if_neg (by omega), unitOfWork_eq_ok, bind_eq_ok] at hrun
    obtain ⟨_, db₁, hall, hrest⟩ := hrun
    simp only [bind_eq_ok, read_eq_ok, when_eq_ok] at hrest
    obtain ⟨n, db₂, ⟨-, rfl⟩, hbound⟩ := hrest
    obtain ⟨-, rfl⟩ := hbound.resolve_left fun hf => absurd hf.2 fail_ne_ok
    exact forEach_present batch hall

end missing

end Arveil.Supply
