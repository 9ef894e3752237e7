import Arveil.Proofs.Supply.Missing

/-! `Bounded` is the count over a run: what is available, what is still missing of either batch and
what is yet to be prepared never exceed the target and one first batch. -/

namespace Arveil.Supply

open Prog RelayStore

/-- The batch that the profile keeps to be published. -/
def holds (p : Profile) : Kind → Option (List Bytes)
  | .initial => p.initial.join
  | .replenishment => p.replenishment.map (·.packages)

def unprepared (p : Profile) : Nat := if p.initial = none then initialKeyPackageCount else 0

def asked : Activity → Option Nat
  | .counted _ n | .observed n => some n
  | _ => none

def underway : Activity → Option (List Bytes)
  | .publishing batch | .answered batch _ => some batch
  | _ => none

def supplyBound : Nat := keyPackageTarget + initialKeyPackageCount

section bounded

variable (sha256 : Bytes → Bytes) (deviceId : Bytes)

/-- The packages that the relay has and may still get of a batch that the profile holds. -/
def reserve (db : Db) (p : Profile) (kind : Kind) : Nat := (missing sha256 db ((holds p kind).getD [])).card

/-- A batch that cannot add more than the profile knows of. -/
def Known (db : Db) (p : Profile) (batch : List Bytes) : Prop :=
  batch.length ≤ keyPackageTarget ∧ ((∃ kind, holds p kind = some batch) ∨ missing sha256 db batch = ∅)

structure Bounded (db : Db) (p : Profile) (a : Kind → Activity) (late : List (List Bytes)) : Prop where
  total : available deviceId db + reserve sha256 db p .initial + reserve sha256 db p .replenishment + unprepared p ≤ supplyBound
  first : reserve sha256 db p .initial + unprepared p ≤ initialKeyPackageCount
  asked : ∀ n, asked (a .replenishment) = some n → p.replenishment = none →
    available deviceId db + reserve sha256 db p .initial + unprepared p ≤ n + initialKeyPackageCount
  small : ∀ kind batch, holds p kind = some batch → batch.length ≤ keyPackageTarget
  current : ∀ kind batch, underway (a kind) = some batch → holds p kind = some batch
  taken : ∀ kind batch, a kind = .answered batch true → missing sha256 db batch = ∅
  late : ∀ batch ∈ late, Known sha256 db p batch

variable {sha256 deviceId} {db db' : Db} {p p' : Profile} {a : Kind → Activity} {late : List (List Bytes)} {batch : List Bytes}

theorem holds_congr (hi : p'.initial = p.initial) (hr : p'.replenishment = p.replenishment) : holds p' = holds p := by
  funext kind
  cases kind with
  | initial => rw [holds, hi, holds]
  | replenishment => rw [holds, hr, holds]

theorem Bounded.profile (h : Bounded sha256 deviceId db p a late) (hi : p'.initial = p.initial)
    (hr : p'.replenishment = p.replenishment) : Bounded sha256 deviceId db p' a late := by
  have hh := holds_congr hi hr
  have hreserve : reserve sha256 db p' = reserve sha256 db p := by
    funext kind
    rw [reserve, hh, reserve]
  have hun : unprepared p' = unprepared p := by rw [unprepared, hi, unprepared]
  obtain ⟨total, first, hasked, small, current, taken, hlate⟩ := h
  refine ⟨by rwa [hreserve, hun], by rwa [hreserve, hun], ?_, by rwa [hh], by rwa [hh], taken, by simpa only [Known, hh] using hlate⟩
  rwa [hreserve, hun, hr]

theorem Bounded.go (h : Bounded sha256 deviceId db p a late) {k : Kind} {x : Activity}
    (hasked : k = .replenishment → ∀ n, Supply.asked x = some n → p.replenishment = none →
      available deviceId db + reserve sha256 db p .initial + unprepared p ≤ n + initialKeyPackageCount)
    (hcurrent : ∀ batch, underway x = some batch → holds p k = some batch)
    (htaken : ∀ batch, x = .answered batch true → missing sha256 db batch = ∅) :
    Bounded sha256 deviceId db p (Function.update a k x) late := by
  refine { h with asked := fun n hn => ?_, current := fun kind batch hu => ?_, taken := fun kind batch ht => ?_ }
  · by_cases hk : k = .replenishment
    · subst hk
      rw [Function.update_self] at hn
      exact hasked rfl n hn
    · rw [Function.update_of_ne (Ne.symm hk)] at hn
      exact h.asked n hn
  · by_cases hk : kind = k
    · subst hk
      rw [Function.update_self] at hu
      exact hcurrent batch hu
    · rw [Function.update_of_ne hk] at hu
      exact h.current kind batch hu
  · by_cases hk : kind = k
    · subst hk
      rw [Function.update_self] at ht
      exact htaken batch ht
    · rw [Function.update_of_ne hk] at ht
      exact h.taken kind batch ht

theorem Bounded.rest (h : Bounded sha256 deviceId db p a late) (k : Kind) {x : Activity} (hasked : Supply.asked x = none)
    (hcurrent : underway x = none) : Bounded sha256 deviceId db p (Function.update a k x) late := by
  refine h.go (fun _ n hn => ?_) (fun batch hu => ?_) fun batch ht => ?_
  · rw [hasked] at hn
    cases hn
  · rw [hcurrent] at hu
    cases hu
  · rw [ht] at hcurrent
    cases hcurrent

theorem reserve_fills (hf : Fills sha256 deviceId batch db db') (kind : Kind) :
    reserve sha256 db' p kind ≤ reserve sha256 db p kind := Finset.card_le_card (hf.less _)

theorem reserve_of_holds {kind : Kind} (h : holds p kind = some batch) : reserve sha256 db p kind = (missing sha256 db batch).card := by
  rw [reserve, h, Option.getD_some]

theorem Bounded.fills (h : Bounded sha256 deviceId db p a late) (hf : Fills sha256 deviceId batch db db')
    (hk : Known sha256 db p batch) : Bounded sha256 deviceId db' p a late := by
  have hi := reserve_fills (p := p) hf .initial
  have hr := reserve_fills (p := p) hf .replenishment
  have hcount := hf.count
  have htotal := h.total
  have hempty : ∀ {batch}, missing sha256 db batch = ∅ → missing sha256 db' batch = ∅ := fun he =>
    Finset.subset_empty.1 (he ▸ hf.less _)
  refine { h with
    total := ?_, first := (Nat.add_le_add_right hi _).trans h.first, asked := fun n hn hnone => ?_,
    taken := fun kind b ha => hempty (h.taken kind b ha), late := ?_ }
  · rcases hk.2 with ⟨_ | _, hholds⟩ | he
    · rw [← reserve_of_holds hholds, ← reserve_of_holds hholds] at hcount
      omega
    · rw [← reserve_of_holds hholds, ← reserve_of_holds hholds] at hcount
      omega
    · rw [hempty he, he] at hcount
      omega
  · have hold := h.asked n hn hnone
    rcases hk.2 with ⟨_ | _, hholds⟩ | he
    · rw [← reserve_of_holds hholds, ← reserve_of_holds hholds] at hcount
      omega
    · rw [holds, hnone] at hholds
      cases hholds
    · rw [hempty he, he] at hcount
      omega
  · exact fun b hb => ⟨(h.late b hb).1, (h.late b hb).2.imp_right hempty⟩

theorem Bounded.room (h : Bounded sha256 deviceId db p a late) (hk : Known sha256 db p batch) :
    batch.length ≤ maxKeyPackagesPerDevice ∧ available deviceId db + (missing sha256 db batch).card ≤ maxKeyPackagesPerDevice := by
  have htotal := h.total
  have hlength := hk.1
  simp only [supplyBound, keyPackageTarget, initialKeyPackageCount, maxKeyPackagesPerDevice] at *
  refine ⟨by omega, ?_⟩
  rcases hk.2 with ⟨_ | _, hholds⟩ | he
  · rw [← reserve_of_holds hholds]
    omega
  · rw [← reserve_of_holds hholds]
    omega
  · rw [he, Finset.card_empty]
    omega

variable (sha256 deviceId) in
theorem publish_grown (identityId : Bytes) (batch : List Bytes) (now : Int) (db : Db) :
    Grown sha256 identityId deviceId batch db (publish sha256 identityId deviceId batch now db).2 := by
  rcases hrun : publishKeyPackages sha256 identityId deviceId batch now db with ⟨e | u, db'⟩
  · simp only [publish, hrun]
    rw [publishKeyPackages] at hrun
    split at hrun
    · obtain ⟨-, rfl⟩ : _ ∧ db = db' := by simpa using hrun
      exact grown_refl db
    · obtain rfl := unitOfWork_error hrun
      exact grown_refl db'
  · simp only [publish, hrun]
    exact (publishKeyPackages_ok hrun).1

theorem publish_cases (identityId : Bytes) (now : Int) (h : Bounded sha256 deviceId db p a late) (hk : Known sha256 db p batch) :
    publish sha256 identityId deviceId batch now db = (false, db) ∨
      ∃ db', publish sha256 identityId deviceId batch now db = (true, db') ∧ Grown sha256 identityId deviceId batch db db' ∧
        missing sha256 db' batch = ∅ := by
  obtain ⟨hlength, hroom⟩ := h.room hk
  rcases publishKeyPackages_cases identityId now hlength hroom with ⟨e, -, hrun⟩ | ⟨db', hrun, hgrown⟩
  · exact Or.inl (by simp only [publish, hrun])
  · exact Or.inr ⟨db', by simp only [publish, hrun], hgrown⟩

theorem Bounded.publish (identityId : Bytes) (now : Int) (h : Bounded sha256 deviceId db p a late) (hk : Known sha256 db p batch) :
    Bounded sha256 deviceId (publish sha256 identityId deviceId batch now db).2 p a late :=
  h.fills (fills_grown (publish_grown sha256 deviceId identityId batch now db)) hk

theorem Bounded.known (h : Bounded sha256 deviceId db p a late) {kind : Kind} (hu : underway (a kind) = some batch) :
    Known sha256 db p batch :=
  ⟨h.small kind batch (h.current kind batch hu), Or.inl ⟨kind, h.current kind batch hu⟩⟩

theorem Bounded.sending (h : Bounded sha256 deviceId db p a late) {kind : Kind} (hh : holds p kind = some batch) :
    Bounded sha256 deviceId db p (Function.update a kind (.publishing batch)) late := by
  refine h.go (fun _ n hn => ?_) (fun batch' hu => ?_) fun batch' ht => ?_
  · cases hn
  · obtain rfl : batch = batch' := Option.some.inj hu
    exact hh
  · cases ht

theorem Known.replaced (h : Known sha256 db p batch) {k : Kind} (hother : ∀ kind, kind ≠ k → holds p' kind = holds p kind)
    (hgone : ∀ batch, holds p k = some batch → missing sha256 db batch = ∅) : Known sha256 db p' batch := by
  obtain ⟨hlength, ⟨kind, hh⟩ | he⟩ := h
  · by_cases hkind : kind = k
    · exact ⟨hlength, Or.inr (hgone batch (hkind ▸ hh))⟩
    · exact ⟨hlength, Or.inl ⟨kind, (hother kind hkind).trans hh⟩⟩
  · exact ⟨hlength, Or.inr he⟩

theorem Bounded.replaced (h : Bounded sha256 deviceId db p a late) {k : Kind} (hidle : underway (a k) = none)
    (hother : ∀ kind, kind ≠ k → holds p' kind = holds p kind)
    (hgone : ∀ batch, holds p k = some batch → missing sha256 db batch = ∅)
    (hsmall : ∀ batch, holds p' k = some batch → batch.length ≤ keyPackageTarget)
    (htotal : available deviceId db + reserve sha256 db p' .initial + reserve sha256 db p' .replenishment + unprepared p' ≤ supplyBound)
    (hfirst : reserve sha256 db p' .initial + unprepared p' ≤ reserve sha256 db p .initial + unprepared p)
    (hasked : ∀ n, Supply.asked (a .replenishment) = some n → p'.replenishment = none → p.replenishment = none) :
    Bounded sha256 deviceId db p' a late := by
  refine ⟨htotal, hfirst.trans h.first, fun n hn hnone => ?_, fun kind batch hh => ?_, fun kind batch hu => ?_, h.taken,
    fun batch hb => (h.late batch hb).replaced hother hgone⟩
  · have hold := h.asked n hn (hasked n hn hnone)
    omega
  · by_cases hk : kind = k
    · subst hk
      exact hsmall batch hh
    · exact h.small kind batch ((hother kind hk).symm.trans hh)
  · by_cases hk : kind = k
    · rw [hk, hidle] at hu
      cases hu
    · exact (hother kind hk).trans (h.current kind batch hu)

theorem Bounded.prepared_initial (h : Bounded sha256 deviceId db p a late) (hidle : underway (a .initial) = none)
    (hnone : p.initial = none) {packages : List Bytes} (hlength : packages.length = initialKeyPackageCount) (generated : List Bytes) :
    Bounded sha256 deviceId db { p with initial := some (some packages), generated := generated } a late := by
  have hmiss : (missing sha256 db packages).card ≤ initialKeyPackageCount := hlength ▸ missing_card_le db packages
  have htotal := h.total
  have hold : unprepared p = initialKeyPackageCount := if_pos hnone
  refine h.replaced (k := .initial) hidle ?_ (fun batch hh => ?_) (fun batch hh => ?_) ?_ ?_ fun n hn hr => hr
  · rintro (_ | _) hne
    · exact absurd rfl hne
    · rfl
  · rw [holds, hnone] at hh
    cases hh
  · obtain rfl : packages = batch := Option.some.inj hh
    rw [hlength]
    decide
  · show available deviceId db + (missing sha256 db packages).card + reserve sha256 db p .replenishment + 0 ≤ supplyBound
    omega
  · show (missing sha256 db packages).card + 0 ≤ reserve sha256 db p .initial + unprepared p
    omega

theorem Bounded.prepared_replenishment {n : Nat} (h : Bounded sha256 deviceId db p a late) (ha : a .replenishment = .observed n)
    (hnone : p.replenishment = none) (hlow : n ≤ keyPackageFloor) {packages : List Bytes}
    (hlength : packages.length = keyPackageTarget - n) (generated : List Bytes) :
    Bounded sha256 deviceId db { p with replenishment := some ⟨packages, n⟩, generated := generated } a late := by
  have hmiss : (missing sha256 db packages).card ≤ keyPackageTarget - n := hlength ▸ missing_card_le db packages
  have hcount := h.asked n (by rw [ha]; rfl) hnone
  have hfloor : keyPackageFloor ≤ keyPackageTarget := by decide
  refine h.replaced (k := .replenishment) (by rw [ha]; rfl) ?_ (fun batch hh => ?_) (fun batch hh => ?_) ?_ (Nat.le_refl _) fun n hn hr => ?_
  · rintro (_ | _) hne
    · rfl
    · exact absurd rfl hne
  · rw [holds, hnone] at hh
    cases hh
  · obtain rfl : packages = batch := Option.some.inj hh
    omega
  · show available deviceId db + reserve sha256 db p .initial + (missing sha256 db packages).card + unprepared p ≤ supplyBound
    rw [supplyBound]
    omega
  · cases hr

theorem Bounded.dropped (h : Bounded sha256 deviceId db p a late) {k : Kind} (hidle : underway (a k) = none)
    (hasked : k = .replenishment → Supply.asked (a k) = none) (hother : ∀ kind, kind ≠ k → holds p' kind = holds p kind)
    (hself : holds p' k = none) (hun : unprepared p' ≤ unprepared p)
    (hgone : ∀ batch, holds p k = some batch → missing sha256 db batch = ∅) : Bounded sha256 deviceId db p' a late := by
  have hreserve : ∀ kind, reserve sha256 db p' kind ≤ reserve sha256 db p kind := by
    intro kind
    by_cases hkind : kind = k
    · rw [reserve, hkind, hself]
      simp [missing]
    · rw [reserve, hother kind hkind, reserve]
  refine h.replaced hidle hother hgone (fun batch hh => ?_) ?_ (Nat.add_le_add (hreserve .initial) hun) fun n hn hnone => ?_
  · rw [hself] at hh
    cases hh
  · have hi := hreserve .initial
    have hr := hreserve .replenishment
    have htotal := h.total
    omega
  · by_cases hk : k = .replenishment
    · rw [← hk, hasked hk] at hn
      cases hn
    · have hsame := hother .replenishment (Ne.symm hk)
      rw [holds, holds, hnone, Option.map_none] at hsame
      exact Option.map_eq_none_iff.1 hsame.symm

end bounded

end Arveil.Supply
