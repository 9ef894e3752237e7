import Mathlib.Order.Basic
import Mathlib.Algebra.Order.Ring.Int
import Arveil.Spec.Migration

/-! Coarse expiries. What is stored lies between the moment and the expiry asked for, keeps more
than half of the life and is the same whether the relay or the migration computes it, as long
as times are not before 1970 and lives fit into 63 bits. -/

namespace Arveil.RelayExpiry

open RelayQueue (coarseExpiry)
open RelayMigration (coarseCase coarseExpiry64)

/-- The unit a life is rounded to, in seconds. -/
def unitOf (life : Int) : Int :=
  if 172800 ≤ life then 86400 else if 7200 ≤ life then 3600 else if 120 ≤ life then 60 else 1

def trunc (e unit : Int) : Int := e - e.tmod unit

structure Rounded (now expiry r : Int) : Prop where
  live : now < r
  shorter : r ≤ expiry
  half : expiry - now < 2 * (r - now)
  whole : unitOf (expiry - now) ∣ r

/-- What the comments promise for one expiry. -/
structure Coarse (expiry now : Int64) : Prop where
  rounded : now < expiry → Rounded now.toInt expiry.toInt (coarseExpiry64 expiry now).toInt
  again : now < expiry → coarseExpiry64 (coarseExpiry64 expiry now) now = coarseExpiry64 expiry now
  sql : (coarseExpiry64 expiry now).toInt = coarseCase expiry.toInt now.toInt

/-- No rounding is due, or it goes down and the life is counted right. -/
def Counted (expiry now : Int) : Prop :=
  if now < expiry then unitOf (expiry - now) ∣ expiry ∨ 0 ≤ expiry ∧ expiry - now < 2 ^ 63
  else unitOf (expiry - now + 2 ^ 64) ∣ expiry ∨ -2 ^ 63 ≤ expiry - now

theorem coarseCase_eq (expiresAt now : Int) : coarseCase expiresAt now = coarseExpiry expiresAt now := rfl

theorem trunc_eq (e unit : Int) : trunc e unit = unit * e.tdiv unit := by
  rw [trunc, Int.tmod_def, Int.sub_sub_self]

theorem dvd_trunc (e unit : Int) : unit ∣ trunc e unit := by
  rw [trunc_eq]
  exact Int.dvd_mul_right unit _

theorem trunc_eq_self_iff (e unit : Int) : trunc e unit = e ↔ unit ∣ e := by
  rw [Int.dvd_iff_tmod_eq_zero, trunc]
  omega

theorem trunc_neg (e unit : Int) : trunc (-e) unit = -trunc e unit := by
  rw [trunc_eq, trunc_eq, Int.neg_tdiv, Int.mul_neg]

theorem trunc_nonneg {e unit : Int} (he : 0 ≤ e) (hu : 0 < unit) : 0 ≤ trunc e unit := by
  rw [trunc_eq]
  exact Int.mul_nonneg hu.le (Int.tdiv_nonneg he hu.le)

theorem trunc_of_nonneg {e unit : Int} (he : 0 ≤ e) (hu : 0 < unit) : trunc e unit ≤ e ∧ e < trunc e unit + unit := by
  have hlow := Int.tmod_nonneg unit he
  have hhigh := Int.tmod_lt_of_pos e hu
  rw [trunc]
  omega

theorem trunc_of_neg {e unit : Int} (he : e < 0) (hu : 0 < unit) : e ≤ trunc e unit ∧ trunc e unit ≤ 0 := by
  have hneg := trunc_neg e unit
  have hlow := trunc_nonneg (show 0 ≤ -e by omega) hu
  have hhigh := (trunc_of_nonneg (show 0 ≤ -e by omega) hu).1
  omega

theorem trunc_mono {a b unit : Int} (hu : 0 < unit) (h : a ≤ b) : trunc a unit ≤ trunc b unit := by
  rw [trunc_eq, trunc_eq]
  exact Int.mul_le_mul_of_nonneg_left (Int.tdiv_le_tdiv hu h) hu.le

theorem unitOf_pos (life : Int) : 0 < unitOf life := by
  unfold unitOf
  split_ifs <;> omega

theorem unitOf_le {life : Int} (h : 0 < life) : 2 * unitOf life ≤ life ∨ unitOf life = 1 := by
  unfold unitOf
  split_ifs <;> omega

theorem unitOf_dvd {short life : Int} (h : short ≤ life) : unitOf short ∣ unitOf life := by
  unfold unitOf
  split_ifs <;> omega

theorem coarseCase_trunc (e now : Int) : coarseCase e now = trunc e (unitOf (e - now)) := by
  have hone : trunc e 1 = e := (trunc_eq_self_iff e 1).2 (one_dvd e)
  unfold coarseCase unitOf
  split_ifs
  · rfl
  · rfl
  · rfl
  · rw [hone]

/-- The life as the relay counts it. -/
def life (expiry now : Int64) : Int := (expiry.toInt - now.toInt).bmod (2 ^ 64)

theorem toInt_trunc (e unit : Int64) (hu : 0 < unit.toInt) : (e - e % unit).toInt = trunc e.toInt unit.toInt := by
  have hlow := e.le_toInt
  have hhigh := e.toInt_lt
  rw [Int64.toInt_sub, Int64.toInt_mod, ← trunc]
  apply Int.bmod_eq_of_le
  · rcases lt_or_ge e.toInt 0 with hneg | hnonneg
    · have := trunc_of_neg hneg hu
      omega
    · have := trunc_nonneg hnonneg hu
      omega
  · rcases lt_or_ge e.toInt 0 with hneg | hnonneg
    · have := trunc_of_neg hneg hu
      omega
    · have := trunc_of_nonneg hnonneg hu
      omega

theorem coarseExpiry64_eq (expiry now : Int64) :
    (coarseExpiry64 expiry now).toInt = trunc expiry.toInt (unitOf (life expiry now)) := by
  have hlife : (expiry - now).toInt = life expiry now := Int64.toInt_sub expiry now
  have hone : trunc expiry.toInt 1 = expiry.toInt := (trunc_eq_self_iff _ 1).2 (one_dvd _)
  unfold coarseExpiry64 unitOf
  simp only [Int64.le_iff_toInt_le, hlife]
  rw [show (2 * 86400 : Int64).toInt = 172800 from rfl, show (2 * 3600 : Int64).toInt = 7200 from rfl,
    show (2 * 60 : Int64).toInt = 120 from rfl]
  split_ifs
  · exact toInt_trunc expiry 86400 (by decide)
  · exact toInt_trunc expiry 3600 (by decide)
  · exact toInt_trunc expiry 60 (by decide)
  · rw [hone]

theorem unitOf_short {life : Int} (h : life ≤ 0) : unitOf life = 1 := by
  unfold unitOf
  split_ifs <;> omega

theorem life_fits {expiry now : Int64} (hlow : -2 ^ 63 ≤ expiry.toInt - now.toInt) (hhigh : expiry.toInt - now.toInt < 2 ^ 63) :
    life expiry now = expiry.toInt - now.toInt :=
  Int.bmod_eq_of_le (by omega) (by omega)

theorem life_over {expiry now : Int64} (h : 2 ^ 63 ≤ expiry.toInt - now.toInt) : life expiry now ≤ 0 := by
  have he := expiry.toInt_lt
  have hn := now.le_toInt
  have hwrap : life expiry now = expiry.toInt - now.toInt - 2 ^ 64 := by
    rw [life, ← Int.sub_bmod_right]
    exact Int.bmod_eq_of_le (by omega) (by omega)
  omega

theorem life_under {expiry now : Int64} (h : expiry.toInt - now.toInt < -2 ^ 63) :
    life expiry now = expiry.toInt - now.toInt + 2 ^ 64 := by
  have he := expiry.le_toInt
  have hn := now.toInt_lt
  rw [life, ← Int.add_bmod_right]
  exact Int.bmod_eq_of_le (by omega) (by omega)

/-- Where nothing wraps, the relay computes what the queue's model says. -/
theorem coarseExpiry64_fits {expiry now : Int64} (hlow : -2 ^ 63 ≤ expiry.toInt - now.toInt)
    (hhigh : expiry.toInt - now.toInt < 2 ^ 63) :
    (coarseExpiry64 expiry now).toInt = coarseExpiry expiry.toInt now.toInt := by
  rw [coarseExpiry64_eq, life_fits hlow hhigh, ← coarseCase_trunc, coarseCase_eq]

theorem coarse_of_same {expiry now : Int64} (hsame : (coarseExpiry64 expiry now).toInt = expiry.toInt)
    (hunit : unitOf (expiry.toInt - now.toInt) ∣ expiry.toInt) : Coarse expiry now where
  rounded := by
    intro hlt
    have hlt := Int64.lt_iff_toInt_lt.1 hlt
    rw [hsame]
    refine ⟨hlt, le_refl _, ?_, hunit⟩
    omega
  again := fun _ => by rw [Int64.toInt_inj.1 hsame]; exact Int64.toInt_inj.1 hsame
  sql := by
    rw [hsame, coarseCase_trunc]
    exact ((trunc_eq_self_iff _ _).2 hunit).symm

theorem rounded_trunc {now e : Int} (h : now < e) (he : 0 ≤ e) : Rounded now e (trunc e (unitOf (e - now))) := by
  obtain ⟨hle, hlt⟩ := trunc_of_nonneg he (unitOf_pos (e - now))
  rcases unitOf_le (show 0 < e - now by omega) with hhalf | hone
  · exact ⟨by omega, hle, by omega, dvd_trunc _ _⟩
  · refine ⟨?_, hle, ?_, dvd_trunc _ _⟩ <;> omega

theorem coarse_of_fits {expiry now : Int64} (hlt : now.toInt < expiry.toInt) (he : 0 ≤ expiry.toInt)
    (hfits : expiry.toInt - now.toInt < 2 ^ 63) : Coarse expiry now := by
  have hr : (coarseExpiry64 expiry now).toInt = trunc expiry.toInt (unitOf (expiry.toInt - now.toInt)) := by
    rw [coarseExpiry64_eq, life_fits (by omega) hfits]
  have hrounded := rounded_trunc hlt he
  refine ⟨fun _ => ?_, fun _ => ?_, ?_⟩
  · rw [hr]
    exact hrounded
  · apply Int64.toInt_inj.1
    have hlive := hrounded.live
    have hshorter := hrounded.shorter
    have hdvd := (unitOf_dvd (Int.sub_le_sub_right hshorter now.toInt)).trans hrounded.whole
    rw [← hr] at hlive hshorter hdvd
    rw [coarseExpiry64_eq, life_fits (by omega) (by omega)]
    exact (trunc_eq_self_iff _ _).2 hdvd
  · rw [hr, coarseCase_trunc]

theorem counted_of_rounded {expiry now : Int64} (hlt : now.toInt < expiry.toInt)
    (h : Rounded now.toInt expiry.toInt (coarseExpiry64 expiry now).toInt) :
    unitOf (expiry.toInt - now.toInt) ∣ expiry.toInt ∨ 0 ≤ expiry.toInt ∧ expiry.toInt - now.toInt < 2 ^ 63 := by
  rcases lt_or_ge (expiry.toInt - now.toInt) (2 ^ 63) with hfits | hover
  · rcases lt_or_ge expiry.toInt 0 with hneg | hnonneg
    · refine Or.inl ((trunc_eq_self_iff _ _).1 (le_antisymm ?_ ?_))
      · rw [← life_fits (by omega) hfits, ← coarseExpiry64_eq]
        exact h.shorter
      · exact (trunc_of_neg hneg (unitOf_pos _)).1
    · exact Or.inr ⟨hnonneg, hfits⟩
  · have hsame : (coarseExpiry64 expiry now).toInt = expiry.toInt := by
      rw [coarseExpiry64_eq, unitOf_short (life_over hover)]
      exact (trunc_eq_self_iff _ 1).2 (one_dvd _)
    rw [← hsame]
    exact Or.inl (hsame ▸ h.whole)

/-- The relay and the `CASE` round alike: the life is counted right, or the unit one of the two
takes for it divides the expiry. -/
def SameRounding (expiry now : Int) : Prop :=
  -2 ^ 63 ≤ expiry - now ∧ expiry - now < 2 ^ 63 ∨ unitOf (if now < expiry then expiry - now else expiry - now + 2 ^ 64) ∣ expiry

theorem sameRounding_iff (expiry now : Int64) :
    (coarseExpiry64 expiry now).toInt = coarseCase expiry.toInt now.toInt ↔ SameRounding expiry.toInt now.toInt := by
  have hone := (trunc_eq_self_iff expiry.toInt 1).2 (one_dvd _)
  unfold SameRounding
  rw [coarseExpiry64_eq, coarseCase_trunc]
  rcases lt_or_ge (expiry.toInt - now.toInt) (-2 ^ 63) with hunder | hlow
  · rw [life_under hunder, unitOf_short (show expiry.toInt - now.toInt ≤ 0 by omega), hone, trunc_eq_self_iff, if_neg (by omega)]
    exact ⟨Or.inr, fun h => h.resolve_left (by omega)⟩
  rcases lt_or_ge (expiry.toInt - now.toInt) (2 ^ 63) with hhigh | hover
  · rw [life_fits hlow hhigh]
    exact ⟨fun _ => Or.inl ⟨hlow, hhigh⟩, fun _ => rfl⟩
  · rw [unitOf_short (life_over hover), hone, eq_comm, trunc_eq_self_iff, if_pos (by omega)]
    exact ⟨Or.inr, fun h => h.resolve_left (by omega)⟩

theorem past_iff {expiry now : Int64} (h : expiry.toInt ≤ now.toInt) :
    (coarseExpiry64 expiry now).toInt = coarseCase expiry.toInt now.toInt ↔
      unitOf (expiry.toInt - now.toInt + 2 ^ 64) ∣ expiry.toInt ∨ -2 ^ 63 ≤ expiry.toInt - now.toInt := by
  rw [sameRounding_iff, SameRounding, if_neg (by omega), or_comm]
  exact or_congr_right ⟨And.left, fun hlow => ⟨hlow, by omega⟩⟩

theorem coarse_iff (expiry now : Int64) : Coarse expiry now ↔ Counted expiry.toInt now.toInt := by
  unfold Counted
  split_ifs with hlt
  · constructor
    · intro h
      exact counted_of_rounded hlt (h.rounded (Int64.lt_iff_toInt_lt.2 hlt))
    · intro h
      by_cases hfits : 0 ≤ expiry.toInt ∧ expiry.toInt - now.toInt < 2 ^ 63
      · exact coarse_of_fits hlt hfits.1 hfits.2
      · have hunit := h.resolve_right hfits
        apply coarse_of_same ?_ hunit
        rw [coarseExpiry64_eq]
        rcases lt_or_ge (expiry.toInt - now.toInt) (2 ^ 63) with hsmall | hover
        · rw [life_fits (by omega) hsmall]
          exact (trunc_eq_self_iff _ _).2 hunit
        · rw [unitOf_short (life_over hover)]
          exact (trunc_eq_self_iff _ 1).2 (one_dvd _)
  · have hpast : ¬now < expiry := fun h => hlt (Int64.lt_iff_toInt_lt.1 h)
    rw [← past_iff (by omega)]
    exact ⟨fun h => h.sql, fun h => ⟨fun hn => absurd hn hpast, fun hn => absurd hn hpast, h⟩⟩

theorem coarseExpiry64_mono {first second now : Int64} (h : first ≤ second)
    (hlive : now < first)
    (hband : unitOf (first.toInt - now.toInt) = unitOf (second.toInt - now.toInt)) :
    coarseExpiry64 first now ≤ coarseExpiry64 second now := by
  have hle := Int64.le_iff_toInt_le.1 h
  have hlt := Int64.lt_iff_toInt_lt.1 hlive
  rw [Int64.le_iff_toInt_le, coarseExpiry64_eq, coarseExpiry64_eq]
  rcases lt_or_ge (second.toInt - now.toInt) (2 ^ 63) with hfits | hover
  · rw [life_fits (by omega) (by omega), life_fits (by omega) hfits, hband]
    exact trunc_mono (unitOf_pos _) hle
  · rw [unitOf_short (life_over hover), (trunc_eq_self_iff second.toInt 1).2 (one_dvd _)]
    have hn := now.le_toInt
    have hs : 0 ≤ second.toInt := by
      have := now.toInt_lt
      have := first.toInt_lt
      omega
    rcases lt_or_ge first.toInt 0 with hneg | hnonneg
    · exact le_trans (trunc_of_neg hneg (unitOf_pos _)).2 hs
    · exact le_trans (trunc_of_nonneg hnonneg (unitOf_pos _)).1 hle

/-- An envelope put without an expiry, or with one to come, is stored with more than half of its life. -/
theorem put_rounded {requested now : Int} (hnow : 0 ≤ now) (h : requested ≤ 0 ∨ now < requested) :
    Rounded now (RelayQueue.boundedExpiry requested now) (coarseExpiry (RelayQueue.boundedExpiry requested now) now) := by
  have hlive : now < RelayQueue.boundedExpiry requested now := by
    unfold RelayQueue.boundedExpiry RelayQueue.defaultEnvelopeTtl
    split_ifs <;> omega
  rw [← coarseCase_eq, coarseCase_trunc]
  exact rounded_trunc hlive (by omega)

/-- Coarse expiries do what they are for exactly where `Counted` holds, and never turn two
expiries of one band around. -/
theorem rounds_down_iff (expiry now : Int64) :
    (Coarse expiry now ↔ Counted expiry.toInt now.toInt) ∧
      ∀ later, expiry ≤ later → now < expiry →
        unitOf (expiry.toInt - now.toInt) = unitOf (later.toInt - now.toInt) →
          coarseExpiry64 expiry now ≤ coarseExpiry64 later now :=
  ⟨coarse_iff expiry now, fun _ hle hlive hband => coarseExpiry64_mono hle hlive hband⟩

/-- Before 1970 the rounding goes up. -/
theorem early_expiry_grows :
    (-1000 : Int64) < -100 ∧ coarseExpiry64 (-100) (-1000) = -60 ∧ ¬Coarse (-100) (-1000) := by
  refine ⟨by decide, by decide, fun h => ?_⟩
  have hshorter := (h.rounded (by decide)).shorter
  revert hshorter
  decide

end Arveil.RelayExpiry
