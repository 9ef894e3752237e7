import Arveil.Proofs.Supply.Bounded

/-! `Moves` is what a step can do to the relay, the profile and what is under way, with what the step
found there. Every step is one of them or changes nothing. -/

namespace Arveil.Supply

open Prog RelayStore RelayServer

variable (sha256 : Bytes → Bytes) (identityId deviceId : Bytes)

/-- What a step can do. -/
inductive Moves (w : World) : World → Prop
  | other {c : Call} (hc : publishes deviceId c = false) : Moves w { w with db := RelayStore.after sha256 w.db c }
  | quiet {kind : Kind} {p : Profile} {a : Activity} (hi : p.initial = w.profile.initial) (hr : p.replenishment = w.profile.replenishment)
      (hg : p.generated = w.profile.generated) (ha : underway a = none)
      (hasked : ∀ n, asked a = some n → asked (w.activity kind) = some n ∨ n = available deviceId w.db) :
      Moves w { w.go kind a with profile := p }
  | completed : Moves w { w with profile := { w.profile with enrollmentComplete := true } }
  | seeded (hnone : w.profile.initial = none) (ha : w.activity .initial = .idle) :
      Moves w { w with profile := { w.profile with initial := some none } }
  | again {kind : Kind} {batch : List Bytes} (hh : holds w.profile kind = some batch) : Moves w (send kind batch false w.profile w)
  | first {packages : List Bytes} (ha : w.activity .initial = .idle) (hnone : w.profile.initial = none)
      (hlength : packages.length = initialKeyPackageCount) :
      Moves w (send .initial packages true
        { w.profile with initial := some (some packages), generated := w.profile.generated ++ packages } w)
  | more {n : Nat} {packages : List Bytes} (ha : w.activity .replenishment = .observed n) (hnone : w.profile.replenishment = none)
      (hlow : n ≤ keyPackageFloor) (hlength : packages.length = keyPackageTarget - n) :
      Moves w (send .replenishment packages true
        { w.profile with replenishment := some ⟨packages, n⟩, generated := w.profile.generated ++ packages } w)
  | answer {kind : Kind} {batch : List Bytes} {now : Int} (ha : w.activity kind = .publishing batch) :
      Moves w { w.go kind (.answered batch (publish sha256 identityId deviceId batch now w.db).1) with
        db := (publish sha256 identityId deviceId batch now w.db).2 }
  | acknowledged {kind : Kind} {batch : List Bytes} {p : Profile} {a : Activity} (ha : w.activity kind = .answered batch true)
      (hother : ∀ kind', kind' ≠ kind → holds p kind' = holds w.profile kind') (hself : holds p kind = none)
      (hun : unprepared p ≤ unprepared w.profile) (hinitial : p.initial = none → w.profile.initial = none)
      (hg : p.generated = w.profile.generated) (hu : underway a = none) (hasked : asked a = none) :
      Moves w { w.go kind a with profile := p, log := w.log ++ [.acknowledged kind batch] }
  | cut {kind : Kind} {batch : List Bytes} (ha : w.activity kind = .publishing batch) :
      Moves w { w.go kind .idle with late := w.late ++ [batch] }
  | late {i : Nat} {batch : List Bytes} {now : Int} (hi : w.late[i]? = some batch) :
      Moves w { w with db := (publish sha256 identityId deviceId batch now w.db).2, late := w.late.eraseIdx i }

variable {sha256 identityId deviceId} {w : World}

theorem moves_idle (kind : Kind) {p : Profile} (hi : p.initial = w.profile.initial) (hr : p.replenishment = w.profile.replenishment)
    (hg : p.generated = w.profile.generated) : Moves sha256 identityId deviceId w { w.go kind .idle with profile := p } :=
  .quiet hi hr hg rfl fun _ hn => by cases hn

theorem moves_enroll (draw : Nat → Except String Bytes) (ha : w.activity .initial = .idle) :
    Moves sha256 identityId deviceId w (enroll draw w) ∨ enroll draw w = w := by
  rcases initialKeyPackages_cases draw w.profile with ⟨e, hrun⟩ | ⟨batch, hi, hrun⟩ | ⟨hnone, hrun⟩ | ⟨packages, hnone, hlength, hrun⟩
  · exact Or.inr (by simp only [enroll, hrun])
  · cases batch with
    | none => exact Or.inr (by simp only [enroll, hrun])
    | some batch =>
      simp only [enroll, hrun, hi, Option.isNone_some]
      refine Or.inl (.again ?_)
      rw [holds, hi, Option.join_some]
  · simp only [enroll, hrun]
    exact Or.inl (.seeded hnone ha)
  · simp only [enroll, hrun, hnone, Option.isNone_none]
    exact Or.inl (.first ha hnone hlength)

theorem moves_observed (draw : Nat → Except String Bytes) (now : Int) {n : Nat} (ha : w.activity .replenishment = .observed n) :
    Moves sha256 identityId deviceId w (next .replenishment draw now w) := by
  rcases prepareKeyPackageReplenishment_cases draw n w.profile with ⟨e, hrun⟩ | hrun | ⟨pending, hr, hrun⟩ | ⟨packages, hnone, hlow, hlength, hrun⟩
  · simp only [next, ha, hrun]
    exact moves_idle .replenishment rfl rfl rfl
  · simp only [next, ha, hrun]
    exact moves_idle .replenishment rfl rfl rfl
  · simp only [next, ha, hrun, hr, Option.isNone_some]
    refine .again ?_
    rw [holds, hr, Option.map_some]
  · simp only [next, ha, hrun, hnone, Option.isNone_none]
    exact .more ha hnone hlow hlength

theorem initialKeyPackagesAcknowledged_snd {p : Profile} (h : p.initial ≠ none) :
    (initialKeyPackagesAcknowledged p).2 = { p with initial := some none } := by
  rw [initialKeyPackagesAcknowledged, bind_ok (read_run _ _), when_neg h]
  rfl

theorem moves_served (kind : Kind) (now : Int) : Moves sha256 identityId deviceId w (served sha256 identityId deviceId kind now w) ∨
    served sha256 identityId deviceId kind now w = w := by
  cases ha : w.activity kind with
  | counting replenish =>
    simp only [served, ha]
    exact Or.inl (.quiet (p := w.profile) rfl rfl rfl rfl fun n hn => Or.inr (Option.some.inj hn).symm)
  | publishing batch =>
    simp only [served, ha]
    exact Or.inl (.answer ha)
  | _ => exact Or.inr (by simp only [served, ha])

theorem moves_maintain (draw : Nat → Except String Bytes) (now : Int) :
    Moves sha256 identityId deviceId w (next .replenishment draw now w) ∨ next .replenishment draw now w = w := by
  cases ha : w.activity .replenishment with
  | counted replenish n =>
    simp only [next, ha]
    refine Or.inl (.quiet rfl rfl rfl ?_ fun n' hn => Or.inl ?_)
    · cases replenish <;> rfl
    · cases replenish with
      | false => cases hn
      | true => rw [ha]; exact hn
  | observed n => exact Or.inl (moves_observed draw now ha)
  | answered batch ack =>
    cases ack with
    | false =>
      simp only [next, ha]
      exact Or.inl (moves_idle .replenishment rfl rfl rfl)
    | true =>
      simp only [next, ha]
      refine Or.inl (.acknowledged ha ?_ rfl le_rfl (fun hp => hp) rfl rfl rfl)
      rintro (_ | _) hne
      · rfl
      · exact absurd rfl hne
  | _ => exact Or.inr (by simp only [next, ha])

theorem moves_first (draw : Nat → Except String Bytes) (now : Int)
    (hcurrent : ∀ kind batch, underway (w.activity kind) = some batch → holds w.profile kind = some batch) :
    Moves sha256 identityId deviceId w (next .initial draw now w) ∨ next .initial draw now w = w := by
  cases ha : w.activity .initial with
  | answered batch ack =>
    cases ack with
    | false =>
      simp only [next, ha]
      exact Or.inl (moves_idle .initial rfl rfl rfl)
    | true =>
      have hsome : w.profile.initial ≠ none := by
        intro hnone
        have hh := hcurrent .initial batch (by rw [ha]; rfl)
        rw [holds, hnone] at hh
        cases hh
      simp only [next, ha, initialKeyPackagesAcknowledged_snd hsome]
      refine Or.inl (.acknowledged ha ?_ rfl (Nat.zero_le _) (fun hp => by cases hp) rfl rfl rfl)
      rintro (_ | _) hne
      · exact absurd rfl hne
      · rfl
  | _ => exact Or.inr (by simp only [next, ha])

variable (sha256 identityId deviceId) in
theorem moves_step (e : Event) (hcurrent : ∀ kind batch, underway (w.activity kind) = some batch → holds w.profile kind = some batch) :
    Moves sha256 identityId deviceId w (step sha256 identityId deviceId w e) ∨ step sha256 identityId deviceId w e = w := by
  cases e with
  | relay c =>
    simp only [step]
    split
    · exact Or.inr rfl
    · next hc => exact Or.inl (.other (Bool.eq_false_iff.2 hc))
  | complete => exact Or.inl .completed
  | check replenish =>
    cases ha : w.activity .replenishment with
    | idle =>
      simp only [step, ha]
      exact Or.inl (.quiet (p := w.profile) rfl rfl rfl rfl fun n hn => by cases hn)
    | _ => exact Or.inr (by simp only [step, ha])
  | enroll draw =>
    cases ha : w.activity .initial with
    | idle =>
      simp only [step, ha]
      exact moves_enroll draw ha
    | _ => exact Or.inr (by simp only [step, ha])
  | served kind now => exact moves_served kind now
  | next kind draw now =>
    cases kind with
    | initial => exact moves_first draw now hcurrent
    | replenishment => exact moves_maintain draw now
  | cut kind =>
    cases ha : w.activity kind with
    | publishing batch =>
      simp only [step, ha]
      exact Or.inl (.cut ha)
    | _ =>
      simp only [step, ha]
      exact Or.inl (moves_idle kind rfl rfl rfl)
  | late i now =>
    cases hi : w.late[i]? with
    | some batch =>
      simp only [step, hi]
      exact Or.inl (.late hi)
    | none => exact Or.inr (by simp only [step, hi])

end Arveil.Supply
