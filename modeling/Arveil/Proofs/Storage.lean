import Arveil.Spec.Storage

/-! Units of work are atomic on every exit but one: a `COMMIT` that fails and leaves its
transaction open finds the guard forgotten, and the connection stays inside the transaction. -/

namespace Arveil.Storage

open Trace (run run_cons Meets)

variable {δ ε α : Type} {fromSqlite : SqliteError → ε}

/-- Where a unit of work comes to its `COMMIT`, it does not leave the transaction open. -/
def Ends (f : δ → Exit ε α × δ) (w : Weather) (db : δ) : Prop :=
  w.commit = .leavesOpen → w.busy = true ∨ ∀ a, (f db).1 ≠ .ok a

/-- What is promised of a unit of work that starts outside a transaction. -/
structure Atomic (fromSqlite : SqliteError → ε) (f : δ → Exit ε α × δ) (w : Weather) (db : δ) : Prop where
  ended : (unitOfWork fromSqlite f w ⟨db, none⟩).2.transaction = none
  outcome : (∃ a, (unitOfWork fromSqlite f w ⟨db, none⟩).1 = .ok a ∧ (f db).1 = .ok a ∧
        (unitOfWork fromSqlite f w ⟨db, none⟩).2.committed = (f db).2) ∨
      (∀ a, (unitOfWork fromSqlite f w ⟨db, none⟩).1 ≠ .ok a) ∧ (unitOfWork fromSqlite f w ⟨db, none⟩).2.committed = db
  nextUnit : ∃ c, (unitOfWork fromSqlite f w ⟨db, none⟩).2.beginImmediate false = .ok c
  nextStatement : ∀ g : δ → δ, ((unitOfWork fromSqlite f w ⟨db, none⟩).2.execute fun d => ((), g d)).2 =
    ⟨g (unitOfWork fromSqlite f w ⟨db, none⟩).2.committed, none⟩

theorem unitOfWork_busy (f : δ → Exit ε α × δ) {w : Weather} (db : δ) (h : w.busy = true) :
    unitOfWork fromSqlite f w ⟨db, none⟩ = (.err (fromSqlite .busy), ⟨db, none⟩) := by
  simp [unitOfWork, Connection.beginImmediate, h]

theorem unitOfWork_begun (fromSqlite : SqliteError → ε) (f : δ → Exit ε α × δ) {w : Weather} (db : δ) (h : w.busy = false) :
    unitOfWork fromSqlite f w ⟨db, none⟩ =
      match f db with
      | (.ok a, d) =>
        match w.commit with
        | .succeeds => (.ok a, ⟨d, none⟩)
        | .leavesOpen => (.err (fromSqlite .busy), ⟨db, some d⟩)
        | .rollsBack => (.err (fromSqlite .failed), ⟨db, none⟩)
      | (.err e, _) => (.err e, ⟨db, none⟩)
      | (.panicked, _) => (.panicked, ⟨db, none⟩) := by
  rcases hf : f db with ⟨exit, d⟩
  cases exit with
  | ok a =>
    cases hc : w.commit <;>
      simp [unitOfWork, Connection.beginImmediate, Connection.execute, Connection.view, Connection.write, Connection.commit, h, hf, hc]
  | err e => simp [unitOfWork, Connection.beginImmediate, Connection.execute, Connection.view, Connection.write,
      Connection.rollback, h, hf]
  | panicked => simp [unitOfWork, Connection.beginImmediate, Connection.execute, Connection.view, Connection.write,
      Connection.rollback, h, hf]

theorem atomic_of {f : δ → Exit ε α × δ} {w : Weather} {db db' : δ} {r : Exit ε α}
    (h : unitOfWork fromSqlite f w ⟨db, none⟩ = (r, ⟨db', none⟩))
    (houtcome : (∃ a, r = .ok a ∧ (f db).1 = .ok a ∧ db' = (f db).2) ∨ (∀ a, r ≠ .ok a) ∧ db' = db) :
    Atomic fromSqlite f w db := by
  refine ⟨?_, ?_, ?_, fun g => ?_⟩
  · rw [h]
  · rw [h]
    exact houtcome
  · rw [h]
    exact ⟨⟨db', some db'⟩, rfl⟩
  · rw [h]
    rfl

/-- A unit of work is atomic exactly where its `COMMIT` does not leave the transaction open. -/
theorem unit_is_atomic_iff (fromSqlite : SqliteError → ε) (f : δ → Exit ε α × δ) (w : Weather) (db : δ) :
    Atomic fromSqlite f w db ↔ Ends f w db := by
  cases hbusy : w.busy with
  | true =>
    refine ⟨fun _ _ => Or.inl hbusy, fun _ => ?_⟩
    exact atomic_of (unitOfWork_busy f db hbusy) (Or.inr ⟨nofun, rfl⟩)
  | false =>
    have hbegun := unitOfWork_begun fromSqlite f db hbusy
    rcases hf : f db with ⟨exit, d⟩
    rw [hf] at hbegun
    have hexit : (f db).1 = exit := congrArg Prod.fst hf
    cases exit with
    | ok a =>
      cases hc : w.commit with
      | succeeds =>
        rw [hc] at hbegun
        refine ⟨fun _ hopen => absurd (hc.symm.trans hopen) nofun, fun _ => ?_⟩
        exact atomic_of hbegun (Or.inl ⟨a, rfl, hexit, (congrArg Prod.snd hf).symm⟩)
      | leavesOpen =>
        rw [hc] at hbegun
        constructor
        · intro hatomic
          have hended := hatomic.ended
          rw [hbegun] at hended
          cases hended
        · intro hends
          rcases hends hc with hb | hne
          · exact absurd (hbusy.symm.trans hb) nofun
          · exact absurd hexit (hne a)
      | rollsBack =>
        rw [hc] at hbegun
        refine ⟨fun _ hopen => absurd (hc.symm.trans hopen) nofun, fun _ => ?_⟩
        exact atomic_of hbegun (Or.inr ⟨nofun, rfl⟩)
    | err e =>
      refine ⟨fun _ _ => Or.inr fun a ha => absurd (hexit.symm.trans ha) nofun, fun _ => ?_⟩
      exact atomic_of hbegun (Or.inr ⟨nofun, rfl⟩)
    | panicked =>
      refine ⟨fun _ _ => Or.inr fun a ha => absurd (hexit.symm.trans ha) nofun, fun _ => ?_⟩
      exact atomic_of hbegun (Or.inr ⟨nofun, rfl⟩)

theorem outside_run {c : Connection δ} {steps : List (Step δ ε α)} (hc : c.transaction = none)
    (hm : Meets (step fromSqlite) (fun c s => ∀ f w, s = .unitOfWork f w → Ends f w c.committed) c steps) :
    (run (step fromSqlite) c steps).transaction = none := by
  refine Trace.invariant (I := fun c => c.transaction = none) (fun c s hends hc => ?_) hm hc
  obtain ⟨db, transaction⟩ := c
  obtain rfl : transaction = none := hc
  cases s with
  | unitOfWork f w => exact ((unit_is_atomic_iff fromSqlite f w db).2 (hends f w rfl)).ended
  | statement f => rfl

/-- A `COMMIT` that finds the database busy: the work stays in an open transaction, and every
later unit of work is refused. -/
theorem busy_commit_stays_open :
    let c := (unitOfWork (fun e => e) (fun db : List Nat => (.ok (), db ++ [1])) ⟨false, .leavesOpen⟩ ⟨[], none⟩).2
    c = ⟨[], some [1]⟩ ∧
      (unitOfWork (fun e => e) (fun db : List Nat => (.ok (), db ++ [2])) ⟨false, .succeeds⟩ c).1 = .err .nested ∧
      ¬Atomic (fun e => e) (fun db : List Nat => ((.ok () : Exit SqliteError Unit), db ++ [1])) ⟨false, .leavesOpen⟩ [] := by
  refine ⟨rfl, rfl, fun h => ?_⟩
  exact absurd h.ended nofun

end Arveil.Storage
