import Arveil.Proofs.Executor.Panics

/-! What an executor owes its callers. Whatever the order of its steps, a command whose
`submit` was accepted is answered once and one that was refused neither runs nor is
answered, no kind of command exceeds its limit, and the locks are not waited for in a
cycle. The counters are exact, and nothing runs after a panic, in the runs in which a command
that panics is the only one sent and none is sent after it. -/

namespace Arveil.Executor

/-- What an executor owes its callers whatever panics. -/
structure Answering (w : World) : Prop where
  once : ∀ i, w.answers i ≤ 1
  /-- the worker comes to an end, and then every command that was accepted has its reply -/
  lowers : ∀ e, e.isWorker = true → step w e = w ∨ (step w e).work < w.work
  answered : Idle w → ∀ (i : Nat) (s : Submit), w.submits[i]? = some s → s.phase.accepted = true → w.answers i = 1
  refused : ∀ (i : Nat) (s : Submit), w.submits[i]? = some s → s.phase.accepted = false →
    w.answers i = 0 ∧ ∀ late, (i, late) ∉ w.ran
  acyclic : ∀ i, ¬ Relation.TransGen (LockOrder.WaitsFor w.holds w.wants) i i

/-- And what it owes them where a command panics alone. -/
structure Accounted (w : World) : Prop extends Answering w where
  counts : ∀ k, w.active k = w.slots k ∧ w.active k ≤ k.limit
  silent : ∀ run ∈ w.ran, run.2 = false

theorem answers_le {w : World} (h : Inv w) (i : Nat) : w.answers i ≤ 1 := by
  cases hs : w.submits[i]? with
  | none => exact Nat.le_trans (Nat.le_of_eq (h.unknown i hs).answers) (Nat.zero_le 1)
  | some s =>
    rw [(h.submits i s hs).answers]
    split <;> omega

theorem answering_of_inv {w : World} (h : Inv w) : Answering w where
  once := answers_le h
  lowers _ he := worker_lowers h he
  answered hidle _ _ hs ha := idle_answered h hidle hs ha
  refused i _ hs ha :=
    have hu := (sound_iff_unknown ha).1 (h.submits i _ hs)
    ⟨hu.answers, hu.ran⟩
  acyclic := LockOrder.acyclic (ascending h)

theorem accounted_of_exact {w : World} (h : Exact w) : Accounted w where
  toAnswering := answering_of_inv h.inv
  counts k := ⟨h.counts k, h.inv.limited k⟩
  silent := h.silent

/-- In every run each accepted command is answered once, no slot is given beyond a limit,
and nothing waits in a circle. -/
theorem every_run_answers (evs : List Event) :
    Answering (Trace.run step start evs) ∧ ∀ k, (Trace.run step start evs).active k ≤ k.limit := by
  have hinv : Inv (Trace.run step start evs) :=
    Trace.invariant (I := Inv) (fun w e _ => inv_step w e) (Trace.meets_true start evs) inv_start
  exact ⟨answering_of_inv hinv, hinv.limited⟩

/-- In every run in which commands panic alone the accounts are right. -/
theorem accounts_hold {evs : List Event} (h : Trace.Meets step PanicsAlone start evs) :
    Accounted (Trace.run step start evs) :=
  accounted_of_exact (Trace.invariant (I := Exact) exact_step h exact_start)

def accept (i : Nat) : List Event := [.caller i false, .caller i false, .caller i false, .caller i false]

/-- A query is over and a second command panics, so that a third is refused. -/
def lonelyPanic : List Event :=
  ([.submit ⟨.queryDevices, 1, false⟩, .submit ⟨.sync, 0, true⟩] : List Event) ++ accept 0 ++ ([.receive] : List Event) ++
    List.replicate 7 (.turn 0) ++ accept 1 ++ ([.receive] : List Event) ++ List.replicate 8 (.turn 1) ++
    ([.submit ⟨.queryPeers, 0, false⟩, .caller 2 false] : List Event)

theorem accounts_hold_after_panic :
    ((Trace.run step start lonelyPanic).poisoned = true ∧ (Trace.run step start lonelyPanic).replies = [(0, .result), (1, .panicked)]) ∧
      Accounted (Trace.run step start lonelyPanic) :=
  ⟨by decide +kernel, accounts_hold (by decide +kernel)⟩

/-- Two queries are under way or sent when a command panics. -/
def crowdedPanic : List Event :=
  ([.submit ⟨.createIdentity, 0, true⟩, .submit ⟨.queryDevices, 1, false⟩, .submit ⟨.queryContacts, 0, false⟩] : List Event) ++
    accept 0 ++ accept 1 ++ accept 2 ++ ([.receive, .receive] : List Event) ++ List.replicate 3 (.turn 1) ++
    List.replicate 6 (.turn 0) ++ List.replicate 3 (.turn 1) ++ ([.receive, .turn 2, .turn 2] : List Event)

/-- The first query runs after the panic, and the second is answered and keeps its slot. -/
theorem crowded_panic_leaks :
    (1, true) ∈ (Trace.run step start crowdedPanic).ran ∧
      (Trace.run step start crowdedPanic).submits.map Submit.phase = [.done, .done, .done] ∧
      (Trace.run step start crowdedPanic).active .query = 1 ∧
      ¬ ∀ evs, Accounted (Trace.run step start evs) := by
  refine ⟨by decide +kernel, by decide +kernel, by decide +kernel, fun h => ?_⟩
  have hcounts := ((h crowdedPanic).counts .query).1
  exact absurd hcounts (by decide +kernel)

end Arveil.Executor
