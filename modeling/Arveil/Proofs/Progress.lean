import Arveil.Proofs.Progress.Others

/-! The progress streams. Every event published to a subscriber is in its stream, counted by one
gap in it, or pending in its counter, whatever the other subscribers do. A wait after `close`
tells that the profile is closed only when the last handle is gone. -/

namespace Arveil.Progress

open Trace (run Meets)

variable {ω χ κ : Type}

/-- A wait on a drained subscription tells that the profile is closed exactly when no handle is left. -/
theorem waited_closed {w : World ω κ} (h : Inv w) {s : Watcher ω κ} (hs : s ∈ w.watchers) (hsub : s.subscribed = true)
    (hdrained : s.buffer = []) : s.waited = .closed ↔ w.handles = 0 := by
  unfold Watcher.waited
  rw [hdrained]
  dsimp only
  constructor
  · intro hw
    by_contra hh
    rw [h.alive hh s hs hsub] at hw
    exact absurd hw nofun
  · intro hh
    rw [(h.ended hh).2 s hs]
    rfl

/-- Event `e` waits on a drained subscription of a closed profile. -/
def WaitsForTheEnd (w : World ω κ) (e : Event ω χ) (s : Watcher ω κ) : Prop :=
  ∃ i, e = .wait i ∧ w.watchers[i]? = some s ∧ s.subscribed = true ∧ s.buffer = [] ∧ w.closed = true

/-- Fewer than 2^64 events are published, and a drained subscription is waited on after `close` only
when the last handle is gone. -/
def Calm (w : World ω κ) (e : Event ω χ) : Prop :=
  Numbered w e ∧ ∀ s, WaitsForTheEnd w e s → w.handles = 0

/-- A subscriber's stream. -/
structure Accounted (published : List (ω × κ)) (s : Watcher ω κ) : Prop where
  ordered : (numbers (s.received ++ s.buffer)).Pairwise (· < ·)
  content : ∀ e ∈ s.received ++ s.buffer, ∀ k, e.kind = .change k → published[e.sequence]? = some (e.operation, k)
  /-- every event published since it subscribed is told once, or is one of those pending at the end -/
  told : s.subscribed = true → ∃ c, c + s.dropped = published.length ∧
    (∀ n, s.first ≤ n → n < c → ∃! i, ToldAt s.first (s.received ++ s.buffer) n i) ∧
    ∀ n, c ≤ n → ∀ i, ¬ToldAt s.first (s.received ++ s.buffer) n i

theorem Counts.accounted {published : List (ω × κ)} {s : Watcher ω κ} (h : Counts published s) : Accounted published s := by
  obtain ⟨c, hc, -, hcount⟩ := h.stream
  refine ⟨(numbers_rise hc).1, h.content, fun hsub => ⟨c, hcount hsub, fun n hlow hhigh => told_once hc hlow hhigh, ?_⟩⟩
  intro n hn i hi
  exact absurd (told_lt hc hi) (Nat.not_lt.2 hn)

structure Exact (project : χ → Option κ) (evs : List (Event ω χ)) : Prop where
  accounted : ∀ s ∈ (run (step project) start evs : World ω κ).watchers,
    Accounted (run (step project) start evs : World ω κ).published s
  /-- who is subscribed while the profile is open takes part in every publication -/
  present : (run (step project) start evs : World ω κ).closed = false →
    ∀ s ∈ (run (step project) start evs : World ω κ).watchers, s.subscribed = true → s.registered = true
  apart : ∀ i : Nat, (run (step project) start evs : World ω κ).watchers[i]?.map Watcher.seen =
    (run (step project) start (evs.filterMap (alone i)) : World ω κ).watchers[i]?.map Watcher.seen
  closes : Meets (step project) (fun w e => ∀ s, WaitsForTheEnd w e s → s.waited = .closed) (start : World ω κ) evs

/-- In every such run each stream accounts for every event, by itself, and ends when the profile does. -/
theorem streams_are_exact (project : χ → Option κ) {evs : List (Event ω χ)}
    (hm : Meets (step project) Calm (start : World ω κ) evs) : Exact project evs := by
  have hnumbered := hm.imp fun _ _ hc => hc.1
  have hinv : Inv (run (step project) (start : World ω κ) evs) :=
    Trace.invariant (fun _ _ he h => inv_step project he h) hnumbered inv_start
  refine ⟨fun s hs => (hinv.counts s hs).accounted, fun hopen s hs hsub => ?_, fun i => ?_, ?_⟩
  · refine hinv.alive (fun hz => ?_) s hs hsub
    exact absurd (hopen.symm.trans (hinv.ended hz).1) (by decide)
  · have hstart : Apart i (start : World ω κ) start := ⟨rfl, rfl, rfl, fun _ _ hs _ => absurd hs nofun⟩
    have hend := apart_run project i hstart evs
    cases hs : (run (step project) (start : World ω κ) evs).watchers[i]? with
    | none =>
      have hlen := List.getElem?_eq_none_iff.1 hs
      rw [List.getElem?_eq_none_iff.2 (hend.length ▸ hlen)]
    | some s =>
      have hlt := (List.getElem?_eq_some_iff.1 hs).1
      have hs' := List.getElem?_eq_getElem (hend.length ▸ hlt)
      rw [hs']
      exact congrArg some (hend.alike s _ hs hs').seen
  · refine (hm.with_invariant (fun _ _ he h => inv_step project he.1 h) inv_start).imp fun w e hc s hw => ?_
    obtain ⟨i, -, hs, hsub, hdrained, -⟩ := id hw
    exact (waited_closed hc.2 (List.mem_of_getElem? hs) hsub hdrained).2 (hc.1.2 s hw)

namespace Demo

/-- A profile is watched, closed, and its subscriber waits. -/
def closedEarly : List (Event Unit Unit) := [.watch, .close, .wait 0]

def ended : List (Event Unit Unit) := [.watch, .publish () () fun _ => [], .wait 0, .close, .dropHandle, .wait 0]

end Demo

/-- The registry keeps its sender, so the wait goes on. -/
theorem closed_is_idle :
    ((run (step (fun _ : Unit => some ())) start [.watch, .close] : World Unit Unit).watchers.map Watcher.waited = [.idle]) ∧
      ¬Exact (ω := Unit) (fun _ : Unit => some ()) Demo.closedEarly := by
  refine ⟨rfl, fun h => ?_⟩
  have hwait := h.closes.2.2.1 ⟨[], 0, true, true, 0, []⟩ ⟨0, rfl, rfl, rfl, rfl, rfl⟩
  exact absurd hwait (by decide)

theorem ended_is_exact : Exact (ω := Unit) (fun _ : Unit => some ()) Demo.ended := by
  refine streams_are_exact _ ⟨⟨trivial, ?_⟩, ⟨?_, ?_⟩, ⟨trivial, ?_⟩, ⟨trivial, ?_⟩, ⟨trivial, ?_⟩, ⟨trivial, ?_⟩, trivial⟩
  · rintro s ⟨i, hi, -⟩
    exact absurd hi nofun
  · exact (by decide : 0 + 1 < 2 ^ 64)
  · rintro s ⟨i, hi, -⟩
    exact absurd hi nofun
  · rintro s ⟨i, -, -, -, -, hclosed⟩
    exact absurd hclosed (by decide)
  · rintro s ⟨i, hi, -⟩
    exact absurd hi nofun
  · rintro s ⟨i, hi, -⟩
    exact absurd hi nofun
  · rintro s -
    rfl

end Arveil.Progress
