import Mathlib.Order.MinMax
import Mathlib.Data.List.Induction
import Arveil.Spec.History

/-! Read markers. A marker only moves forward and never past what its conversation held when
it moved, so whatever is recorded later is unread until somebody reads it. -/

namespace Arveil.History

open Trace (run run_cons run_append run_nil)

theorem cursor_le {t : Events} {r : PagedEvent} (h : r ∈ t.rows) : 1 ≤ r.cursor ∧ r.cursor ≤ t.rows.length := by
  have hmem : r.cursor ∈ List.range' 1 t.rows.length := t.numbered ▸ List.mem_map_of_mem h
  rw [List.mem_range'_1] at hmem
  omega

theorem newest_mem {t : Events} {g : Bytes} {n : Nat} (h : newest t g = some n) : ∃ r ∈ t.rows, r.groupId = g ∧ r.cursor = n := by
  obtain ⟨r, hr, hn⟩ := List.mem_map.1 (List.max?_eq_some_iff.1 h).1
  obtain ⟨hr, hg⟩ := List.mem_filter.1 hr
  exact ⟨r, hr, of_decide_eq_true hg, hn⟩

theorem newest_lt {t : Events} {g : Bytes} {n : Nat} (h : newest t g = some n) : n < t.nextId := by
  obtain ⟨r, hr, -, rfl⟩ := newest_mem h
  have := (cursor_le hr).2
  rw [t.nextId_eq]
  omega

inductive Op where
  | record (e : NewEvent)
  | markRead (groupId : Bytes) (cursor : Int)

def step (w : Store) : Op → Store
  | .record e => (recordEventBy e w).2
  | .markRead groupId cursor => (markRead groupId cursor w).2

theorem recordEventBy_cases (e : NewEvent) (w : Store) :
    ((recordEventBy e w).1 = .ok () ∧ (recordEventBy e w).2.events.rows = w.events.rows ++ [e.row w.events.nextId] ∧
        (recordEventBy e w).2.readMarkers = w.readMarkers) ∨
      ((recordEventBy e w).1 ≠ .ok () ∧ (recordEventBy e w).2 = w) := by
  unfold recordEventBy
  split_ifs with hid hfull
  · exact Or.inr ⟨nofun, rfl⟩
  · exact Or.inr ⟨nofun, rfl⟩
  · exact Or.inl ⟨rfl, rfl, rfl⟩

theorem setMarker_events (g : Bytes) (c : Int) (w : Store) : (setMarker g c w).events = w.events := by
  unfold setMarker
  split
  · split_ifs <;> rfl
  · rfl

theorem readCursor_setMarker (g g' : Bytes) (c : Int) (w : Store) :
    readCursor g' (setMarker g c w) =
      match newest w.events g with
      | some n => if 0 < c ∧ g = g' then max (readCursor g' w) (min c n) else readCursor g' w
      | none => readCursor g' w := by
  unfold setMarker
  cases newest w.events g with
  | none => rfl
  | some n =>
    by_cases hc : 0 < c
    · simp only [hc, true_and, if_true, readCursor]
      rw [Table.get?_upsert]
      by_cases hg : g = g'
      · subst hg
        simp only [if_true, Option.elim_some]
        cases w.readMarkers.get? g with
        | none =>
          simp only [Option.elim_none]
          omega
        | some r => rfl
      · simp only [if_neg hg]
    · simp only [hc, false_and, if_false]

theorem readCursor_record (g : Bytes) (e : NewEvent) (w : Store) : readCursor g (step w (.record e)) = readCursor g w := by
  rcases recordEventBy_cases e w with ⟨-, -, hm⟩ | ⟨-, hw⟩
  · simp only [step, readCursor, hm]
  · simp only [step, hw]

theorem readCursor_step (g : Bytes) (w : Store) (op : Op) :
    readCursor g (step w op) = readCursor g w ∨
      ∃ c n, op = .markRead g c ∧ newest w.events g = some n ∧ readCursor g w < readCursor g (step w op) ∧
        readCursor g (step w op) = min c n := by
  cases op with
  | record e => exact Or.inl (readCursor_record g e w)
  | markRead g' c =>
    have hset := readCursor_setMarker g' g c w
    cases hn : newest w.events g' with
    | none =>
      rw [hn] at hset
      exact Or.inl hset
    | some n =>
      simp only [hn] at hset
      by_cases hc : 0 < c ∧ g' = g
      · obtain ⟨hc, rfl⟩ := hc
        rw [if_pos ⟨hc, rfl⟩] at hset
        rcases le_or_gt (min c (n : Int)) (readCursor g' w) with hle | hlt
        · exact Or.inl (hset.trans (max_eq_left hle))
        · rw [max_eq_right hlt.le] at hset
          exact Or.inr ⟨c, n, rfl, hn, hset ▸ hlt, hset⟩
      · rw [if_neg hc] at hset
        exact Or.inl hset

theorem rows_step (w : Store) (op : Op) : ∃ new, (step w op).events.rows = w.events.rows ++ new := by
  cases op with
  | record e =>
    rcases recordEventBy_cases e w with ⟨-, hrows, -⟩ | ⟨-, hw⟩
    · exact ⟨[e.row w.events.nextId], hrows⟩
    · exact ⟨[], by rw [step, hw, List.append_nil]⟩
  | markRead g c => exact ⟨[], by rw [step, markRead, setMarker_events, List.append_nil]⟩

theorem rows_run (w : Store) (ops : List Op) : ∃ new, (run step w ops).events.rows = w.events.rows ++ new := by
  induction ops generalizing w with
  | nil => exact ⟨[], (List.append_nil _).symm⟩
  | cons op ops ih =>
    obtain ⟨new, hnew⟩ := rows_step w op
    obtain ⟨rest, hrest⟩ := ih (step w op)
    exact ⟨new ++ rest, by rw [run_cons, hrest, hnew, List.append_assoc]⟩

/-- A call that marks a conversation read reaches its cursor or the newest event there is. -/
theorem readCursor_reached {g : Bytes} {w : Store} {n : Nat} (hn : newest w.events g = some n) (hw : 0 ≤ readCursor g w)
    (c : Int) : min c n ≤ readCursor g (step w (.markRead g c)) := by
  have hset := readCursor_setMarker g g c w
  simp only [hn, and_true] at hset
  change _ ≤ readCursor g (setMarker g c w)
  rw [hset]
  split_ifs with hc
  · exact le_max_right _ _
  · exact (min_le_left _ _).trans ((not_lt.1 hc).trans hw)

theorem readCursor_mono (g : Bytes) (w : Store) (ops : List Op) : readCursor g w ≤ readCursor g (run step w ops) := by
  induction ops generalizing w with
  | nil => exact le_refl _
  | cons op ops ih =>
    refine le_trans ?_ (ih (step w op))
    rcases readCursor_step g w op with heq | ⟨-, -, -, -, hlt, -⟩
    · exact heq.ge
    · exact hlt.le

theorem readCursor_moved (g : Bytes) (w : Store) (ops : List Op) :
    readCursor g (run step w ops) = readCursor g w ∨
      ∃ ops₁ ops₂, ∃ (c : Int) (n : Nat), ops = ops₁ ++ Op.markRead g c :: ops₂ ∧ newest (run step w ops₁).events g = some n ∧
        readCursor g (run step w ops₁) < readCursor g (run step w ops) ∧ readCursor g (run step w ops) = min c n := by
  induction ops using List.reverseRecOn with
  | nil => exact Or.inl rfl
  | append_singleton ops op ih =>
    rw [run_append, run_cons, run_nil]
    rcases readCursor_step g (run step w ops) op with heq | ⟨c, n, rfl, hn, hlt, hmin⟩
    · rw [heq]
      refine ih.imp_right ?_
      rintro ⟨ops₁, ops₂, c, n, hops, hn, hlt, hmin⟩
      exact ⟨ops₁, ops₂ ++ [op], c, n, by rw [hops, List.append_assoc, List.cons_append], hn, hlt, hmin⟩
    · exact Or.inr ⟨ops, [], c, n, rfl, hn, hlt, hmin⟩

/-- No marker is past the events. -/
def Behind (w : Store) : Prop := ∀ g, readCursor g w < w.events.nextId

theorem behind_step {w : Store} (h : Behind w) (op : Op) : Behind (step w op) := by
  intro g
  have hgrown : w.events.nextId ≤ (step w op).events.nextId := by
    obtain ⟨new, hnew⟩ := rows_step w op
    rw [Events.nextId_eq, Events.nextId_eq, hnew, List.length_append]
    omega
  rcases readCursor_step g w op with heq | ⟨c, n, -, hn, -, hmin⟩
  · have := h g
    omega
  · have := newest_lt hn
    omega

theorem mem_migrateReadMarkers {events : Events} {r : ReadMarker} (h : r ∈ (migrateReadMarkers events).readMarkers) :
    ∃ g, r = ⟨g, ((newest events g).getD 0 : Nat)⟩ := by
  have hfold : ∀ (groups : List Bytes) (t : Table ReadMarker.groupId),
      (∀ r ∈ t, ∃ g, r = ⟨g, ((newest events g).getD 0 : Nat)⟩) →
      ∀ r ∈ groups.foldl (fun t g => t.insertOrIgnore ⟨g, ((newest events g).getD 0 : Nat)⟩) t,
        ∃ g, r = ⟨g, ((newest events g).getD 0 : Nat)⟩ := by
    intro groups
    induction groups with
    | nil => exact fun t ht => ht
    | cons g groups ih =>
      refine fun t ht => ih _ fun r hr => ?_
      rcases Table.mem_insertOrIgnore hr with hr | rfl
      · exact ht r hr
      · exact ⟨g, rfl⟩
  exact hfold _ .empty (fun r hr => absurd hr (Table.not_mem_empty r)) r h

theorem readCursor_migrate (g : Bytes) (events : Events) :
    ∃ g', readCursor g (migrateReadMarkers events) = ((newest events g').getD 0 : Nat) ∨
      readCursor g (migrateReadMarkers events) = 0 := by
  unfold readCursor
  cases hr : (migrateReadMarkers events).readMarkers.get? g with
  | none => exact ⟨g, Or.inr rfl⟩
  | some r =>
    obtain ⟨g', rfl⟩ := mem_migrateReadMarkers (Table.get?_eq_some.1 hr).1
    exact ⟨g', Or.inl rfl⟩

theorem behind_migrate (events : Events) : Behind (migrateReadMarkers events) := by
  have hpos : (0 : Int) < events.nextId := by rw [events.nextId_eq]; omega
  intro g
  show readCursor g (migrateReadMarkers events) < (events.nextId : Int)
  obtain ⟨g', h | h⟩ := readCursor_migrate g events
  · rw [h]
    cases hn : newest events g' with
    | none => exact hpos
    | some n => exact Int.ofNat_lt.2 (newest_lt hn)
  · exact h ▸ hpos

theorem readCursor_nonneg (g : Bytes) (events : Events) (ops : List Op) :
    0 ≤ readCursor g (run step (migrateReadMarkers events) ops) := by
  refine le_trans ?_ (readCursor_mono g _ ops)
  obtain ⟨g', h | h⟩ := readCursor_migrate g events <;> rw [h]
  exact Int.natCast_nonneg _

theorem behind_run (events : Events) (ops : List Op) : Behind (run step (migrateReadMarkers events) ops) := by
  induction ops using List.reverseRecOn with
  | nil => exact behind_migrate events
  | append_singleton ops op ih =>
    rw [run_append]
    exact behind_step ih op

theorem readCursor_lt {g : Bytes} {w : Store} {id : Nat} {ops : List Op} (h : readCursor g w < id)
    (hops : ∀ c : Int, .markRead g c ∈ ops → c < id) : readCursor g (run step w ops) < id := by
  rcases readCursor_moved g w ops with heq | ⟨ops₁, ops₂, c, n, rfl, -, -, hmin⟩
  · exact heq ▸ h
  · have := hops c (List.mem_append_right ops₁ List.mem_cons_self)
    omega

/-- An event of somebody else: neither an own kind nor a notice, nor written by the own identity. -/
def Foreign (own : Option Bytes) (e : NewEvent) : Prop :=
  e.kind ∉ ownKinds ∧ e.kind ∉ noticeKinds ∧ (own = none ∨ e.sender.bind (·.identityId) ≠ own)

theorem mem_unread {g : Bytes} {own : Option Bytes} {w : Store} {r : PagedEvent} :
    r ∈ unread g own w ↔ r ∈ w.events.rows ∧ r.groupId = g ∧ readCursor g w < r.cursor ∧
      r.kind ∉ ownKinds ∧ r.kind ∉ noticeKinds ∧ (own = none ∨ r.senderIdentity ≠ own) := by
  have hsender : (own.isNone || r.senderIdentity.isNone || decide (r.senderIdentity ≠ own)) = true ↔
      own = none ∨ r.senderIdentity ≠ own := by
    cases own with
    | none => simp
    | some i => cases r.senderIdentity <;> simp
  rw [unread, List.mem_filter]
  simp only [Bool.and_eq_true, hsender, decide_eq_true_eq, List.mem_append, not_or]
  tauto

theorem recorded_unread {w : Store} {e : NewEvent} {own : Option Bytes} {ops : List Op} (hw : Behind w)
    (hok : (recordEventBy e w).1 = .ok ()) (he : Foreign own e)
    (hops : ∀ c : Int, .markRead e.groupId c ∈ ops → c < w.events.nextId) :
    e.row w.events.nextId ∈ unread e.groupId own (run step w (.record e :: ops)) := by
  rw [run_cons, mem_unread]
  obtain ⟨hkind, hnotice, hsender⟩ := he
  refine ⟨?_, rfl, ?_, hkind, hnotice, hsender⟩
  · obtain ⟨new, hnew⟩ := rows_run (step w (.record e)) ops
    rcases recordEventBy_cases e w with ⟨-, hrows, -⟩ | ⟨hno, -⟩
    · rw [hnew, step, hrows]
      exact List.mem_append_left new (List.mem_append_right _ (List.mem_singleton_self _))
    · exact absurd hok hno
  · exact readCursor_lt (readCursor_record e.groupId e w ▸ hw e.groupId) hops

theorem unread_markRead {g g' : Bytes} (h : g' ≠ g) (c : Int) (w : Store) :
    readCursor g' (step w (.markRead g c)) = readCursor g' w ∧
      ∀ own, unread g' own (step w (.markRead g c)) = unread g' own w := by
  have hcursor : readCursor g' (step w (.markRead g c)) = readCursor g' w := by
    rcases readCursor_step g' w (.markRead g c) with heq | ⟨c', -, hop, -⟩
    · exact heq
    · exact absurd (Op.markRead.inj hop).1.symm h
  refine ⟨hcursor, fun own => ?_⟩
  have hevents : (step w (.markRead g c)).events = w.events := setMarker_events g c w
  unfold unread
  rw [hcursor, hevents]

/-- What holds of the markers from a state of a run on. -/
structure Marked (w : Store) (ops : List Op) : Prop where
  forward : ∀ g, readCursor g w ≤ readCursor g (run step w ops)
  held : ∀ g, readCursor g (run step w ops) = readCursor g w ∨
    ∃ ops₁ ops₂, ∃ (c : Int) (n : Nat), ops = ops₁ ++ Op.markRead g c :: ops₂ ∧ newest (run step w ops₁).events g = some n ∧
      readCursor g (run step w ops₁) < readCursor g (run step w ops) ∧ readCursor g (run step w ops) = min c n
  reached : ∀ ops₁ g (c : Int) ops₂ (n : Nat), ops = ops₁ ++ Op.markRead g c :: ops₂ →
    newest (run step w ops₁).events g = some n → min c n ≤ readCursor g (step (run step w ops₁) (.markRead g c))
  counted : ∀ ops₁ e ops₂ own, ops = ops₁ ++ Op.record e :: ops₂ →
    (recordEventBy e (run step w ops₁)).1 = .ok () → Foreign own e →
      (∀ c : Int, .markRead e.groupId c ∈ ops₂ → c < (run step w ops₁).events.nextId) →
        e.row (run step w ops₁).events.nextId ∈ unread e.groupId own (run step w ops)
  foreign : ∀ g own r, r ∈ unread g own (run step w ops) →
    r ∈ (run step w ops).events.rows ∧ r.groupId = g ∧ r.kind ∉ ownKinds ∧ r.kind ∉ noticeKinds ∧
      (own = none ∨ r.senderIdentity ≠ own)
  number : ∀ g own n, unreadCount g own (run step w ops) = some n ↔
    n = (unread g own (run step w ops)).length ∧ n < 2 ^ 32
  apart : ∀ g c g', g' ≠ g → readCursor g' (step w (.markRead g c)) = readCursor g' w ∧
    ∀ own, unread g' own (step w (.markRead g c)) = unread g' own w

theorem unreadCount_eq_some {g : Bytes} {own : Option Bytes} {w : Store} {n : Nat} :
    unreadCount g own w = some n ↔ n = (unread g own w).length ∧ n < 2 ^ 32 := by
  simp only [unreadCount]
  split_ifs with hn
  · constructor
    · intro h
      exact ⟨(Option.some.inj h).symm, Option.some.inj h ▸ hn⟩
    · intro h
      rw [h.1]
  · refine ⟨nofun, fun h => absurd (h.1 ▸ h.2) hn⟩

end Arveil.History
