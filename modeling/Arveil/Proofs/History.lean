import Arveil.Lib.Paging
import Arveil.Proofs.ReadMarkers

/-! The pages of a conversation. `history_page` and `search_history` each read a stretch of the
rows below their cursor and stop where the next page goes on, so that following them shows the
whole history, or every match in it, whatever is recorded meanwhile. -/

namespace Arveil.History

open Trace (run)
open Paging (below stop Covers Descending Whole follow Page)

def conversation (g : Bytes) (events : Events) : List PagedEvent := (events.rows.filter fun r => r.groupId = g).reverse

def key (r : PagedEvent) : Int := r.cursor

theorem conversation_descending (g : Bytes) (events : Events) : Descending key (conversation g events) := by
  have hpair : events.rows.Pairwise fun a b => a.cursor < b.cursor := by
    have h : (List.range' 1 events.rows.length 1).Pairwise (· < ·) := List.pairwise_lt_range' 1 (by decide)
    rw [← events.numbered, List.pairwise_map] at h
    exact h
  refine List.pairwise_reverse.2 ((hpair.filter _).imp fun h => ?_)
  exact Int.ofNat_lt.2 h

theorem eventsPage_eq (events : Events) (g : Bytes) (before : Option Int) (limit : Nat) :
    eventsPage events g before limit = (below key before (conversation g events)).take limit := by
  unfold eventsPage below conversation
  rw [List.filter_reverse, List.filter_filter]
  refine congrArg (fun rows => (List.reverse rows).take limit) (List.filter_congr fun r _ => ?_)
  exact Bool.and_comm _ _

section Pages

variable {α : Type} {historyEvent : PagedEvent → Except CliError α}

theorem shown_fst {row : PagedEvent} {e : PagedEvent × α} (h : shown historyEvent row = .ok e) : e.1 = row := by
  unfold shown at h
  cases ha : historyEvent row with
  | error _ =>
    rw [ha] at h
    cases h
  | ok a =>
    rw [ha] at h
    exact (Except.ok.inj h) ▸ rfl

theorem shown_all {rows : List PagedEvent} {es : List (PagedEvent × α)} (h : rows.mapM (shown historyEvent) = .ok es) :
    es.map (·.1) = rows := by
  induction rows generalizing es with
  | nil =>
    obtain rfl := Except.ok.inj h
    rfl
  | cons row rows ih =>
    rw [List.mapM_cons] at h
    cases he : shown historyEvent row with
    | error _ =>
      rw [he] at h
      cases h
    | ok e =>
      cases hes : rows.mapM (shown historyEvent) with
      | error _ =>
        rw [he, hes] at h
        cases h
      | ok es' =>
        rw [he, hes] at h
        obtain rfl := Except.ok.inj h
        rw [List.map_cons, shown_fst he, ih hes]

/-- `history_event` shows a row. -/
def Shows (historyEvent : PagedEvent → Except CliError α) (row : PagedEvent) : Prop := ∃ a, historyEvent row = .ok a

theorem shown_ok {row : PagedEvent} (h : Shows historyEvent row) : ∃ e, shown historyEvent row = .ok e := by
  obtain ⟨a, ha⟩ := h
  exact ⟨(row, a), by rw [shown, ha]; rfl⟩

theorem mapM_shown_ok (rows : List PagedEvent) (h : ∀ row ∈ rows, Shows historyEvent row) :
    ∃ es, rows.mapM (shown historyEvent) = .ok es := by
  induction rows with
  | nil => exact ⟨[], rfl⟩
  | cons row rows ih =>
    obtain ⟨e, he⟩ := shown_ok (h row List.mem_cons_self)
    obtain ⟨es, hes⟩ := ih fun r hr => h r (List.mem_cons_of_mem row hr)
    refine ⟨e :: es, ?_⟩
    rw [List.mapM_cons, he, hes]
    rfl

/-- The rows of a history page, newest first. -/
def newestFirst (page : HistoryPage α) : Page PagedEvent := ⟨(page.events.map (·.1)).reverse, page.next⟩

def matching (page : HistoryPage α) : Page PagedEvent := ⟨page.events.map (·.1), page.next⟩

theorem clamp_pos (limit : Nat) : 0 < clamp limit := by
  unfold clamp maxHistoryPage
  omega

theorem historyPage_covers {events : Events} {g : Bytes} {before : Option Int} {limit : Nat} {page : HistoryPage α}
    (h : historyPage historyEvent events g before limit = .ok page) :
    Covers key (fun _ => true) (below key before (conversation g events)) (newestFirst page) := by
  have hpos := clamp_pos limit
  unfold historyPage at h
  simp only [eventsPage_eq] at h
  generalize below key before (conversation g events) = rows at h ⊢
  split_ifs at h with hmore
  · rw [List.take_take, min_eq_left (Nat.le_succ _)] at h
    cases hes : (rows.take (clamp limit)).reverse.mapM (shown historyEvent) with
    | error _ =>
      rw [hes] at h
      cases h
    | ok es =>
      rw [hes] at h
      obtain rfl := Except.ok.inj h
      refine ⟨rows.take (clamp limit), rows.drop (clamp limit), (List.take_append_drop ..).symm, ?_, Or.inr ?_⟩
      · rw [newestFirst, shown_all hes, List.reverse_reverse, List.filter_true]
      · have hne : rows.take (clamp limit) ≠ [] := by
          rw [List.length_take] at hmore
          refine List.ne_nil_of_length_pos ?_
          rw [List.length_take]
          omega
        exact ⟨_, List.getLast?_eq_some_getLast hne, by rw [newestFirst, List.getLast?_eq_some_getLast hne]; rfl⟩
  · have hall : rows.take (clamp limit + 1) = rows := by
      rw [List.length_take] at hmore
      exact List.take_of_length_le (by omega)
    rw [hall] at h
    cases hes : rows.reverse.mapM (shown historyEvent) with
    | error _ =>
      rw [hes] at h
      cases h
    | ok es =>
      rw [hes] at h
      obtain rfl := Except.ok.inj h
      refine ⟨rows, [], (List.append_nil _).symm, ?_, Or.inl ⟨rfl, rfl⟩⟩
      rw [newestFirst, shown_all hes, List.reverse_reverse, List.filter_true]

theorem historyPage_ok {events : Events} {g : Bytes} {before : Option Int} {limit : Nat}
    (h : ∀ row ∈ (below key before (conversation g events)).take (clamp limit), Shows historyEvent row) :
    ∃ page, historyPage historyEvent events g before limit = .ok page := by
  unfold historyPage
  simp only [eventsPage_eq]
  generalize below key before (conversation g events) = rows at h ⊢
  split_ifs with hmore
  · rw [List.take_take, min_eq_left (Nat.le_succ _)]
    obtain ⟨es, hes⟩ := mapM_shown_ok (rows.take (clamp limit)).reverse fun row hr => h row (List.mem_reverse.1 hr)
    rw [hes]
    exact ⟨_, rfl⟩
  · have hall : rows.take (clamp limit + 1) = rows.take (clamp limit) := by
      rw [List.length_take] at hmore
      rw [List.take_of_length_le (by omega), List.take_of_length_le (by omega)]
    rw [hall]
    obtain ⟨es, hes⟩ := mapM_shown_ok (rows.take (clamp limit)).reverse fun row hr => h row (List.mem_reverse.1 hr)
    rw [hes]
    exact ⟨_, rfl⟩

variable {u : Unicode} {needle : List Char}

/-- Where a scan stands after reading some rows from `before` on. -/
structure Upto (u : Unicode) (needle : List Char) (before : Option Int) (read : List PagedEvent) (s : Scan α) : Prop where
  events : s.events.map (·.1) = read.filter (hit u needle)
  cursor : s.cursor = stop key before read
  scanned : s.scanned = read.length

theorem stop_append_singleton (before : Option Int) (read : List PagedEvent) (row : PagedEvent) :
    stop key before (read ++ [row]) = some (row.cursor : Int) := by
  rw [stop, List.getLast?_concat]
  rfl

theorem scanRows_upto {before : Option Int} {limit : Nat} {rows read : List PagedEvent} {s s' : Scan α} {full : Bool}
    (hs : Upto u needle before read s) (hnext : s.next = none)
    (h : scanRows historyEvent u needle limit rows s = .ok (s', full)) :
    ∃ a b, rows = a ++ b ∧ Upto u needle before (read ++ a) s' ∧
      (full = false → b = [] ∧ s'.next = none) ∧ (full = true → a ≠ [] ∧ s'.next = s'.cursor) := by
  induction rows generalizing s read with
  | nil =>
    obtain ⟨rfl, rfl⟩ := Prod.mk.inj (Except.ok.inj h)
    exact ⟨[], [], rfl, by rwa [List.append_nil], fun _ => ⟨rfl, hnext⟩, nofun⟩
  | cons row rows ih =>
    have hsplit : read ++ row :: rows = (read ++ [row]) ++ rows := by simp
    unfold scanRows at h
    by_cases hhit : hit u needle row = true
    · rw [if_pos hhit] at h
      cases he : shown historyEvent row with
      | error _ =>
        rw [he] at h
        cases h
      | ok e =>
        rw [he] at h
        have hread : Upto u needle before (read ++ [row])
            { s with scanned := s.scanned + 1, cursor := some (row.cursor : Int), events := s.events ++ [e] } := by
          refine ⟨?_, (stop_append_singleton before read row).symm, ?_⟩
          · rw [List.map_append, hs.events, List.filter_append, List.filter_singleton, hhit, List.map_singleton, shown_fst he]
            rfl
          · rw [List.length_append, hs.scanned]
            rfl
        change (if (s.events ++ [e]).length = limit then _ else _) = _ at h
        split_ifs at h with hlimit
        · obtain ⟨rfl, rfl⟩ := Prod.mk.inj (Except.ok.inj h)
          exact ⟨[row], rows, rfl, ⟨hread.events, hread.cursor, hread.scanned⟩, nofun, fun _ => ⟨by simp, rfl⟩⟩
        · obtain ⟨a, b, rfl, hupto, hfalse, htrue⟩ := ih hread hnext h
          refine ⟨row :: a, b, rfl, ?_, hfalse, fun hf => ⟨by simp, (htrue hf).2⟩⟩
          rwa [List.append_assoc] at hupto
    · rw [if_neg hhit] at h
      have hread : Upto u needle before (read ++ [row])
          { s with scanned := s.scanned + 1, cursor := some (row.cursor : Int) } := by
        refine ⟨?_, (stop_append_singleton before read row).symm, ?_⟩
        · rw [hs.events, List.filter_append, List.filter_singleton, Bool.eq_false_iff.2 hhit]
          exact (List.append_nil _).symm
        · rw [List.length_append, hs.scanned]
          rfl
      obtain ⟨a, b, rfl, hupto, hfalse, htrue⟩ := ih hread hnext h
      refine ⟨row :: a, b, rfl, ?_, hfalse, fun hf => ⟨by simp, (htrue hf).2⟩⟩
      rwa [List.append_assoc] at hupto

theorem scanRows_ok (limit : Nat) {rows : List PagedEvent} (h : ∀ row ∈ rows, hit u needle row → Shows historyEvent row)
    (s : Scan α) : ∃ r, scanRows historyEvent u needle limit rows s = .ok r := by
  induction rows generalizing s with
  | nil => exact ⟨(s, false), rfl⟩
  | cons row rows ih =>
    have hrest := ih fun r hr => h r (List.mem_cons_of_mem row hr)
    unfold scanRows
    by_cases hhit : hit u needle row = true
    · rw [if_pos hhit]
      obtain ⟨e, he⟩ := shown_ok (h row List.mem_cons_self hhit)
      rw [he]
      change ∃ r, (if (s.events ++ [e]).length = limit then _ else _) = Except.ok r
      split_ifs
      · exact ⟨_, rfl⟩
      · exact hrest _
    · rw [if_neg hhit]
      exact hrest _

theorem scanBatches_upto {events : Events} {g : Bytes} {before : Option Int} {limit fuel : Nat} {read rest : List PagedEvent}
    {s s' : Scan α} {short : Bool} (hfuel : maxSearchScan ≤ s.scanned + fuel)
    (hrows : below key before (conversation g events) = read ++ rest) (hs : Upto u needle before read s) (hnext : s.next = none)
    (h : scanBatches historyEvent u events g needle limit fuel s = .ok (s', short)) :
    ∃ read' rest', below key before (conversation g events) = read' ++ rest' ∧ Upto u needle before read' s' ∧
      (short = true → rest' = [] ∧ s'.next = none) ∧
      (short = false → read' ≠ [] ∧ (s'.next = none ∨ s'.next = s'.cursor)) := by
  have hdone : maxSearchScan ≤ s.scanned → read ≠ [] := by
    intro hle hnil
    have hzero := hs.scanned
    rw [hnil, List.length_nil] at hzero
    rw [hzero] at hle
    exact absurd hle (by decide)
  induction fuel generalizing s read rest with
  | zero =>
    obtain ⟨rfl, rfl⟩ := Prod.mk.inj (Except.ok.inj h)
    exact ⟨read, rest, hrows, hs, nofun, fun _ => ⟨hdone hfuel, Or.inl hnext⟩⟩
  | succ fuel ih =>
    unfold scanBatches at h
    split_ifs at h with hlt
    · have hrest : below key s.cursor (conversation g events) = rest := by
        rw [hs.cursor]
        exact Paging.below_stop (conversation_descending g events) hrows
      simp only [eventsPage_eq, hrest] at h
      set batch := min (maxSearchScan - s.scanned) maxHistoryPage with hbatch
      have hpos : 0 < batch := lt_min (by omega) (by decide)
      cases hscan : scanRows historyEvent u needle limit (rest.take batch) s with
      | error _ =>
        rw [hscan] at h
        cases h
      | ok r =>
        obtain ⟨s₁, full⟩ := r
        rw [hscan] at h
        obtain ⟨a, b, hab, hupto, hfalse, htrue⟩ := scanRows_upto hs hnext hscan
        have hsplit : read ++ rest = (read ++ a) ++ (b ++ rest.drop batch) := by
          rw [List.append_assoc, ← List.append_assoc a, ← hab, List.take_append_drop]
        cases full with
        | true =>
          obtain ⟨rfl, rfl⟩ := Prod.mk.inj (Except.ok.inj h)
          refine ⟨read ++ a, b ++ rest.drop batch, hrows.trans hsplit, hupto, nofun, fun _ => ?_⟩
          exact ⟨by simp [(htrue rfl).1], Or.inr (htrue rfl).2⟩
        | false =>
          obtain ⟨rfl, hnone⟩ := hfalse rfl
          rw [List.nil_append] at hsplit
          rw [List.append_nil] at hab
          change (if (rest.take batch).length < batch then _ else _) = _ at h
          split_ifs at h with hshort
          · obtain ⟨rfl, rfl⟩ := Prod.mk.inj (Except.ok.inj h)
            refine ⟨read ++ a, rest.drop batch, hrows.trans hsplit, hupto, fun _ => ⟨?_, hnone⟩, nofun⟩
            rw [List.length_take] at hshort
            exact List.drop_eq_nil_of_le (by omega)
          · have hmore : s₁.scanned = s.scanned + batch := by
              rw [hupto.scanned, hs.scanned, List.length_append, ← hab]
              rw [List.length_take] at hshort ⊢
              omega
            refine ih (by omega) (hrows.trans hsplit) hupto hnone h fun _ => ?_
            intro hnil
            have hzero := hupto.scanned
            rw [hnil, List.length_nil] at hzero
            omega
    · obtain ⟨rfl, rfl⟩ := Prod.mk.inj (Except.ok.inj h)
      exact ⟨read, rest, hrows, hs, nofun, fun _ => ⟨hdone (by omega), Or.inl hnext⟩⟩

theorem scanBatches_ok (limit : Nat) {events : Events} {g : Bytes} {before : Option Int}
    (h : ∀ row ∈ (below key before (conversation g events)).take maxSearchScan, hit u needle row → Shows historyEvent row)
    (fuel : Nat) {read rest : List PagedEvent} {s : Scan α}
    (hrows : below key before (conversation g events) = read ++ rest) (hs : Upto u needle before read s) (hnext : s.next = none) :
    ∃ r, scanBatches historyEvent u events g needle limit fuel s = .ok r := by
  induction fuel generalizing s read rest with
  | zero => exact ⟨(s, false), rfl⟩
  | succ fuel ih =>
    unfold scanBatches
    split_ifs with hlt
    · have hrest : below key s.cursor (conversation g events) = rest := by
        rw [hs.cursor]
        exact Paging.below_stop (conversation_descending g events) hrows
      simp only [eventsPage_eq, hrest]
      set batch := min (maxSearchScan - s.scanned) maxHistoryPage with hbatch
      have hwithin : ∀ row ∈ rest.take batch, row ∈ (below key before (conversation g events)).take maxSearchScan := by
        intro row hr
        have hle : batch ≤ maxSearchScan - read.length := by
          rw [← hs.scanned]
          exact min_le_left _ _
        rw [hrows, List.take_append]
        exact List.mem_append_right _ ((List.take_subset_take_left rest hle) hr)
      obtain ⟨⟨s₁, full⟩, hscan⟩ := scanRows_ok limit (fun row hr => h row (hwithin row hr)) s
      obtain ⟨a, b, hab, hupto, hfalse, -⟩ := scanRows_upto hs hnext hscan
      rw [hscan]
      cases full with
      | true => exact ⟨_, rfl⟩
      | false =>
        obtain ⟨rfl, hnone⟩ := hfalse rfl
        change ∃ r, (if (rest.take batch).length < batch then _ else _) = Except.ok r
        split_ifs
        · exact ⟨_, rfl⟩
        · have hsplit : below key before (conversation g events) = (read ++ a) ++ rest.drop batch := by
            rw [List.append_nil] at hab
            rw [hrows, List.append_assoc, ← hab, List.take_append_drop]
          exact ih hsplit hupto hnone
    · exact ⟨(s, false), rfl⟩

def needleOf (u : Unicode) (text : String) : List Char := foldForSearch u (trim text).toList

theorem searchHistory_covers {events : Events} {g : Bytes} {text : String} {before : Option Int} {limit : Nat} {page : HistoryPage α}
    (htext : needleOf u text ≠ []) (h : searchHistory historyEvent u events g text before limit = .ok page) :
    Covers key (hit u (needleOf u text)) (below key before (conversation g events)) (matching page) := by
  unfold searchHistory at h
  change (if (needleOf u text).isEmpty = true then _ else _) = _ at h
  rw [if_neg (by simpa using htext)] at h
  cases hscan : scanBatches historyEvent u events g (needleOf u text) (clamp limit) maxSearchScan ⟨[], none, before, 0⟩ with
  | error _ =>
    rw [needleOf] at hscan
    rw [hscan] at h
    cases h
  | ok r =>
    obtain ⟨s, short⟩ := r
    have hstart : Upto u (needleOf u text) before [] (⟨[], none, before, 0⟩ : Scan α) := ⟨rfl, rfl, rfl⟩
    obtain ⟨read, rest, hrows, hupto, htrue, hfalse⟩ :=
      scanBatches_upto (by simp) (List.nil_append _).symm hstart rfl hscan
    rw [needleOf] at hscan
    rw [hscan] at h
    refine ⟨read, rest, hrows, ?_⟩
    cases short with
    | true =>
      obtain rfl := Except.ok.inj h
      exact ⟨hupto.events, Or.inl ⟨(htrue rfl).2, (htrue rfl).1⟩⟩
    | false =>
      obtain rfl := Except.ok.inj h
      obtain ⟨hne, hnext⟩ := hfalse rfl
      have hlast := List.getLast?_eq_some_getLast hne
      have hcursor : s.cursor = some (key (read.getLast hne)) := by
        rw [hupto.cursor, stop, hlast]
        rfl
      refine ⟨hupto.events, Or.inr ⟨_, hlast, ?_⟩⟩
      show (s.next.orElse fun _ => s.cursor) = _
      rcases hnext with hnext | hnext
      · rw [hnext, hcursor]
        rfl
      · rw [hnext, hcursor]
        rfl

theorem searchHistory_ok {events : Events} {g : Bytes} {text : String} {before : Option Int} {limit : Nat}
    (h : ∀ row ∈ (below key before (conversation g events)).take maxSearchScan,
      hit u (needleOf u text) row → Shows historyEvent row) :
    ∃ page, searchHistory historyEvent u events g text before limit = .ok page := by
  unfold searchHistory
  change ∃ page, (if (needleOf u text).isEmpty = true then _ else _) = Except.ok page
  split_ifs
  · exact ⟨_, rfl⟩
  · have hstart : Upto u (needleOf u text) before [] (⟨[], none, before, 0⟩ : Scan α) := ⟨rfl, rfl, rfl⟩
    obtain ⟨⟨s, short⟩, hscan⟩ := scanBatches_ok (clamp limit) h maxSearchScan (List.nil_append _).symm hstart rfl
    rw [needleOf] at hscan
    rw [hscan]
    cases short <;> exact ⟨_, rfl⟩

end Pages

/-- The profile at each page: whatever is recorded or read between two pages. -/
def during (w : Store) (between : Nat → List Op) : Nat → Store
  | 0 => w
  | k + 1 => run step (during w between k) (between k)

theorem conversation_grows (g : Bytes) (w : Store) (between : Nat → List Op) (k : Nat) :
    ∃ new, conversation g (during w between (k + 1)).events = new ++ conversation g (during w between k).events := by
  obtain ⟨new, hnew⟩ := rows_run (during w between k) (between k)
  refine ⟨(new.filter fun r => r.groupId = g).reverse, ?_⟩
  rw [conversation, during, hnew, List.filter_append, List.reverse_append]
  rfl

/-- Following the pages shows the whole history, following those of a search every match. -/
theorem paging_is_exact {α : Type} (historyEvent : Nat → PagedEvent → Except CliError α) (u : Unicode) (w : Store)
    (between : Nat → List Op) (limits : Nat → Nat) (g : Bytes) (text : String) :
    Whole key (fun _ => true) (fun k => Shows (historyEvent k)) (fun k => clamp (limits k))
        (fun k => conversation g (during w between k).events)
        (fun k before => (historyPage (historyEvent k) (during w between k).events g before (limits k)).map newestFirst) ∧
      (foldForSearch u (trim text).toList ≠ [] →
        Whole key (hit u (foldForSearch u (trim text).toList)) (fun k => Shows (historyEvent k)) (fun _ => maxSearchScan)
          (fun k => conversation g (during w between k).events)
          (fun k before =>
            (searchHistory (historyEvent k) u (during w between k).events g text before (limits k)).map matching)) := by
  refine ⟨?_, fun htext => ?_⟩
  · refine Paging.whole_of_covers (conversation_grows g w between) (fun k => conversation_descending g _) ?_ ?_
    on_goal 2 =>
      intro k before hgood
      obtain ⟨page, hpage⟩ := historyPage_ok fun row hr => hgood row hr rfl
      exact ⟨newestFirst page, congrArg (Except.map newestFirst) hpage⟩
    intro k before q hq
    cases hpage : historyPage (historyEvent k) (during w between k).events g before (limits k) with
    | error _ =>
      rw [hpage] at hq
      cases hq
    | ok page =>
      rw [hpage] at hq
      obtain rfl := Except.ok.inj hq
      exact historyPage_covers hpage
  · refine Paging.whole_of_covers (conversation_grows g w between) (fun k => conversation_descending g _) ?_ ?_
    on_goal 2 =>
      intro k before hgood
      obtain ⟨page, hpage⟩ := searchHistory_ok hgood
      exact ⟨matching page, congrArg (Except.map matching) hpage⟩
    intro k before q hq
    cases hpage : searchHistory (historyEvent k) u (during w between k).events g text before (limits k) with
    | error _ =>
      rw [hpage] at hq
      cases hq
    | ok page =>
      rw [hpage] at hq
      obtain rfl := Except.ok.inj hq
      exact searchHistory_covers htext hpage

end Arveil.History
