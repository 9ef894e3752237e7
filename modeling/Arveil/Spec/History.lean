import Arveil.Spec.Base
import Mathlib.Data.List.Infix

/-! What a conversation holds and how far it has been read: the events with their row ids, the
read markers (`delivery.rs` in `arveil-core`), and the pages a screen reads of them
(`history_page` and `search_history` in `arveil-app/src/lib.rs`). -/

namespace Arveil.History

/-- A row of `events`. Its id is the cursor of the pages. -/
structure PagedEvent where
  cursor : Nat
  groupId : Bytes
  eventId : Bytes
  kind : String
  body : Bytes
  createdAt : Int
  senderDevice : Option Bytes
  senderIdentity : Option Bytes
deriving DecidableEq, Repr

/-- The table. Nothing deletes an event, so the ids count up from one. -/
structure Events where
  rows : List PagedEvent
  numbered : rows.map (·.cursor) = List.range' 1 rows.length
  unique : (rows.map (·.eventId)).Nodup

/-- The id SQLite gives the next row: one more than the largest. -/
def Events.nextId (t : Events) : Nat := t.rows.getLast?.elim 1 (·.cursor + 1)

theorem Events.nextId_eq (t : Events) : t.nextId = t.rows.length + 1 := by
  have hlast : (t.rows.map (·.cursor)).getLast? = (List.range' 1 t.rows.length).getLast? := congrArg _ t.numbered
  rw [List.getLast?_map, List.getLast?_range'] at hlast
  unfold Events.nextId
  cases hrows : t.rows.getLast? with
  | none => simp [List.getLast?_eq_none_iff.1 hrows]
  | some r =>
    have hpos : t.rows.length ≠ 0 := fun h => by simp [List.length_eq_zero_iff.1 h] at hrows
    rw [hrows, if_neg hpos] at hlast
    have hr : r.cursor = 1 + t.rows.length - 1 := by simpa using hlast
    rw [Option.elim_some]
    omega

structure EventSender where
  deviceId : Option Bytes
  identityId : Option Bytes
deriving DecidableEq, Repr

structure NewEvent where
  groupId : Bytes
  eventId : Bytes
  kind : String
  body : Bytes
  createdAt : Int
  sender : Option EventSender
deriving DecidableEq, Repr

def NewEvent.row (e : NewEvent) (id : Nat) : PagedEvent :=
  ⟨id, e.groupId, e.eventId, e.kind, e.body, e.createdAt, e.sender.bind (·.deviceId), e.sender.bind (·.identityId)⟩

inductive SqliteError where
  | constraint
  /-- no id is left -/
  | full
deriving DecidableEq, Repr

structure ReadMarker where
  groupId : Bytes
  cursor : Int
deriving DecidableEq, Repr

structure Store where
  events : Events
  readMarkers : Table ReadMarker.groupId

def Events.insert (t : Events) (e : NewEvent) (h : e.eventId ∉ t.rows.map (·.eventId)) : Events where
  rows := t.rows ++ [e.row t.nextId]
  numbered := by
    rw [List.map_append, t.numbered, t.nextId_eq, List.length_append, List.length_singleton, List.range'_concat,
      Nat.one_mul, Nat.add_comm 1]
    rfl
  unique := by
    rw [List.map_append, List.nodup_append]
    exact ⟨t.unique, List.nodup_singleton _, by
      simpa [NewEvent.row] using fun r hr he => h (List.mem_map.2 ⟨r, hr, he⟩)⟩

/-- Record a local event together with who wrote it. -/
def recordEventBy (e : NewEvent) : Prog Store SqliteError Unit := fun w =>
  if h : e.eventId ∈ w.events.rows.map (·.eventId) then (.error .constraint, w)
  else if 2 ^ 63 ≤ w.events.nextId then (.error .full, w)
  else (.ok (), { w with events := w.events.insert e h })

def ownKinds : List String := ["sent", "sent-file", "file-outgoing"]

def noticeKinds : List String := ["devices-changed"]

/-- `SELECT MAX(id) FROM events WHERE group_id = ?1` -/
def newest (events : Events) (groupId : Bytes) : Option Nat :=
  ((events.rows.filter fun r => r.groupId = groupId).map (·.cursor)).max?

/-- How far a conversation has been read; 0 while nothing has. -/
def readCursor (groupId : Bytes) (w : Store) : Int := (w.readMarkers.get? groupId).elim 0 (·.cursor)

/-- `ON CONFLICT(group_id) DO UPDATE SET cursor = MAX(cursor, excluded.cursor)` -/
def ReadMarker.raise (old new : ReadMarker) : ReadMarker := { old with cursor := max old.cursor new.cursor }

theorem ReadMarker.raise_groupId (old new : ReadMarker) : (old.raise new).groupId = old.groupId := rfl

def setMarker (groupId : Bytes) (cursor : Int) (w : Store) : Store :=
  match newest w.events groupId with
  | some n =>
    if 0 < cursor then
      { w with readMarkers := w.readMarkers.upsert ReadMarker.raise ReadMarker.raise_groupId ⟨groupId, min cursor n⟩ }
    else w
  | none => w

/-- Mark a conversation read up to `cursor`; returns the marker in effect. -/
def markRead (groupId : Bytes) (cursor : Int) : Prog Store SqliteError Int := fun w =>
  let w := setMarker groupId cursor w
  (.ok (readCursor groupId w), w)

/-- The events after the read marker that another identity wrote. -/
def unread (groupId : Bytes) (ownIdentity : Option Bytes) (w : Store) : List PagedEvent :=
  w.events.rows.filter fun r =>
    r.groupId = groupId && decide (readCursor groupId w < r.cursor) && decide (r.kind ∉ ownKinds ++ noticeKinds) &&
      (ownIdentity.isNone || r.senderIdentity.isNone || decide (r.senderIdentity ≠ ownIdentity))

/-- Their number, which the caller reads as 32 bits. -/
def unreadCount (groupId : Bytes) (ownIdentity : Option Bytes) (w : Store) : Option Nat :=
  let n := (unread groupId ownIdentity w).length
  if n < 2 ^ 32 then some n else none

/-- Version 3 of the schema: what an existing conversation already holds counts as read. -/
def migrateReadMarkers (events : Events) : Store where
  events := events
  readMarkers := (events.rows.map (·.groupId)).foldl
    (fun t g => t.insertOrIgnore ⟨g, ((newest events g).getD 0 : Nat)⟩) .empty

def maxHistoryPage : Nat := 200

def maxSearchScan : Nat := 5000

/-- One page of a conversation's events, newest first, below `before`. -/
def eventsPage (events : Events) (groupId : Bytes) (before : Option Int) (limit : Nat) : List PagedEvent :=
  ((events.rows.filter fun r => r.groupId = groupId && before.all fun b => decide ((r.cursor : Int) < b)).reverse).take limit

/-- A page of `α`, what a screen shows of an event. -/
structure HistoryPage (α : Type) where
  groupId : Bytes
  events : List (PagedEvent × α)
  next : Option Int

section Pages

variable {α : Type} (historyEvent : PagedEvent → Except CliError α)

/-- `history_event` keeps the row's own columns. -/
def shown (row : PagedEvent) : Except CliError (PagedEvent × α) := (historyEvent row).map fun a => (row, a)

def clamp (limit : Nat) : Nat := min (max limit 1) maxHistoryPage

/-- One page, oldest event first. One row beyond it tells whether an older one exists. -/
def historyPage (events : Events) (groupId : Bytes) (before : Option Int) (limit : Nat) : Except CliError (HistoryPage α) := do
  let limit := clamp limit
  let rows := eventsPage events groupId before (limit + 1)
  let (rows, next) :=
    if limit < rows.length then (rows.take limit, (rows.take limit).getLast?.map fun r => (r.cursor : Int))
    else (rows, none)
  let events ← rows.reverse.mapM (shown historyEvent)
  return ⟨groupId, events, next⟩

/-- Unicode's tables and the decoding of a body. -/
structure Unicode where
  toLowercase : Char → List Char
  fromUtf8Lossy : Bytes → List Char

variable (u : Unicode)

def foldAccent (c : Char) : Char :=
  if c ∈ ['á', 'à', 'ä', 'â', 'ã', 'å'] then 'a'
  else if c ∈ ['é', 'è', 'ë', 'ê'] then 'e'
  else if c ∈ ['í', 'ì', 'ï', 'î'] then 'i'
  else if c ∈ ['ó', 'ò', 'ö', 'ô', 'õ'] then 'o'
  else if c ∈ ['ú', 'ù', 'ü', 'û'] then 'u'
  else if c = 'ñ' then 'n'
  else if c = 'ç' then 'c'
  else c

/-- Lower case without accents. -/
def foldForSearch (text : List Char) : List Char :=
  ((text.flatMap u.toLowercase).filter fun c => !(0x300 ≤ c.toNat && c.toNat ≤ 0x36f)).map foldAccent

def contains (text needle : List Char) : Bool := decide (needle <:+: text)

def hit (needle : List Char) (row : PagedEvent) : Bool :=
  (row.kind = "sent" || row.kind = "received") && contains (foldForSearch u (u.fromUtf8Lossy row.body)) needle

structure Scan (α : Type) where
  events : List (PagedEvent × α)
  next : Option Int
  cursor : Option Int
  scanned : Nat

def scanRows (needle : List Char) (limit : Nat) : List PagedEvent → Scan α → Except CliError (Scan α × Bool)
  | [], s => .ok (s, false)
  | row :: rows, s => do
    let s := { s with scanned := s.scanned + 1, cursor := some (row.cursor : Int) }
    if hit u needle row then
      let e ← shown historyEvent row
      let s := { s with events := s.events ++ [e] }
      if s.events.length = limit then return ({ s with next := s.cursor }, true)
      scanRows needle limit rows s
    else scanRows needle limit rows s

/-- The batches, at most `fuel` of them; `true` where one was short. -/
def scanBatches (events : Events) (groupId : Bytes) (needle : List Char) (limit : Nat) :
    Nat → Scan α → Except CliError (Scan α × Bool)
  | 0, s => .ok (s, false)
  | fuel + 1, s =>
    if s.scanned < maxSearchScan then do
      let batch := min (maxSearchScan - s.scanned) maxHistoryPage
      let rows := eventsPage events groupId s.cursor batch
      let (s, full) ← scanRows historyEvent u needle limit rows s
      if full then return (s, false)
      if rows.length < batch then return (s, true)
      scanBatches events groupId needle limit fuel s
    else .ok (s, false)

/-- Matching text messages, newest first. -/
def searchHistory (events : Events) (groupId : Bytes) (text : String) (before : Option Int) (limit : Nat) :
    Except CliError (HistoryPage α) := do
  let needle := foldForSearch u (trim text).toList
  if needle.isEmpty then return ⟨groupId, [], none⟩
  let (s, short) ← scanBatches historyEvent u events groupId needle (clamp limit) maxSearchScan ⟨[], none, before, 0⟩
  if short then return ⟨groupId, s.events, s.next⟩
  return ⟨groupId, s.events, s.next.orElse fun _ => s.cursor⟩

end Pages

end Arveil.History
